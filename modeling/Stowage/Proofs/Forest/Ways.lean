import Stowage.Proofs.Forest.Instances
import Mathlib.Data.List.Forall2

/-!
# Ways down an inventory

A way names a child by its seat, then a child of that child, and so on. In a sound forest no two
ways down from a node lead to the same place. Two inventories that realise one archetype, in
whatever forests, have at the end of each way the same part of it, and their slots come in the same
orders.
-/

namespace Stowage

set_option autoImplicit false

def Archetype.descend : Archetype → List Nat → Option Archetype
  | a, [] => some a
  | a, i :: way => match a.seats[i]? with
    | none => none
    | some c => c.1.2.descend way

section Related
variable {α β : Type} {R : α → β → Prop} {le : α → α → Bool} {le' : β → β → Bool}

theorem forall₂_insertSorted (hle : ∀ a b a' b', R a a' → R b b' → le a b = le' a' b') {a : α}
    {a' : β} (ha : R a a') {l : List α} {l' : List β} (h : List.Forall₂ R l l') :
    List.Forall₂ R (insertSorted le a l) (insertSorted le' a' l') := by
  induction h with
  | nil => exact .cons ha .nil
  | @cons b b' l l' hb hl ih =>
    simp only [insertSorted, hle a b a' b' ha hb]
    split
    · exact .cons ha (.cons hb hl)
    · exact .cons hb ih

theorem forall₂_stableSort (hle : ∀ a b a' b', R a a' → R b b' → le a b = le' a' b') {l : List α}
    {l' : List β} (h : List.Forall₂ R l l') :
    List.Forall₂ R (stableSort le l) (stableSort le' l') := by
  induction h with
  | nil => exact .nil
  | cons ha _ ih => exact forall₂_insertSorted hle ha ih

theorem rel_getElem? {l : List α} {l' : List β} (h : List.Forall₂ R l l') (i : Nat) :
    Option.Rel R l[i]? l'[i]? := by
  induction h generalizing i with
  | nil => exact .none
  | cons ha _ ih =>
    cases i with
    | zero => exact .some ha
    | succ i => exact ih i

theorem forall₂_of_getElem? {l : List α} {l' : List β} (hlength : l.length = l'.length)
    (h : ∀ (i : Nat) (a : α) (a' : β), l[i]? = some a → l'[i]? = some a' → R a a') :
    List.Forall₂ R l l' := by
  rw [List.forall₂_iff_get]
  exact ⟨hlength, fun i hi hi' =>
    h i _ _ (List.getElem?_eq_getElem hi) (List.getElem?_eq_getElem hi')⟩

end Related

namespace Forest

def descend (f : Forest) : NodeId → List Nat → Option NodeId
  | x, [] => some x
  | x, i :: way => match (f.children x)[i]? with
    | none => none
    | some c => f.descend c way

def Counterparts (f g : Forest) (x x' y y' : NodeId) : Prop :=
  ∃ way, f.descend x way = some y ∧ g.descend x' way = some y'

structure InStep (f g : Forest) (x x' : NodeId) : Prop where
  slots : List.Forall₂ (Counterparts f g x x') (f.slots x) (g.slots x')
  fillOrder : List.Forall₂ (Counterparts f g x x') (f.fillOrder x) (g.fillOrder x')

/-- Every way down the archetype leads to a node of both inventories, and slots at the ends of one
way have the same index and the same place in the fill order. -/
def SamePlaces (a : Archetype) (f : Forest) (x : NodeId) (g : Forest) (x' : NodeId) : Prop :=
  ∀ way b, a.descend way = some b → ∃ y y', f.descend x way = some y ∧ g.descend x' way = some y' ∧
    (b.kind = .slot → ∃ i j, f.indexOf x y = some i ∧ g.indexOf x' y' = some i ∧
      (f.fillOrder x).idxOf? y = some j ∧ (g.fillOrder x').idxOf? y' = some j)

section Descend
variable {f g : Forest} {x x' y y' z z' : NodeId} {way other : List Nat}

theorem descend_cons {i : Nat} {c : NodeId} (hc : (f.children x)[i]? = some c) (way : List Nat) :
    f.descend x (i :: way) = f.descend c way := by
  simp only [descend, hc]

theorem exists_child_of_descend {i : Nat} (h : f.descend x (i :: way) = some y) :
    ∃ c, (f.children x)[i]? = some c ∧ f.descend c way = some y := by
  cases hc : (f.children x)[i]? with
  | none =>
    simp only [descend, hc] at h
    cases h
  | some c =>
    rw [descend_cons hc] at h
    exact ⟨c, rfl, h⟩

theorem Sound.under_of_descend (hf : f.Sound) (hx : f.container? x = none)
    (h : f.descend x way = some y) : ∃ n, f.Under n x y := by
  induction way generalizing x with
  | nil =>
    cases h
    exact ⟨0, .refl _⟩
  | cons i way ih =>
    obtain ⟨c, hc, h⟩ := exists_child_of_descend h
    have hlists := (mem_children_iff hx).mp (List.mem_of_getElem? hc)
    obtain ⟨n, hu⟩ := ih (hf.container?_of_lists hlists) h
    exact ⟨n + 1, .down hlists hu⟩

theorem Sound.descend_ne (hf : f.Sound) (hx : f.container? x = none) {i : Nat} :
    f.descend x (i :: way) ≠ some x := by
  intro h
  obtain ⟨c, hc, h⟩ := exists_child_of_descend h
  have hlists := (mem_children_iff hx).mp (List.mem_of_getElem? hc)
  obtain ⟨n, hu⟩ := hf.under_of_descend (hf.container?_of_lists hlists) h
  exact hf.not_under_parent hlists hu

/-- No two ways down from a node lead to the same place. -/
theorem Sound.way_unique (hf : f.Sound) (hx : f.container? x = none)
    (h : f.descend x way = some y) (hother : f.descend x other = some y) : way = other := by
  induction way generalizing x other with
  | nil =>
    cases h
    cases other with
    | nil => rfl
    | cons i rest => exact absurd hother (hf.descend_ne hx)
  | cons i way ih =>
    cases other with
    | nil =>
      cases hother
      exact absurd h (hf.descend_ne hx)
    | cons j other =>
      obtain ⟨c, hc, h⟩ := exists_child_of_descend h
      obtain ⟨d, hd, hother⟩ := exists_child_of_descend hother
      have hlc := (mem_children_iff hx).mp (List.mem_of_getElem? hc)
      have hld := (mem_children_iff hx).mp (List.mem_of_getElem? hd)
      have hplain := hf.container?_of_lists hlc
      obtain ⟨_, hu⟩ := hf.under_of_descend hplain h
      obtain ⟨_, hv⟩ := hf.under_of_descend (hf.container?_of_lists hld) hother
      obtain rfl := hf.child_unique hlc hld hu hv
      obtain ⟨_, hc⟩ := List.getElem?_eq_some_iff.mp hc
      obtain ⟨_, hd⟩ := List.getElem?_eq_some_iff.mp hd
      have hij : i = j := (hf.nodup_of_children hx).getElem_inj_iff.mp (hc.trans hd.symm)
      rw [hij, ih hplain h hother]

theorem Counterparts.eq_iff (hf : f.Sound) (hg : g.Sound) (hx : f.container? x = none)
    (hx' : g.container? x' = none) (hy : Counterparts f g x x' y y')
    (hz : Counterparts f g x x' z z') : y = z ↔ y' = z' := by
  obtain ⟨way, hy, hy'⟩ := hy
  obtain ⟨other, hz, hz'⟩ := hz
  constructor
  · rintro rfl
    rw [hf.way_unique hx hy hz] at hy'
    exact Option.some.inj (hy'.symm.trans hz')
  · rintro rfl
    rw [hg.way_unique hx' hy' hz'] at hy
    exact Option.some.inj (hy.symm.trans hz)

theorem Counterparts.idxOf? (hf : f.Sound) (hg : g.Sound) (hx : f.container? x = none)
    (hx' : g.container? x' = none) {l l' : List NodeId}
    (h : List.Forall₂ (Counterparts f g x x') l l') (hy : Counterparts f g x x' y y') :
    l'.idxOf? y' = l.idxOf? y := by
  induction h with
  | nil => rfl
  | @cons z z' l l' hz _ ih =>
    have hsame := hz.eq_iff hf hg hx hx' hy
    rw [List.idxOf?_cons, List.idxOf?_cons, ih]
    by_cases hzy : z = y
    · rw [if_pos (beq_iff_eq.mpr hzy), if_pos (beq_iff_eq.mpr (hsame.mp hzy))]
    · rw [if_neg (mt beq_iff_eq.mp hzy), if_neg (mt (hsame.mpr ∘ beq_iff_eq.mp) hzy)]

end Descend

section Orders
variable {f g : Forest} {x x' : NodeId} {limit limit' : Nat} {a : Archetype}

structure SeatedAlike (f g : Forest) (x x' : NodeId) (e e' : ChildEntry) : Prop where
  priority : e'.priority = e.priority
  slots : List.Forall₂ (Counterparts f g x x') (f.slots e.node) (g.slots e'.node)
  fillOrder : List.Forall₂ (Counterparts f g x x') (f.fillOrder e.node) (g.fillOrder e'.node)

theorem InStep.below {c c' : NodeId} {i : Nat} (h : InStep f g c c')
    (hc : (f.children x)[i]? = some c) (hc' : (g.children x')[i]? = some c') :
    List.Forall₂ (Counterparts f g x x') (f.slots c) (g.slots c') ∧
      List.Forall₂ (Counterparts f g x x') (f.fillOrder c) (g.fillOrder c') := by
  have hbelow : ∀ y y', Counterparts f g c c' y y' → Counterparts f g x x' y y' := by
    rintro y y' ⟨way, hy, hy'⟩
    refine ⟨i :: way, ?_, ?_⟩
    · rw [descend_cons hc, hy]
    · rw [descend_cons hc', hy']
  exact ⟨h.slots.imp hbelow, h.fillOrder.imp hbelow⟩

theorem inStep_composite {k k' : Composite} {order : Option (List Nat)} (hk : k.Follows f order)
    (hk' : k'.Follows g order)
    (h : List.Forall₂ (SeatedAlike f g x x') k.children k'.children) :
    List.Forall₂ (Counterparts f g x x') k.slots k'.slots ∧
      List.Forall₂ (Counterparts f g x x') k.fillOrder k'.fillOrder := by
  have hslots : List.Forall₂ (Counterparts f g x x') k.slots k'.slots := by
    rw [hk.slots, hk'.slots]
    exact List.rel_flatMap h fun _ _ he => he.slots
  refine ⟨hslots, ?_⟩
  rw [hk.fill, hk'.fill]
  cases order with
  | none =>
    refine List.rel_flatMap (forall₂_stableSort ?_ h) fun _ _ he => he.fillOrder
    intro a b a' b' ha hb
    rw [ha.priority, hb.priority]
  | some order =>
    have hself : List.Forall₂ (· = ·) order order := List.forall₂_refl order
    refine List.rel_filterMap ?_ hself
    rintro i _ rfl
    exact rel_getElem? hslots i

theorem Shows.seatedAlike {seated seated' : List Seated} (h : f.Shows limit a x seated)
    (h' : g.Shows limit' a x' seated') (hbelow : ∀ s ∈ seated, ∀ s' ∈ seated',
      s'.seat = s.seat → InStep f g s.node s'.node) {k k' : Composite}
    (hk : f.composite? x = some k) (hk' : g.composite? x' = some k') :
    List.Forall₂ (SeatedAlike f g x x') k.children k'.children := by
  have hseats : seated'.map Seated.seat = seated.map Seated.seat := h'.seats.trans h.seats.symm
  have hlength := congrArg List.length hseats
  rw [List.length_map, List.length_map] at hlength
  rw [h.entries hk, h'.entries hk', List.forall₂_map_left_iff, List.forall₂_map_right_iff]
  refine forall₂_of_getElem? hlength.symm ?_
  intro i s s' hs hs'
  have hseat := congrArg (fun seats => seats[i]?) hseats
  simp only [List.getElem?_map, hs, hs', Option.map_some, Option.some.injEq] at hseat
  have hstep := hbelow s (List.mem_of_getElem? hs) s' (List.mem_of_getElem? hs') hseat
  have hc : (f.children x)[i]? = some s.node := by
    rw [h.children_eq, List.getElem?_map, hs, Option.map_some]
  have hc' : (g.children x')[i]? = some s'.node := by
    rw [h'.children_eq, List.getElem?_map, hs', Option.map_some]
  exact ⟨congrArg (fun c => c.1.1.priority) hseat, (hstep.below hc hc').1, (hstep.below hc hc').2⟩

theorem Realises.inStep (h : f.Realises limit a x) (h' : g.Realises limit' a x') :
    InStep f g x x' := by
  induction h generalizing x' with
  | @node a x seated here _ _ ih =>
    obtain @⟨_, _, seated', here', _, below'⟩ := h'
    rcases here.slot_or_composite with ⟨hkind, hslots, hfill, _⟩ | ⟨hkind, k, hk⟩
    · rcases here'.slot_or_composite with ⟨_, hslots', hfill', _⟩ | ⟨hkind', _⟩
      · have htop : Counterparts f g x x' x x' := ⟨[], rfl, rfl⟩
        constructor
        · rw [hslots, hslots']
          exact .cons htop .nil
        · rw [hfill, hfill']
          exact .cons htop .nil
      · exact absurd hkind hkind'
    · rcases here'.slot_or_composite with ⟨hkind', _⟩ | ⟨_, k', hk'⟩
      · exact absurd hkind' hkind
      · have hbelow : ∀ s ∈ seated, ∀ s' ∈ seated', s'.seat = s.seat →
            InStep f g s.node s'.node := by
          intro s hs s' hs' hseat
          have harchetype : s'.archetype = s.archetype := congrArg (fun c => c.1.2) hseat
          exact ih s hs (harchetype ▸ below' s' hs')
        obtain ⟨hslots, hfill⟩ := inStep_composite (here.follows k hk) (here'.follows k' hk')
          (here.seatedAlike here' hbelow hk hk')
        rw [← slots_of_composite? hk, ← slots_of_composite? hk'] at hslots
        rw [← fillOrder_of_composite? hk, ← fillOrder_of_composite? hk'] at hfill
        exact ⟨hslots, hfill⟩

theorem Shows.slots_below {seated : List Seated} (h : f.Shows limit a x seated) {s : Seated}
    (hs : s ∈ seated) {slot : SlotId} (hslot : slot ∈ f.slots s.node) : slot ∈ f.slots x := by
  rcases h.slot_or_composite with ⟨hkind, _⟩ | ⟨_, k, hk⟩
  · rw [h.alone hkind] at hs
    cases hs
  · rw [slots_of_composite? hk, h.slots_eq hk]
    exact List.mem_flatMap.mpr ⟨s, hs, hslot⟩

theorem Realises.descend (h : f.Realises limit a x) {way : List Nat} {b : Archetype}
    (hb : a.descend way = some b) : ∃ y, f.descend x way = some y ∧ f.Realises limit b y ∧
      ∀ s ∈ f.slots y, s ∈ f.slots x := by
  induction way generalizing a x with
  | nil =>
    cases hb
    exact ⟨x, rfl, h, fun s hs => hs⟩
  | cons i way ih =>
    obtain @⟨_, _, seated, here, _, below⟩ := h
    cases hseat : a.seats[i]? with
    | none =>
      simp only [Archetype.descend, hseat] at hb
      cases hb
    | some c =>
      simp only [Archetype.descend, hseat] at hb
      rw [← here.seats, List.getElem?_map] at hseat
      obtain ⟨s, hs, rfl⟩ := Option.map_eq_some_iff.mp hseat
      have hmem := List.mem_of_getElem? hs
      obtain ⟨y, hy, hreal, hslots⟩ := ih (below s hmem) hb
      refine ⟨y, ?_, hreal, fun slot hslot => here.slots_below hmem (hslots slot hslot)⟩
      rw [descend_cons _ way, hy]
      rw [here.children_eq, List.getElem?_map, hs, Option.map_some]

/-- Inventories that realise one archetype have the same slots at the same places. -/
theorem Realises.samePlaces (hf : f.Sound) (hg : g.Sound) (h : f.Realises limit a x)
    (h' : g.Realises limit' a x') : SamePlaces a f x g x' := by
  intro way b hb
  obtain ⟨y, hy, hreal, hslots⟩ := h.descend hb
  obtain ⟨y', hy', _⟩ := h'.descend hb
  refine ⟨y, y', hy, hy', fun hkind => ?_⟩
  have hmem : y ∈ f.slots x := by
    refine hslots y ?_
    obtain @⟨_, _, _, here, _, _⟩ := hreal
    rcases here.slot_or_composite with ⟨_, hself, _⟩ | ⟨hne, _⟩
    · rw [hself]
      exact List.mem_singleton_self y
    · exact absurd hkind hne
  have hfill : y ∈ f.fillOrder x := (hf.fillOrder_perm h.container?).mem_iff.mpr hmem
  obtain ⟨i, hi⟩ := Option.isSome_iff_exists.mp (List.isSome_idxOf?.mpr hmem)
  obtain ⟨j, hj⟩ := Option.isSome_iff_exists.mp (List.isSome_idxOf?.mpr hfill)
  have hsame : Counterparts f g x x' y y' := ⟨way, hy, hy'⟩
  have horders := h.inStep h'
  refine ⟨i, j, hi, ?_, hj, ?_⟩
  · exact (hsame.idxOf? hf hg h.container? h'.container? horders.slots).trans hi
  · exact (hsame.idxOf? hf hg h.container? h'.container? horders.fillOrder).trans hj

end Orders

end Forest

end Stowage
