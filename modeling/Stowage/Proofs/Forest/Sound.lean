import Stowage.Forest.Traversal
import Stowage.Proofs.Forest.Outline
import Mathlib.Data.List.Nodup
import Mathlib.Data.List.Range

/-!
# Sound forests

Children and parents tell of each other, ranks rule out cycles, and every composite has just the
slots of its children. It follows that a walk downwards reaches all nodes below within the bound on
walks, and that no slot lies below two children of one node.
-/

namespace Stowage.Forest

set_option autoImplicit false

def Lists (f : Forest) (p c : NodeId) : Prop :=
  ∃ k, f.composite? p = some k ∧ c ∈ k.children.map ChildEntry.node

def HasCursor (f : Forest) (p c : NodeId) : Prop := ∃ k, f.container? p = some k ∧ k.cursor = c

inductive Under (f : Forest) : Nat → NodeId → NodeId → Prop where
  | refl (a : NodeId) : Under f 0 a a
  | down {n : Nat} {a b d : NodeId} : f.Lists a b → Under f n b d → Under f (n + 1) a d

structure Sound (f : Forest) : Prop where
  arena : f.nodes.Sound
  parent_of_lists : ∀ {p c : NodeId}, f.Lists p c → f.parent c = some p
  cases_of_parent : ∀ {p c : NodeId}, f.parent c = some p → f.Lists p c ∨ f.HasCursor p c
  nodup_children : ∀ {p : NodeId} {k : Composite}, f.composite? p = some k →
    (k.children.map ChildEntry.node).Nodup
  slots_perm : ∀ {p : NodeId} {k : Composite}, f.composite? p = some k →
    k.slots.Perm (k.children.flatMap fun e => f.slots e.node)
  fill_perm : ∀ {p : NodeId} {k : Composite}, f.composite? p = some k →
    k.fillOrder.Perm k.slots
  ranked : ∃ rank : NodeId → Nat, ∀ p c, f.Lists p c → rank c < rank p
  parent_container : ∀ {p : NodeId} {k : Container}, f.container? p = some k → f.parent p = none
  parent_cursor : ∀ {p : NodeId} {k : Container}, f.container? p = some k →
    f.parent k.cursor = some p
  slot_cursor : ∀ {p : NodeId} {k : Container}, f.container? p = some k →
    (f.slot k.cursor).isSome = true
  nodup_bound : ∀ {p : NodeId} {k : Container}, f.container? p = some k →
    (k.cursor :: k.slots).Nodup

theorem node?_empty (x : NodeId) : Forest.empty.node? x = none := by
  simp [empty, node?, Arena.empty, Arena.get?]

theorem sound_empty : Forest.empty.Sound := by
  have hlists : ∀ p c, ¬ Forest.empty.Lists p c := by
    rintro p c ⟨k, hk, _⟩
    simp [composite?, node?_empty] at hk
  refine ⟨Arena.sound_empty, ?_, ?_, ?_, ?_, ?_, ⟨fun _ => 0, ?_⟩, ?_, ?_, ?_, ?_⟩
  · intro p c h
    exact absurd h (hlists p c)
  · intro p c h
    simp [parent, node?_empty] at h
  · intro p k h
    simp [composite?, node?_empty] at h
  · intro p k h
    simp [composite?, node?_empty] at h
  · intro p k h
    simp [composite?, node?_empty] at h
  · intro p c h
    exact absurd h (hlists p c)
  all_goals
    intro p k h
    simp [container?, node?_empty] at h

section Outline
variable {f g : Forest}

theorem SameOutline.lists (h : SameOutline f g) (p c : NodeId) : g.Lists p c ↔ f.Lists p c := by
  simp only [Lists, h.composite?]

theorem SameOutline.hasCursor (h : SameOutline f g) {p c : NodeId} (hc : f.HasCursor p c) :
    g.HasCursor p c := by
  obtain ⟨k, hk, rfl⟩ := hc
  obtain ⟨k', hk', he⟩ := h.symm.exists_container? hk
  exact ⟨k', hk', (Container.of_bare_eq he).2.2.1⟩

/-- Soundness is read from the outlines. -/
theorem Sound.congr (hf : f.Sound) (h : SameOutline f g) (ha : g.nodes.Sound) : g.Sound where
  arena := ha
  parent_of_lists := by
    intro p c hc
    rw [h.parent]
    exact hf.parent_of_lists ((h.lists p c).mp hc)
  cases_of_parent := by
    intro p c hc
    rw [h.parent] at hc
    rcases hf.cases_of_parent hc with hc | hc
    · exact Or.inl ((h.lists p c).mpr hc)
    · exact Or.inr (h.hasCursor hc)
  nodup_children := by
    intro p k hk
    rw [h.composite?] at hk
    exact hf.nodup_children hk
  slots_perm := by
    intro p k hk
    rw [h.composite?] at hk
    simpa only [h.slots] using hf.slots_perm hk
  fill_perm := by
    intro p k hk
    rw [h.composite?] at hk
    exact hf.fill_perm hk
  ranked := by
    obtain ⟨rank, hr⟩ := hf.ranked
    exact ⟨rank, fun p c hc => hr p c ((h.lists p c).mp hc)⟩
  parent_container := by
    intro p k hk
    obtain ⟨k₀, hk₀, _⟩ := h.exists_container? hk
    rw [h.parent]
    exact hf.parent_container hk₀
  parent_cursor := by
    intro p k hk
    obtain ⟨k₀, hk₀, he⟩ := h.exists_container? hk
    obtain ⟨_, _, hcursor, _⟩ := Container.of_bare_eq he
    rw [h.parent, ← hcursor]
    exact hf.parent_cursor hk₀
  slot_cursor := by
    intro p k hk
    obtain ⟨k₀, hk₀, he⟩ := h.exists_container? hk
    obtain ⟨_, _, hcursor, _⟩ := Container.of_bare_eq he
    rw [h.slot_isSome, ← hcursor]
    exact hf.slot_cursor hk₀
  nodup_bound := by
    intro p k hk
    obtain ⟨k₀, hk₀, he⟩ := h.exists_container? hk
    obtain ⟨_, _, hcursor, hslots⟩ := Container.of_bare_eq he
    rw [← hcursor, ← hslots]
    exact hf.nodup_bound hk₀

end Outline

namespace Under
variable {f : Forest} {a b d : NodeId} {m n : Nat}

theorem single (h : f.Lists a b) : f.Under 1 a b := .down h (.refl b)

theorem eq_of_zero (h : f.Under 0 a d) : a = d := by
  cases h
  rfl

theorem trans (hab : f.Under m a b) (hbd : f.Under n b d) : f.Under (n + m) a d := by
  induction hab with
  | refl => exact hbd
  | down h _ ih => exact .down h (ih hbd)

theorem last (h : f.Under (n + 1) a d) : ∃ b, f.Under n a b ∧ f.Lists b d := by
  induction n generalizing a with
  | zero =>
    cases h with
    | down hab hbd =>
      cases hbd
      exact ⟨a, .refl a, hab⟩
  | succ n ih =>
    cases h with
    | down hab hbd =>
      obtain ⟨e, hbe, hed⟩ := ih hbd
      exact ⟨e, .down hab hbe, hed⟩

theorem rank_le {rank : NodeId → Nat} (hr : ∀ p c, f.Lists p c → rank c < rank p)
    (h : f.Under n a d) : rank d ≤ rank a := by
  induction h with
  | refl => exact Nat.le_refl _
  | down hab _ ih =>
    have hlt := hr _ _ hab
    omega

end Under

namespace Sound
variable {f : Forest} (hf : f.Sound)
include hf

theorem contains_of_lists {p c : NodeId} (h : f.Lists p c) :
    f.contains p = true ∧ f.contains c = true := by
  have hp := hf.parent_of_lists h
  obtain ⟨k, hk, _⟩ := h
  exact ⟨contains_of_composite? hk, contains_of_parent hp⟩

theorem container?_of_lists {p c : NodeId} (h : f.Lists p c) : f.container? c = none := by
  cases hc : f.container? c with
  | none => rfl
  | some k =>
    have hnone := hf.parent_container hc
    rw [hf.parent_of_lists h] at hnone
    cases hnone

theorem lists_of_parent {p c : NodeId} (h : f.parent c = some p) (hp : f.container? p = none) :
    f.Lists p c := by
  rcases hf.cases_of_parent h with hlists | ⟨k, hk, _⟩
  · exact hlists
  · rw [hp] at hk
    cases hk

theorem not_lists_cursor {id : NodeId} {k : Container} (hk : f.container? id = some k)
    (p : NodeId) : ¬ f.Lists p k.cursor := by
  intro h
  have hp := hf.parent_of_lists h
  rw [hf.parent_cursor hk] at hp
  cases hp
  obtain ⟨c, hc, _⟩ := h
  rw [composite?_of_container? hk] at hc
  cases hc

theorem container?_cursor {id : NodeId} {k : Container} (hk : f.container? id = some k) :
    f.container? k.cursor = none := by
  obtain ⟨s, hs⟩ := Option.isSome_iff_exists.mp (hf.slot_cursor hk)
  obtain ⟨n, hn, hc⟩ := slot_eq_some_iff.mp hs
  simp [container?, hn, hc, Content.container?]

theorem cursor_inj {x y : NodeId} {k l : Container} (hx : f.container? x = some k)
    (hy : f.container? y = some l) (h : k.cursor = l.cursor) : x = y := by
  have hk := hf.parent_cursor hx
  rw [h, hf.parent_cursor hy] at hk
  exact (Option.some.inj hk).symm

theorem not_under_parent {p c : NodeId} {n : Nat} (h : f.Lists p c) : ¬ f.Under n c p := by
  intro hu
  obtain ⟨rank, hr⟩ := hf.ranked
  have hle := hu.rank_le hr
  have hlt := hr _ _ h
  omega

theorem child_unique {p c d s : NodeId} {m n : Nat} (hc : f.Lists p c) (hd : f.Lists p d)
    (hcs : f.Under m c s) (hds : f.Under n d s) : c = d := by
  induction m generalizing s n with
  | zero =>
    cases hcs
    cases n with
    | zero =>
      cases hds
      rfl
    | succ n =>
      obtain ⟨b, hdb, hbc⟩ := hds.last
      have hb := hf.parent_of_lists hbc
      rw [hf.parent_of_lists hc] at hb
      cases hb
      exact absurd hdb (hf.not_under_parent hd)
  | succ m ih =>
    obtain ⟨b, hcb, hbs⟩ := hcs.last
    cases n with
    | zero =>
      cases hds
      have hb := hf.parent_of_lists hbs
      rw [hf.parent_of_lists hd] at hb
      cases hb
      exact absurd hcb (hf.not_under_parent hc)
    | succ n =>
      obtain ⟨e, hde, hes⟩ := hds.last
      have hb := hf.parent_of_lists hbs
      rw [hf.parent_of_lists hes] at hb
      cases hb
      exact ih hcb hde

omit hf in
theorem length_le_reach {l : List NodeId} (hnodup : l.Nodup)
    (hlive : ∀ x ∈ l, f.contains x = true) : l.length ≤ f.reach := by
  have hindices : (l.map NodeId.index).Nodup := by
    refine List.Nodup.map_on ?_ hnodup
    intro x hx y hy hxy
    obtain ⟨u, hu⟩ := contains_iff.mp (hlive x hx)
    obtain ⟨v, hv⟩ := contains_iff.mp (hlive y hy)
    exact Arena.eq_of_index_eq hu hv hxy
  have hrange : l.map NodeId.index ⊆ List.range f.reach := by
    intro i hi
    obtain ⟨x, hx, rfl⟩ := List.mem_map.mp hi
    obtain ⟨u, hu⟩ := contains_iff.mp (hlive x hx)
    exact List.mem_range.mpr (Arena.index_lt_of_get? hu)
  have hle := hindices.length_le_of_subset hrange
  simpa using hle

/-- The nodes on the way down are live and distinct, so there are fewer steps than places. -/
theorem under_lt_reach {a d : NodeId} {n : Nat} (ha : f.contains a = true) (h : f.Under n a d) :
    n < f.reach := by
  obtain ⟨rank, hr⟩ := hf.ranked
  have way : ∃ l : List NodeId, l.length = n + 1 ∧ l.Nodup ∧
      ∀ x ∈ l, f.contains x = true ∧ rank x ≤ rank a := by
    induction h with
    | refl a => exact ⟨[a], rfl, List.nodup_singleton a, by simp [ha]⟩
    | @down n a b d hab _ ih =>
      obtain ⟨l, hlen, hnodup, hl⟩ := ih (hf.contains_of_lists hab).2
      have hlt := hr _ _ hab
      refine ⟨a :: l, by simp [hlen], List.nodup_cons.mpr ⟨?_, hnodup⟩, ?_⟩
      · intro hmem
        have hle := (hl a hmem).2
        omega
      · intro x hx
        rcases List.mem_cons.mp hx with rfl | hx
        · exact ⟨ha, Nat.le_refl _⟩
        · have hle := (hl x hx).2
          exact ⟨(hl x hx).1, by omega⟩
  obtain ⟨l, hlen, hnodup, hl⟩ := way
  have hle := length_le_reach hnodup fun x hx => (hl x hx).1
  omega

theorem under_le_reach {a d : NodeId} {n : Nat} (h : f.Under n a d) : n ≤ f.reach := by
  cases n with
  | zero => exact Nat.zero_le _
  | succ n =>
    cases h with
    | down hab hbd =>
      exact Nat.le_of_lt (hf.under_lt_reach (hf.contains_of_lists hab).1 (.down hab hbd))

omit hf in
theorem mem_children_iff {a c : NodeId} (ha : f.container? a = none) :
    c ∈ f.children a ↔ f.Lists a c := by
  unfold children Lists composite?
  cases hn : f.node? a with
  | none => simp
  | some n =>
    cases hc : n.content <;> simp_all [container?, Content.composite?, Content.container?]

theorem nodup_of_children {a : NodeId} (ha : f.container? a = none) : (f.children a).Nodup := by
  cases hk : f.composite? a with
  | some k =>
    rw [children_of_composite? hk]
    exact hf.nodup_children hk
  | none =>
    have hnone : f.children a = [] := by
      rw [List.eq_nil_iff_forall_not_mem]
      intro b hb
      obtain ⟨k, hk', _⟩ := (mem_children_iff ha).mp hb
      rw [hk] at hk'
      cases hk'
    rw [hnone]
    exact List.nodup_nil

theorem mem_descendantsUpTo_iff {n : Nat} {a d : NodeId} (ha : f.container? a = none) :
    d ∈ f.descendantsUpTo n a ↔ ∃ m, m < n ∧ f.Under (m + 1) a d := by
  induction n generalizing a with
  | zero => simp [descendantsUpTo]
  | succ n ih =>
    have hbelow : ∀ c, f.Lists a c →
        (d ∈ c :: (if f.kind c = some .container then [] else f.descendantsUpTo n c) ↔
          ∃ m, m < n + 1 ∧ f.Under m c d) := by
      intro c hc
      have hcc := hf.container?_of_lists hc
      have hkind : f.kind c ≠ some .container := by
        intro h
        obtain ⟨k, hk⟩ := kind_eq_container_iff.mp h
        rw [hcc] at hk
        cases hk
      rw [if_neg hkind, List.mem_cons, ih hcc]
      constructor
      · rintro (rfl | ⟨m, hm, hu⟩)
        · exact ⟨0, by omega, .refl d⟩
        · exact ⟨m + 1, by omega, hu⟩
      · rintro ⟨m, hm, hu⟩
        cases m with
        | zero =>
          cases hu
          exact Or.inl rfl
        | succ m => exact Or.inr ⟨m, by omega, hu⟩
    simp only [descendantsUpTo, List.mem_flatMap]
    constructor
    · rintro ⟨c, hc, hd⟩
      have hl := (mem_children_iff ha).mp hc
      obtain ⟨m, hm, hu⟩ := (hbelow c hl).mp hd
      exact ⟨m, hm, .down hl hu⟩
    · rintro ⟨m, hm, hu⟩
      cases hu with
      | down hl hu =>
        exact ⟨_, (mem_children_iff ha).mpr hl, (hbelow _ hl).mpr ⟨m, hm, hu⟩⟩

/-- The walk downwards finds exactly the nodes below. -/
theorem mem_descendants_iff {a d : NodeId} (ha : f.container? a = none) :
    d ∈ f.descendants a ↔ ∃ m, f.Under (m + 1) a d := by
  unfold descendants
  rw [hf.mem_descendantsUpTo_iff ha]
  constructor
  · rintro ⟨m, _, hu⟩
    exact ⟨m, hu⟩
  · rintro ⟨m, hu⟩
    have hle := hf.under_le_reach hu
    exact ⟨m, by omega, hu⟩

theorem eq_or_mem_descendants_iff {a d : NodeId} (ha : f.container? a = none) :
    d = a ∨ d ∈ f.descendants a ↔ ∃ n, f.Under n a d := by
  rw [hf.mem_descendants_iff ha]
  constructor
  · rintro (rfl | ⟨m, hu⟩)
    · exact ⟨0, .refl d⟩
    · exact ⟨m + 1, hu⟩
  · rintro ⟨m, hu⟩
    cases m with
    | zero => exact Or.inl hu.eq_of_zero.symm
    | succ m => exact Or.inr ⟨m, hu⟩

theorem under_of_mem_slots {a s : NodeId} (ha : f.container? a = none) (hs : s ∈ f.slots a) :
    (∃ n, f.Under n a s) ∧ (f.slot s).isSome = true := by
  obtain ⟨rank, hr⟩ := hf.ranked
  induction hn : rank a using Nat.strongRecOn generalizing a with
  | ind r ih =>
    cases hk : f.composite? a with
    | some k =>
      rw [slots_of_composite? hk] at hs
      obtain ⟨e, he, hse⟩ := List.mem_flatMap.mp ((hf.slots_perm hk).mem_iff.mp hs)
      have hl : f.Lists a e.node := ⟨k, hk, List.mem_map_of_mem he⟩
      have hlt := hr _ _ hl
      obtain ⟨⟨m, hu⟩, hslot⟩ := ih (rank e.node) (by omega) (hf.container?_of_lists hl) hse rfl
      exact ⟨⟨m + 1, .down hl hu⟩, hslot⟩
    | none =>
      unfold slots composite? container? at *
      cases hnode : f.node? a with
      | none => simp [hnode] at hs
      | some n =>
        cases hc : n.content <;>
          simp_all [slot, Content.composite?, Content.container?, Content.slot?]
        exact ⟨0, .refl a⟩

theorem nodup_slots {a : NodeId} (ha : f.container? a = none) : (f.slots a).Nodup := by
  obtain ⟨rank, hr⟩ := hf.ranked
  induction hn : rank a using Nat.strongRecOn generalizing a with
  | ind r ih =>
    cases hk : f.composite? a with
    | some k =>
      have hlists : ∀ e ∈ k.children, f.Lists a e.node :=
        fun e he => ⟨k, hk, List.mem_map_of_mem he⟩
      rw [slots_of_composite? hk, (hf.slots_perm hk).nodup_iff, List.nodup_flatMap]
      constructor
      · intro e he
        have hlt := hr _ _ (hlists e he)
        exact ih (rank e.node) (by omega) (hf.container?_of_lists (hlists e he)) rfl
      · have hdistinct := hf.nodup_children hk
        rw [List.Nodup, List.pairwise_map] at hdistinct
        refine hdistinct.imp_of_mem ?_
        intro x y hx hy hxy s hsx hsy
        obtain ⟨⟨m, hu⟩, _⟩ := hf.under_of_mem_slots (hf.container?_of_lists (hlists x hx)) hsx
        obtain ⟨⟨n, hv⟩, _⟩ := hf.under_of_mem_slots (hf.container?_of_lists (hlists y hy)) hsy
        exact hxy (hf.child_unique (hlists x hx) (hlists y hy) hu hv)
    | none =>
      unfold slots composite? container? at *
      cases hnode : f.node? a with
      | none => simp
      | some n =>
        cases hc : n.content <;>
          simp_all [Content.composite?, Content.container?]

theorem fillOrder_perm {a : NodeId} (ha : f.container? a = none) :
    (f.fillOrder a).Perm (f.slots a) := by
  cases hk : f.composite? a with
  | some k =>
    rw [fillOrder_of_composite? hk, slots_of_composite? hk]
    exact hf.fill_perm hk
  | none =>
    unfold fillOrder slots composite? container? at *
    cases hnode : f.node? a with
    | none => exact .refl _
    | some n => cases hc : n.content <;> simp_all [Content.composite?, Content.container?]

end Sound

end Stowage.Forest
