import Stowage.Proofs.Forest.Roots

/-!
# Outermost matches

A search downwards stops at the first match on each way. Below a node that is no container it finds
every match or a match above it, and no two matches of which one lies within the other, as no node
lies below two children of one node.
-/

namespace Stowage.Forest

set_option autoImplicit false

section Under
variable {f : Forest} {a b d m : NodeId} {i j n : Nat}

theorem Under.contains (hf : f.Sound) (h : f.Under n a d) (hd : f.contains d = true) :
    f.contains a = true := by
  cases h with
  | refl => exact hd
  | down hab _ => exact (hf.contains_of_lists hab).1

theorem Under.plain (hf : f.Sound) (h : f.Under n a d) (ha : f.container? a = none) :
    f.container? d = none := by
  cases n with
  | zero =>
    rw [← h.eq_of_zero]
    exact ha
  | succ n =>
    obtain ⟨b, _, hbd⟩ := h.last
    exact hf.container?_of_lists hbd

theorem Under.comparable (hf : f.Sound) (ha : f.Under i a m) (hb : f.Under j b m) :
    (∃ k, f.Under k a b) ∨ ∃ k, f.Under k b a := by
  induction i generalizing m j with
  | zero =>
    rw [← ha.eq_of_zero] at hb
    exact Or.inr ⟨j, hb⟩
  | succ i ih =>
    cases j with
    | zero =>
      rw [← hb.eq_of_zero] at ha
      exact Or.inl ⟨i + 1, ha⟩
    | succ j =>
      obtain ⟨p, hap, hpm⟩ := ha.last
      obtain ⟨q, hbq, hqm⟩ := hb.last
      have hpq := hf.parent_of_lists hqm
      rw [hf.parent_of_lists hpm] at hpq
      cases hpq
      exact ih hap hbq

theorem Under.slots_subset (hf : f.Sound) (h : f.Under n a d) : f.slots d ⊆ f.slots a := by
  induction h with
  | refl => exact fun _ hs => hs
  | @down n a b d hab _ ih =>
    obtain ⟨k, hk, hb⟩ := hab
    obtain ⟨e, he, rfl⟩ := List.mem_map.mp hb
    intro s hs
    rw [slots_of_composite? hk]
    exact (hf.slots_perm hk).mem_iff.mpr (List.mem_flatMap.mpr ⟨e, he, ih hs⟩)

theorem Under.fillOrder_subset (hf : f.Sound) (h : f.Under n a d) (ha : f.container? a = none) :
    f.fillOrder d ⊆ f.fillOrder a := by
  intro s hs
  have hslot := (hf.fillOrder_perm (h.plain hf ha)).mem_iff.mp hs
  exact (hf.fillOrder_perm ha).mem_iff.mpr (h.slots_subset hf hslot)

theorem Sound.mem_ancestorsUpTo_iff (hf : f.Sound) (ha : f.container? a = none)
    (hd : f.contains d = true) : a ∈ f.ancestorsUpTo n d ↔ ∃ k, k < n ∧ f.Under k a d := by
  induction n generalizing d with
  | zero => simp [ancestorsUpTo]
  | succ n ih =>
    cases hp : f.parent d with
    | none =>
      rw [ancestorsUpTo_of_top n hd hp, List.mem_singleton]
      constructor
      · rintro rfl
        exact ⟨0, Nat.succ_pos n, .refl a⟩
      · rintro ⟨k, _, hu⟩
        cases k with
        | zero => exact hu.eq_of_zero
        | succ k =>
          obtain ⟨b, _, hbd⟩ := hu.last
          rw [hf.parent_of_lists hbd] at hp
          cases hp
    | some p =>
      rw [ancestorsUpTo_of_parent n hp, List.mem_cons, ih (hf.contains_parent hp)]
      constructor
      · rintro (rfl | ⟨k, hk, hu⟩)
        · exact ⟨0, Nat.succ_pos n, .refl a⟩
        · have hplain := hu.plain hf ha
          have hdown := hu.trans (.single (hf.lists_of_parent hp hplain))
          exact ⟨1 + k, by omega, hdown⟩
      · rintro ⟨k, hk, hu⟩
        cases k with
        | zero => exact Or.inl hu.eq_of_zero
        | succ k =>
          obtain ⟨b, hab, hbd⟩ := hu.last
          rw [hf.parent_of_lists hbd] at hp
          cases hp
          exact Or.inr ⟨k, by omega, hab⟩

theorem Sound.isWithin_iff (hf : f.Sound) (ha : f.container? a = none) :
    f.isWithin a d = true ↔ f.contains d = true ∧ ∃ n, f.Under n a d := by
  unfold isWithin ancestors
  rw [List.contains_iff_mem]
  cases hd : f.contains d with
  | false => simp [ancestorsUpTo_of_dead _ hd]
  | true =>
    rw [hf.mem_ancestorsUpTo_iff ha hd]
    constructor
    · rintro ⟨k, _, hu⟩
      exact ⟨rfl, k, hu⟩
    · rintro ⟨_, k, hu⟩
      exact ⟨k, hf.under_lt_reach (hu.contains hf hd) hu, hu⟩

end Under

def frontUpTo (f : Forest) (p : NodeId → Bool) (n : Nat) (c : NodeId) : List NodeId :=
  if p c then [c] else f.outermostUpTo p n c

/-- What a search finds at a node to which it comes in its first step. -/
def front (f : Forest) (p : NodeId → Bool) (c : NodeId) : List NodeId :=
  f.frontUpTo p (f.reach - 1) c

def Parted (f : Forest) (a b : NodeId) : Prop :=
  ∀ {i j : Nat} {d : NodeId}, f.Under i a d → ¬ f.Under j b d

section Front
variable {f : Forest} {p : NodeId → Bool} {c d m x : NodeId} {k n : Nat}

theorem frontUpTo_of_match (h : p c = true) : f.frontUpTo p n c = [c] := if_pos h

theorem mem_frontUpTo_of_match (h : p c = true) : c ∈ f.frontUpTo p n c := by
  rw [frontUpTo_of_match h]
  exact List.mem_singleton_self c

theorem frontUpTo_zero (h : p c = false) : f.frontUpTo p 0 c = [] := by
  unfold frontUpTo
  rw [h]
  rfl

theorem frontUpTo_succ (h : p c = false) :
    f.frontUpTo p (n + 1) c = (f.children c).flatMap (f.frontUpTo p n) := by
  unfold frontUpTo
  rw [h]
  rfl

theorem eq_of_mem_frontUpTo (h : p c = true) (hm : m ∈ f.frontUpTo p n c) : m = c := by
  rw [frontUpTo_of_match h] at hm
  exact List.mem_singleton.mp hm

theorem of_mem_frontUpTo (hf : f.Sound) (hc : f.container? c = none)
    (hm : m ∈ f.frontUpTo p n c) : p m = true ∧ ∃ k, f.Under k c m := by
  induction n generalizing c with
  | zero =>
    cases hp : p c with
    | true =>
      rw [eq_of_mem_frontUpTo hp hm]
      exact ⟨hp, 0, .refl c⟩
    | false =>
      rw [frontUpTo_zero hp] at hm
      cases hm
  | succ n ih =>
    cases hp : p c with
    | true =>
      rw [eq_of_mem_frontUpTo hp hm]
      exact ⟨hp, 0, .refl c⟩
    | false =>
      rw [frontUpTo_succ hp] at hm
      obtain ⟨b, hb, hm⟩ := List.mem_flatMap.mp hm
      have hcb := (Sound.mem_children_iff hc).mp hb
      obtain ⟨hpm, k, hu⟩ := ih (hf.container?_of_lists hcb) hm
      exact ⟨hpm, k + 1, .down hcb hu⟩

theorem exists_mem_frontUpTo (hf : f.Sound) (hc : f.container? c = none) (hu : f.Under k c d)
    (hk : k ≤ n) (hd : p d = true) : ∃ m ∈ f.frontUpTo p n c, ∃ j, f.Under j m d := by
  induction n generalizing c k with
  | zero =>
    cases Nat.le_zero.mp hk
    rw [← hu.eq_of_zero] at hd
    exact ⟨c, mem_frontUpTo_of_match hd, 0, hu⟩
  | succ n ih =>
    cases hp : p c with
    | true => exact ⟨c, mem_frontUpTo_of_match hp, k, hu⟩
    | false =>
      cases hu with
      | refl =>
        rw [hp] at hd
        cases hd
      | down hcb hbd =>
        obtain ⟨m, hm, hmd⟩ := ih (hf.container?_of_lists hcb) hbd (Nat.le_of_succ_le_succ hk)
        rw [frontUpTo_succ hp]
        exact ⟨m, List.mem_flatMap.mpr ⟨_, (Sound.mem_children_iff hc).mpr hcb, hm⟩, hmd⟩

theorem parted_below (hf : f.Sound) (hc : f.container? c = none)
    (hfront : ∀ b, f.Lists c b → (f.frontUpTo p n b).Pairwise f.Parted) :
    ((f.children c).flatMap (f.frontUpTo p n)).Pairwise f.Parted := by
  have hlists : ∀ b ∈ f.children c, f.Lists c b := fun b hb => (Sound.mem_children_iff hc).mp hb
  rw [List.pairwise_flatMap]
  refine ⟨fun b hb => hfront b (hlists b hb), ?_⟩
  refine (hf.nodup_of_children hc).imp_of_mem ?_
  intro a b ha hb hab u hu v hv i j d hud hvd
  obtain ⟨_, _, hau⟩ := of_mem_frontUpTo hf (hf.container?_of_lists (hlists a ha)) hu
  obtain ⟨_, _, hbv⟩ := of_mem_frontUpTo hf (hf.container?_of_lists (hlists b hb)) hv
  exact hab (hf.child_unique (hlists a ha) (hlists b hb) (hau.trans hud) (hbv.trans hvd))

theorem parted_frontUpTo (hf : f.Sound) (hc : f.container? c = none) :
    (f.frontUpTo p n c).Pairwise f.Parted := by
  induction n generalizing c with
  | zero =>
    cases hp : p c with
    | true =>
      rw [frontUpTo_of_match hp]
      exact List.pairwise_singleton _ _
    | false =>
      rw [frontUpTo_zero hp]
      exact List.Pairwise.nil
  | succ n ih =>
    cases hp : p c with
    | true =>
      rw [frontUpTo_of_match hp]
      exact List.pairwise_singleton _ _
    | false =>
      rw [frontUpTo_succ hp]
      exact parted_below hf hc fun b hb => ih (hf.container?_of_lists hb)

/-- A search goes to the children and finds the front of each. -/
theorem outermost_eq (f : Forest) (p : NodeId → Bool) (x : NodeId) :
    f.outermost p x = (f.children x).flatMap (f.front p) := by
  unfold outermost front
  cases hx : f.contains x with
  | true =>
    obtain ⟨n, hn⟩ := reach_eq_succ hx
    rw [hn]
    rfl
  | false =>
    have hnone : f.node? x = none := Option.not_isSome_iff_eq_none.mp (Bool.eq_false_iff.mp hx)
    have hchildren : f.children x = [] := by
      unfold children
      rw [hnone]
    rw [hchildren]
    cases f.reach with
    | zero => rfl
    | succ n =>
      unfold outermostUpTo
      rw [hchildren]
      rfl

theorem exists_mem_front (hf : f.Sound) (hc : f.container? c = none) (hlive : f.contains d = true)
    (hu : f.Under k c d) (hd : p d = true) : ∃ m ∈ f.front p c, ∃ j, f.Under j m d := by
  have hlt := hf.under_lt_reach (hu.contains hf hlive) hu
  exact exists_mem_frontUpTo hf hc hu (Nat.le_sub_one_of_lt hlt) hd

end Front

def OverPlain (f : Forest) (x : NodeId) : Prop := ∀ c ∈ f.children x, f.container? c = none

section Outermost
variable {f : Forest} {p : NodeId → Bool} {c d m x : NodeId}

theorem Sound.overPlain (hf : f.Sound) (hx : f.container? x = none) : f.OverPlain x :=
  fun _ hc => hf.container?_of_lists ((Sound.mem_children_iff hx).mp hc)

theorem of_mem_outermost (hf : f.Sound) (hx : f.OverPlain x) (hm : m ∈ f.outermost p x) :
    p m = true ∧ ∃ c ∈ f.children x, ∃ k, f.Under k c m := by
  rw [outermost_eq] at hm
  obtain ⟨c, hc, hm⟩ := List.mem_flatMap.mp hm
  obtain ⟨hpm, hu⟩ := of_mem_frontUpTo hf (hx c hc) hm
  exact ⟨hpm, c, hc, hu⟩

theorem mem_outermost_of_child (hc : c ∈ f.children x) (hp : p c = true) :
    c ∈ f.outermost p x := by
  rw [outermost_eq]
  exact List.mem_flatMap.mpr ⟨c, hc, mem_frontUpTo_of_match hp⟩

theorem plain_of_mem_outermost (hf : f.Sound) (hx : f.OverPlain x) (hm : m ∈ f.outermost p x) :
    f.container? m = none := by
  obtain ⟨_, c, hc, k, hu⟩ := of_mem_outermost hf hx hm
  exact hu.plain hf (hx c hc)

theorem exists_mem_outermost (hf : f.Sound) (hx : f.OverPlain x) (hc : c ∈ f.children x)
    (hd : f.isWithin c d = true) (hpd : p d = true) :
    ∃ m ∈ f.outermost p x, f.isWithin m d = true := by
  obtain ⟨hlive, k, hu⟩ := (hf.isWithin_iff (hx c hc)).mp hd
  obtain ⟨m, hm, j, hmd⟩ := exists_mem_front hf (hx c hc) hlive hu hpd
  have hmem : m ∈ f.outermost p x := by
    rw [outermost_eq]
    exact List.mem_flatMap.mpr ⟨c, hc, hm⟩
  exact ⟨m, hmem, (hf.isWithin_iff (plain_of_mem_outermost hf hx hmem)).mpr ⟨hlive, j, hmd⟩⟩

end Outermost

/-- Nothing is listed twice, and nothing that is listed lies within another. -/
structure Separate (f : Forest) (members : List NodeId) : Prop where
  nodup : members.Nodup
  apart : ∀ a ∈ members, ∀ b ∈ members, a ≠ b → f.isWithin a b = false

def Shared (f : Forest) (x m : NodeId) : Prop :=
  ∃ c, f.container? x = some c ∧ c.top ≠ c.bottom ∧
    f.isWithin c.top m = true ∧ f.isWithin c.bottom m = true

section Separate
variable {f : Forest} {p : NodeId → Bool} {a b d x : NodeId} {c : Container} {i j n : Nat}
variable {members : List NodeId}

theorem Under.eq_of_dead (hf : f.Sound) (h : f.Under n a d) (hd : f.contains d = false) :
    a = d := by
  cases n with
  | zero => exact h.eq_of_zero
  | succ n =>
    obtain ⟨b, _, hbd⟩ := h.last
    rw [(hf.contains_of_lists hbd).2] at hd
    cases hd

theorem Parted.symm (h : f.Parted a b) : f.Parted b a := fun hb ha => h ha hb

theorem Parted.not_within (h : f.Parted a b) (hf : f.Sound) (ha : f.container? a = none) :
    f.isWithin a b = false := by
  rw [Bool.eq_false_iff]
  intro hab
  obtain ⟨_, k, hu⟩ := (hf.isWithin_iff ha).mp hab
  exact h hu (.refl b)

theorem Under.isWithin_of_ne (hf : f.Sound) (hne : a ≠ b) (ha : f.container? a = none)
    (hu : f.Under n a b) : f.isWithin a b = true := by
  refine (hf.isWithin_iff ha).mpr ⟨?_, n, hu⟩
  by_contra hdead
  exact hne (hu.eq_of_dead hf (Bool.eq_false_iff.mpr hdead))

theorem parted_of_apart (hf : f.Sound) (ha : f.container? a = none) (hb : f.container? b = none)
    (hne : a ≠ b) (hab : f.isWithin a b = false) (hba : f.isWithin b a = false) :
    f.Parted a b := by
  intro i j d hua hub
  rcases hua.comparable hf hub with ⟨k, hu⟩ | ⟨k, hu⟩
  · rw [hu.isWithin_of_ne hf hne ha] at hab
    cases hab
  · rw [hu.isWithin_of_ne hf (Ne.symm hne) hb] at hba
    cases hba

theorem separate_iff_parted (hf : f.Sound) (hplain : ∀ m ∈ members, f.container? m = none) :
    f.Separate members ↔ members.Pairwise f.Parted := by
  constructor
  · intro h
    refine h.nodup.imp_of_mem ?_
    intro a b ha hb hab
    exact parted_of_apart hf (hplain a ha) (hplain b hb) hab (h.apart a ha b hb hab)
      (h.apart b hb a ha (Ne.symm hab))
  · intro h
    have hsymm : Std.Symm f.Parted := ⟨fun _ _ => Parted.symm⟩
    refine ⟨h.imp ?_, ?_⟩
    · rintro a b hab rfl
      exact hab (.refl a) (.refl a)
    · intro a ha b hb hne
      have hparted : f.Parted a b := h.forall ha hb hne
      exact hparted.not_within hf (hplain a ha)

/-- Between two inventories that a container shows, matches are parted unless a match is shared. -/
theorem parted_fronts_iff (hf : f.Sound) (ha : f.container? a = none) (hb : f.container? b = none)
    (hab : a ≠ b) : (∀ u ∈ f.front p a, ∀ v ∈ f.front p b, f.Parted u v) ↔
      ∀ m, p m = true → ¬ (f.isWithin a m = true ∧ f.isWithin b m = true) := by
  constructor
  · rintro h m hm ⟨ham, hbm⟩
    obtain ⟨hlive, i, hua⟩ := (hf.isWithin_iff ha).mp ham
    obtain ⟨_, j, hub⟩ := (hf.isWithin_iff hb).mp hbm
    obtain ⟨u, hu, k, hum⟩ := exists_mem_front hf ha hlive hua hm
    obtain ⟨v, hv, l, hvm⟩ := exists_mem_front hf hb hlive hub hm
    exact h u hu v hv hum hvm
  · intro h u hu v hv i j d hud hvd
    obtain ⟨hpu, k, hau⟩ := of_mem_frontUpTo hf ha hu
    obtain ⟨hpv, l, hbv⟩ := of_mem_frontUpTo hf hb hv
    have hnone : ∀ {m k l}, p m = true → f.Under k a m → ¬ f.Under l b m := by
      intro m k l hm ham hbm
      cases hlive : f.contains m with
      | true =>
        exact h m hm ⟨(hf.isWithin_iff ha).mpr ⟨hlive, k, ham⟩,
          (hf.isWithin_iff hb).mpr ⟨hlive, l, hbm⟩⟩
      | false => exact hab ((ham.eq_of_dead hf hlive).trans (hbm.eq_of_dead hf hlive).symm)
    rcases hud.comparable hf hvd with ⟨_, huv⟩ | ⟨_, hvu⟩
    · exact hnone hpv (hau.trans huv) hbv
    · exact hnone hpu hau (hbv.trans hvu)

theorem shared_iff (hc : f.container? x = some c) : f.Shared x d ↔
    c.top ≠ c.bottom ∧ f.isWithin c.top d = true ∧ f.isWithin c.bottom d = true := by
  unfold Shared
  simp only [hc, Option.some.injEq, exists_eq_left']

theorem parted_of_container_iff (hf : f.Sound) (hx : f.OverPlain x)
    (hc : f.container? x = some c) : ((f.children x).flatMap (f.front p)).Pairwise f.Parted ↔
      ∀ m, p m = true → ¬ f.Shared x m := by
  simp only [shared_iff hc]
  have hplain : ∀ y ∈ c.children, f.container? y = none := by
    rw [← children_of_container? hc]
    exact hx
  have htop := hplain c.top (Container.mem_children_iff.mpr (Or.inl rfl))
  have hbottom := hplain c.bottom (Container.mem_children_iff.mpr (Or.inr rfl))
  by_cases hsame : c.top = c.bottom
  · rw [children_of_container? hc, Container.children_of_eq hsame, List.flatMap_singleton]
    exact iff_of_true (parted_frontUpTo hf htop) fun m _ hm => hm.1 hsame
  · rw [children_of_container? hc, Container.children_of_ne hsame, List.flatMap_cons,
      List.flatMap_singleton, List.pairwise_append, parted_fronts_iff hf htop hbottom hsame]
    simp only [ne_eq, hsame, not_false_eq_true, true_and]
    exact ⟨fun h => h.2.2, fun h => ⟨parted_frontUpTo hf htop, parted_frontUpTo hf hbottom, h⟩⟩

/-- What a search finds is separate, but for matches that a container shows twice. -/
theorem separate_outermost_iff (hf : f.Sound) (hx : f.OverPlain x) :
    f.Separate (f.outermost p x) ↔ ∀ m, p m = true → ¬ f.Shared x m := by
  rw [separate_iff_parted hf fun m hm => plain_of_mem_outermost hf hx hm, outermost_eq]
  cases hc : f.container? x with
  | none =>
    refine iff_of_true (parted_below hf hc fun b hb => ?_) ?_
    · exact parted_frontUpTo hf (hf.container?_of_lists hb)
    · rintro m _ ⟨c, hc', _⟩
      rw [hc] at hc'
      cases hc'
  | some c => exact parted_of_container_iff hf hx hc

end Separate

end Stowage.Forest
