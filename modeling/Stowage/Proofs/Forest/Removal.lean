import Stowage.Proofs.Forest.Sound

/-!
# Taking nodes away

A set of nodes can go when it takes along all children or none, and each container together with its
cursor. A whole tree is such a set, and so is a container with its cursor.
-/

namespace Stowage.Forest

set_option autoImplicit false

/-- No link leads from inside the list to outside or back. -/
structure Closed (f : Forest) (ids : List NodeId) : Prop where
  lists : ∀ {p c : NodeId}, f.Lists p c → (p ∈ ids ↔ c ∈ ids)
  cursor : ∀ {p : NodeId} {k : Container}, f.container? p = some k → (p ∈ ids ↔ k.cursor ∈ ids)

section
variable {f : Forest} {ids : List NodeId} {x : NodeId}

theorem node?_removed_of_mem (h : x ∈ ids) : (ids.foldl Forest.remove f).node? x = none := by
  rw [node?_foldl_remove, if_pos h]

theorem node?_removed_of_not_mem (h : x ∉ ids) :
    (ids.foldl Forest.remove f).node? x = f.node? x := by
  rw [node?_foldl_remove, if_neg h]

theorem contains_removed_iff :
    (ids.foldl Forest.remove f).contains x = true ↔ f.contains x = true ∧ x ∉ ids := by
  rw [contains_iff, contains_iff]
  by_cases hx : x ∈ ids
  · simp [node?_removed_of_mem hx, hx]
  · simp [node?_removed_of_not_mem hx, hx]

theorem contains_removed_of_mem (h : x ∈ ids) :
    (ids.foldl Forest.remove f).contains x = false := by
  rw [Bool.eq_false_iff]
  intro hlive
  exact (contains_removed_iff.mp hlive).2 h

theorem container?_removed (x : NodeId) :
    (ids.foldl Forest.remove f).container? x = if x ∈ ids then none else f.container? x := by
  unfold container?
  rw [node?_foldl_remove]
  split <;> rfl

theorem of_container?_removed {k : Container}
    (h : (ids.foldl Forest.remove f).container? x = some k) :
    x ∉ ids ∧ f.container? x = some k := by
  rw [container?_removed] at h
  split at h
  · cases h
  · rename_i hx
    exact ⟨hx, h⟩

theorem composite?_removed (x : NodeId) :
    (ids.foldl Forest.remove f).composite? x = if x ∈ ids then none else f.composite? x := by
  unfold composite?
  rw [node?_foldl_remove]
  split <;> rfl

theorem slots_removed (h : x ∉ ids) : (ids.foldl Forest.remove f).slots x = f.slots x := by
  unfold slots
  rw [node?_removed_of_not_mem h]

theorem slot_removed (h : x ∉ ids) : (ids.foldl Forest.remove f).slot x = f.slot x := by
  unfold slot
  rw [node?_removed_of_not_mem h]

theorem contents_removed (h : x ∉ ids) :
    (ids.foldl Forest.remove f).contents x = f.contents x := by
  unfold contents
  rw [slot_removed h]

theorem parent_removed (x : NodeId) :
    (ids.foldl Forest.remove f).parent x = if x ∈ ids then none else f.parent x := by
  unfold parent
  rw [node?_foldl_remove]
  split <;> rfl

theorem lists_removed {p c : NodeId} :
    (ids.foldl Forest.remove f).Lists p c ↔ p ∉ ids ∧ f.Lists p c := by
  unfold Lists
  rw [composite?_removed]
  by_cases hp : p ∈ ids <;> simp [hp]

theorem Sound.removeAll (hf : f.Sound) (hc : f.Closed ids) :
    (ids.foldl Forest.remove f).Sound where
  arena := sound_foldl_remove ids hf.arena
  parent_of_lists := by
    intro p c h
    obtain ⟨hp, hl⟩ := lists_removed.mp h
    have hcs : c ∉ ids := fun h => hp ((hc.lists hl).mpr h)
    rw [parent_removed, if_neg hcs]
    exact hf.parent_of_lists hl
  cases_of_parent := by
    intro p c h
    rw [parent_removed] at h
    split at h
    · cases h
    · rename_i hcs
      rcases hf.cases_of_parent h with hl | ⟨k, hk, rfl⟩
      · exact Or.inl (lists_removed.mpr ⟨fun hp => hcs ((hc.lists hl).mp hp), hl⟩)
      · refine Or.inr ⟨k, ?_, rfl⟩
        rw [container?_removed, if_neg fun hp => hcs ((hc.cursor hk).mp hp)]
        exact hk
  nodup_children := by
    intro p k hk
    rw [composite?_removed] at hk
    split at hk
    · cases hk
    · exact hf.nodup_children hk
  slots_perm := by
    intro p k hk
    rw [composite?_removed] at hk
    split at hk
    · cases hk
    · rename_i hp
      have hsame : ∀ e ∈ k.children,
          (ids.foldl Forest.remove f).slots e.node = f.slots e.node := by
        intro e he
        have hl : f.Lists p e.node := ⟨k, hk, List.mem_map_of_mem he⟩
        exact slots_removed fun h => hp ((hc.lists hl).mpr h)
      rw [List.flatMap_congr hsame]
      exact hf.slots_perm hk
  fill_perm := by
    intro p k hk
    rw [composite?_removed] at hk
    split at hk
    · cases hk
    · exact hf.fill_perm hk
  ranked := by
    obtain ⟨rank, hr⟩ := hf.ranked
    exact ⟨rank, fun p c h => hr p c (lists_removed.mp h).2⟩
  parent_container := by
    intro p k hk
    rw [container?_removed] at hk
    split at hk
    · cases hk
    · rename_i hp
      rw [parent_removed, if_neg hp]
      exact hf.parent_container hk
  parent_cursor := by
    intro p k hk
    rw [container?_removed] at hk
    split at hk
    · cases hk
    · rename_i hp
      rw [parent_removed, if_neg fun h => hp ((hc.cursor hk).mpr h)]
      exact hf.parent_cursor hk
  slot_cursor := by
    intro p k hk
    rw [container?_removed] at hk
    split at hk
    · cases hk
    · rename_i hp
      rw [slot_removed fun h => hp ((hc.cursor hk).mpr h)]
      exact hf.slot_cursor hk
  nodup_bound := by
    intro p k hk
    rw [container?_removed] at hk
    split at hk
    · cases hk
    · exact hf.nodup_bound hk

end

section Sets
variable {f : Forest} (hf : f.Sound)
include hf

theorem Sound.closed_container {id : NodeId} {c : Container} (hc : f.container? id = some c) :
    f.Closed [c.cursor, id] := by
  have hcursor := hf.container?_cursor hc
  have hlisted : ∀ p d, f.Lists p d → p ∉ [c.cursor, id] ∧ d ∉ [c.cursor, id] := by
    intro p d hl
    have hlist := hl
    obtain ⟨k, hk, _⟩ := hlist
    simp only [List.mem_cons, List.not_mem_nil, or_false, not_or]
    refine ⟨⟨?_, ?_⟩, ?_, ?_⟩
    · rintro rfl
      obtain ⟨s, hs⟩ := Option.isSome_iff_exists.mp (hf.slot_cursor hc)
      obtain ⟨n, hn, hsn⟩ := slot_eq_some_iff.mp hs
      simp [composite?, hn, hsn, Content.composite?] at hk
    · rintro rfl
      rw [composite?_of_container? hc] at hk
      cases hk
    · rintro rfl
      exact hf.not_lists_cursor hc p hl
    · rintro rfl
      rw [hf.container?_of_lists hl] at hc
      cases hc
  refine ⟨?_, ?_⟩
  · intro p d hl
    obtain ⟨hp, hd⟩ := hlisted p d hl
    simp only [hp, hd]
  · intro p k hk
    simp only [List.mem_cons, List.not_mem_nil, or_false]
    constructor
    · rintro (rfl | rfl)
      · rw [hcursor] at hk
        cases hk
      · rw [hc] at hk
        cases hk
        exact Or.inl rfl
    · rintro (h | h)
      · exact Or.inr (hf.cursor_inj hk hc h)
      · have hp := hf.parent_cursor hk
        rw [h, hf.parent_container hc] at hp
        cases hp

theorem Sound.closed_tree {r : NodeId} (hr : f.parent r = none) (hn : f.container? r = none) :
    f.Closed (f.descendants r ++ [r]) := by
  have hmem : ∀ x, x ∈ f.descendants r ++ [r] ↔ ∃ n, f.Under n r x := by
    intro x
    rw [List.mem_append, List.mem_singleton, or_comm]
    exact hf.eq_or_mem_descendants_iff hn
  refine ⟨?_, ?_⟩
  · intro p c hl
    rw [hmem, hmem]
    constructor
    · rintro ⟨n, hu⟩
      have hlast := hu.trans (.single hl)
      exact ⟨1 + n, hlast⟩
    · rintro ⟨n, hu⟩
      cases n with
      | zero =>
        cases hu
        rw [hf.parent_of_lists hl] at hr
        cases hr
      | succ n =>
        obtain ⟨b, hb, hbc⟩ := hu.last
        have hp := hf.parent_of_lists hbc
        rw [hf.parent_of_lists hl] at hp
        cases hp
        exact ⟨n, hb⟩
  · intro p k hk
    rw [hmem, hmem]
    constructor
    · rintro ⟨n, hu⟩
      cases n with
      | zero =>
        cases hu
        rw [hn] at hk
        cases hk
      | succ n =>
        obtain ⟨b, _, hb⟩ := hu.last
        rw [hf.container?_of_lists hb] at hk
        cases hk
    · rintro ⟨n, hu⟩
      cases n with
      | zero =>
        cases hu
        rw [hf.parent_cursor hk] at hr
        cases hr
      | succ n =>
        obtain ⟨b, _, hb⟩ := hu.last
        exact absurd hb (hf.not_lists_cursor hk b)

end Sets

end Stowage.Forest
