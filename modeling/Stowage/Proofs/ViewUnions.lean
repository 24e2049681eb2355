import Stowage.Proofs.Narrowing

/-!
# Putting views together

Whatever way a view was obtained, it has no slot twice and is the empty view if it has none. On such
views putting together is an operation on two lists at once, the members and the slots: what the
second list has besides the first follows the first. So it is associative, a view added to itself is
the view, and the empty view makes no difference on either side.
-/

namespace Stowage

set_option autoImplicit false

def joined (l m : List NodeId) : List NodeId := l ++ m.filter fun x => !l.contains x

section Joined
variable {x : NodeId} {l m : List NodeId}

theorem mem_joined_iff : x ∈ joined l m ↔ x ∈ l ∨ x ∈ m := by
  unfold joined
  rw [List.mem_append, List.mem_filter]
  by_cases hx : x ∈ l <;> simp [hx]

theorem nil_joined (l : List NodeId) : joined [] l = l := List.filter_eq_self.mpr fun _ _ => rfl

theorem joined_nil (l : List NodeId) : joined l [] = l := List.append_nil l

theorem joined_self (l : List NodeId) : joined l l = l := by
  have hnone : l.filter (fun x => !l.contains x) = [] :=
    List.filter_eq_nil_iff.mpr fun x hx => by simp [hx]
  unfold joined
  rw [hnone, List.append_nil]

theorem joined_assoc (k l m : List NodeId) : joined (joined k l) m = joined k (joined l m) := by
  have hrest : m.filter (fun x => !(joined k l).contains x) =
      (m.filter fun x => !l.contains x).filter fun x => !k.contains x := by
    rw [List.filter_filter]
    refine List.filter_congr fun x _ => ?_
    simp [mem_joined_iff]
  calc joined (joined k l) m
      = (k ++ l.filter fun x => !k.contains x) ++
          (m.filter fun x => !l.contains x).filter fun x => !k.contains x := by
        rw [joined, hrest, joined]
    _ = k ++ (l ++ m.filter fun x => !l.contains x).filter fun x => !k.contains x := by
        rw [List.append_assoc, ← List.filter_append]

theorem filter_joined (p : NodeId → Bool) (l m : List NodeId) :
    (joined l m).filter p = joined (l.filter p) (m.filter p) := by
  unfold joined
  rw [List.filter_append, List.filter_filter, List.filter_filter]
  congr 1
  refine List.filter_congr fun x _ => ?_
  cases hp : p x <;> simp [hp]

theorem distinct_append (hl : l.Nodup) (hm : m.Nodup) : distinct (l ++ m) = joined l m := by
  induction l with
  | nil => rw [List.nil_append, distinct_of_nodup hm, nil_joined]
  | cons a rest ih =>
    obtain ⟨ha, hrest⟩ := List.nodup_cons.mp hl
    have hkept : rest.filter (fun b => b ≠ a) = rest :=
      List.filter_eq_self.mpr fun b hb => decide_eq_true fun he => ha (he ▸ hb)
    have hnew : (m.filter fun x => !rest.contains x).filter (fun b => b ≠ a) =
        m.filter fun x => !(a :: rest).contains x := by
      rw [List.filter_filter]
      refine List.filter_congr fun x _ => ?_
      simp
    rw [List.cons_append, distinct, ih hrest, joined, List.filter_append, hkept, hnew]
    rfl

end Joined

namespace View

/-- A view that can be had: of a node or of slots, by a query or by a search of nodes or slots in
whatever state, by narrowing another, or by putting views together and leaving slots out, in any
order. -/
inductive Obtainable : View → Prop where
  | empty : Obtainable .empty
  | ofSlots (slots : List SlotId) : Obtainable (.ofSlots slots)
  | ofNode (f : Forest) (node : NodeId) : Obtainable (.ofNode f node)
  | search (s : State) (node : NodeId) (queries : List Query) : Obtainable (s.search node queries)
  | searchSlots (s : State) (node : NodeId) (p : SlotId → Slot → Bool) :
      Obtainable (s.searchSlots node p)
  | searchNodes (s : State) (node : NodeId) (p : NodeId → Bool) : Obtainable (s.searchNodes node p)
  | narrow (s : State) {v : View} (queries : List Query) :
      Obtainable v → Obtainable (v.narrow s queries)
  | union {v w : View} : Obtainable v → Obtainable w → Obtainable (v.union w)
  | without {v : View} (excluded : List SlotId) : Obtainable v → Obtainable (v.without excluded)

/-- No slot is there twice, and a view without slots is the empty view. -/
structure Canonical (v : View) : Prop where
  nodup : v.slots.Nodup
  eq_empty : v.slots = [] → v = .empty

section Laws
variable {u v w : View}

theorem made_empty : View.empty.Made := ⟨[], [], rfl⟩

theorem Made.canonical (h : v.Made) : v.Canonical where
  nodup := h.nodup
  eq_empty := by
    obtain ⟨members, slots, rfl⟩ := h
    intro hnone
    have hslots : slots = [] := isEmpty_new_iff.mp (List.isEmpty_iff.mpr hnone)
    rw [hslots, new_of_nil]

theorem made_search (s : State) (node : NodeId) (queries : List Query) :
    (s.search node queries).Made := by
  unfold State.search
  split
  · exact made_empty
  · split
    · exact ⟨_, _, rfl⟩
    · exact ⟨_, _, rfl⟩

/-- Every way to a view ends with making it from a list of slots. -/
theorem Obtainable.made (h : v.Obtainable) : v.Made := by
  cases h with
  | empty => exact made_empty
  | ofSlots slots => exact ⟨_, _, rfl⟩
  | ofNode f node => exact ⟨_, _, rfl⟩
  | search s node queries => exact made_search s node queries
  | searchSlots s node p => exact ⟨_, _, rfl⟩
  | searchNodes s node p => exact ⟨_, _, rfl⟩
  | narrow s queries _ => exact narrow_made s _ queries
  | union _ _ => exact ⟨_, _, rfl⟩
  | without excluded _ => exact ⟨_, _, rfl⟩

theorem Obtainable.canonical (h : v.Obtainable) : v.Canonical := h.made.canonical

theorem Canonical.union_eq (hv : v.Canonical) (hw : w.Canonical) :
    v.union w = ⟨joined v.members w.members, joined v.slots w.slots⟩ := by
  unfold union
  by_cases hnone : v.slots ++ w.slots = []
  · obtain ⟨hvnone, hwnone⟩ := List.append_eq_nil_iff.mp hnone
    rw [hv.eq_empty hvnone, hw.eq_empty hwnone]
    rfl
  · rw [new_of_ne_nil hnone, distinct_append hv.nodup hw.nodup]
    rfl

theorem canonical_union (v w : View) : (v.union w).Canonical := Made.canonical ⟨_, _, rfl⟩

theorem canonical_without (v : View) (excluded : List SlotId) : (v.without excluded).Canonical :=
  Made.canonical ⟨_, _, rfl⟩

theorem Canonical.union_assoc (hu : u.Canonical) (hv : v.Canonical) (hw : w.Canonical) :
    (u.union v).union w = u.union (v.union w) := by
  rw [(canonical_union u v).union_eq hw, hu.union_eq (canonical_union v w), hu.union_eq hv,
    hv.union_eq hw]
  exact congrArg₂ View.mk (joined_assoc _ _ _) (joined_assoc _ _ _)

theorem Canonical.union_self (hv : v.Canonical) : v.union v = v := by
  rw [hv.union_eq hv, joined_self, joined_self]

theorem Canonical.empty_union (hv : v.Canonical) : View.empty.union v = v := by
  rw [made_empty.canonical.union_eq hv]
  exact congrArg₂ View.mk (nil_joined _) (nil_joined _)

theorem Canonical.union_empty (hv : v.Canonical) : v.union .empty = v := by
  rw [hv.union_eq made_empty.canonical]
  exact congrArg₂ View.mk (joined_nil _) (joined_nil _)

theorem Canonical.slots_union (hv : v.Canonical) (hw : w.Canonical) :
    (v.union w).slots = v.slots ++ w.slots.filter fun s => !v.slots.contains s := by
  rw [hv.union_eq hw]
  rfl

theorem Canonical.slots_without (hv : v.Canonical) (excluded : List SlotId) :
    (v.without excluded).slots = v.slots.filter fun s => !excluded.contains s := by
  unfold without
  rw [slots_new, distinct_of_nodup (hv.nodup.filter _)]

theorem Canonical.without_union (hv : v.Canonical) (hw : w.Canonical) (excluded : List SlotId) :
    ((v.union w).without excluded).slots =
      ((v.without excluded).union (w.without excluded)).slots := by
  rw [(canonical_union v w).slots_without, hv.union_eq hw,
    (canonical_without v excluded).union_eq (canonical_without w excluded),
    hv.slots_without, hw.slots_without]
  exact filter_joined _ _ _

end Laws

end View

/-- All views that can be had are free of repetitions and have one empty view. Putting them together
is associative and idempotent with the empty view as identity, it appends the slots that are new,
and leaving slots out of both views leaves them out of the whole. -/
theorem views_form_monoid {u v w : View} (hu : u.Obtainable) (hv : v.Obtainable)
    (hw : w.Obtainable) (excluded : List SlotId) :
    (u.slots.Nodup ∧ (u.slots = [] → u = .empty)) ∧
    (u.union v).union w = u.union (v.union w) ∧
    u.union u = u ∧ View.empty.union u = u ∧ u.union .empty = u ∧
    (u.union v).slots = u.slots ++ v.slots.filter (fun s => !u.slots.contains s) ∧
    ((u.union v).without excluded).slots =
      ((u.without excluded).union (v.without excluded)).slots := by
  have hu := hu.canonical
  have hv := hv.canonical
  exact ⟨⟨hu.nodup, hu.eq_empty⟩, hu.union_assoc hv hw.canonical, hu.union_self, hu.empty_union,
    hu.union_empty, hu.slots_union hv, hu.without_union hv excluded⟩

theorem views_form_monoid_visit :
    (View.ofNode (World.reached Operation.visit).2.state.forest ⟨3, 0⟩).Obtainable ∧
    (View.ofSlots [⟨1, 0⟩, ⟨2, 0⟩]).Obtainable ∧
    ((World.reached Operation.visit).2.state.searchNodes ⟨3, 0⟩ fun _ => true).Obtainable ∧
    ((View.ofNode (World.reached Operation.visit).2.state.forest ⟨3, 0⟩).union
      (.ofSlots [⟨1, 0⟩, ⟨2, 0⟩])).slots = [⟨0, 0⟩, ⟨1, 0⟩, ⟨2, 0⟩] ∧
    (((View.ofNode (World.reached Operation.visit).2.state.forest ⟨3, 0⟩).union
      (.ofSlots [⟨1, 0⟩, ⟨2, 0⟩])).without [⟨0, 0⟩]).slots = [⟨1, 0⟩, ⟨2, 0⟩] := by
  have hnode := View.Obtainable.ofNode (World.reached Operation.visit).2.state.forest ⟨3, 0⟩
  have hslots := View.Obtainable.ofSlots [⟨1, 0⟩, ⟨2, 0⟩]
  have hnodes := View.Obtainable.searchNodes (World.reached Operation.visit).2.state ⟨3, 0⟩
    fun _ => true
  obtain ⟨_, _, _, _, _, hunion, hwithout⟩ := views_form_monoid hnode hslots hnodes [⟨0, 0⟩]
  refine ⟨hnode, hslots, hnodes, ?_, ?_⟩
  · rw [hunion]
    decide +kernel
  · rw [hwithout]
    decide +kernel

end Stowage
