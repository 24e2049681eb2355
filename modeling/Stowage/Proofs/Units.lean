import Stowage.Proofs.State
import Mathlib.Algebra.BigOperators.Group.Finset.Basic
import Mathlib.Algebra.Order.BigOperators.Group.Finset

/-!
# Counting units

The units of an item class that all live slots hold together. The count is a sum over a finite set,
so that putting contents into one slot changes one term of it, and taking a slot away drops one.
-/

namespace Stowage

set_option autoImplicit false

/-- What two stacks have in common when they merge. -/
structure ItemClass where
  kind : ItemKind
  aux : List UInt8
deriving DecidableEq, Repr

def Stack.itemClass (t : Stack) : ItemClass := ⟨t.kind, t.aux⟩

def ItemClass.unitsIn (k : ItemClass) : Option Stack → Nat
  | none => 0
  | some t => if t.itemClass = k then t.quantity else 0

namespace ItemClass
variable (k : ItemClass)

@[simp] theorem unitsIn_none : k.unitsIn none = 0 := rfl

theorem unitsIn_some (t : Stack) :
    k.unitsIn (some t) = if t.itemClass = k then t.quantity else 0 := rfl

theorem unitsIn_resize (t : Stack) (n : Nat) :
    k.unitsIn (t.resize n) = if t.itemClass = k then n else 0 := by
  unfold Stack.resize
  split
  · rename_i hn
    simp [hn]
  · rfl

end ItemClass

theorem Stack.mergesWith_iff_itemClass {s t : Stack} :
    s.mergesWith t = true ↔ s.itemClass = t.itemClass := by
  simp [mergesWith_iff, itemClass]

def Arena.live {α : Type} (a : Arena α) : Finset NodeId :=
  ((Finset.range a.places.size).image fun i => ⟨i, a.generationAt i⟩).filter fun x => a.contains x

theorem Arena.mem_live {α : Type} {a : Arena α} {x : NodeId} :
    x ∈ a.live ↔ a.contains x = true := by
  simp only [live, Finset.mem_filter, Finset.mem_image, Finset.mem_range, and_iff_right_iff_imp]
  intro hx
  obtain ⟨v, hv⟩ := contains_iff.mp hx
  exact ⟨x.index, index_lt_of_get? hv, by rw [generationAt_of_contains hx]⟩

namespace State

def liveSlots (s : State) : Finset SlotId :=
  s.forest.nodes.live.filter fun x => (s.forest.slot x).isSome

def units (s : State) (k : ItemClass) : Nat := ∑ x ∈ s.liveSlots, k.unitsIn (s.contents x)

theorem mem_liveSlots {s : State} {x : SlotId} :
    x ∈ s.liveSlots ↔ (s.forest.slot x).isSome = true := by
  simp only [liveSlots, Finset.mem_filter, Arena.mem_live, and_iff_right_iff_imp]
  intro hx
  obtain ⟨t, ht⟩ := Option.isSome_iff_exists.mp hx
  exact Forest.contains_of_slot ht

section Change
variable {s t : State} {x : SlotId} (k : ItemClass)

theorem contents_of_slot_eq (h : t.forest.slot x = s.forest.slot x) :
    t.contents x = s.contents x := by
  unfold contents Forest.contents
  rw [h]

theorem contents_of_slot {slot : Slot} (h : s.forest.slot x = some slot) :
    s.contents x = slot.contents := by
  unfold contents Forest.contents
  rw [h]
  rfl

theorem units_congr (h : ∀ x, t.forest.slot x = s.forest.slot x) : t.units k = s.units k := by
  have hslots : t.liveSlots = s.liveSlots := by
    ext x
    rw [mem_liveSlots, mem_liveSlots, h]
  unfold units
  rw [hslots]
  exact Finset.sum_congr rfl fun x _ => by rw [contents_of_slot_eq (h x)]

theorem units_put {slot : Slot} {after : Option Stack} (hx : s.forest.slot x = some slot)
    (h : ∀ y, t.forest.slot y = (s.forest.setContents x after).slot y) :
    t.units k + k.unitsIn slot.contents = s.units k + k.unitsIn after := by
  have hothers : ∀ y, y ≠ x → t.forest.slot y = s.forest.slot y := by
    intro y hy
    rw [h, Forest.slot_setContents, if_neg hy]
  have hself : t.forest.slot x = some { slot with contents := after } := by
    rw [h, Forest.slot_setContents, if_pos rfl, hx]
    rfl
  have hslots : t.liveSlots = s.liveSlots := by
    ext y
    by_cases hy : y = x
    · simp [mem_liveSlots, hy, hself, hx]
    · rw [mem_liveSlots, mem_liveSlots, hothers y hy]
  have hmem : x ∈ s.liveSlots := by simp [mem_liveSlots, hx]
  have hrest : ∑ y ∈ s.liveSlots.erase x, k.unitsIn (t.contents y) =
      ∑ y ∈ s.liveSlots.erase x, k.unitsIn (s.contents y) :=
    Finset.sum_congr rfl fun y hy => by
      rw [contents_of_slot_eq (hothers y (Finset.ne_of_mem_erase hy))]
  have hold := Finset.add_sum_erase s.liveSlots (fun y => k.unitsIn (s.contents y)) hmem
  have hnew := Finset.add_sum_erase s.liveSlots (fun y => k.unitsIn (t.contents y)) hmem
  simp only [contents_of_slot hx] at hold
  simp only [contents_of_slot hself, hrest] at hnew
  unfold units
  rw [hslots]
  omega

theorem units_erase (hx : t.forest.slot x = none)
    (h : ∀ y, y ≠ x → t.forest.slot y = s.forest.slot y) :
    s.units k = t.units k + k.unitsIn (s.contents x) := by
  have hslots : t.liveSlots = s.liveSlots.erase x := by
    ext y
    by_cases hy : y = x
    · simp [mem_liveSlots, hy, hx]
    · simp [mem_liveSlots, hy, h y hy]
  have hrest : ∑ y ∈ s.liveSlots.erase x, k.unitsIn (t.contents y) =
      ∑ y ∈ s.liveSlots.erase x, k.unitsIn (s.contents y) :=
    Finset.sum_congr rfl fun y hy => by
      rw [contents_of_slot_eq (h y (Finset.ne_of_mem_erase hy))]
  unfold units
  rw [hslots, hrest]
  by_cases hmem : x ∈ s.liveSlots
  · exact (Finset.sum_erase_add _ _ hmem).symm
  · have hnone : s.contents x = none := by
      rw [mem_liveSlots, Option.not_isSome_iff_eq_none] at hmem
      simp [contents, Forest.contents, hmem]
    rw [Finset.erase_eq_of_notMem hmem, hnone]
    rfl

end Change

end State

end Stowage
