import Stowage.View
import Mathlib.Data.List.Nodup

/-!
# What is in a view

A view has the slots that it was made from, each once, and no members if it has no slots.
-/

namespace Stowage

set_option autoImplicit false

section Distinct
variable {x : NodeId} {l : List NodeId}

theorem mem_distinct_iff : x ∈ distinct l ↔ x ∈ l := by
  induction l with
  | nil => rfl
  | cons a rest ih =>
    simp only [distinct, List.mem_cons, List.mem_filter, ih, decide_eq_true_eq]
    by_cases hx : x = a <;> simp [hx]

theorem nodup_distinct (l : List NodeId) : (distinct l).Nodup := by
  induction l with
  | nil => exact List.nodup_nil
  | cons a rest ih =>
    refine List.nodup_cons.mpr ⟨?_, ih.filter _⟩
    intro h
    simp at h

theorem distinct_of_nodup (h : l.Nodup) : distinct l = l := by
  induction l with
  | nil => rfl
  | cons a rest ih =>
    obtain ⟨ha, hrest⟩ := List.nodup_cons.mp h
    have hkept : rest.filter (fun b => b ≠ a) = rest :=
      List.filter_eq_self.mpr fun b hb => decide_eq_true fun he => ha (he ▸ hb)
    unfold distinct
    rw [ih hrest, hkept]

theorem distinct_filter (p : NodeId → Bool) (l : List NodeId) :
    distinct (l.filter p) = (distinct l).filter p := by
  induction l with
  | nil => rfl
  | cons a rest ih =>
    cases ha : p a with
    | true =>
      rw [List.filter_cons_of_pos ha, distinct, distinct, List.filter_cons_of_pos ha, ih,
        List.filter_comm]
    | false =>
      have ha : ¬ p a = true := Bool.eq_false_iff.mp ha
      rw [List.filter_cons_of_neg ha, distinct, List.filter_cons_of_neg ha, ih, List.filter_filter]
      refine List.filter_congr fun b _ => ?_
      cases hb : p b with
      | false => rfl
      | true =>
        have hne : b ≠ a := fun he => ha (he ▸ hb)
        exact (decide_eq_true hne).symm

theorem distinct_starts (l m : List NodeId) : distinct l <+: distinct (l ++ m) := by
  induction l with
  | nil => exact List.nil_prefix
  | cons a rest ih => exact List.cons_prefix_cons.mpr ⟨rfl, ih.filter _⟩

end Distinct

namespace View
variable {members : List NodeId} {slots : List SlotId} {s : SlotId}

/-- The view was made from a list of slots; no other views can be had. -/
def Made (v : View) : Prop := ∃ members slots, v = .new members slots

theorem new_of_nil : View.new members [] = .empty := rfl

theorem new_of_ne_nil (h : slots ≠ []) : View.new members slots = ⟨members, distinct slots⟩ := by
  unfold View.new
  rw [if_neg]
  simpa using h

theorem slots_new (members : List NodeId) (slots : List SlotId) :
    (View.new members slots).slots = distinct slots := by
  by_cases h : slots = []
  · rw [h, new_of_nil]
    rfl
  · rw [new_of_ne_nil h]

theorem mem_slots_new_iff : s ∈ (View.new members slots).slots ↔ s ∈ slots := by
  rw [slots_new, mem_distinct_iff]

theorem isEmpty_new_iff : (View.new members slots).isEmpty = true ↔ slots = [] := by
  unfold isEmpty
  rw [slots_new]
  cases slots <;> simp [distinct]

theorem nodup_new (members : List NodeId) (slots : List SlotId) :
    (View.new members slots).slots.Nodup := by
  rw [slots_new]
  exact nodup_distinct slots

theorem Made.nodup {v : View} (h : v.Made) : v.slots.Nodup := by
  obtain ⟨members, slots, rfl⟩ := h
  exact nodup_new members slots

theorem not_mem_without (v : View) (slot : SlotId) : slot ∉ (v.without [slot]).slots := by
  intro h
  simp [without, mem_slots_new_iff] at h

end View

end Stowage
