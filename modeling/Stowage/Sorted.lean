/-!
# Stable sorting

Insertion from the right keeps elements in order that the comparison does not tell apart.
-/

namespace Stowage

set_option autoImplicit false

variable {α : Type}

/-- Puts `a` before the first element that may follow it. -/
def insertSorted (le : α → α → Bool) (a : α) : List α → List α
  | [] => [a]
  | b :: rest => if le a b then a :: b :: rest else b :: insertSorted le a rest

def stableSort (le : α → α → Bool) : List α → List α
  | [] => []
  | a :: rest => insertSorted le a (stableSort le rest)

theorem insertSorted_perm (le : α → α → Bool) (a : α) (l : List α) :
    (insertSorted le a l).Perm (a :: l) := by
  induction l with
  | nil => exact .refl _
  | cons b rest ih =>
    simp only [insertSorted]
    split
    · exact .refl _
    · exact (ih.cons b).trans (.swap a b rest)

theorem stableSort_perm (le : α → α → Bool) (l : List α) : (stableSort le l).Perm l := by
  induction l with
  | nil => exact .refl _
  | cons a rest ih => exact (insertSorted_perm le a _).trans (ih.cons a)

theorem pairwise_insertSorted {le : α → α → Bool} (total : ∀ a b, le a b = true ∨ le b a = true)
    (trans : ∀ a b c, le a b = true → le b c = true → le a c = true) (a : α) {l : List α}
    (h : l.Pairwise fun x y => le x y = true) :
    (insertSorted le a l).Pairwise fun x y => le x y = true := by
  induction l with
  | nil => simp [insertSorted]
  | cons b rest ih =>
    obtain ⟨hb, hrest⟩ := List.pairwise_cons.1 h
    simp only [insertSorted]
    split
    · rename_i hab
      refine List.pairwise_cons.2 ⟨fun c hc => ?_, h⟩
      rcases List.mem_cons.1 hc with rfl | hc
      · exact hab
      · exact trans a b c hab (hb c hc)
    · rename_i hab
      refine List.pairwise_cons.2 ⟨fun c hc => ?_, ih hrest⟩
      rcases List.mem_cons.1 ((insertSorted_perm le a rest).mem_iff.1 hc) with rfl | hc
      · exact (total c b).resolve_left hab
      · exact hb c hc

theorem pairwise_stableSort {le : α → α → Bool} (total : ∀ a b, le a b = true ∨ le b a = true)
    (trans : ∀ a b c, le a b = true → le b c = true → le a c = true) (l : List α) :
    (stableSort le l).Pairwise fun x y => le x y = true := by
  induction l with
  | nil => exact List.Pairwise.nil
  | cons a rest ih => exact pairwise_insertSorted total trans a ih

theorem map_insertSorted {β : Type} (le : β → β → Bool) (g : α → β) (a : α) (l : List α) :
    (insertSorted (fun a b => le (g a) (g b)) a l).map g = insertSorted le (g a) (l.map g) := by
  induction l with
  | nil => rfl
  | cons b rest ih =>
    simp only [insertSorted, List.map_cons]
    split
    · rfl
    · rw [List.map_cons, ih]

/-- Sorting by a key sorts the keys. -/
theorem map_stableSort {β : Type} (le : β → β → Bool) (g : α → β) (l : List α) :
    (stableSort (fun a b => le (g a) (g b)) l).map g = stableSort le (l.map g) := by
  induction l with
  | nil => rfl
  | cons a rest ih => simp only [stableSort, List.map_cons, map_insertSorted, ih]

theorem filter_insertSorted {le : α → α → Bool} {q : α → Bool}
    (h : ∀ a b, q a = true → q b = true → le a b = true) (a : α) (l : List α) :
    (insertSorted le a l).filter q = (a :: l).filter q := by
  induction l with
  | nil => rfl
  | cons b rest ih =>
    simp only [insertSorted]
    split
    · rfl
    · rename_i hab
      have hboth : ¬ (q a = true ∧ q b = true) := fun hq => hab (h a b hq.1 hq.2)
      by_cases ha : q a = true
      · have hb : q b ≠ true := fun hb => hboth ⟨ha, hb⟩
        simp only [List.filter_cons, ih, ha, hb]
        rfl
      · simp only [List.filter_cons, ih, ha]
        rfl

/-- Elements that the comparison does not tell apart keep their order. -/
theorem filter_stableSort {le : α → α → Bool} {q : α → Bool}
    (h : ∀ a b, q a = true → q b = true → le a b = true) (l : List α) :
    (stableSort le l).filter q = l.filter q := by
  induction l with
  | nil => rfl
  | cons a rest ih => rw [stableSort, filter_insertSorted h, List.filter_cons, List.filter_cons, ih]

end Stowage
