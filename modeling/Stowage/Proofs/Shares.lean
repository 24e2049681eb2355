import Stowage.NodeId
import Mathlib.Algebra.BigOperators.Group.List.Basic
import Mathlib.Algebra.Order.Ring.Nat
import Mathlib.Data.List.Nodup

/-!
# Shares in turn

A quantity goes along a list of slots, and each takes what it can of what those in front of it left.
Together they take all of it, or all that they can. Only the last one of those that take anything
may be able to take more. Going along the list slot by slot comes to the same.
-/

namespace Stowage

set_option autoImplicit false

/-- What a slot takes of a quantity when its turn comes. -/
def share (cap : NodeId → Nat) (q : Nat) (turns : List NodeId) (x : NodeId) : Nat :=
  min (cap x) (q - ((turns.takeWhile fun y => y ≠ x).map cap).sum)

def takers (cap : NodeId → Nat) (q : Nat) (turns : List NodeId) : List NodeId :=
  turns.filter fun x => 0 < share cap q turns x

variable {cap : NodeId → Nat} {q : Nat} {x y : NodeId} {l m : List NodeId}

theorem share_le (cap : NodeId → Nat) (q : Nat) (l : List NodeId) (x : NodeId) :
    share cap q l x ≤ cap x := Nat.min_le_left _ _

theorem share_cons_self (cap : NodeId → Nat) (q : Nat) (x : NodeId) (l : List NodeId) :
    share cap q (x :: l) x = min (cap x) q := by
  simp [share]

theorem share_cons_of_ne (h : y ≠ x) : share cap q (x :: l) y = share cap (q - cap x) l y := by
  simp [share, Ne.symm h, Nat.sub_sub]

theorem share_append_right (h : y ∉ l) :
    share cap q (l ++ m) y = share cap (q - (l.map cap).sum) m y := by
  induction l generalizing q with
  | nil => rfl
  | cons x rest ih =>
    rw [List.mem_cons, not_or] at h
    rw [List.cons_append, share_cons_of_ne h.1, ih h.2, List.map_cons, List.sum_cons, Nat.sub_sub]

theorem share_append_left (h : y ∈ l) : share cap q (l ++ m) y = share cap q l y := by
  induction l generalizing q with
  | nil => cases h
  | cons x rest ih =>
    rw [List.cons_append]
    by_cases hyx : y = x
    · rw [hyx, share_cons_self, share_cons_self]
    · rw [share_cons_of_ne hyx, share_cons_of_ne hyx,
        ih ((List.mem_cons.mp h).resolve_left hyx)]

theorem takers_sublist (cap : NodeId → Nat) (q : Nat) (l : List NodeId) :
    (takers cap q l).Sublist l := List.filter_sublist

theorem mem_takers_iff : x ∈ takers cap q l ↔ x ∈ l ∧ 0 < share cap q l x := by
  rw [takers, List.mem_filter, decide_eq_true_iff]

theorem takers_append (h : l.Disjoint m) :
    takers cap q (l ++ m) = takers cap q l ++ takers cap (q - (l.map cap).sum) m := by
  unfold takers
  rw [List.filter_append]
  congr 1
  · exact List.filter_congr fun y hy => by rw [share_append_left hy]
  · exact List.filter_congr fun y hy => by rw [share_append_right fun hyl => h hyl hy]

theorem takers_zero (cap : NodeId → Nat) (l : List NodeId) : takers cap 0 l = [] := by
  simp [takers, share]

theorem sum_shares (cap : NodeId → Nat) (q : Nat) (hl : l.Nodup) :
    (l.map (share cap q l)).sum = min q (l.map cap).sum := by
  induction l generalizing q with
  | nil => simp
  | cons x rest ih =>
    obtain ⟨hx, hrest⟩ := List.nodup_cons.mp hl
    have hshares : rest.map (share cap q (x :: rest)) = rest.map (share cap (q - cap x) rest) :=
      List.map_congr_left fun y hy => share_cons_of_ne fun he => hx (he ▸ hy)
    rw [List.map_cons, List.sum_cons, share_cons_self, hshares, ih _ hrest, List.map_cons,
      List.sum_cons]
    omega

theorem sum_takers (cap : NodeId → Nat) (q : Nat) (hl : l.Nodup) :
    ((takers cap q l).map (share cap q l)).sum = min q (l.map cap).sum := by
  rw [← sum_shares cap q hl]
  unfold takers
  generalize share cap q l = f
  clear hl
  induction l with
  | nil => rfl
  | cons x rest ih =>
    rw [List.filter_cons]
    split
    · rw [List.map_cons, List.map_cons, List.sum_cons, List.sum_cons, ih]
    · rename_i hnone
      rw [decide_eq_true_iff, Nat.pos_iff_ne_zero, not_not] at hnone
      rw [List.map_cons, List.sum_cons, hnone, Nat.zero_add, ih]

/-- One that is followed by another one that takes something takes what it can. -/
theorem share_eq_of_sublist (hl : l.Nodup) (hxy : [x, y].Sublist l) (hy : 0 < share cap q l y) :
    share cap q l x = cap x := by
  induction l generalizing q with
  | nil => cases hxy
  | cons z rest ih =>
    obtain ⟨hz, hrest⟩ := List.nodup_cons.mp hl
    cases hxy with
    | cons _ hxy =>
      have hother : ∀ v ∈ [x, y], v ≠ z := fun v hv he => hz (he ▸ hxy.subset hv)
      rw [share_cons_of_ne (hother x (by simp))]
      rw [share_cons_of_ne (hother y (by simp))] at hy
      exact ih hrest hxy hy
    | cons_cons _ hyrest =>
      have hne : y ≠ x := by
        rintro rfl
        exact hz (List.singleton_sublist.mp hyrest)
      rw [share_cons_of_ne hne] at hy
      have hleft : share cap (q - cap x) rest y ≤ q - cap x :=
        Nat.le_trans (Nat.min_le_right _ _) (Nat.sub_le _ _)
      rw [share_cons_self]
      omega

/-- All but the last of those that take anything take what they can. -/
theorem share_of_takers (hl : l.Nodup) {front : List NodeId} {last : NodeId}
    (h : takers cap q l = front ++ [last]) (hx : x ∈ front) :
    share cap q l x = cap x ∧ 0 < cap x := by
  have hpair : [x, last].Sublist (takers cap q l) := by
    rw [h]
    exact (List.singleton_sublist.mpr hx).append (.refl [last])
  have htakes : ∀ y ∈ [x, last], 0 < share cap q l y :=
    fun y hy => (mem_takers_iff.mp (hpair.subset hy)).2
  have hfull := share_eq_of_sublist hl (hpair.trans (takers_sublist cap q l))
    (htakes last (by simp))
  exact ⟨hfull, hfull ▸ htakes x List.mem_cons_self⟩

theorem share_eq_of_sum_le (hl : l.Nodup) (hx : x ∈ l) (hq : (l.map cap).sum ≤ q) :
    share cap q l x = cap x := by
  obtain ⟨before, behind, rfl⟩ := List.append_of_mem hx
  have hfree : x ∉ before := fun h =>
    (List.nodup_append.mp hl).2.2 x h x List.mem_cons_self rfl
  rw [List.map_append, List.sum_append, List.map_cons, List.sum_cons] at hq
  rw [share_append_right hfree, share_cons_self]
  omega

section Dealt
variable {α : Type}

def dealt (make : NodeId → Nat → α) (cap : NodeId → Nat) (q : Nat) (turns : List NodeId) :
    List (NodeId × α) :=
  (takers cap q turns).map fun x => (x, make x (share cap q turns x))

variable {make : NodeId → Nat → α}

theorem dealt_fst (make : NodeId → Nat → α) (cap : NodeId → Nat) (q : Nat) (l : List NodeId) :
    (dealt make cap q l).map Prod.fst = takers cap q l := by
  unfold dealt
  rw [List.map_map]
  exact List.map_id _

theorem nodup_dealt (make : NodeId → Nat → α) (cap : NodeId → Nat) (q : Nat) (hl : l.Nodup) :
    ((dealt make cap q l).map Prod.fst).Nodup := by
  rw [dealt_fst]
  exact hl.sublist (takers_sublist cap q l)

theorem dealt_map {β : Type} (f : α → β) (make : NodeId → Nat → α) (cap : NodeId → Nat) (q : Nat)
    (l : List NodeId) : (dealt make cap q l).map (fun put => (put.1, f put.2)) =
      dealt (fun x n => f (make x n)) cap q l := List.map_map

theorem dealt_append (h : l.Disjoint m) : dealt make cap q (l ++ m) =
    dealt make cap q l ++ dealt make cap (q - (l.map cap).sum) m := by
  unfold dealt
  rw [takers_append h, List.map_append]
  congr 1
  · exact List.map_congr_left fun y hy => by
      rw [share_append_left ((takers_sublist _ _ _).subset hy)]
  · exact List.map_congr_left fun y hy => by
      rw [share_append_right fun hyl => h hyl ((takers_sublist _ _ _).subset hy)]

theorem dealt_singleton (make : NodeId → Nat → α) (cap : NodeId → Nat) (q : Nat) (x : NodeId) :
    dealt make cap q [x] = if 0 < min (cap x) q then [(x, make x (min (cap x) q))] else [] := by
  unfold dealt takers
  rw [List.filter_cons, List.filter_nil, share_cons_self]
  by_cases hshare : 0 < min (cap x) q
  · rw [decide_eq_true hshare, if_pos rfl, if_pos hshare, List.map_singleton, share_cons_self]
  · rw [decide_eq_false hshare, if_neg Bool.false_ne_true, if_neg hshare, List.map_nil]

theorem dealt_cons (h : x ∉ l) :
    dealt make cap q (x :: l) = dealt make cap q [x] ++ dealt make cap (q - cap x) l := by
  have hsplit : dealt make cap q ([x] ++ l) = _ := dealt_append (List.singleton_disjoint.mpr h)
  rwa [List.map_singleton, List.sum_singleton] at hsplit

theorem dealt_zero (make : NodeId → Nat → α) (cap : NodeId → Nat) (l : List NodeId) :
    dealt make cap 0 l = [] := by
  rw [dealt, takers_zero, List.map_nil]

end Dealt

end Stowage
