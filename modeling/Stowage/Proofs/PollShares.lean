import Stowage.Proofs.Arithmetic
import Stowage.Proofs.HonestRuns
import Stowage.Proofs.Shares
import Stowage.Proofs.Shelf

/-!
# What each slot gives to a poll

The first slot that holds anything decides which items are gathered, and, if there is no limit, how
many. The slots that hold the same give what they have, in turn, until there is enough. What is
gathered and what is still wanted never come to more than the limit, so quantities are added up
exactly and not cut off at the largest one.
-/

namespace Stowage

set_option autoImplicit false

theorem Stack.unitsIn_resize (t : Stack) (n : Nat) : unitsIn (t.resize n) = n := by
  unfold resize
  split
  · rename_i hn
    exact hn.symm
  · rfl

namespace Slot
variable {s : Slot} {held : Stack} {limit : Option Nat}

theorem planPoll_of_bare (h : unitsIn s.contents = 0) (limit : Option Nat) :
    s.planPoll limit = none := by
  unfold planPoll
  cases hheld : s.contents with
  | none => rfl
  | some held =>
    rw [hheld] at h
    change held.quantity = 0 at h
    simp [Stack.split, h, Stack.resize_zero]

theorem planPoll_of_units (hheld : s.contents = some held)
    (h : 0 < min (limit.getD maxQuantity) held.quantity) : s.planPoll limit =
      some ({ held with quantity := min (limit.getD maxQuantity) held.quantity },
        held.resize (held.quantity - min (limit.getD maxQuantity) held.quantity)) := by
  unfold planPoll Stack.split
  rw [hheld, Option.bind_some, Stack.resize_pos held h]
  rfl

end Slot

namespace State
variable {s : State} {order rest : List SlotId} {x : SlotId} {held g : Stack} {b q : Nat}
  {taken : Option Stack} {budget limit : Option Nat}

def stock (s : State) (k : ItemClass) (x : SlotId) : Nat := k.unitsIn (s.contents x)

/-- The first slot that holds any unit. -/
def front (s : State) (order : List SlotId) : Option SlotId :=
  order.find? fun x => 0 < unitsIn (s.contents x)

def leaving (s : State) (x : SlotId) (n : Nat) : Option Stack :=
  (s.contents x).bind fun held => held.resize (held.quantity - n)

def gathering (s : State) (order : List SlotId) (held : Stack) (q : Nat) : Stack :=
  { held with quantity := min q (order.map (s.stock held.itemClass)).sum }

theorem exists_slot_of_contents (h : s.contents x = some held) :
    ∃ slot, s.forest.slot x = some slot ∧ slot.contents = some held :=
  Option.bind_eq_some_iff.mp h

theorem contents_of_stock {k : ItemClass} (h : s.stock k x ≠ 0) :
    ∃ held, s.contents x = some held ∧ held.itemClass = k ∧ held.quantity = s.stock k x := by
  unfold stock at h ⊢
  cases hheld : s.contents x with
  | none =>
    rw [hheld] at h
    exact absurd rfl h
  | some held =>
    rw [hheld, ItemClass.unitsIn_some] at h
    refine ⟨held, rfl, ?_⟩
    rw [ItemClass.unitsIn_some]
    split at h
    · rename_i hclass
      exact ⟨hclass, (if_pos hclass).symm⟩
    · exact absurd rfl h

theorem stock_eq (h : s.contents x = some held) : s.stock held.itemClass x = held.quantity := by
  rw [stock, h, ItemClass.unitsIn_some, if_pos rfl]

theorem stock_le (s : State) (k : ItemClass) (x : SlotId) :
    s.stock k x ≤ unitsIn (s.contents x) := by
  unfold stock
  cases s.contents x with
  | none => exact Nat.le_refl 0
  | some held =>
    rw [ItemClass.unitsIn_some]
    split
    · exact Nat.le_refl _
    · exact Nat.zero_le _

theorem planPollFrom_skip (hbudget : budget ≠ some 0)
    (hskip : ∀ held, s.contents x = some held →
      held.quantity = 0 ∨ taken.all (fun t => t.mergesWith held) = false) :
    s.planPollFrom (x :: rest) taken budget = s.planPollFrom rest taken budget := by
  conv_lhs => unfold planPollFrom
  rw [if_neg hbudget]
  cases hheld : s.contents x with
  | none => rfl
  | some held =>
    obtain ⟨slot, hslot, hcontents⟩ := exists_slot_of_contents hheld
    rw [hslot, Option.bind_some]
    rcases hskip held hheld with hbare | hother
    · have hnone : slot.planPoll budget = none :=
        Slot.planPoll_of_bare (by rw [hcontents]; exact hbare) budget
      rw [hnone]
    · cases slot.planPoll budget with
      | none => rfl
      | some step =>
        dsimp only
        rw [if_neg (Bool.eq_false_iff.mp hother)]

theorem planPollFrom_take {n : Nat} (hheld : s.contents x = some held)
    (hmerges : taken.all (fun t => t.mergesWith held) = true)
    (hn : n = min (budget.getD maxQuantity) held.quantity) (hpos : 0 < n) :
    s.planPollFrom (x :: rest) taken budget =
      let next := s.planPollFrom rest
        (some (taken.elim { held with quantity := n } fun t => t.increase n))
        (some (budget.getD n - n))
      (next.1, (x, held.resize (held.quantity - n)) :: next.2) := by
  have hbudget : budget ≠ some 0 := by
    rintro rfl
    rw [hn, Option.getD_some, Nat.zero_min] at hpos
    exact Nat.lt_irrefl 0 hpos
  obtain ⟨slot, hslot, hcontents⟩ := exists_slot_of_contents hheld
  conv_lhs => unfold planPollFrom
  rw [if_neg hbudget, hheld, hslot, Option.bind_some,
    Slot.planPoll_of_units hcontents (by omega), ← hn]
  dsimp only
  rw [if_pos hmerges]
  cases taken <;> rfl

/-- Once something is gathered, the slots that hold the same give what is still wanted. -/
theorem planPollFrom_gather (horder : order.Nodup) (hfits : g.quantity + b ≤ maxQuantity) :
    s.planPollFrom order (some g) (some b) =
      (some { g with quantity := g.quantity + min b (order.map (s.stock g.itemClass)).sum },
        dealt s.leaving (s.stock g.itemClass) b order) := by
  induction order generalizing g b with
  | nil =>
    rw [List.map_nil, List.sum_nil, Nat.min_zero]
    rfl
  | cons x rest ih =>
    obtain ⟨hx, hrest⟩ := List.nodup_cons.mp horder
    rcases Nat.eq_zero_or_pos b with rfl | hb
    · rw [dealt_zero, Nat.zero_min]
      rfl
    · rw [dealt_cons hx, dealt_singleton, List.map_cons, List.sum_cons]
      by_cases hstock : s.stock g.itemClass x = 0
      · have hskip : ∀ held, s.contents x = some held →
            held.quantity = 0 ∨ (some g).all (fun t => t.mergesWith held) = false := by
          intro held hheld
          rw [stock, hheld, ItemClass.unitsIn_some] at hstock
          split at hstock
          · exact Or.inl hstock
          · rename_i hother
            refine Or.inr (Bool.eq_false_iff.mpr fun hmerges => hother ?_)
            exact (Stack.mergesWith_iff_itemClass.mp hmerges).symm
        have hbudget : some b ≠ some 0 := fun he => by
          have := Option.some.inj he
          omega
        rw [planPollFrom_skip hbudget hskip, ih hrest hfits, hstock, Nat.zero_min,
          if_neg (Nat.lt_irrefl 0), Nat.zero_add, Nat.sub_zero, List.nil_append]
      · obtain ⟨held, hheld, hclass, hquantity⟩ := contents_of_stock hstock
        have hmerges : (some g).all (fun t => t.mergesWith held) = true :=
          Stack.mergesWith_iff_itemClass.mpr hclass.symm
        have hgrown : g.increase (min b held.quantity) =
            { g with quantity := g.quantity + min b held.quantity } := by
          unfold Stack.increase
          rw [Nat.min_eq_left (by omega)]
        have hwanted : b - s.stock g.itemClass x = b - min b held.quantity := by omega
        have hgiven : min (s.stock g.itemClass x) b = min b held.quantity := by omega
        have hleft : s.leaving x (min b held.quantity) =
            held.resize (held.quantity - min b held.quantity) := by
          rw [leaving, hheld, Option.bind_some]
        have htotal : g.quantity + min b held.quantity +
            min (b - min b held.quantity) (rest.map (s.stock g.itemClass)).sum =
              g.quantity + min b (s.stock g.itemClass x +
                (rest.map (s.stock g.itemClass)).sum) := by omega
        have hnext := ih (g := { g with quantity := g.quantity + min b held.quantity })
          (b := b - min b held.quantity) hrest (by dsimp only; omega)
        rw [planPollFrom_take hheld hmerges (n := min b held.quantity) rfl (by omega)]
        dsimp only [Option.elim_some, Option.getD_some]
        rw [hgrown, hnext, hgiven, if_pos (by omega), hleft, hwanted, ← htotal]
        rfl

theorem front_cons_of_bare (h : unitsIn (s.contents x) = 0) :
    s.front (x :: rest) = s.front rest := by
  unfold front
  rw [List.find?_cons_of_neg (by rw [decide_eq_true_iff]; omega)]

theorem front_cons_of_units (h : 0 < unitsIn (s.contents x)) : s.front (x :: rest) = some x :=
  List.find?_cons_of_pos (decide_eq_true h)

theorem planPollFrom_of_no_front (h : s.front order = none) (limit : Option Nat) :
    s.planPollFrom order none limit = (none, []) := by
  induction order with
  | nil => rfl
  | cons x rest ih =>
    have hbare : unitsIn (s.contents x) = 0 := by
      have hall := List.find?_eq_none.mp h x List.mem_cons_self
      rw [decide_eq_true_iff] at hall
      omega
    rw [front_cons_of_bare hbare] at h
    by_cases hlimit : limit = some 0
    · rw [hlimit]
      rfl
    · rw [planPollFrom_skip hlimit, ih h]
      intro held hheld
      rw [hheld] at hbare
      exact Or.inl hbare

/-- The first slot that holds anything decides what is gathered. -/
theorem planPollFrom_of_front (horder : order.Nodup) (hlimit : limit ≠ some 0)
    (hfront : s.front order = some x) (hheld : s.contents x = some held)
    (hfits : limit.getD held.quantity ≤ maxQuantity) :
    s.planPollFrom order none limit =
      (some (s.gathering order held (limit.getD held.quantity)),
        dealt s.leaving (s.stock held.itemClass) (limit.getD held.quantity) order) := by
  unfold gathering
  induction order with
  | nil => cases hfront
  | cons y rest ih =>
    obtain ⟨hy, hrest⟩ := List.nodup_cons.mp horder
    rw [dealt_cons hy, dealt_singleton, List.map_cons, List.sum_cons]
    rcases Nat.eq_zero_or_pos (unitsIn (s.contents y)) with hbare | hunits
    · rw [front_cons_of_bare hbare] at hfront
      have hstock : s.stock held.itemClass y = 0 := Nat.le_zero.mp (hbare ▸ s.stock_le _ y)
      rw [planPollFrom_skip hlimit, ih hrest hfront, hstock, Nat.zero_min,
        if_neg (Nat.lt_irrefl 0), Nat.zero_add, Nat.sub_zero, List.nil_append]
      intro other hother
      rw [hother] at hbare
      exact Or.inl hbare
    · obtain rfl : y = x := by
        rw [front_cons_of_units hunits] at hfront
        exact Option.some.inj hfront
      have hpos : 0 < min (limit.getD held.quantity) held.quantity := by
        rw [hheld] at hunits
        change 0 < held.quantity at hunits
        cases limit with
        | none => exact Nat.lt_min.mpr ⟨hunits, hunits⟩
        | some n =>
          have hn : n ≠ 0 := fun he => hlimit (congrArg some he)
          exact Nat.lt_min.mpr ⟨Nat.pos_of_ne_zero hn, hunits⟩
      have hn : min (limit.getD held.quantity) held.quantity =
          min (limit.getD maxQuantity) held.quantity := by
        cases limit with
        | none =>
          rw [Option.getD_none] at hfits ⊢
          rw [Option.getD_none, Nat.min_self, Nat.min_eq_right hfits]
        | some n => rfl
      have hbudget : limit.getD (min (limit.getD held.quantity) held.quantity) =
          limit.getD held.quantity := by
        cases limit with
        | none => exact Nat.min_self _
        | some n => rfl
      have hleft : s.leaving y (min held.quantity (limit.getD held.quantity)) =
          held.resize (held.quantity - min (limit.getD held.quantity) held.quantity) := by
        rw [leaving, hheld, Option.bind_some, Nat.min_comm]
      have hwanted : limit.getD held.quantity - min (limit.getD held.quantity) held.quantity =
          limit.getD held.quantity - held.quantity := by omega
      have htotal : min (limit.getD held.quantity) held.quantity +
          min (limit.getD held.quantity - held.quantity)
            (rest.map (s.stock held.itemClass)).sum =
          min (limit.getD held.quantity) (held.quantity +
            (rest.map (s.stock held.itemClass)).sum) := by omega
      rw [planPollFrom_take hheld rfl hn hpos]
      dsimp only [Option.elim_none]
      rw [hbudget, hwanted, planPollFrom_gather hrest (by dsimp only; omega), stock_eq hheld,
        if_pos (by omega), hleft, ← htotal]
      rfl

theorem planPoll_of_none (h : limit = some 0 ∨ s.front order = none) :
    s.planPoll order limit = none := by
  have hfrom : s.planPollFrom order none limit = (none, []) := by
    rcases h with rfl | hnone
    · cases order <;> rfl
    · exact planPollFrom_of_no_front hnone limit
  unfold planPoll
  rw [hfrom]

theorem planPoll_of_front (horder : order.Nodup) (hlimit : limit ≠ some 0)
    (hfront : s.front order = some x) (hheld : s.contents x = some held)
    (hfits : limit.getD held.quantity ≤ maxQuantity) :
    s.planPoll order limit = some
      ⟨s.gathering order held (limit.getD held.quantity),
        dealt s.leaving (s.stock held.itemClass) (limit.getD held.quantity) order⟩ := by
  unfold planPoll
  rw [planPollFrom_of_front horder hlimit hfront hheld hfits]

theorem takers_front (horder : order.Nodup) (hfront : s.front order = some x)
    (hheld : s.contents x = some held) :
    takers (s.stock held.itemClass) held.quantity order = [x] := by
  obtain ⟨hunits, before, behind, rfl, hbare⟩ := List.find?_eq_some_iff_append.mp hfront
  have hpos : 0 < held.quantity := by
    have := of_decide_eq_true hunits
    rwa [hheld] at this
  have hnone : ∀ y ∈ before, s.stock held.itemClass y = 0 := by
    intro y hy
    have hbare := hbare y hy
    rw [Bool.not_eq_true', decide_eq_false_iff_not] at hbare
    have := s.stock_le held.itemClass y
    omega
  have hsum : (before.map (s.stock held.itemClass)).sum = 0 := by
    rw [List.map_congr_left hnone]
    exact List.sum_eq_zero fun n hn => (List.mem_map.mp hn).elim fun _ h => h.2.symm
  have hfirst : takers (s.stock held.itemClass) held.quantity before = [] := by
    refine List.filter_eq_nil_iff.mpr fun y hy => ?_
    have hshare := share_le (s.stock held.itemClass) held.quantity before y
    rw [decide_eq_true_iff]
    have := hnone y hy
    omega
  have hself : takers (s.stock held.itemClass) held.quantity [x] = [x] := by
    simp [takers, share_cons_self, stock_eq hheld, hpos]
  obtain ⟨_, hlater, hapart⟩ := List.nodup_append.mp horder
  have hbehind : [x].Disjoint behind :=
    List.singleton_disjoint.mpr (List.nodup_cons.mp hlater).1
  rw [takers_append fun y hy hmem => hapart y hy y hmem rfl, hfirst, hsum, Nat.sub_zero,
    List.nil_append, ← List.singleton_append, takers_append hbehind, hself, List.map_singleton,
    List.sum_singleton, stock_eq hheld, Nat.sub_self, takers_zero, List.append_nil]

theorem leaving_new {k : ItemClass} {n : Nat} (hn : 0 < n) (hstock : n ≤ s.stock k x) :
    ∃ slot, s.forest.slot x = some slot ∧ slot.contents ≠ s.leaving x n := by
  obtain ⟨held, hheld, _, hquantity⟩ := contents_of_stock (k := k) (x := x) (s := s) (by omega)
  obtain ⟨slot, hslot, hcontents⟩ := exists_slot_of_contents hheld
  refine ⟨slot, hslot, fun hsame => ?_⟩
  rw [hcontents, leaving, hheld, Option.bind_some] at hsame
  have hunits := congrArg unitsIn hsame
  rw [Stack.unitsIn_resize] at hunits
  change held.quantity = held.quantity - n at hunits
  omega

theorem leaving_all {k : ItemClass} (h : s.stock k x ≠ 0) :
    s.leaving x (s.stock k x) = none := by
  obtain ⟨held, hheld, _, hquantity⟩ := contents_of_stock h
  rw [leaving, hheld, Option.bind_some, hquantity, Nat.sub_self, Stack.resize_zero]

theorem unitsIn_contents_leaving (s : State) (x : SlotId) (n : Nat) :
    Stowage.unitsIn (s.leaving x n) = Stowage.unitsIn (s.contents x) - n := by
  unfold leaving
  cases s.contents x with
  | none => exact (Nat.zero_sub n).symm
  | some held => exact held.unitsIn_resize _

theorem unitsIn_leaving {k : ItemClass} {n : Nat} (hstock : n ≤ s.stock k x) (c : ItemClass) :
    c.unitsIn (s.leaving x n) + (if k = c then n else 0) = c.unitsIn (s.contents x) := by
  unfold stock at hstock
  unfold leaving
  cases hheld : s.contents x with
  | none =>
    rw [hheld, ItemClass.unitsIn_none] at hstock
    rw [Option.bind_none, ItemClass.unitsIn_none]
    split <;> omega
  | some held =>
    rw [hheld, ItemClass.unitsIn_some] at hstock
    rw [Option.bind_some, ItemClass.unitsIn_resize, ItemClass.unitsIn_some]
    by_cases hk : held.itemClass = k
    · rw [if_pos hk] at hstock
      rw [hk]
      split <;> omega
    · rw [if_neg hk] at hstock
      split <;> split <;> omega

theorem sum_unitsIn_leaving (horder : order.Nodup) (held : Stack) (q : Nat) (c : ItemClass) :
    ((takers (s.stock held.itemClass) q order).map fun x => c.unitsIn (s.contents x)).sum =
      ((takers (s.stock held.itemClass) q order).map fun x =>
        c.unitsIn (s.leaving x (share (s.stock held.itemClass) q order x))).sum +
      c.unitsIn (some (s.gathering order held q)) := by
  have hsplit : ∀ x, c.unitsIn (s.contents x) =
      c.unitsIn (s.leaving x (share (s.stock held.itemClass) q order x)) +
        (if held.itemClass = c then share (s.stock held.itemClass) q order x else 0) :=
    fun x => (unitsIn_leaving (share_le _ _ _ _) c).symm
  simp only [hsplit, List.sum_map_add]
  congr 1
  change _ = if held.itemClass = c then _ else 0
  by_cases hclass : held.itemClass = c
  · simp only [if_pos hclass]
    exact sum_takers _ _ horder
  · simp only [if_neg hclass, List.map_const', List.sum_replicate, nsmul_zero]

/-- Between two states a stack was gathered along an order, as is reported. -/
structure Gathered (s t : State) (order : List SlotId) (held : Stack) (q : Nat)
    (got : Option Stack) (r : Transaction) : Prop where
  diff : s.Diff t r.changes
  touched : r.touched = takers (s.stock held.itemClass) q order
  after : ∀ c ∈ r.changes,
    c.after = s.leaving c.slot (share (s.stock held.itemClass) q order c.slot)
  emptied : ∀ front last, r.touched = front ++ [last] → ∀ x ∈ front, t.contents x = none
  gathered : got = some (s.gathering order held q)
  taken : (r.touched.map fun x => unitsIn (s.contents x) - unitsIn (t.contents x)).sum =
    unitsIn got
  units : ∀ k : ItemClass, t.units k + k.unitsIn got = s.units k
  rejected : r.rejected = none

end State

section Gathered
variable {s t : State} {order : List SlotId} {x : SlotId} {held : Stack} {got : Option Stack}
  {r : Transaction}

theorem State.Gathered.first (h : s.Gathered t order held held.quantity got r)
    (horder : order.Nodup) (hfront : s.front order = some x) (hheld : s.contents x = some held) :
    got = some held ∧ r.touched = [x] ∧ t.contents x = none := by
  have htakers := takers_front horder hfront hheld
  have htouched := h.touched.trans htakers
  have hsum := sum_takers (s.stock held.itemClass) held.quantity horder
  have hstock := List.single_le_sum (fun n _ => Nat.zero_le n) _
    (List.mem_map_of_mem (f := s.stock held.itemClass) (List.mem_of_find?_eq_some hfront))
  rw [stock_eq hheld] at hstock
  rw [Nat.min_eq_left hstock] at hsum
  have hgot := h.gathered
  rw [gathering, Nat.min_eq_left hstock] at hgot
  refine ⟨hgot, htouched, ?_⟩
  rw [htakers, List.map_singleton, List.sum_singleton] at hsum
  have hmem : x ∈ r.touched := by
    rw [htouched]
    exact List.mem_singleton_self x
  obtain ⟨c, hc, rfl⟩ := List.mem_map.mp hmem
  rw [h.diff.contents_after hc, h.after c hc, hsum, leaving, hheld, Option.bind_some, Nat.sub_self,
    Stack.resize_zero]

end Gathered

namespace Step
variable {w w' : World} {order : List SlotId} {limit : Option Nat} {x : SlotId} {held : Stack}
  {got : Option Stack} {r : Transaction}

theorem pollIn_of_none (h : w.state.planPoll order limit = none) :
    pollIn order limit w = (.ok (none, .failure none), w) := by
  unfold pollIn
  rw [state_bind, h]
  rfl

theorem pollIn_gathered (hw : w.state.Sound) (horder : order.Nodup) (hlimit : limit ≠ some 0)
    (hfront : w.state.front order = some x) (hheld : w.state.contents x = some held)
    (hfits : limit.getD held.quantity ≤ maxQuantity)
    (h : pollIn order limit w = (.ok (got, r), w')) :
    w.state.Gathered w'.state order held (limit.getD held.quantity) got r := by
  have hplan := State.planPoll_of_front horder hlimit hfront hheld hfits
  unfold pollIn at h
  rw [state_bind, hplan] at h
  obtain ⟨changes, u, hcommits, hanswer⟩ := bind_eq_ok h
  obtain ⟨rfl, rfl, rfl⟩ : got = some (w.state.gathering order held (limit.getD held.quantity)) ∧
      r = .ofChanges changes none ∧ w' = u := by
    cases hanswer
    exact ⟨rfl, rfl, rfl⟩
  dsimp only at hcommits
  generalize limit.getD held.quantity = q at hcommits ⊢
  have hgives : ∀ x ∈ takers (w.state.stock held.itemClass) q order,
      ∃ slot, w.state.forest.slot x = some slot ∧ slot.contents ≠
        w.state.leaving x (share (w.state.stock held.itemClass) q order x) :=
    fun x hx => State.leaving_new (mem_takers_iff.mp hx).2 (share_le _ _ _ _)
  obtain ⟨hdiff, htouched, hafter, hleft⟩ := commitAll_dealt hw horder hgives hcommits
  refine ⟨hdiff, htouched, hafter, ?_, rfl, ?_, ?_, rfl⟩
  · intro front last hlast x hx
    change changes.map Change.slot = _ at hlast
    rw [htouched] at hlast
    obtain ⟨hshare, hpos⟩ := share_of_takers horder hlast hx
    rw [hleft x (hlast ▸ List.mem_append_left _ hx), hshare]
    exact State.leaving_all (Nat.pos_iff_ne_zero.mp hpos)
  · change ((changes.map Change.slot).map _).sum = _
    rw [htouched]
    change _ = min q (order.map (w.state.stock held.itemClass)).sum
    rw [← sum_takers _ _ horder]
    refine congrArg List.sum (List.map_congr_left fun x hx => ?_)
    have hunits := Nat.le_trans (share_le (w.state.stock held.itemClass) q order x)
      (w.state.stock_le held.itemClass x)
    rw [hleft x hx, State.unitsIn_contents_leaving, Nat.sub_sub_self hunits]
  · intro k
    have hlive : ∀ put ∈ dealt w.state.leaving (w.state.stock held.itemClass) q order,
        (w.state.forest.slot put.1).isSome = true := by
      intro put hput
      obtain ⟨x, hx, rfl⟩ := List.mem_map.mp hput
      obtain ⟨slot, hslot, _⟩ := hgives x hx
      exact Option.isSome_iff_exists.mpr ⟨slot, hslot⟩
    have hnodup := nodup_dealt w.state.leaving (w.state.stock held.itemClass) q horder
    have hunits : w'.state.units k + ((takers (w.state.stock held.itemClass) q order).map fun x =>
          k.unitsIn (w.state.contents x)).sum = w.state.units k +
        ((takers (w.state.stock held.itemClass) q order).map fun x =>
          k.unitsIn (w.state.leaving x (share (w.state.stock held.itemClass) q order x))).sum := by
      have hcommitted := units_commitAll hw hnodup hlive hcommits k
      rwa [dealt, List.map_map, List.map_map] at hcommitted
    rw [State.sum_unitsIn_leaving horder] at hunits
    omega

end Step

section Run
variable {past : List World} {results : List (List World × Transaction)}
    {strays : SlotId → Prop} {w : World} {sh : Shelf}

def State.ContentsInRange (s : State) : Prop := ∀ x, unitsIn (s.contents x) ≤ maxQuantity

theorem State.contentsInRange_of_live {s : State}
    (h : ∀ x ∈ s.liveSlots, unitsIn (s.contents x) ≤ maxQuantity) : s.ContentsInRange := by
  intro x
  cases hheld : s.contents x with
  | none => exact Nat.zero_le _
  | some held =>
    obtain ⟨slot, hslot, _⟩ := exists_slot_of_contents hheld
    rw [← hheld]
    exact h x (mem_liveSlots.mpr (by rw [hslot]; rfl))

/-- As long as callers are honest, a slot holds no stack or one of some units. -/
theorem HonestRun.isSome_contents_iff (h : HonestRun past results strays w) (x : SlotId) :
    (w.state.contents x).isSome = true ↔ 0 < unitsIn (w.state.contents x) := by
  cases hheld : w.state.contents x with
  | none => exact ⟨nofun, nofun⟩
  | some held =>
    obtain ⟨slot, hslot, hcontents⟩ := State.exists_slot_of_contents hheld
    have hadmits := (h.legal.1 x slot hslot).held hcontents
    exact ⟨fun _ => hadmits.positive, fun _ => rfl⟩

theorem HonestRun.front_eq (h : HonestRun past results strays w) (order : List SlotId) :
    w.state.front order = order.find? fun x => (w.state.contents x).isSome := by
  unfold State.front
  congr 1
  funext x
  rw [Bool.eq_iff_iff, decide_eq_true_iff]
  exact (h.isSome_contents_iff x).symm

/-- Whatever happened before, a poll of a live node or a view comes to its end while listeners are
isolated, and what it takes could be seen beforehand. It takes from the first slot that holds any
unit, and, up to a limit, from those that hold the same, in turn; without a limit, all of the first
one and no more. Nothing is lost or cut off, and where nothing is taken nothing changes. -/
theorem polls_gather_in_turn (h : Run past w) (hthere : sh.There w.state)
    (hrange : w.state.ContentsInRange) :
    (∀ results strays, HonestRun past results strays w → w.state.front (sh.order w.state) =
      (sh.order w.state).find? fun x => (w.state.contents x).isSome) ∧
    ∀ limit : Option Nat, (∀ n ∈ limit, n ≤ maxQuantity) →
      (w.state.env.settings.isolateListenerPanics = true →
        ∃ got t w', sh.poll limit w = (.ok (got, t), w')) ∧
      w.state.planPoll? (sh.order w.state) limit =
        some (w.state.planPoll (sh.order w.state) limit) ∧
      ∀ got t w', sh.poll limit w = (.ok (got, t), w') →
        sh.peek w.state limit = got ∧
        (limit = some 0 ∨ w.state.front (sh.order w.state) = none →
          got = none ∧ t = .failure none ∧ w' = w) ∧
        ∀ x held, limit ≠ some 0 → w.state.front (sh.order w.state) = some x →
          w.state.contents x = some held →
            w.state.Gathered w'.state (sh.order w.state) held (limit.getD held.quantity) got t ∧
            (limit = none → got = some held ∧ t.touched = [x] ∧ w'.state.contents x = none) := by
  have horder := Shelf.nodup_order h hthere
  refine ⟨fun results strays hhonest => hhonest.front_eq _, fun limit hlimit =>
    ⟨?_, State.planPoll?_eq _ _ _, fun got t w' hpoll => ?_⟩⟩
  · intro hisolated
    obtain ⟨⟨got, t⟩, w', hpoll, _⟩ := sh.returns_poll limit w hisolated
    exact ⟨got, t, w', hpoll⟩
  · rw [Shelf.poll_eq hthere] at hpoll
    rw [Shelf.peek_eq, State.peekIn]
    by_cases hnone : limit = some 0 ∨ w.state.front (sh.order w.state) = none
    · have hplan := State.planPoll_of_none hnone
      rw [Step.pollIn_of_none hplan] at hpoll
      cases hpoll
      rw [hplan]
      refine ⟨rfl, fun _ => ⟨rfl, rfl, rfl⟩, fun x held hsome hfront => ?_⟩
      rcases hnone with hzero | hbare
      · exact absurd hzero hsome
      · rw [hbare] at hfront
        cases hfront
    · obtain ⟨hsome, hfront⟩ := not_or.mp hnone
      obtain ⟨x, hx⟩ := Option.ne_none_iff_exists'.mp hfront
      have hunits := List.find?_some hx
      obtain ⟨held, hheld⟩ : ∃ held, w.state.contents x = some held := by
        cases hheld : w.state.contents x with
        | none => simp [hheld, unitsIn] at hunits
        | some held => exact ⟨held, rfl⟩
      have hfits : limit.getD held.quantity ≤ maxQuantity := by
        cases limit with
        | none =>
          have hrange := hrange x
          rwa [hheld] at hrange
        | some n => exact hlimit n rfl
      have hgathered := Step.pollIn_gathered h.sound horder hsome hx hheld hfits hpoll
      rw [State.planPoll_of_front horder hsome hx hheld hfits]
      refine ⟨hgathered.gathered.symm, fun h => absurd h hnone, fun y other _ hy hother => ?_⟩
      obtain rfl := Option.some.inj (hx.symm.trans hy)
      obtain rfl := Option.some.inj (hheld.symm.trans hother)
      refine ⟨hgathered, ?_⟩
      rintro rfl
      exact hgathered.first horder hx hheld

def Operation.laden : List Operation :=
  stacked ++ [.set ⟨3, 0⟩ (some (.new ⟨"minecraft:apple"⟩ 5)),
    .set ⟨1, 0⟩ (some (.single ⟨"minecraft:dirt"⟩)),
    .set ⟨0, 0⟩ (some (.new ⟨"minecraft:apple"⟩ 10))]

theorem polls_gather_in_turn_laden : ∃ t w',
    (Shelf.node ⟨4, 0⟩).poll (some 8) (World.reached Operation.laden).2 =
      (.ok (some (.new ⟨"minecraft:apple"⟩ 8), t), w') ∧
    t.touched = [⟨3, 0⟩, ⟨0, 0⟩] ∧ w'.state.contents ⟨3, 0⟩ = none ∧
    (Shelf.node ⟨4, 0⟩).peek (World.reached Operation.laden).2.state (some 8) =
      some (.new ⟨"minecraft:apple"⟩ 8) := by
  have hthere : (Shelf.node ⟨4, 0⟩).There (World.reached Operation.laden).2.state :=
    show Forest.contains _ _ = true by decide +kernel
  obtain ⟨hreturns, _, hpolls⟩ := (polls_gather_in_turn (Run.reached Operation.laden) hthere
    (State.contentsInRange_of_live (by decide +kernel))).2 (some 8) (by decide)
  obtain ⟨got, t, w', hpoll⟩ := hreturns (by decide +kernel)
  obtain ⟨hpeek, _, hgathers⟩ := hpolls got t w' hpoll
  obtain ⟨hgathered, _⟩ := hgathers ⟨3, 0⟩ (.new ⟨"minecraft:apple"⟩ 5) (by decide)
    (by decide +kernel) (by decide +kernel)
  have hgot : got = some (.new ⟨"minecraft:apple"⟩ 8) :=
    hgathered.gathered.trans (by decide +kernel)
  have htouched : t.touched = [⟨3, 0⟩, ⟨0, 0⟩] := hgathered.touched.trans (by decide +kernel)
  rw [hgot] at hpoll hpeek
  exact ⟨t, w', hpoll, htouched,
    hgathered.emptied [⟨3, 0⟩] ⟨0, 0⟩ htouched ⟨3, 0⟩ (List.mem_singleton_self _), hpeek⟩

/-- A poll without a limit passes over a stack of no units and takes the three apples below it. -/
theorem poll_passes_over_no_units :
    ¬ ∀ (past : List World) (w w' : World) (node : NodeId) (x : SlotId) (held : Stack)
      (got : Option Stack) (t : Transaction), Run past w → w.state.forest.contains node = true →
        ((w.state.forest.fillOrder node).find? fun y => (w.state.contents y).isSome) = some x →
          w.state.contents x = some held → Step.poll node none w = (.ok (got, t), w') →
            got = some held := by
  intro h
  obtain ⟨⟨got, t⟩, w', hpoll, _⟩ := (Shelf.node ⟨3, 0⟩).returns_poll none
    (World.reached Operation.hollow).2 (by decide +kernel)
  have hclaimed := h _ _ w' ⟨3, 0⟩ ⟨0, 0⟩ ⟨⟨"minecraft:apple"⟩, 0, []⟩ got t
    (Run.reached Operation.hollow) (by decide +kernel) (by decide +kernel) (by decide +kernel) hpoll
  have hgot : (Step.poll ⟨3, 0⟩ none (World.reached Operation.hollow).2).1.toOption.map Prod.fst =
      some (some (.new ⟨"minecraft:apple"⟩ 3)) := by decide +kernel
  change Step.poll ⟨3, 0⟩ none _ = _ at hpoll
  rw [hpoll, hclaimed] at hgot
  cases Option.some.inj hgot

end Run

end Stowage
