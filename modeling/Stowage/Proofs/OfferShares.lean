import Stowage.Proofs.OfferPriority
import Stowage.Proofs.Shares
import Stowage.Proofs.Shelf

/-!
# What each slot gets of an offer

Slots that hold the same have their turn first and empty ones afterwards, each in fill order. As
long as filters do not look at quantities, the two passes of an offer deal the stack out along these
turns: a slot gets what it has room for of what those in front of it left. So an offer places all
that there is room for, and what it hands back finds no room any more.
-/

namespace Stowage

set_option autoImplicit false

namespace Slot
variable {s : Slot} {rules : ItemRules} {stack : Stack}

def room (s : Slot) (rules : ItemRules) (stack : Stack) : Nat :=
  if s.accepts rules stack then
    (s.mergeBase stack).elim 0 fun held => s.maxStackFor rules stack - held
  else 0

theorem room_resize (hsteady : s.filter.Steady rules) (n : Nat) :
    s.room rules { stack with quantity := n } = s.room rules stack := by
  have haccepts : s.accepts rules { stack with quantity := n } = s.accepts rules stack :=
    hsteady stack n
  unfold room
  rw [haccepts]
  rfl

theorem room_pos (h : 0 < s.room rules stack) : s.accepts rules stack = true ∧
    s.mergeBase stack = some (unitsIn s.contents) ∧
    unitsIn s.contents + s.room rules stack = s.maxStackFor rules stack := by
  unfold room at h ⊢
  split at h
  · rename_i haccepts
    cases hbase : s.mergeBase stack with
    | none =>
      rw [hbase] at h
      cases h
    | some held =>
      rw [hbase, Option.elim_some] at h
      rw [(mergeBase_cases hbase).1, if_pos haccepts, Option.elim_some]
      exact ⟨haccepts, rfl, by omega⟩
  · cases h

theorem hasRoom_iff : s.hasRoom rules stack = true ↔ 0 < s.room rules stack := by
  unfold hasRoom room
  cases s.accepts rules stack with
  | false => simp
  | true =>
    cases s.mergeBase stack with
    | none => simp
    | some held =>
      rw [Bool.true_and, Option.any_some, decide_eq_true_iff, if_pos rfl, Option.elim_some]
      exact Nat.sub_pos_iff_lt.symm

theorem planOffer_of_full (h : s.room rules stack = 0) : s.planOffer rules stack = none := by
  rw [planOffer_eq_none_iff, Bool.eq_false_iff, ne_eq, hasRoom_iff, h]
  exact Nat.lt_irrefl 0

theorem planOffer_of_room (h : 0 < s.room rules stack) : s.planOffer rules stack =
    some ⟨stack.resize (unitsIn s.contents + min (s.room rules stack) stack.quantity),
      stack.resize (stack.quantity - s.room rules stack)⟩ := by
  obtain ⟨haccepts, hbase, hlimit⟩ := room_pos h
  have hroom : s.maxStackFor rules stack - unitsIn s.contents = s.room rules stack := by omega
  have hrest : stack.quantity - min stack.quantity (s.room rules stack) =
      stack.quantity - s.room rules stack := by omega
  unfold planOffer
  rw [if_pos haccepts, hbase]
  dsimp only
  rw [if_neg (by omega), hroom, hrest, Nat.min_comm stack.quantity]

theorem room_put (h : 0 < s.room rules stack) (n : Nat) :
    ({ s with contents := some { stack with quantity := unitsIn s.contents + n } } : Slot).room
      rules stack = s.room rules stack - n := by
  obtain ⟨haccepts, _, hlimit⟩ := room_pos h
  have hbase : ({ s with contents := some { stack with quantity := unitsIn s.contents + n } } :
      Slot).mergeBase stack = some (unitsIn s.contents + n) :=
    if_pos (Stack.mergesWith_iff.mpr ⟨rfl, rfl⟩)
  change (if s.accepts rules stack = true then _ else _) = _
  rw [if_pos haccepts, hbase, Option.elim_some]
  change s.maxStackFor rules stack - (unitsIn s.contents + n) = _
  omega

end Slot

namespace State
variable {s : State} {stack : Stack} {order l : List SlotId} {x : SlotId}

def room (s : State) (stack : Stack) (x : SlotId) : Nat :=
  (s.forest.slot x).elim 0 fun slot => slot.room s.env.rules stack

def takesTurn (s : State) (stack : Stack) (merging : Bool) (x : SlotId) : Bool :=
  if merging then (s.contents x).any fun held => held.mergesWith stack else (s.contents x).isNone

def turns (s : State) (stack : Stack) (order : List SlotId) : List SlotId :=
  order.filter (s.takesTurn stack true) ++ order.filter (s.takesTurn stack false)

def serving (s : State) (stack : Stack) (x : SlotId) (n : Nat) : Stack :=
  { stack with quantity := unitsIn (s.contents x) + n }

def servings (s : State) (stack : Stack) (q : Nat) (turns : List SlotId) : List (SlotId × Stack) :=
  dealt (s.serving stack) (s.room stack) q turns

theorem disjoint_turns (s : State) (stack : Stack) (order : List SlotId) :
    (order.filter (s.takesTurn stack true)).Disjoint (order.filter (s.takesTurn stack false)) := by
  intro x hmerges hempty
  have hmerges := (List.mem_filter.mp hmerges).2
  have hempty : s.contents x = none := by
    simpa [takesTurn] using (List.mem_filter.mp hempty).2
  rw [takesTurn, if_pos rfl, hempty] at hmerges
  cases hmerges

theorem nodup_turns (horder : order.Nodup) : (s.turns stack order).Nodup :=
  List.nodup_append.mpr ⟨horder.filter _, horder.filter _, fun _ hx _ hy he =>
    s.disjoint_turns stack order hx (he ▸ hy)⟩

theorem room_of_no_turn (h : ∀ merging, s.takesTurn stack merging x = false) :
    s.room stack x = 0 := by
  by_contra hroom
  unfold room at hroom
  cases hslot : s.forest.slot x with
  | none =>
    rw [hslot] at hroom
    exact hroom rfl
  | some slot =>
    rw [hslot, Option.elim_some] at hroom
    obtain ⟨_, hbase, _⟩ := Slot.room_pos (Nat.pos_of_ne_zero hroom)
    have hmerging := h true
    have hempty := h false
    unfold takesTurn at hmerging hempty
    unfold Slot.mergeBase at hbase
    rw [contents_of_slot hslot] at hmerging hempty
    cases hheld : slot.contents with
    | none =>
      rw [hheld] at hempty
      cases hempty
    | some held =>
      rw [hheld] at hbase hmerging
      simp only [if_pos, Option.any_some] at hmerging
      simp [hmerging] at hbase

/-- All room is in the slots that have their turn. -/
theorem sum_room_turns (s : State) (stack : Stack) (order : List SlotId) :
    ((s.turns stack order).map (s.room stack)).sum = (order.map (s.room stack)).sum := by
  unfold turns
  rw [List.map_append, List.sum_append]
  induction order with
  | nil => rfl
  | cons x rest ih =>
    rw [List.map_cons, List.sum_cons, List.filter_cons, List.filter_cons]
    cases hmerging : s.takesTurn stack true x with
    | true =>
      have hempty : s.takesTurn stack false x = false := by
        unfold takesTurn at hmerging ⊢
        cases hheld : s.contents x with
        | none =>
          rw [hheld] at hmerging
          cases hmerging
        | some held => rfl
      rw [hempty, if_pos rfl, if_neg Bool.false_ne_true, List.map_cons, List.sum_cons]
      omega
    | false =>
      cases hempty : s.takesTurn stack false x with
      | true =>
        rw [if_neg Bool.false_ne_true, if_pos rfl, List.map_cons, List.sum_cons]
        omega
      | false =>
        have hroom : s.room stack x = 0 := room_of_no_turn fun merging => by
          cases merging
          · exact hempty
          · exact hmerging
        rw [if_neg Bool.false_ne_true, if_neg Bool.false_ne_true, hroom]
        omega

end State

namespace OfferPlan
variable {s : State} {stack : Stack} {merging : Bool} {puts : List (SlotId × Stack)} {x : SlotId}
  {q : Nat} {l : List SlotId}

theorem fill_of_no_turn (h : s.takesTurn stack merging x = false) :
    fill s merging ⟨puts, stack.resize q⟩ x = ⟨puts, stack.resize q⟩ := by
  rcases fill_cases s merging ⟨puts, stack.resize q⟩ x with
    he | ⟨rest, slot, step, hrest, hslot, heligible, _, _⟩
  · exact he
  · exfalso
    unfold Stack.resize at hrest
    split at hrest
    · cases hrest
    · cases hrest
      unfold State.takesTurn at h
      unfold eligible at heligible
      rw [State.contents_of_slot hslot] at h
      cases merging with
      | true =>
        rw [if_pos rfl] at h heligible
        exact Bool.false_ne_true (h.symm.trans heligible)
      | false =>
        rw [if_neg Bool.false_ne_true] at h heligible
        rw [Slot.isEmpty, h] at heligible
        cases heligible

theorem fill_of_turn
    (hsteady : ∀ slot, s.forest.slot x = some slot → slot.filter.Steady s.env.rules)
    (hnew : merging = false → x ∉ puts.map Prod.fst) (h : s.takesTurn stack merging x = true) :
    fill s merging ⟨puts, stack.resize q⟩ x =
      ⟨puts ++ s.servings stack q [x], stack.resize (q - s.room stack x)⟩ := by
  have hidle : min (s.room stack x) q = 0 → s.servings stack q [x] = [] := by
    intro hnone
    rw [State.servings, dealt_singleton, if_neg (by omega)]
  rcases Nat.eq_zero_or_pos q with rfl | hq
  · rw [hidle (Nat.min_zero _), Nat.zero_sub, List.append_nil]
    rfl
  · rw [Stack.resize_pos stack hq]
    cases hslot : s.forest.slot x with
    | none =>
      have hroom : s.room stack x = 0 := by rw [State.room, hslot, Option.elim_none]
      rw [hidle (by rw [hroom, Nat.zero_min]), hroom, List.append_nil, Nat.sub_zero,
        Stack.resize_pos stack hq]
      simp [fill, hslot]
    | some slot =>
      have hroom : s.room stack x = slot.room s.env.rules stack := by
        rw [State.room, hslot, Option.elim_some]
      have heligible : eligible merging ⟨puts, some { stack with quantity := q }⟩ x slot
          { stack with quantity := q } = true := by
        unfold State.takesTurn at h
        rw [State.contents_of_slot hslot] at h
        unfold eligible
        cases merging with
        | true => exact h
        | false =>
          have hfresh : (puts.any fun put => put.1 = x) = false := by
            rw [List.any_eq_false]
            intro put hput
            rw [decide_eq_true_iff]
            rintro rfl
            exact hnew rfl (List.mem_map_of_mem hput)
          rw [if_neg Bool.false_ne_true] at h ⊢
          rw [Slot.isEmpty, h, hfresh]
          rfl
      have hsame : slot.room s.env.rules { stack with quantity := q } =
          slot.room s.env.rules stack := Slot.room_resize (hsteady slot hslot) q
      unfold fill
      dsimp only
      rw [hslot]
      dsimp only
      rw [if_pos heligible]
      rcases Nat.eq_zero_or_pos (slot.room s.env.rules stack) with hfull | hfree
      · rw [Slot.planOffer_of_full (hsame.trans hfull), hidle (by rw [hroom, hfull, Nat.zero_min]),
          hroom, hfull, List.append_nil, Nat.sub_zero, Stack.resize_pos stack hq]
      · have hpos : 0 < unitsIn slot.contents + min (slot.room s.env.rules stack) q := by omega
        rw [Slot.planOffer_of_room (hsame.symm ▸ hfree), hsame, State.servings, dealt_singleton,
          hroom, if_pos (by omega), State.serving, State.contents_of_slot hslot,
          Stack.resize_pos _ hpos]
        rfl

/-- One pass deals what is left over out to the slots that have their turn in it. -/
theorem pass_eq (hl : l.Nodup)
    (hsteady : ∀ x ∈ l, ∀ slot, s.forest.slot x = some slot → slot.filter.Steady s.env.rules)
    (hnew : merging = false → ∀ x ∈ l, s.contents x = none → x ∉ puts.map Prod.fst) :
    l.foldl (fill s merging) ⟨puts, stack.resize q⟩ =
      ⟨puts ++ s.servings stack q (l.filter (s.takesTurn stack merging)),
        stack.resize (q - ((l.filter (s.takesTurn stack merging)).map (s.room stack)).sum)⟩ := by
  induction l generalizing puts q with
  | nil =>
    rw [List.filter_nil, List.map_nil, List.sum_nil, Nat.sub_zero]
    exact congrArg (OfferPlan.mk · _) (List.append_nil puts).symm
  | cons x rest ih =>
    obtain ⟨hx, hrest⟩ := List.nodup_cons.mp hl
    have hsteady' := fun y hy => hsteady y (List.mem_cons_of_mem x hy)
    rw [List.foldl_cons, List.filter_cons]
    cases hturn : s.takesTurn stack merging x with
    | false =>
      rw [fill_of_no_turn hturn, if_neg Bool.false_ne_true]
      exact ih hrest hsteady' fun hm y hy => hnew hm y (List.mem_cons_of_mem x hy)
    | true =>
      have hfirst : merging = false → x ∉ puts.map Prod.fst := by
        rintro rfl
        refine hnew rfl x List.mem_cons_self ?_
        simpa [State.takesTurn] using hturn
      rw [fill_of_turn (hsteady x List.mem_cons_self) hfirst hturn, if_pos rfl]
      rw [ih hrest hsteady' ?_]
      · have hlater : x ∉ rest.filter (s.takesTurn stack merging) :=
          fun h => hx (List.mem_filter.mp h).1
        unfold State.servings
        rw [dealt_cons hlater, List.append_assoc, List.map_cons, List.sum_cons, Nat.sub_sub]
      · intro hm y hy hempty
        rw [List.map_append, List.mem_append, not_or]
        refine ⟨hnew hm y (List.mem_cons_of_mem x hy) hempty, ?_⟩
        rw [State.servings, dealt_fst]
        intro hmem
        obtain rfl := List.mem_singleton.mp ((takers_sublist _ _ _).subset hmem)
        exact hx hy

end OfferPlan

namespace State
variable {s t : State} {stack : Stack} {order : List SlotId} {x : SlotId}

/-- An offer deals the stack out along the turns and is left with what finds no room. -/
theorem planOffer_eq (horder : order.Nodup) (hstack : 1 ≤ stack.quantity)
    (hsteady : ∀ x ∈ order, ∀ slot, s.forest.slot x = some slot →
      slot.filter.Steady s.env.rules) :
    s.planOffer order stack = ⟨s.servings stack stack.quantity (s.turns stack order),
      stack.resize (stack.quantity - (order.map (s.room stack)).sum)⟩ := by
  have hstart : OfferPlan.start stack = ⟨[], stack.resize stack.quantity⟩ := by
    rw [Stack.resize_self hstack]
    rfl
  have hnew : ∀ y ∈ order, s.contents y = none → y ∉ ((s.servings stack stack.quantity
      (order.filter (s.takesTurn stack true))).map Prod.fst) := by
    intro y _ hempty hmem
    rw [servings, dealt_fst] at hmem
    have hmerges := (List.mem_filter.mp ((takers_sublist _ _ _).subset hmem)).2
    rw [takesTurn, if_pos rfl, hempty] at hmerges
    cases hmerges
  have hmerged : order.foldl (OfferPlan.fill s true) ⟨[], stack.resize stack.quantity⟩ = _ :=
    OfferPlan.pass_eq horder hsteady fun h => absurd h.symm Bool.false_ne_true
  have hturns : ((order.filter (s.takesTurn stack true)).map (s.room stack)).sum +
      ((order.filter (s.takesTurn stack false)).map (s.room stack)).sum =
        (order.map (s.room stack)).sum := by
    rw [← List.sum_append, ← List.map_append]
    exact s.sum_room_turns stack order
  unfold planOffer turns
  rw [hstart, hmerged, List.nil_append]
  dsimp only
  rw [OfferPlan.pass_eq horder hsteady fun _ => hnew, Nat.sub_sub, hturns]
  unfold servings
  rw [dealt_append (s.disjoint_turns stack order)]

theorem exists_slot_of_room (h : 0 < s.room stack x) :
    ∃ slot, s.forest.slot x = some slot ∧ s.room stack x = slot.room s.env.rules stack := by
  unfold room at h ⊢
  cases hslot : s.forest.slot x with
  | none =>
    rw [hslot] at h
    cases h
  | some slot => exact ⟨slot, rfl, rfl⟩

theorem room_resize
    (hsteady : ∀ slot, s.forest.slot x = some slot → slot.filter.Steady s.env.rules) (n : Nat) :
    s.room { stack with quantity := n } x = s.room stack x := by
  unfold room
  cases hslot : s.forest.slot x with
  | none => rfl
  | some slot => exact Slot.room_resize (hsteady slot hslot) n

theorem serving_new {n : Nat} (hn : 0 < n) (hroom : n ≤ s.room stack x) :
    ∃ slot, s.forest.slot x = some slot ∧ slot.contents ≠ some (s.serving stack x n) := by
  obtain ⟨slot, hslot, _⟩ := exists_slot_of_room (Nat.lt_of_lt_of_le hn hroom)
  refine ⟨slot, hslot, fun hsame => ?_⟩
  have hunits : unitsIn slot.contents = unitsIn slot.contents + n := by
    conv_lhs => rw [hsame]
    rw [← contents_of_slot hslot]
    rfl
  omega

/-- Between two states the stack was dealt out along the turns of an order, as is reported. -/
structure Served (s t : State) (order : List SlotId) (stack : Stack) (r : Transaction) : Prop where
  diff : s.Diff t r.changes
  touched : r.touched = takers (s.room stack) stack.quantity (s.turns stack order)
  after : ∀ c ∈ r.changes,
    c.after = some (s.serving stack c.slot
      (share (s.room stack) stack.quantity (s.turns stack order) c.slot))
  filled : ∀ front last, r.touched = front ++ [last] → ∀ x ∈ front, ∀ slot,
    s.forest.slot x = some slot →
      t.contents x = some { stack with quantity := slot.maxStackFor s.env.rules stack }
  placed : (r.touched.map fun x => unitsIn (t.contents x) - unitsIn (s.contents x)).sum =
    min stack.quantity (order.map (s.room stack)).sum
  units : ∀ k : ItemClass, t.units k = s.units k +
    if stack.itemClass = k then min stack.quantity (order.map (s.room stack)).sum else 0
  rejected : r.rejected =
    stack.resize (stack.quantity - min stack.quantity (order.map (s.room stack)).sum)

end State

namespace Step
variable {w w' : World} {order : List SlotId} {stack : Stack} {o : Offered}

theorem offerIn_served (hw : w.state.Sound) (horder : order.Nodup) (hstack : 1 ≤ stack.quantity)
    (hsteady : ∀ x ∈ order, ∀ slot, w.state.forest.slot x = some slot →
      slot.filter.Steady w.state.env.rules)
    (h : offerIn order stack w = (.ok o, w')) :
    w.state.Served w'.state order stack o.toTransaction := by
  have hturns : (w.state.turns stack order).Nodup := State.nodup_turns horder
  obtain ⟨hrejected, hunits, _⟩ := offerIn_ok hw horder h
  have hplan := State.planOffer_eq horder hstack hsteady
  rw [offerIn_eq, State.offerPuts, hplan, State.servings, dealt_map] at h
  rw [hplan] at hrejected
  dsimp only at hrejected
  obtain ⟨changes, u, hcommits, hanswer⟩ := bind_eq_ok h
  obtain ⟨rfl, rfl⟩ : o.changes = changes ∧ w' = u := by
    cases hanswer
    exact ⟨rfl, rfl⟩
  obtain ⟨hdiff, htouched, hafter, hheld⟩ := commitAll_dealt hw hturns
    (fun x hx => State.serving_new (mem_takers_iff.mp hx).2 (share_le _ _ _ _)) hcommits
  change o.toTransaction.touched = takers (w.state.room stack) _ _ at htouched
  refine ⟨hdiff, htouched, hafter, ?_, ?_, ?_, ?_⟩
  · intro front last hfront x hx slot hslot
    rw [htouched] at hfront
    obtain ⟨hshare, hpos⟩ := share_of_takers hturns hfront hx
    rw [hheld x (hfront ▸ List.mem_append_left _ hx)]
    have hroom : w.state.room stack x = slot.room w.state.env.rules stack := by
      rw [State.room, hslot, Option.elim_some]
    have hlimit := (Slot.room_pos (hroom ▸ hpos)).2.2
    rw [State.serving, hshare, hroom, State.contents_of_slot hslot, hlimit]
  · rw [← State.sum_room_turns, ← sum_takers _ _ hturns, htouched]
    refine congrArg List.sum (List.map_congr_left fun x hx => ?_)
    rw [hheld x hx]
    exact Nat.add_sub_cancel_left ..
  · intro k
    have hk := hunits k
    rw [hrejected, ItemClass.unitsIn_resize, ItemClass.unitsIn_some] at hk
    split at hk
    · rename_i hclass
      rw [if_pos hclass]
      omega
    · rename_i hclass
      rw [if_neg hclass]
      omega
  · change o.rejected = _
    rw [hrejected]
    congr 1
    omega

end Step

section Again
variable {s t : State} {stack rest : Stack} {order : List SlotId} {r : Transaction} {x : SlotId}

theorem State.Diff.steady {cs : List Change} (h : s.Diff t cs) (henv : t.env = s.env)
    (hsteady : ∀ slot, s.forest.slot x = some slot → slot.filter.Steady s.env.rules) :
    ∀ slot, t.forest.slot x = some slot → slot.filter.Steady t.env.rules := by
  intro slot hslot
  rw [henv]
  by_cases hx : x ∈ cs.map Change.slot
  · obtain ⟨c, hc, rfl⟩ := List.mem_map.mp hx
    obtain ⟨_, old, hold, _, hnew⟩ := h.listed c hc
    rw [hnew] at hslot
    cases hslot
    exact hsteady old hold
  · rw [h.others x hx] at hslot
    exact hsteady slot hslot

theorem State.Served.full (h : s.Served t order stack r) (henv : t.env = s.env)
    (horder : order.Nodup) (hleft : (order.map (s.room stack)).sum ≤ stack.quantity)
    (hx : x ∈ order) : t.room stack x = 0 := by
  have hshare : x ∈ s.turns stack order → share (s.room stack) stack.quantity
      (s.turns stack order) x = s.room stack x := by
    intro hturn
    refine share_eq_of_sum_le (State.nodup_turns horder) hturn ?_
    rw [State.sum_room_turns]
    exact hleft
  by_cases htouched : x ∈ r.touched
  · obtain ⟨c, hc, rfl⟩ := List.mem_map.mp htouched
    obtain ⟨_, slot, hslot, hbefore, hnew⟩ := h.diff.listed c hc
    rw [h.touched] at htouched
    obtain ⟨hturn, hpos⟩ := mem_takers_iff.mp htouched
    have hroom : s.room stack c.slot = slot.room s.env.rules stack := by
      rw [State.room, hslot, Option.elim_some]
    rw [h.after c hc, State.serving, hshare hturn, hroom, State.contents_of_slot hslot] at hnew
    rw [hshare hturn, hroom] at hpos
    rw [State.room, hnew, Option.elim_some, henv, Slot.room_put hpos, Nat.sub_self]
  · have hsame : t.room stack x = s.room stack x := by
      unfold State.room
      rw [h.diff.others x htouched, henv]
    rw [hsame]
    by_cases hturn : x ∈ s.turns stack order
    · rw [h.touched, mem_takers_iff, not_and] at htouched
      have hnone := htouched hturn
      rw [hshare hturn] at hnone
      exact Nat.eq_zero_of_not_pos hnone
    · refine State.room_of_no_turn fun merging => Bool.eq_false_iff.mpr fun htakes => hturn ?_
      unfold State.turns
      cases merging with
      | true => exact List.mem_append_left _ (List.mem_filter.mpr ⟨hx, htakes⟩)
      | false => exact List.mem_append_right _ (List.mem_filter.mpr ⟨hx, htakes⟩)

theorem Step.offerIn_full {w : World} (horder : order.Nodup) (hrest : 1 ≤ rest.quantity)
    (hsteady : ∀ x ∈ order, ∀ slot, w.state.forest.slot x = some slot →
      slot.filter.Steady w.state.env.rules)
    (hfull : ∀ x ∈ order, w.state.room rest x = 0) :
    offerIn order rest w = (.ok ⟨[], some rest⟩, w) := by
  have hnone : (order.map (w.state.room rest)).sum = 0 := by
    rw [List.sum_eq_zero]
    intro n hn
    obtain ⟨x, hx, rfl⟩ := List.mem_map.mp hn
    exact hfull x hx
  have htakers : takers (w.state.room rest) rest.quantity (w.state.turns rest order) = [] := by
    refine List.filter_eq_nil_iff.mpr fun x hx => ?_
    have hmem : x ∈ order := by
      rcases List.mem_append.mp hx with hx | hx
      · exact (List.mem_filter.mp hx).1
      · exact (List.mem_filter.mp hx).1
    have hshare := share_le (w.state.room rest) rest.quantity (w.state.turns rest order) x
    rw [hfull x hmem] at hshare
    rw [decide_eq_true_iff]
    omega
  rw [offerIn_eq, State.offerPuts, State.planOffer_eq horder hrest hsteady, hnone, State.servings,
    dealt, htakers, Nat.sub_zero, Stack.resize_self hrest]
  rfl

end Again

section Run
variable {past : List World} {w : World} {sh : Shelf} {stack : Stack}

/-- Whatever happened before, an offer to a live node or a view comes to its end while listeners are
isolated. As long as its filters do not look at quantities it places all that there is room for, in
turn, and changes nothing else; and when it hands something back, that finds no room there any
more. -/
theorem offers_fill_in_turn (h : Run past w) (hthere : sh.There w.state)
    (hstack : 1 ≤ stack.quantity)
    (hsteady : ∀ x ∈ sh.order w.state, ∀ slot, w.state.forest.slot x = some slot →
      slot.filter.Steady w.state.env.rules) :
    (w.state.env.settings.isolateListenerPanics = true →
      ∃ t w', sh.offer stack w = (.ok t, w')) ∧
    ∀ t w', sh.offer stack w = (.ok t, w') →
      w.state.Served w'.state (sh.order w.state) stack t ∧
      ∀ rest, t.rejected = some rest →
        sh.offer rest w' = (.ok (.failure (some rest)), w') := by
  refine ⟨?_, ?_⟩
  · intro hisolated
    obtain ⟨t, w', hoffer, _⟩ := sh.returns_offer stack w hisolated
    exact ⟨t, w', hoffer⟩
  · intro t w' hoffer
    have horder := Shelf.nodup_order h hthere
    rw [Shelf.offer_eq hthere] at hoffer
    obtain ⟨o, u, hin, hpure⟩ := Step.bind_eq_ok hoffer
    cases hpure
    have hserved := Step.offerIn_served h.sound horder hstack hsteady hin
    refine ⟨hserved, ?_⟩
    intro rest hrest
    have hkept := (Step.tidy_offerIn (sh.order w.state) stack w h.sound).1.kept
    rw [hin] at hkept
    have hback := hserved.rejected
    rw [hrest] at hback
    obtain ⟨hpos, hsmaller, hquantity⟩ : 1 ≤ rest.quantity ∧
        rest = { stack with quantity := rest.quantity } ∧ rest.quantity = stack.quantity -
          min stack.quantity ((sh.order w.state).map (w.state.room stack)).sum := by
      unfold Stack.resize at hback
      split at hback
      · cases hback
      · cases hback
        exact ⟨by dsimp only; omega, rfl, rfl⟩
    have hsteady' : ∀ x ∈ sh.order w.state, ∀ slot, w'.state.forest.slot x = some slot →
        slot.filter.Steady w'.state.env.rules :=
      fun x hx => hserved.diff.steady hkept.env (hsteady x hx)
    have hfull : ∀ x ∈ sh.order w.state, w'.state.room rest x = 0 := by
      intro x hx
      rw [hsmaller, State.room_resize (hsteady' x hx)]
      exact hserved.full hkept.env horder (by omega) hx
    rw [Shelf.offer_eq (hthere.kept hkept), Shelf.order_kept hkept,
      Step.bind_of_ok (Step.offerIn_full horder hpos hsteady' hfull)]
    rfl

theorem offers_fill_in_turn_stacked : ∃ t w',
    (Shelf.node ⟨4, 0⟩).offer (.new ⟨"minecraft:apple"⟩ 200)
      (World.reached Operation.stacked).2 = (.ok t, w') ∧
    (World.reached Operation.stacked).2.state.Served w'.state [⟨3, 0⟩, ⟨1, 0⟩, ⟨0, 0⟩]
      (.new ⟨"minecraft:apple"⟩ 200) t ∧
    t.rejected = some (.new ⟨"minecraft:apple"⟩ 8) ∧
    (Shelf.node ⟨4, 0⟩).offer (.new ⟨"minecraft:apple"⟩ 8) w' =
      (.ok (.failure (some (.new ⟨"minecraft:apple"⟩ 8))), w') := by
  have hthere : (Shelf.node ⟨4, 0⟩).There (World.reached Operation.stacked).2.state :=
    show Forest.contains _ _ = true by decide +kernel
  obtain ⟨hreturns, hfills⟩ := offers_fill_in_turn (Run.reached Operation.stacked) hthere
    (show 1 ≤ (Stack.new ⟨"minecraft:apple"⟩ 200).quantity by decide)
    (fun x _ => State.steady_of_known (by decide +kernel) x)
  obtain ⟨t, w', hoffer⟩ := hreturns (by decide +kernel)
  obtain ⟨hserved, hagain⟩ := hfills t w' hoffer
  have horder : (Shelf.node ⟨4, 0⟩).order (World.reached Operation.stacked).2.state =
      [⟨3, 0⟩, ⟨1, 0⟩, ⟨0, 0⟩] := by decide +kernel
  rw [horder] at hserved
  have hroom : ([⟨3, 0⟩, ⟨1, 0⟩, ⟨0, 0⟩].map ((World.reached Operation.stacked).2.state.room
      (.new ⟨"minecraft:apple"⟩ 200))).sum = 192 := by decide +kernel
  have hrejected := hserved.rejected
  rw [hroom] at hrejected
  exact ⟨t, w', hoffer, hserved, hrejected, hagain _ hrejected⟩

end Run

end Stowage
