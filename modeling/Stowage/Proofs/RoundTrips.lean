import Stowage.Proofs.OfferPriority
import Stowage.Proofs.PollShares

/-!
# Offers that come back

What an offer leaves in slots that were empty is the stack in several piles. A poll for as many
units as there are gathers all piles and leaves nothing behind, whichever slots took part. So an
offer to empty slots can be taken back by a poll.
-/

namespace Stowage

set_option autoImplicit false

def Stack.Pile (stack : Stack) (t : Option Stack) : Prop := t = stack.resize (unitsIn t)

def Transaction.placed (t : Transaction) : Nat :=
  (t.changes.map fun c => unitsIn c.after - unitsIn c.before).sum

section Pile
variable {stack held : Stack} {t : Option Stack}

theorem Stack.pile_none (stack : Stack) : stack.Pile none := rfl

theorem Stack.pile_resize (stack : Stack) (n : Nat) : stack.Pile (stack.resize n) := by
  unfold Pile
  rw [Stack.unitsIn_resize]

theorem Stack.pile_self (h : 1 ≤ stack.quantity) : stack.Pile (some stack) :=
  (stack.resize_self h).symm

theorem Stack.Pile.eq (h : stack.Pile (some held)) :
    0 < held.quantity ∧ held = { stack with quantity := held.quantity } := by
  unfold Pile resize at h
  change some held = if held.quantity = 0 then none else _ at h
  split at h
  · cases h
  · exact ⟨by omega, Option.some.inj h⟩

theorem Stack.Pile.resize (h : stack.Pile (some held)) (n : Nat) :
    held.resize n = stack.resize n := by
  rw [h.eq.2]
  rfl

theorem Stack.Pile.unitsIn_class (h : stack.Pile t) :
    stack.itemClass.unitsIn t = unitsIn t := by
  rw [h, ItemClass.unitsIn_resize, if_pos rfl, Stack.unitsIn_resize]

theorem Stack.Pile.eq_none (h : stack.Pile t) (hnone : unitsIn t = 0) : t = none := by
  rw [h, hnone]
  rfl

end Pile

section Sums
variable {l m : List NodeId} {f : NodeId → Nat}

theorem sum_map_of_subset (hl : l.Nodup) (hsub : l ⊆ m) (hm : m.Nodup)
    (hzero : ∀ x ∈ m, x ∉ l → f x = 0) : (m.map f).sum = (l.map f).sum := by
  induction l generalizing m with
  | nil =>
    rw [List.map_nil, List.sum_nil]
    refine List.sum_eq_zero fun n hn => ?_
    obtain ⟨x, hx, rfl⟩ := List.mem_map.mp hn
    exact hzero x hx List.not_mem_nil
  | cons y rest ih =>
    obtain ⟨hy, hrest⟩ := List.nodup_cons.mp hl
    have hperm := List.perm_cons_erase (hsub List.mem_cons_self)
    rw [(hperm.map f).sum_eq, List.map_cons, List.map_cons, List.sum_cons, List.sum_cons]
    refine congrArg _ (ih hrest ?_ (hm.erase y) ?_)
    · intro x hx
      have hne : x ≠ y := fun he => hy (he ▸ hx)
      exact (List.mem_erase_of_ne hne).mpr (hsub (List.mem_cons_of_mem y hx))
    · intro x hx hnot
      obtain ⟨hne, hmem⟩ := (hm.mem_erase_iff).mp hx
      exact hzero x hmem fun h => (List.mem_cons.mp h).elim hne hnot

end Sums

namespace State
variable {s t : State} {order : List SlotId} {stack : Stack} {a : Nat} {x : SlotId}

/-- The slots of the order hold the stack in piles of so many units together. -/
structure Piled (s : State) (order : List SlotId) (stack : Stack) (a : Nat) : Prop where
  piles : ∀ x ∈ order, stack.Pile (s.contents x)
  total : (order.map fun x => unitsIn (s.contents x)).sum = a

theorem planOffer_piles (s : State) (order : List SlotId) (hstack : 1 ≤ stack.quantity) :
    stack.Pile (s.planOffer order stack).remaining ∧
      ∀ put ∈ (s.planOffer order stack).puts, stack.Pile (some put.2) := by
  refine s.planOffer_induction (P := fun p => stack.Pile p.remaining ∧
    ∀ put ∈ p.puts, stack.Pile (some put.2)) order stack ⟨Stack.pile_self hstack, by
      simp [OfferPlan.start]⟩ ?_
  rintro merging p id ⟨hleft, hputs⟩
  rcases OfferPlan.fill_cases s merging p id with he | ⟨rest, slot, step, hrest, _, _, hstep, he⟩
  · rw [he]
    exact ⟨hleft, hputs⟩
  · rw [hrest] at hleft
    obtain ⟨_, current, _, _, rfl⟩ := Slot.planOffer_cases hstep
    rw [he]
    dsimp only
    rw [hleft.resize, hleft.resize]
    refine ⟨stack.pile_resize _, fun put hput => ?_⟩
    rcases List.mem_append.mp hput with hput | hput
    · exact hputs put hput
    · obtain ⟨b, hb, rfl⟩ := Option.map_eq_some_iff.mp (Option.mem_toList.mp hput)
      rw [← hb]
      exact stack.pile_resize _

theorem Piled.stock (h : s.Piled order stack a) (hx : x ∈ order) :
    s.stock stack.itemClass x = unitsIn (s.contents x) := (h.piles x hx).unitsIn_class

theorem Piled.sum_stock (h : s.Piled order stack a) :
    (order.map (s.stock stack.itemClass)).sum = a := by
  rw [← h.total]
  exact congrArg List.sum (List.map_congr_left fun x hx => h.stock hx)

theorem Piled.exists_front (h : s.Piled order stack a) (ha : 1 ≤ a) :
    ∃ x held, s.front order = some x ∧ s.contents x = some held ∧
      held = { stack with quantity := held.quantity } := by
  cases hfront : s.front order with
  | none =>
    have hbare : ∀ n ∈ order.map fun x => unitsIn (s.contents x), n = 0 := by
      intro n hn
      obtain ⟨x, hx, rfl⟩ := List.mem_map.mp hn
      have hno := List.find?_eq_none.mp hfront x hx
      rw [decide_eq_true_iff] at hno
      omega
    have htotal := h.total
    rw [List.sum_eq_zero hbare] at htotal
    omega
  | some x =>
    have hpile := h.piles x (List.mem_of_find?_eq_some hfront)
    have hunits := List.find?_some hfront
    rw [decide_eq_true_iff] at hunits
    cases hheld : s.contents x with
    | none =>
      rw [hheld] at hunits
      exact absurd hunits (Nat.lt_irrefl 0)
    | some held =>
      rw [hheld] at hpile
      exact ⟨x, held, rfl, hheld, hpile.eq.2⟩

end State

namespace Step
variable {w w' : World} {order : List SlotId} {stack : Stack} {a : Nat} {got : Option Stack}
  {r : Transaction} {o : Offered}

/-- A poll for all that there is in piles of one stack leaves nothing behind. -/
theorem pollIn_piled (hw : w.state.Sound) (horder : order.Nodup)
    (hpiled : w.state.Piled order stack a) (ha : 1 ≤ a) (hmax : a ≤ maxQuantity)
    (h : pollIn order (some a) w = (.ok (got, r), w')) :
    got = some { stack with quantity := a } ∧ (∀ x ∈ order, w'.state.contents x = none) ∧
      ∀ x, x ∉ order → w'.state.contents x = w.state.contents x := by
  obtain ⟨x, held, hfront, hheld, hpart⟩ := hpiled.exists_front ha
  have hclass : held.itemClass = stack.itemClass := by rw [hpart]; rfl
  have hlimit : some a ≠ some 0 := by
    intro he
    have hzero := Option.some.inj he
    omega
  have hgathered := pollIn_gathered hw horder hlimit hfront hheld hmax h
  have hsum := hpiled.sum_stock
  rw [← hclass] at hsum
  refine ⟨?_, ?_, ?_⟩
  · rw [hgathered.gathered, State.gathering, hsum, Option.getD_some, Nat.min_self, hpart]
  · intro y hy
    have hstock := hpiled.stock hy
    rw [← hclass] at hstock
    have hshare : share (w.state.stock held.itemClass) a order y =
        w.state.stock held.itemClass y :=
      share_eq_of_sum_le horder hy (Nat.le_of_eq hsum)
    by_cases htouched : y ∈ r.touched
    · obtain ⟨c, hc, rfl⟩ := List.mem_map.mp htouched
      have hpos := (mem_takers_iff.mp (hgathered.touched ▸ htouched)).2
      rw [Option.getD_some, hshare] at hpos
      rw [hgathered.diff.contents_after hc, hgathered.after c hc, Option.getD_some, hshare]
      exact State.leaving_all (Nat.pos_iff_ne_zero.mp hpos)
    · have hnone : ¬ 0 < w.state.stock held.itemClass y := by
        rw [hgathered.touched, mem_takers_iff, Option.getD_some, hshare, not_and] at htouched
        exact htouched hy
      rw [State.contents_of_slot_eq (hgathered.diff.others y htouched)]
      exact (hpiled.piles y hy).eq_none (by omega)
  · intro y hy
    refine State.contents_of_slot_eq (hgathered.diff.others y fun htouched => hy ?_)
    change y ∈ r.touched at htouched
    rw [hgathered.touched] at htouched
    exact (mem_takers_iff.mp htouched).1

theorem offerIn_fills (hw : w.state.Sound) (horder : order.Nodup)
    (hempty : ∀ x ∈ order, w.state.contents x = none)
    (h : offerIn order stack w = (.ok o, w')) :
    o.rejected = (w.state.planOffer order stack).remaining ∧
    (o.changes = (w.state.planOffer order stack).puts.map fun put => ⟨put.1, none, some put.2⟩) ∧
    (∀ put ∈ (w.state.planOffer order stack).puts, w'.state.contents put.1 = some put.2) ∧
    ∀ x, x ∉ (w.state.planOffer order stack).puts.map Prod.fst →
      w'.state.contents x = w.state.contents x := by
  have hlive := (w.state.planOffer_balanced stack horder).live
  have hbare : ∀ put ∈ (w.state.planOffer order stack).puts, w.state.contents put.1 = none :=
    fun put hput => hempty _ (w.state.planOffer_puts_subset order stack (List.mem_map_of_mem hput))
  rw [offerIn_eq] at h
  obtain ⟨changes, u, hcommits, hanswer⟩ := bind_eq_ok h
  cases hanswer
  have hnodup := State.nodup_offerPuts (s := w.state) horder stack
  have hnew : ∀ c ∈ w.state.offerPuts order stack,
      ∃ slot, w.state.forest.slot c.1 = some slot ∧ slot.contents ≠ c.2 := by
    intro c hc
    obtain ⟨put, hput, rfl⟩ := List.mem_map.mp hc
    obtain ⟨slot, hslot⟩ := Option.isSome_iff_exists.mp (hlive put hput)
    refine ⟨slot, hslot, ?_⟩
    rw [← State.contents_of_slot hslot, hbare put hput]
    exact nofun
  obtain ⟨hchanges, hheld⟩ := commitAll_new hw hnodup hnew hcommits
  refine ⟨rfl, ?_, fun put hput => hheld _ (List.mem_map_of_mem hput), ?_⟩
  · rw [hchanges, State.offerPuts, List.map_map]
    refine List.map_congr_left fun put hput => ?_
    rw [Function.comp_apply, hbare put hput]
  · intro x hx
    rw [← State.offerPuts_fst] at hx
    exact State.contents_of_slot_eq (slot_commitAll_of_not_mem hw hcommits hx)

/-- An offer leaves piles of its stack in empty slots, and hands the other units back. -/
theorem offerIn_piled (hw : w.state.Sound) (horder : order.Nodup) (hstack : 1 ≤ stack.quantity)
    (hempty : ∀ x ∈ order, w.state.contents x = none)
    (h : offerIn order stack w = (.ok o, w')) :
    w'.state.Piled order stack o.toTransaction.placed ∧
      o.toTransaction.placed + unitsIn o.rejected = stack.quantity ∧ stack.Pile o.rejected ∧
      ∀ x, x ∉ order → w'.state.contents x = w.state.contents x := by
  obtain ⟨hrejected, hchanges, hfilled, hothers⟩ := offerIn_fills hw horder hempty h
  obtain ⟨hleft, hputs⟩ := w.state.planOffer_piles order hstack
  obtain ⟨hnodup, _, hbalance⟩ := w.state.planOffer_balanced stack horder
  have hsubset : (w.state.planOffer order stack).puts.map Prod.fst ⊆ order :=
    fun x hx => w.state.planOffer_puts_subset order stack hx
  rw [← hrejected] at hleft hbalance
  generalize (w.state.planOffer order stack).puts = puts at *
  have hplaced : o.toTransaction.placed = (puts.map fun put => unitsIn (some put.2)).sum := by
    change (o.changes.map _).sum = _
    rw [hchanges, List.map_map]
    rfl
  refine ⟨⟨fun x hx => ?_, ?_⟩, ?_, hleft, ?_⟩
  · by_cases hput : x ∈ puts.map Prod.fst
    · obtain ⟨put, hmem, rfl⟩ := List.mem_map.mp hput
      rw [hfilled put hmem]
      exact hputs put hmem
    · rw [hothers x hput, hempty x hx]
      exact stack.pile_none
  · rw [hplaced, sum_map_of_subset hnodup hsubset horder, List.map_map]
    · exact congrArg List.sum (List.map_congr_left fun put hput => by
        rw [Function.comp_apply, hfilled put hput])
    · intro x hx hput
      rw [hothers x hput, hempty x hx]
      rfl
  · have hclass := hbalance stack.itemClass
    have hgiven : (puts.map fun put => stack.itemClass.unitsIn (some put.2)).sum =
        o.toTransaction.placed := by
      rw [hplaced]
      exact congrArg List.sum (List.map_congr_left fun put hput => (hputs put hput).unitsIn_class)
    have hbefore : (puts.map fun put =>
        stack.itemClass.unitsIn (w.state.contents put.1)).sum = 0 := by
      refine List.sum_eq_zero fun n hn => ?_
      obtain ⟨put, hput, rfl⟩ := List.mem_map.mp hn
      rw [hempty _ (hsubset (List.mem_map_of_mem hput)), ItemClass.unitsIn_none]
    rw [hgiven, hbefore, hleft.unitsIn_class, (Stack.pile_self hstack).unitsIn_class] at hclass
    exact hclass
  · exact fun x hx => hothers x fun hput => hx (hsubset hput)

end Step

section Run
variable {past : List World} {w : World} {sh : Shelf} {stack : Stack}

/-- Whatever happened before, a stack that is offered to empty slots of a live node or a view, with
any filters and limits, is placed or handed back, and a poll for as many units as were placed gives
them back and leaves everything as it was. Both come to their ends while listeners are isolated. -/
theorem offers_come_back (h : Run past w) (hthere : sh.There w.state)
    (hstack : 1 ≤ stack.quantity) (hmax : stack.quantity ≤ maxQuantity)
    (hempty : ∀ x ∈ sh.order w.state, w.state.contents x = none) :
    (w.state.env.settings.isolateListenerPanics = true →
      ∃ t w', sh.offer stack w = (.ok t, w')) ∧
    ∀ t w', sh.offer stack w = (.ok t, w') →
      t.placed + unitsIn t.rejected = stack.quantity ∧
      t.rejected = stack.resize (stack.quantity - t.placed) ∧
      (1 ≤ t.placed →
        (w.state.env.settings.isolateListenerPanics = true →
          ∃ got r w'', sh.poll (some t.placed) w' = (.ok (got, r), w'')) ∧
        ∀ got r w'', sh.poll (some t.placed) w' = (.ok (got, r), w'') →
          got = some { stack with quantity := t.placed } ∧
          ∀ x, w''.state.contents x = w.state.contents x) := by
  have horder := Shelf.nodup_order h hthere
  refine ⟨?_, ?_⟩
  · intro hisolated
    obtain ⟨t, w', hoffer, _⟩ := sh.returns_offer stack w hisolated
    exact ⟨t, w', hoffer⟩
  · intro t w' hoffer
    rw [Shelf.offer_eq hthere] at hoffer
    obtain ⟨o, u, hin, hpure⟩ := Step.bind_eq_ok hoffer
    cases hpure
    obtain ⟨hpiled, hunits, hleft, hothers⟩ :=
      Step.offerIn_piled h.sound horder hstack hempty hin
    have htouches := (Step.tidy_offerIn (sh.order w.state) stack w h.sound).1
    rw [hin] at htouches
    have hkept := htouches.kept
    refine ⟨hunits, ?_, fun hplaced => ⟨?_, ?_⟩⟩
    · rw [Nat.sub_eq_of_eq_add' hunits.symm]
      exact hleft
    · intro hisolated
      obtain ⟨⟨got, r⟩, w'', hpoll, _⟩ := sh.returns_poll (some o.toTransaction.placed) w'
        (by rw [hkept.env]; exact hisolated)
      exact ⟨got, r, w'', hpoll⟩
    · intro got r w'' hpoll
      rw [Shelf.poll_eq (hthere.kept hkept), Shelf.order_kept hkept] at hpoll
      obtain ⟨hgot, hbare, hrest⟩ := Step.pollIn_piled (hkept.sound h.sound) horder hpiled hplaced
        (by omega) hpoll
      refine ⟨hgot, fun x => ?_⟩
      by_cases hx : x ∈ sh.order w.state
      · rw [hbare x hx, hempty x hx]
      · rw [hrest x hx, hothers x hx]

theorem offers_come_back_stacked : ∃ t w' got r w'',
    (Shelf.node ⟨4, 0⟩).offer (.new ⟨"minecraft:apple"⟩ 200)
      (World.reached Operation.stacked).2 = (.ok t, w') ∧
    t.rejected = some (.new ⟨"minecraft:apple"⟩ 8) ∧
    (Shelf.node ⟨4, 0⟩).poll (some 192) w' = (.ok (got, r), w'') ∧
    got = some (.new ⟨"minecraft:apple"⟩ 192) ∧ w''.state.contents ⟨3, 0⟩ = none := by
  have hthere : (Shelf.node ⟨4, 0⟩).There (World.reached Operation.stacked).2.state :=
    show Forest.contains _ _ = true by decide +kernel
  obtain ⟨hreturns, hround⟩ := offers_come_back (Run.reached Operation.stacked) hthere
    (show 1 ≤ (Stack.new ⟨"minecraft:apple"⟩ 200).quantity by decide) (by decide)
    (by decide +kernel)
  obtain ⟨t, w', hoffer⟩ := hreturns (by decide +kernel)
  have hplaced : t.placed = 192 := by
    have hread := congrArg (fun r => r.1.toOption.map Transaction.placed) hoffer
    exact Option.some.inj (hread.symm.trans (by decide +kernel))
  obtain ⟨_, hrejected, hback⟩ := hround t w' hoffer
  rw [hplaced] at hrejected hback
  obtain ⟨hpolls, hgives⟩ := hback (by omega)
  obtain ⟨got, r, w'', hpoll⟩ := hpolls (by decide +kernel)
  obtain ⟨hgot, hleft⟩ := hgives got r w'' hpoll
  exact ⟨t, w', got, r, w'', hoffer, hrejected.trans (by decide +kernel), hpoll, hgot,
    (hleft ⟨3, 0⟩).trans (by decide +kernel)⟩

end Run

end Stowage
