import Stowage.Proofs.Answers

/-!
# Failures change nothing

An answer that is a failure lists no change, and then nothing was committed. What was offered is
handed back whole: the first slot that takes a part of it is changed by that. A slot that is set to
a stack keeps what its limit allows; when it holds just that already, only the rest is handed back.
-/

namespace Stowage

set_option autoImplicit false

/-- The outcome is a failure only if nothing changed. -/
def Transaction.Consistent (t : Transaction) : Prop := t.outcome = .failure → t.changes = []

theorem Transaction.consistent_failure (rejected : Option Stack) :
    (failure rejected).Consistent := fun _ => rfl

theorem Transaction.consistent_ofChanges (changes : List Change) (rejected : Option Stack) :
    (ofChanges changes rejected).Consistent := by
  intro h
  cases changes with
  | nil => rfl
  | cons c rest =>
    cases rest <;> cases rejected <;> cases h

theorem Transaction.rejected_of_failure {rejected : Option Stack}
    (h : (ofChanges [] rejected).outcome = .failure) : ∃ stack, rejected = some stack := by
  cases rejected with
  | none => cases h
  | some stack => exact ⟨stack, rfl⟩

namespace Step

variable {α β : Type} {P : α → Prop} {Q : β → Prop}

def Answers (P : α → Prop) (m : Step α) : Prop := ∀ w a w', m w = (.ok a, w') → P a

namespace Answers

theorem of_pure {a : α} (h : P a) : (pure a : Step α).Answers P := by
  intro w b w' hb
  cases hb
  exact h

theorem bind {m : Step α} {next : α → Step β} (hm : m.Answers P)
    (hnext : ∀ a, P a → (next a).Answers Q) : (m >>= next).Answers Q := by
  intro w b w' h
  obtain ⟨a, u, ha, hb⟩ := bind_eq_ok h
  exact hnext a (hm w a u ha) u b w' hb

theorem of_next {m : Step α} {next : α → Step β} (hnext : ∀ a, (next a).Answers Q) :
    (m >>= next).Answers Q := by
  intro w b w' h
  obtain ⟨a, u, _, hb⟩ := bind_eq_ok h
  exact hnext a u b w' hb

theorem map {m : Step α} {answer : α → β} (hm : m.Answers P) (h : ∀ a, P a → Q (answer a)) :
    (m >>= fun a => pure (answer a)).Answers Q := hm.bind fun a ha => of_pure (h a ha)

theorem unlessStale {operation : String} {node : NodeId} {refused : α} {act : Step α}
    (h : act.Answers P) (hrefused : P refused) :
    (unlessStale operation node refused act).Answers P := by
  apply of_next
  intro s
  split
  · exact h
  · exact of_next fun _ => of_pure hrefused

end Answers

open Transaction (consistent_failure consistent_ofChanges)

theorem consistent_pollIn (order : List SlotId) (limit : Option Nat) :
    (pollIn order limit).Answers fun r => r.2.Consistent := by
  apply Answers.of_next
  intro s
  split
  · exact .of_pure (consistent_failure none)
  · exact .of_next fun changes => .of_pure (consistent_ofChanges changes none)

theorem consistent_poll (node : NodeId) (limit : Option Nat) :
    (poll node limit).Answers fun r => r.2.Consistent :=
  .unlessStale (.of_next fun _ => consistent_pollIn _ limit) (consistent_failure none)

theorem consistent_set (slot : SlotId) (stack : Option Stack) :
    (set slot stack).Answers Transaction.Consistent := by
  refine .unlessStale (.of_next fun s => ?_) (consistent_failure stack)
  split
  · exact .of_pure (consistent_failure stack)
  · exact .of_next fun changes => .of_pure (consistent_ofChanges changes _)

theorem consistent_setIn (order : List SlotId) (index : Nat) (stack : Option Stack) :
    (setIn order index stack).Answers Transaction.Consistent := by
  unfold setIn
  split
  · exact .of_pure (consistent_failure stack)
  · exact consistent_set _ stack

theorem consistent_shiftClick (custom : CustomTargets) (container : NodeId) (slot : SlotId) :
    (shiftClick custom container slot).Answers fun r => ∀ t ∈ r.toOption, t.Consistent := by
  apply Answers.of_next
  intro s
  split
  · exact .of_pure (by rintro t ⟨⟩)
  · split
    · refine .of_pure ?_
      rintro t ⟨⟩
      exact consistent_failure none
    · dsimp only
      split
      · refine .of_pure ?_
        rintro t ⟨⟩
        exact consistent_failure none
      · refine .of_next fun changes => .of_pure ?_
        rintro t ⟨⟩
        exact consistent_ofChanges changes none

end Step

theorem Operation.consistent_answer (op : Operation) :
    op.answer.Answers fun r => ∀ t ∈ r, t.Consistent := by
  have hsome : ∀ {t : Transaction}, t.Consistent → ∀ r ∈ some t, r.Consistent := by
    rintro t ht r ⟨⟩
    exact ht
  have hoffered : ∀ o : Offered, o.toTransaction.Consistent :=
    fun o => Transaction.consistent_ofChanges o.changes o.rejected
  cases op
  case offer node stack =>
    exact .map (.of_next fun o => .of_pure (hoffered o)) fun t ht => hsome ht
  case offerTo node stack => exact .of_next fun o => .of_pure (hsome (hoffered o))
  case poll node limit => exact .map (Step.consistent_poll node limit) fun r hr => hsome hr
  case set slot stack => exact .map (Step.consistent_set slot stack) fun t ht => hsome ht
  case setAt node index stack =>
    exact .map (.of_next fun s => Step.consistent_setIn _ index stack) fun t ht => hsome ht
  case clear node =>
    exact .map (.of_next fun s => .of_next fun changes =>
      .of_pure (Transaction.consistent_ofChanges changes none)) fun t ht => hsome ht
  case revert t =>
    exact .map (.of_next fun changes => .of_pure (Transaction.consistent_ofChanges changes none))
      fun t ht => hsome ht
  case shiftClick custom container slot =>
    exact .map (Step.consistent_shiftClick custom container slot) fun r hr => hr
  case offerInView view stack =>
    exact .map (.of_next fun o => .of_pure (hoffered o)) fun t ht => hsome ht
  case offerToView view stack => exact .of_next fun o => .of_pure (hsome (hoffered o))
  case pollInView view limit =>
    exact .map (Step.consistent_pollIn view.slots limit) fun r hr => hsome hr
  case setInView view index stack =>
    exact .map (Step.consistent_setIn view.slots index stack) fun t ht => hsome ht
  all_goals exact .of_next fun _ => .of_pure (by rintro t ⟨⟩)

namespace Step

section Unchanged
variable {w w' : World}

theorem commitAll_first {x : SlotId} {after : Option Stack}
    {rest : List (SlotId × Option Stack)} {c : Change}
    (hchange : w.state.changeOf (x, after) = some c) :
    commitAll ((x, after) :: rest) w ≠ (.ok [], w') := by
  intro h
  rw [commitAll_cons] at h
  obtain ⟨first, u, hfirst, h⟩ := bind_eq_ok h
  obtain ⟨others, u', _, h⟩ := bind_eq_ok h
  have hnone := (List.append_eq_nil_iff.mp (Except.ok.inj (congrArg Prod.fst h))).1
  rw [commit_ok hfirst, hchange] at hnone
  cases hnone

theorem Commits.unchanged {α : Type} {puts : List (SlotId × Option Stack)}
    {report : α → List Change} {m : Step α} {a : α} (h : Commits puts report m w)
    (hm : m w = (.ok a, w')) (ha : report a = []) : w'.state = w.state := by
  obtain ⟨part, _, u, hu, hrun⟩ := h
  rw [hm] at hrun
  change commitAll part u = (.ok (report a), w') at hrun
  rw [ha] at hrun
  rw [commitAll_none hrun, hu.state_eq]

end Unchanged

end Step

section Offer
variable {rules : ItemRules} {slot : Slot} {stack : Stack} {plan : SlotPlan}

theorem Slot.planOffer_changes (hstack : 1 ≤ stack.quantity)
    (h : slot.planOffer rules stack = some plan) :
    ∃ after, plan.after = some after ∧ slot.contents ≠ some after := by
  obtain ⟨_, current, hbase, hroom, rfl⟩ := Slot.planOffer_cases h
  refine ⟨_, Stack.resize_pos stack (by omega), ?_⟩
  intro hsame
  unfold mergeBase at hbase
  rw [hsame] at hbase
  dsimp only at hbase
  split at hbase
  · have hcurrent := Option.some.inj hbase
    omega
  · cases hbase

/-- Nothing of the stack is placed yet, or the first slot of the plan comes to hold something
else. -/
def OfferPlan.Starts (s : State) (stack : Stack) (p : OfferPlan) : Prop :=
  (p.puts = [] ∧ p.remaining = some stack) ∨ ∃ id after rest target,
    p.puts = (id, after) :: rest ∧ s.forest.slot id = some target ∧ target.contents ≠ some after

theorem OfferPlan.Starts.fill {s : State} {p : OfferPlan} (hstack : 1 ≤ stack.quantity)
    (h : p.Starts s stack) (merging : Bool) (id : SlotId) :
    (OfferPlan.fill s merging p id).Starts s stack := by
  rcases fill_cases s merging p id with he | ⟨rest, target, step, hrest, htarget, _, hstep, he⟩
  · rw [he]
    exact h
  · rw [he]
    rcases h with ⟨hputs, hremaining⟩ | ⟨x, after, others, held, hputs, hheld, hnew⟩
    · rw [hrest] at hremaining
      cases hremaining
      obtain ⟨after, hafter, hnew⟩ := Slot.planOffer_changes hstack hstep
      refine Or.inr ⟨id, after, [], target, ?_, htarget, hnew⟩
      rw [hputs, hafter]
      rfl
    · exact Or.inr ⟨x, after, others ++ _, held, by rw [hputs, List.cons_append], hheld, hnew⟩

theorem OfferPlan.Starts.pass {s : State} {p : OfferPlan} (hstack : 1 ≤ stack.quantity)
    (h : p.Starts s stack) (merging : Bool) (order : List SlotId) :
    (order.foldl (OfferPlan.fill s merging) p).Starts s stack := by
  induction order generalizing p with
  | nil => exact h
  | cons id rest ih => exact ih (h.fill hstack merging id)

theorem State.planOffer_starts (s : State) (order : List SlotId) (hstack : 1 ≤ stack.quantity) :
    (s.planOffer order stack).Starts s stack :=
  .pass hstack (.pass hstack (Or.inl ⟨rfl, rfl⟩) true order) false order

namespace Step
variable {w w' : World} {o : Offered}

/-- An offer that changes nothing hands the whole stack back. -/
theorem offerIn_unchanged {order : List SlotId} (hstack : 1 ≤ stack.quantity)
    (h : offerIn order stack w = (.ok o, w')) (hnone : o.changes = []) :
    o.rejected = some stack := by
  rw [offerIn_eq] at h
  obtain ⟨changes, u, hcommits, h⟩ := bind_eq_ok h
  cases h
  dsimp only at hnone ⊢
  rw [hnone] at hcommits
  rcases w.state.planOffer_starts order hstack with
    ⟨_, hremaining⟩ | ⟨id, after, rest, target, hputs, htarget, hnew⟩
  · exact hremaining
  · unfold State.offerPuts at hcommits
    rw [hputs, List.map_cons] at hcommits
    have hchange : w.state.changeOf (id, some after) = some ⟨id, target.contents, some after⟩ := by
      unfold State.changeOf
      rw [htarget, Option.bind_some, if_neg hnew]
    exact absurd hcommits (commitAll_first hchange)

theorem offerTo_unchanged {node : NodeId} (hstack : 1 ≤ stack.quantity)
    (h : offerTo node stack w = (.ok o, w')) (hnone : o.changes = []) :
    o.rejected = some stack := by
  unfold offerTo unlessStale at h
  rw [state_bind] at h
  split at h
  · rw [state_bind] at h
    exact offerIn_unchanged hstack h hnone
  · obtain ⟨_, _, _, h⟩ := bind_eq_ok h
    cases h
    rfl

end Step

end Offer

section Set
variable {rules : ItemRules} {target : Slot} {stack : Stack} {w w' : World} {t : Transaction}

/-- The slot accepts the stack, which is too large for it, and holds just what it would keep. -/
structure Slot.Sated (rules : ItemRules) (target : Slot) (stack : Stack) : Prop where
  accepts : target.accepts rules stack = true
  above : target.maxStackFor rules stack < stack.quantity
  holds : target.contents = some { stack with quantity := target.maxStackFor rules stack }

/-- What a set that fails hands back: the stack, or what is above the limit of a sated slot. -/
theorem Slot.rejected_of_planSet {plan : SlotPlan} (hstack : 1 ≤ stack.quantity)
    (hplan : target.planSet rules stack = some plan) (hsame : target.contents = plan.after)
    {rest : Stack} (hrest : plan.rejected = some rest) :
    target.Sated rules stack ∧ rest ≠ stack := by
  have hlimit := target.one_le_maxStackFor rules stack
  unfold planSet at hplan
  split at hplan
  · rename_i haccepts
    cases hplan
    dsimp only at hsame hrest
    have hrest' : stack.quantity - min stack.quantity (target.maxStackFor rules stack) ≠ 0 ∧
        rest = { stack with quantity :=
          stack.quantity - min stack.quantity (target.maxStackFor rules stack) } := by
      unfold Stack.resize at hrest
      split at hrest
      · cases hrest
      · exact ⟨by assumption, (Option.some.inj hrest).symm⟩
    obtain ⟨hmore, rfl⟩ := hrest'
    have habove : target.maxStackFor rules stack < stack.quantity := by omega
    refine ⟨⟨haccepts, habove, ?_⟩, ?_⟩
    · rw [hsame, Nat.min_eq_right (Nat.le_of_lt habove), Stack.resize_pos stack (by omega)]
    · intro he
      have hquantity := congrArg Stack.quantity he
      dsimp only at hquantity
      omega
  · cases hplan

theorem Step.set_unchanged {slot : SlotId} (hstack : 1 ≤ stack.quantity)
    (h : set slot (some stack) w = (.ok t, w')) (hfail : t.outcome = .failure) :
    t.rejected = some stack ↔
      ¬ ∃ target, w.state.forest.slot slot = some target ∧
        target.Sated w.state.env.rules stack := by
  have hconsistent := consistent_set slot (some stack) w t w' h hfail
  unfold set unlessStale at h
  rw [state_bind] at h
  split at h
  · rw [state_bind] at h
    cases htarget : w.state.forest.slot slot with
    | none =>
      rw [htarget] at h
      cases h
      simp [Transaction.failure]
    | some target =>
      have hreplace : planReplace w.state.env.rules target (some stack) =
          target.planSet w.state.env.rules stack := rfl
      rw [htarget, Option.bind_some, hreplace] at h
      cases hplan : target.planSet w.state.env.rules stack with
      | none =>
        rw [hplan] at h
        cases h
        refine iff_of_true rfl ?_
        rintro ⟨held, hheld, hsated⟩
        cases hheld
        unfold Slot.planSet at hplan
        rw [if_pos hsated.accepts] at hplan
        cases hplan
      | some plan =>
        rw [hplan] at h
        obtain ⟨changes, u, hcommits, h⟩ := bind_eq_ok h
        cases h
        change changes = [] at hconsistent
        subst hconsistent
        obtain ⟨rest, hrest⟩ := Transaction.rejected_of_failure hfail
        have hsame : target.contents = plan.after := by
          by_contra hnew
          refine commitAll_first (c := ⟨slot, target.contents, plan.after⟩) ?_ hcommits
          unfold State.changeOf
          rw [htarget, Option.bind_some, if_neg hnew]
        obtain ⟨hsated, hother⟩ := Slot.rejected_of_planSet hstack hplan hsame hrest
        refine iff_of_false ?_ fun hno => hno ⟨target, rfl, hsated⟩
        intro hwhole
        change plan.rejected = some stack at hwhole
        rw [hrest] at hwhole
        exact hother (Option.some.inj hwhole)
  · rename_i hstale
    obtain ⟨_, _, _, h⟩ := bind_eq_ok h
    cases h
    refine iff_of_true rfl ?_
    rintro ⟨target, htarget, _⟩
    obtain ⟨n, hn, _⟩ := Option.bind_eq_some_iff.mp htarget
    exact hstale (Forest.contains_iff.mpr ⟨n, hn⟩)

theorem Step.setIn_unchanged {order : List SlotId} {index : Nat} (hstack : 1 ≤ stack.quantity)
    (h : setIn order index (some stack) w = (.ok t, w')) (hfail : t.outcome = .failure) :
    t.rejected = some stack ↔
      ¬ ∃ target, order[index]?.bind w.state.forest.slot = some target ∧
        target.Sated w.state.env.rules stack := by
  unfold setIn at h
  cases hslot : order[index]? with
  | none =>
    rw [hslot] at h
    cases h
    simp [Transaction.failure]
  | some slot =>
    rw [hslot] at h
    exact set_unchanged hstack h hfail

end Set

def Operation.given : Operation → Option Stack
  | .offer _ stack | .offerTo _ stack | .offerInView _ stack | .offerToView _ stack => some stack
  | .set _ stack | .setAt _ _ stack | .setInView _ _ stack => stack
  | _ => none

def Operation.target (s : State) : Operation → Option Slot
  | .set slot _ => s.forest.slot slot
  | .setAt node index _ => (s.forest.slots node)[index]?.bind s.forest.slot
  | .setInView view index _ => view.slots[index]?.bind s.forest.slot
  | _ => none

/-- Whatever happened before, a failure lists no changes and nothing changed. The stack that was to
be put into slots is handed back whole, but for the part that a sated slot would have kept. -/
theorem failures_hand_back {op : Operation} {w w' : World} {t : Transaction}
    (hop : op.answer w = (.ok (some t), w')) (hfail : t.outcome = .failure) :
    t.changes = [] ∧ w'.state = w.state ∧
      ∀ stack, op.given = some stack → 1 ≤ stack.quantity → (t.rejected = some stack ↔
        ¬ ∃ target, op.target w.state = some target ∧ target.Sated w.state.env.rules stack) := by
  have hnone : t.changes = [] := op.consistent_answer w (some t) w' hop t rfl hfail
  obtain ⟨puts, hputs⟩ := Operation.puts_of_answer hop
  refine ⟨hnone, (Operation.commits hputs).unchanged hop hnone, ?_⟩
  intro stack hgiven hstack
  have hwhole : t.rejected = some stack → op.target w.state = none → (t.rejected = some stack ↔
      ¬ ∃ target, op.target w.state = some target ∧ target.Sated w.state.env.rules stack) := by
    intro hrejected htarget
    rw [htarget]
    exact iff_of_true hrejected (by rintro ⟨_, ⟨⟩, _⟩)
  cases op <;> cases hgiven
  case offer node =>
    obtain ⟨r, u, hoffer, h⟩ := Step.bind_eq_ok hop
    cases h
    obtain ⟨o, u, hoffer, h⟩ := Step.bind_eq_ok hoffer
    cases h
    exact hwhole (Step.offerTo_unchanged hstack hoffer hnone) rfl
  case offerTo node =>
    obtain ⟨o, u, hoffer, h⟩ := Step.bind_eq_ok hop
    cases h
    exact hwhole (Step.offerTo_unchanged hstack hoffer hnone) rfl
  case offerInView view =>
    obtain ⟨r, u, hoffer, h⟩ := Step.bind_eq_ok hop
    cases h
    obtain ⟨o, u, hoffer, h⟩ := Step.bind_eq_ok hoffer
    cases h
    exact hwhole (Step.offerIn_unchanged hstack hoffer hnone) rfl
  case offerToView view =>
    obtain ⟨o, u, hoffer, h⟩ := Step.bind_eq_ok hop
    cases h
    exact hwhole (Step.offerIn_unchanged hstack hoffer hnone) rfl
  case set slot =>
    obtain ⟨r, u, hset, h⟩ := Step.bind_eq_ok hop
    cases h
    exact Step.set_unchanged hstack hset hfail
  case setAt node index =>
    obtain ⟨r, u, hset, h⟩ := Step.bind_eq_ok hop
    cases h
    exact Step.setIn_unchanged hstack hset hfail
  case setInView view index =>
    obtain ⟨r, u, hset, h⟩ := Step.bind_eq_ok hop
    cases h
    exact Step.setIn_unchanged hstack hset hfail

def Operation.sated : List Operation :=
  [.instantiate .anySlot Archetype.anySlot_made,
    .set ⟨0, 0⟩ (some (.new ⟨"minecraft:apple"⟩ 64))]

theorem failures_hand_back_sated : ∃ t w',
    (Operation.offer ⟨0, 0⟩ (.new ⟨"minecraft:dirt"⟩ 5)).answer
      (World.reached Operation.sated).2 = (.ok (some t), w') ∧ t.outcome = .failure ∧
    t.changes = [] ∧ w'.state = (World.reached Operation.sated).2.state ∧
    t.rejected = some (.new ⟨"minecraft:dirt"⟩ 5) := by
  have hthere : ((Operation.offer ⟨0, 0⟩ (.new ⟨"minecraft:dirt"⟩ 5)).reported
      (World.reached Operation.sated).2).any (fun t => t.outcome = .failure) = true := by
    decide +kernel
  obtain ⟨t, ht, hfail⟩ := (Option.any_eq_true _ _).mp hthere
  have hanswer := Operation.answer_of_reported ht
  obtain ⟨hnone, hsame, hback⟩ := failures_hand_back hanswer (of_decide_eq_true hfail)
  refine ⟨t, _, hanswer, of_decide_eq_true hfail, hnone, hsame, ?_⟩
  exact (hback _ rfl (by decide)).mpr (by rintro ⟨_, ⟨⟩, _⟩)

/-- A hundred apples for that slot: it keeps its own, and thirty-six are handed back. -/
theorem failure_keeps_part :
    ¬ ∀ (past : List World) (w w' : World) (op : Operation) (t : Transaction) (stack : Stack),
      Run past w → op.answer w = (.ok (some t), w') → t.outcome = .failure →
        op.given = some stack → 1 ≤ stack.quantity → t.rejected = some stack := by
  intro h
  have hthere : ((Operation.set ⟨0, 0⟩ (some (.new ⟨"minecraft:apple"⟩ 100))).reported
      (World.reached Operation.sated).2).any (fun t => t.outcome = .failure ∧
        t.rejected = some (.new ⟨"minecraft:apple"⟩ 36)) = true := by decide +kernel
  obtain ⟨t, ht, hfail⟩ := (Option.any_eq_true _ _).mp hthere
  obtain ⟨hfail, hrejected⟩ := of_decide_eq_true hfail
  have hwhole := h _ _ _ _ t _ (Run.reached Operation.sated) (Operation.answer_of_reported ht)
    hfail rfl (by decide)
  rw [hrejected] at hwhole
  cases hwhole

end Stowage
