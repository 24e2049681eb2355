import Stowage.State

/-!
# Planning changes of contents

A plan is made on the contents as they are, slot by slot in the order given, and nothing is changed.
Offers first fill slots that hold the same, then empty ones; polls gather what merges with the first
stack found.
-/

namespace Stowage

set_option autoImplicit false

/-- The contents that slots are to get, and what is left over. -/
structure OfferPlan where
  puts : List (SlotId × Stack)
  remaining : Option Stack
deriving DecidableEq, Repr, Inhabited

/-- The stack that is gathered, and what stays in the slots that give to it. -/
structure PollPlan where
  taken : Stack
  leaves : List (SlotId × Option Stack)
deriving DecidableEq, Repr, Inhabited

namespace OfferPlan

def start (stack : Stack) : OfferPlan := ⟨[], some stack⟩

/-- Whether a slot is to be tried: while merging, one that holds the same; afterwards, one that is
empty and not yet part of the plan. -/
def eligible (merging : Bool) (p : OfferPlan) (id : SlotId) (slot : Slot) (rest : Stack) : Bool :=
  if merging then slot.contents.any fun held => held.mergesWith rest
  else slot.isEmpty && !p.puts.any fun put => put.1 = id

/-- Puts what is left over into a slot, as far as it goes. -/
def fill (s : State) (merging : Bool) (p : OfferPlan) (id : SlotId) : OfferPlan :=
  match p.remaining, s.forest.slot id with
  | some rest, some slot =>
    if eligible merging p id slot rest then
      match slot.planOffer s.env.rules rest with
      | none => p
      | some step => ⟨p.puts ++ (step.after.map fun a => (id, a)).toList, step.rejected⟩
    else p
  | _, _ => p

end OfferPlan

namespace State

def planOffer (s : State) (order : List SlotId) (stack : Stack) : OfferPlan :=
  let merged := order.foldl (OfferPlan.fill s true) (.start stack)
  order.foldl (OfferPlan.fill s false) merged

/-- What the slots from here on add to a poll. `budget` counts the units still wanted; without one,
the first stack found is taken whole. -/
def planPollFrom (s : State) : List SlotId → Option Stack → Option Nat →
    Option Stack × List (SlotId × Option Stack)
  | [], taken, _ => (taken, [])
  | id :: rest, taken, budget =>
    if budget = some 0 then (taken, [])
    else match s.contents id, (s.forest.slot id).bind fun slot => slot.planPoll budget with
      | some held, some (part, left) =>
        if taken.all fun t => t.mergesWith held then
          let gathered := match taken with
            | none => part
            | some t => t.increase part.quantity
          let (last, leaves) := s.planPollFrom rest (some gathered)
            (some (budget.getD part.quantity - part.quantity))
          (last, (id, left) :: leaves)
        else s.planPollFrom rest taken budget
      | _, _ => s.planPollFrom rest taken budget

/-- Without a limit only the first stack found is taken. -/
def planPoll (s : State) (order : List SlotId) (limit : Option Nat) : Option PollPlan :=
  match s.planPollFrom order none limit with
  | (none, _) => none
  | (some taken, leaves) => some ⟨taken, leaves⟩

end State

end Stowage
