import Stowage.Contents.Plan
import Stowage.Contents.Commit

/-!
# Changing contents

Offering, polling, setting and clearing, over a node or over any list of slots, and taking a
reported change back. A stale node is reported and nothing changes.
-/

namespace Stowage

set_option autoImplicit false

/-- What was changed by an offer, and the units that nothing accepted. -/
structure Offered where
  changes : List Change
  rejected : Option Stack
deriving DecidableEq, Repr, Inhabited

namespace Offered

def isSuccess (o : Offered) : Bool := o.rejected.isNone

def toTransaction (o : Offered) : Transaction := .ofChanges o.changes o.rejected

end Offered

namespace State

/-- A copy of what a poll would take. -/
def peekIn (s : State) (order : List SlotId) (limit : Option Nat) : Option Stack :=
  (s.planPoll order limit).map PollPlan.taken

def peek (s : State) (node : NodeId) (limit : Option Nat) : Option Stack :=
  s.peekIn (s.forest.fillOrder node) limit

def holds (s : State) (node : NodeId) (kind : ItemKind) : Bool :=
  (s.forest.slots node).any fun id => (s.contents id).any fun t => t.kind = kind

def countIn (s : State) (slots : List SlotId) (kind : ItemKind) : Nat :=
  slots.foldr (fun id n => unitsIn ((s.contents id).filter fun t => t.kind = kind) + n) 0

def count (s : State) (node : NodeId) (kind : ItemKind) : Nat :=
  s.countIn (s.forest.slots node) kind

def isValid (s : State) (node : NodeId) (stack : Stack) : Bool :=
  (s.forest.slots node).any fun id => (s.forest.slot id).any fun t => t.accepts s.env.rules stack

end State

namespace Step

/-- Goes on with the live node, or gives the answer for a stale one and logs that it was asked. -/
def unlessStale {α : Type} (operation : String) (node : NodeId) (refused : α) (act : Step α) :
    Step α := do
  if (← state).forest.contains node then act
  else do
    log (.warn s!"Inventory {operation} on stale node {node.describe}")
    return refused

def offerIn (order : List SlotId) (stack : Stack) : Step Offered := do
  let plan := (← state).planOffer order stack
  let changes ← commitAll (plan.puts.map fun (id, after) => (id, some after))
  return ⟨changes, plan.remaining⟩

def pollIn (order : List SlotId) (limit : Option Nat) : Step (Option Stack × Transaction) := do
  match (← state).planPoll order limit with
  | none => return (none, .failure none)
  | some plan => do
    let changes ← commitAll plan.leaves
    return (some plan.taken, .ofChanges changes none)

/-- Takes up to `limit` units out, in fill order. -/
def poll (node : NodeId) (limit : Option Nat) : Step (Option Stack × Transaction) :=
  unlessStale "poll" node (none, .failure none) do
    pollIn ((← state).forest.fillOrder node) limit

def offerTo (node : NodeId) (stack : Stack) : Step Offered :=
  unlessStale "offer" node ⟨[], some stack⟩ do
    offerIn ((← state).forest.fillOrder node) stack

def offer (node : NodeId) (stack : Stack) : Step Transaction := do
  return (← offerTo node stack).toTransaction

/-- What a slot gets when its contents are replaced, or `none` when it refuses the stack. -/
def planReplace (rules : ItemRules) (target : Slot) : Option Stack → Option SlotPlan
  | none => some ⟨none, none⟩
  | some stack => target.planSet rules stack

/-- Replaces the contents of a slot, whose filter and limit still hold. -/
def set (slot : SlotId) (stack : Option Stack) : Step Transaction :=
  unlessStale "set" slot (.failure stack) do
    let s ← state
    match (s.forest.slot slot).bind fun target => planReplace s.env.rules target stack with
    | none => return .failure stack
    | some plan => do
      let changes ← commitAll [(slot, plan.after)]
      return .ofChanges changes plan.rejected

def setIn (order : List SlotId) (index : Nat) (stack : Option Stack) : Step Transaction :=
  match order[index]? with
  | none => return .failure stack
  | some slot => set slot stack

def setAt (node : NodeId) (index : Nat) (stack : Option Stack) : Step Transaction := do
  setIn ((← state).forest.slots node) index stack

def clear (node : NodeId) : Step Transaction := do
  let changes ← commitAll (((← state).forest.slots node).map fun id => (id, none))
  return .ofChanges changes none

/-- Takes the changes of a transaction back, the last one first. Stale slots are passed over. -/
def revert (t : Transaction) : Step Transaction := do
  let changes ← commitAll (t.changes.reverse.map fun c => (c.slot, c.before))
  return .ofChanges changes none

end Step

end Stowage
