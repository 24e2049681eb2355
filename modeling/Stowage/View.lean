import Stowage.Query
import Stowage.Contents.Operations

/-!
# Views

A view is a list of slots taken from nodes of the forest, with an index of its own: the position in
the list. It shares the slots with the nodes. A view without slots is the empty view.
-/

namespace Stowage

set_option autoImplicit false

def distinct : List NodeId → List NodeId
  | [] => []
  | a :: rest => a :: (distinct rest).filter fun b => b ≠ a

structure View where
  members : List NodeId
  slots : List SlotId
deriving DecidableEq, Repr, Inhabited

namespace View

def empty : View := ⟨[], []⟩

def new (members : List NodeId) (slots : List SlotId) : View :=
  if slots.isEmpty then empty else ⟨members, distinct slots⟩

def ofSlots (slots : List SlotId) : View := new [] slots

def ofNode (f : Forest) (node : NodeId) : View := new [node] (f.fillOrder node)

def size (v : View) : Nat := v.slots.length

def isEmpty (v : View) : Bool := v.slots.isEmpty

def slotAt (v : View) (index : Nat) : Option SlotId := v.slots[index]?

def indexOf (v : View) (slot : SlotId) : Option Nat := v.slots.idxOf? slot

def containsSlot (v : View) (slot : SlotId) : Bool := v.slots.contains slot

/-- The view followed by the slots of `w` that it does not have. -/
def union (v w : View) : View :=
  new (v.members ++ w.members.filter fun m => !v.members.contains m) (v.slots ++ w.slots)

def without (v : View) (excluded : List SlotId) : View :=
  new v.members (v.slots.filter fun s => !excluded.contains s)

def narrow (s : State) (v : View) (queries : List Query) : View :=
  if queries.isEmpty then empty
  else new [] (v.slots.filter fun slot => queries.any fun q => s.satisfies slot q)

def peek (s : State) (v : View) (limit : Option Nat) : Option Stack := s.peekIn v.slots limit

def count (s : State) (v : View) (kind : ItemKind) : Nat := s.countIn v.slots kind

def poll (v : View) (limit : Option Nat) : Step (Option Stack × Transaction) :=
  Step.pollIn v.slots limit

def offerTo (v : View) (stack : Stack) : Step Offered := Step.offerIn v.slots stack

def offer (v : View) (stack : Stack) : Step Transaction := do
  return (← v.offerTo stack).toTransaction

def setAt (v : View) (index : Nat) (stack : Option Stack) : Step Transaction :=
  Step.setIn v.slots index stack

end View

namespace State

/-- The slots of a node that satisfy `p`, in fill order. -/
def searchSlots (s : State) (node : NodeId) (p : SlotId → Slot → Bool) : View :=
  .new [] ((s.forest.fillOrder node).filter fun id => (s.forest.slot id).any (p id))

/-- The outermost nodes below that satisfy `p`, with their slots in fill order. -/
def searchNodes (s : State) (node : NodeId) (p : NodeId → Bool) : View :=
  let members := s.forest.outermost p node
  .new members (members.flatMap s.forest.fillOrder)

/-- What lies below a node and matches any of the queries. Queries on contents alone pick slots, and
otherwise nodes are taken whole. -/
def search (s : State) (node : NodeId) (queries : List Query) : View :=
  if queries.isEmpty then .empty
  else if queries.all Query.readsContents then
    s.searchSlots node fun _ slot => slot.contents.any fun t => queries.any fun q => q.accepts t
  else s.searchNodes node fun child => queries.any fun q => s.satisfies child q

end State

end Stowage
