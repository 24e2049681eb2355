import Stowage.Forest.Basic

/-!
# Walking the forest

Upwards along parents and downwards along children. A way through distinct nodes is no longer than
the number of places in the arena, which bounds every walk.
-/

namespace Stowage.Forest

set_option autoImplicit false

/-- No way through distinct live nodes is longer. -/
def reach (f : Forest) : Nat := f.nodes.places.size

def ancestorsUpTo (f : Forest) : Nat → NodeId → List NodeId
  | 0, _ => []
  | n + 1, id => match f.node? id with
    | none => []
    | some e => id :: match e.parent with
      | none => []
      | some p => f.ancestorsUpTo n p

/-- The node and all nodes above it, innermost first. -/
def ancestors (f : Forest) (id : NodeId) : List NodeId := f.ancestorsUpTo f.reach id

/-- Whether `id` is `above` or lies below it. -/
def isWithin (f : Forest) (above id : NodeId) : Bool := (f.ancestors id).contains above

def descendantsUpTo (f : Forest) : Nat → NodeId → List NodeId
  | 0, _ => []
  | n + 1, id => (f.children id).flatMap fun c =>
      c :: if f.kind c = some .container then [] else f.descendantsUpTo n c

/-- All nodes below, each before its own descendants, in index order. -/
def descendants (f : Forest) (id : NodeId) : List NodeId := f.descendantsUpTo f.reach id

def outermostUpTo (f : Forest) (p : NodeId → Bool) : Nat → NodeId → List NodeId
  | 0, _ => []
  | n + 1, id => (f.children id).flatMap fun c => if p c then [c] else f.outermostUpTo p n c

/-- The nodes below that satisfy `p`, without looking below one that does. -/
def outermost (f : Forest) (p : NodeId → Bool) (id : NodeId) : List NodeId :=
  f.outermostUpTo p f.reach id

end Stowage.Forest
