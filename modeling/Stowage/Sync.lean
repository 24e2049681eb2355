import Stowage.Archetype.Basic
import Stowage.Transaction
import Stowage.Record

/-!
# Messages to viewers

A viewer is told which slot stands behind which wire index, then the full state of the container,
and then every change of a bound slot. The cursor has the wire index -1 and all other slots count
from 0.
-/

namespace Stowage

set_option autoImplicit false

structure ViewerId where
  number : Nat
deriving DecidableEq, Repr, Inhabited

def ViewerId.describe (v : ViewerId) : String := s!"viewer#{v.number}"

def cursorWire : Int := -1

structure WireSlot where
  index : Int
  contents : Option Stack
deriving DecidableEq, Repr, Inhabited

structure Snapshot where
  title : String
  archetype : Option ArchetypeId
  /-- All bound slots but the cursor, in wire order. -/
  slots : List WireSlot
  cursor : Option Stack
deriving DecidableEq, Repr, Inhabited

inductive Message where
  | bind (viewer : ViewerId) (wire : Int) (slot : SlotId)
  | delta (viewer : ViewerId) (wire : Int) (contents : Option Stack)
  | fullState (viewer : ViewerId) (snapshot : Snapshot)
  | release (viewer : ViewerId)
deriving DecidableEq, Repr, Inhabited

def Message.viewer : Message → ViewerId
  | bind v _ _ | delta v _ _ | fullState v _ | release v => v

/-- One bound slot of a viewer, with the contents that the viewer was last told. -/
structure ViewRow where
  wire : Int
  slot : SlotId
  lastKnown : Option Stack
deriving DecidableEq, Repr, Inhabited

/-- What one viewer knows of a container, in wire order. -/
structure ClientView where
  rows : List ViewRow
deriving DecidableEq, Repr, Inhabited

namespace ClientView

def empty : ClientView := ⟨[]⟩

def size (v : ClientView) : Nat := v.rows.length

def isEmpty (v : ClientView) : Bool := v.rows.isEmpty

def slot (v : ClientView) (wire : Int) : Option SlotId :=
  (v.rows.find? fun r => r.wire = wire).map ViewRow.slot

def lastKnown (v : ClientView) (slot : SlotId) : Option Stack :=
  (v.rows.find? fun r => r.slot = slot).bind ViewRow.lastKnown

/-- Whether the viewer was told that the slot holds just this. -/
def knows (v : ClientView) (slot : SlotId) (contents : Option Stack) : Bool :=
  v.rows.any fun r => r.slot = slot ∧ r.lastKnown = contents

def learn (v : ClientView) (slot : SlotId) (contents : Option Stack) : ClientView :=
  ⟨v.rows.map fun r => if r.slot = slot then { r with lastKnown := contents } else r⟩

end ClientView

end Stowage
