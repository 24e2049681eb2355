import Stowage.Written.Basic
import Stowage.Property
import Stowage.Stack

/-!
# Written forms of items, equipment and properties
-/

namespace Stowage

set_option autoImplicit false

open Written

/-- The least and the greatest integer that a property value takes. -/
def minInteger : Int := -9223372036854775808

def maxInteger : Int := 9223372036854775807

instance : Written ItemKind where
  write k := write k.id
  read d := (read d).map ItemKind.mk

namespace Stack

def fieldNames : List String := ["kind", "quantity", "aux"]

/-- A stack read back keeps its quantity as it is written. -/
instance : Written Stack where
  write s := .record
    [("kind", write s.kind), ("quantity", writeNat s.quantity), ("aux", write s.aux)]
  read d := do
    let fields ← d.fieldsOf fieldNames 3
    return ⟨← field fields "kind", ← (fields "quantity").bind (readNat maxQuantity),
      ← field fields "aux"⟩

end Stack

instance : Written Equipment where
  write e := .text e.name
  read := readChoice Equipment.all Equipment.name

namespace PropertyKind

/-- The kinds without a name of their own. -/
def fixed : List PropertyKind :=
  [title, capacity, slotIndex, slotPosition, equipmentSlot, armorSlot]

instance : Written PropertyKind where
  write
    | custom n => .record [("Custom", write n)]
    | k => .text k.describe
  read
    | .record [("Custom", d)] => (read d).map custom
    | d => readChoice fixed describe d

end PropertyKind

namespace PropertyValue

def readPosition (d : Datum) : Option PropertyValue := do
  let fields ← d.named
  return position (← (fields "x").bind (readNat maxQuantity))
    (← (fields "y").bind (readNat maxQuantity))

instance : Written PropertyValue where
  write
    | int n => .record [("Int", .int n)]
    | bool b => .record [("Bool", write b)]
    | text s => .record [("Text", write s)]
    | position x y => .record [("Position", .record [("x", writeNat x), ("y", writeNat y)])]
    | equipment e => .record [("Equipment", write e)]
  read
    | .record [("Int", d)] => (readInt minInteger maxInteger d).map int
    | .record [("Bool", d)] => (read d).map bool
    | .record [("Text", d)] => (read d).map text
    | .record [("Position", d)] => readPosition d
    | .record [("Equipment", d)] => (read d).map equipment
    | _ => none

end PropertyValue

end Stowage
