/-!
# Equipment types

A small hierarchy of categories. A place typed for a category takes everything typed for a category
below it: `Any` over `Equipped` over `Held` and `Worn`, and those over the single pieces.
-/

namespace Stowage

set_option autoImplicit false

inductive Equipment where
  | any
  | equipped
  | held
  | mainHand
  | offHand
  | worn
  | headwear
  | chestplate
  | leggings
  | boots
deriving DecidableEq, Repr, Inhabited

namespace Equipment

def all : List Equipment :=
  [any, equipped, held, mainHand, offHand, worn, headwear, chestplate, leggings, boots]

def name : Equipment → String
  | any => "Any"
  | equipped => "Equipped"
  | held => "Held"
  | mainHand => "MainHand"
  | offHand => "OffHand"
  | worn => "Worn"
  | headwear => "Headwear"
  | chestplate => "Chestplate"
  | leggings => "Leggings"
  | boots => "Boots"

def parent : Equipment → Option Equipment
  | any => none
  | equipped => some any
  | held | worn => some equipped
  | mainHand | offHand => some held
  | headwear | chestplate | leggings | boots => some worn

def depth : Equipment → Nat
  | any => 0
  | equipped => 1
  | held | worn => 2
  | _ => 3

def lineageUpTo : Nat → Equipment → List Equipment
  | 0, e => [e]
  | n + 1, e => match e.parent with
    | none => [e]
    | some p => e :: lineageUpTo n p

/-- The category and all those above it, innermost first. -/
def lineage (e : Equipment) : List Equipment := lineageUpTo e.depth e

/-- `e.includes f` when `f` is `e` or lies below it. -/
def includes (e f : Equipment) : Bool := f.lineage.contains e

def isArmor (e : Equipment) : Bool := worn.includes e

def isHeld (e : Equipment) : Bool := held.includes e

def armorPieces : List Equipment := [headwear, chestplate, leggings, boots]

end Equipment

end Stowage
