import Stowage.Filter
import Stowage.Property

/-!
# Archetypes

An archetype is the frozen description of an inventory shape: a slot, an ordered row of children or
a grid of them. Any number of inventories are made from it. A draft is what freezing starts from.
-/

namespace Stowage

set_option autoImplicit false

/-- The priority of a child that is given none; children of a higher priority are filled first. -/
def defaultPriority : Int := 1000

structure ArchetypeId where
  group : String
  id : String
deriving DecidableEq, Repr, Inhabited

namespace ArchetypeId

def describe (a : ArchetypeId) : String := s!"{a.group}:{a.id}"

end ArchetypeId

inductive ArchetypeKind where
  | slot
  | ordered
  | grid (columns rows : Nat)
deriving DecidableEq, Repr, Inhabited

namespace ArchetypeKind

def builderName : ArchetypeKind → String
  | slot => "slot"
  | ordered => "ordered"
  | grid _ _ => "grid"

def describe : ArchetypeKind → String
  | slot => "Slot"
  | ordered => "Ordered"
  | grid c r => s!"Grid \x7b columns: {c}, rows: {r} \x7d"

end ArchetypeKind

/-- Where a child sits in its parent. -/
inductive Placement where
  | inOrder
  | cell (x y : Nat)
  | row (y : Nat)
  | subGrid (y : Nat)
deriving DecidableEq, Repr, Inhabited

namespace Placement

/-- The top left cell that a child covers, as column and row. -/
def origin : Placement → Nat × Nat
  | inOrder => (0, 0)
  | cell x y => (x, y)
  | row y | subGrid y => (0, y)

end Placement

structure Placing where
  placement : Placement
  priority : Int
  relative : PropertyStore
deriving DecidableEq, Repr, Inhabited

/-- How a shift-click picks the slots that it moves to. -/
inductive ShiftClick where
  | standard
  | player (main : ArchetypeId) (equipment : List ArchetypeId)
  | custom (name : String)
deriving DecidableEq, Repr, Inhabited

/-- A wrong call while a draft is written. -/
inductive Misuse where
  | structuralProperty (kind : PropertyKind)
  | childPosition (position children : Nat)
deriving DecidableEq, Repr, Inhabited

/-- The description of an inventory as it is written down, apart from its children. -/
structure Draft where
  kind : Option ArchetypeKind
  inferRows : Bool
  name : Option String
  properties : PropertyStore
  filter : Option Filter
  maxStackSize : Option Nat
  declaredCapacity : Option Nat
  fillOrder : Option (List Nat)
  shiftClick : Option ShiftClick
  misuse : Option Misuse
deriving Inhabited

/-- What freezing finds out: the final kind, the number of slots, and for a grid the child and the
slot within that child which cover each cell, in index order. -/
structure Shape where
  kind : ArchetypeKind
  slotCount : Nat
  cells : List (Nat × Nat)
deriving DecidableEq, Repr, Inhabited

inductive Archetype where
  | frozen (id : Option ArchetypeId) (draft : Draft) (shape : Shape)
      (children : List (Placing × Archetype))
deriving Inhabited

namespace Archetype

def id : Archetype → Option ArchetypeId
  | frozen i _ _ _ => i

def draft : Archetype → Draft
  | frozen _ d _ _ => d

def shape : Archetype → Shape
  | frozen _ _ s _ => s

def children : Archetype → List (Placing × Archetype)
  | frozen _ _ _ cs => cs

def kind (a : Archetype) : ArchetypeKind := a.shape.kind

def slotCount (a : Archetype) : Nat := a.shape.slotCount

def name (a : Archetype) : Option String := a.draft.name

def properties (a : Archetype) : PropertyStore := a.draft.properties

def displayName : Option ArchetypeId → String
  | none => "<anonymous>"
  | some i => i.describe

def displayId (a : Archetype) : String := displayName a.id

def describe (a : Archetype) : String :=
  let id := Text.quoted a.displayId
  s!"Archetype \x7b id: {id}, kind: {a.kind.describe}, slots: {a.slotCount} \x7d"

end Archetype

end Stowage
