import Stowage.Refusal

/-!
# Writing a description

A builder is a draft together with the children placed so far. Every call returns a new builder; the
first wrong call is remembered and reported when the draft is frozen.
-/

namespace Stowage

set_option autoImplicit false

structure Builder where
  draft : Draft
  children : List (Placing × Archetype)
deriving Inhabited

namespace Builder

def unset : Builder where
  draft :=
    { kind := none, inferRows := false, name := none, properties := .empty, filter := none,
      maxStackSize := none, declaredCapacity := none, fillOrder := none, shiftClick := none,
      misuse := none }
  children := []

def kind (b : Builder) (k : ArchetypeKind) : Builder := { b with draft.kind := some k }

def slot : Builder := unset.kind .slot

def ordered : Builder := unset.kind .ordered

def grid (columns rows : Nat) : Builder := unset.kind (.grid columns rows)

/-- A grid that is as high as its children need. -/
def rows (columns : Nat) : Builder := { grid columns 0 with draft.inferRows := true }

def ofArchetype (a : Archetype) : Builder := ⟨a.draft, a.children⟩

def misused (b : Builder) (m : Misuse) : Builder :=
  match b.draft.misuse with
  | none => { b with draft.misuse := some m }
  | some _ => b

def name (b : Builder) (key : String) : Builder := { b with draft.name := some key }

def propertyKeyed (b : Builder) (kind : PropertyKind) (key : String) (value : PropertyValue) :
    Builder :=
  if kind.isStructural then b.misused (.structuralProperty kind)
  else { b with draft.properties := b.draft.properties.insertKeyed kind key value }

def property (b : Builder) (kind : PropertyKind) (value : PropertyValue) : Builder :=
  b.propertyKeyed kind defaultKey value

def filter (b : Builder) (f : Filter) : Builder := { b with draft.filter := some f }

/-- A limit of zero is raised to one. -/
def maxStackSize (b : Builder) (n : Nat) : Builder :=
  { b with draft.maxStackSize := some (max n 1) }

/-- Types a slot for equipment: a property says so and the filter holds to it. -/
def equipment (b : Builder) (e : Equipment) : Builder :=
  let kind : PropertyKind := if e.isArmor then .armorSlot else .equipmentSlot
  (b.property kind (.equipment e)).filter (.equipment e)

def capacity (b : Builder) (n : Nat) : Builder := { b with draft.declaredCapacity := some n }

def place (b : Builder) (placement : Placement) (a : Archetype) (priority : Int) : Builder :=
  { b with children := b.children ++ [(⟨placement, priority, .empty⟩, a)] }

def add (b : Builder) (a : Archetype) (priority : Int) : Builder := b.place .inOrder a priority

def insert (b : Builder) (position : Nat) (a : Archetype) (priority : Int) : Builder :=
  if b.children.length < position then b.misused (.childPosition position b.children.length)
  else { b with children := b.children.insertIdx position (⟨.inOrder, priority, .empty⟩, a) }

def addFirst (b : Builder) (a : Archetype) (priority : Int) : Builder := b.insert 0 a priority

def cell (b : Builder) (x y : Nat) (a : Archetype) : Builder :=
  b.place (.cell x y) a defaultPriority

def row (b : Builder) (y : Nat) (a : Archetype) (priority : Int) : Builder :=
  b.place (.row y) a priority

def subGrid (b : Builder) (y : Nat) (a : Archetype) (priority : Int) : Builder :=
  b.place (.subGrid y) a priority

/-- A property that the parent reports for the child at a position. -/
def childProperty (b : Builder) (position : Nat) (kind : PropertyKind) (value : PropertyValue) :
    Builder :=
  if position < b.children.length then
    { b with children := b.children.modify position fun (p, a) =>
        ({ p with relative := p.relative.insert kind value }, a) }
  else b.misused (.childPosition position b.children.length)

/-- The order in which the slots are filled, as a permutation of their indices. -/
def fillOrder (b : Builder) (order : List Nat) : Builder :=
  { b with draft.fillOrder := some order }

def shiftClick (b : Builder) (behavior : ShiftClick) : Builder :=
  { b with draft.shiftClick := some behavior }

def cells (b : Builder) (columns rows : Nat) (a : Archetype) : Builder :=
  (List.range (columns * rows)).foldl (fun acc i => acc.cell (i % columns) (i / columns) a) b

end Builder

end Stowage
