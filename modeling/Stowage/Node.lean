import Stowage.Slot
import Stowage.Sync

/-!
# Nodes

What stands behind a handle: a slot, a composite of children in a row or on a grid, or a container
through which viewers look at a top and a bottom inventory.
-/

namespace Stowage

set_option autoImplicit false

inductive NodeKind where
  | slot
  | ordered
  | grid
  | container
deriving DecidableEq, Repr, Inhabited

namespace NodeKind

def all : List NodeKind := [slot, ordered, grid, container]

def name : NodeKind → String
  | slot => "Slot"
  | ordered => "Ordered"
  | grid => "Grid"
  | container => "Container"

end NodeKind

structure ChildEntry where
  node : NodeId
  priority : Int
  relative : PropertyStore
deriving DecidableEq, Repr, Inhabited

/-- Children with two orders of the slots below them: by index, and by fill and drain priority. -/
structure Composite where
  children : List ChildEntry
  slots : List SlotId
  fillOrder : List SlotId
deriving DecidableEq, Repr, Inhabited

namespace Composite

def positionOf (c : Composite) (child : NodeId) : Option Nat :=
  c.children.findIdx? fun e => e.node = child

def child (c : Composite) (child : NodeId) : Option ChildEntry :=
  c.children.find? fun e => e.node = child

end Composite

/-- A composite whose slots fill a grid row by row. -/
structure GridComposite where
  composite : Composite
  columns : Nat
  rows : Nat
  /-- The top left cell of every child, by its position among the children. -/
  origins : List (Nat × Nat)
deriving DecidableEq, Repr, Inhabited

namespace GridComposite

def slotIn (g : GridComposite) (x y : Nat) : Option SlotId :=
  if x < g.columns ∧ y < g.rows then g.composite.slots[y * g.columns + x]? else none

def cellOf (g : GridComposite) (slot : SlotId) : Option (Nat × Nat) :=
  (g.composite.slots.idxOf? slot).map fun i => (i % g.columns, i / g.columns)

end GridComposite

/-- A container binds the slots of its top inventory and then those of its bottom inventory, and
owns a cursor that all its viewers share. -/
structure Container where
  top : NodeId
  bottom : NodeId
  cursor : SlotId
  slots : List SlotId
  fillOrder : List SlotId
  /-- What each attached viewer knows, by increasing viewer. -/
  viewers : List (ViewerId × ClientView)
deriving DecidableEq, Repr, Inhabited

namespace Container

/-- The owner's own container, which shows one inventory. -/
def isResident (c : Container) : Bool := c.top == c.bottom

def children (c : Container) : List NodeId :=
  if c.isResident then [c.top] else [c.top, c.bottom]

/-- Whether a slot is bound, the cursor included. -/
def binds (c : Container) (slot : SlotId) : Bool := slot == c.cursor || c.slots.contains slot

def wireIndex (c : Container) (slot : SlotId) : Option Int :=
  if slot = c.cursor then some cursorWire else (c.slots.idxOf? slot).map Int.ofNat

def slotAtWire (c : Container) (wire : Int) : Option SlotId :=
  if wire = cursorWire then some c.cursor
  else match wire with
    | .ofNat i => c.slots[i]?
    | .negSucc _ => none

def viewOf (c : Container) (v : ViewerId) : Option ClientView := c.viewers.lookup v

/-- Keeps the viewers in increasing order. -/
def attach (c : Container) (v : ViewerId) (view : ClientView) : Container :=
  { c with viewers :=
      c.viewers.filter (fun p => p.1.number < v.number) ++ (v, view) ::
        c.viewers.filter fun p => v.number < p.1.number }

/-- Notes what a viewer was told of a slot. -/
def learn (c : Container) (v : ViewerId) (slot : SlotId) (contents : Option Stack) : Container :=
  { c with viewers := c.viewers.map fun (u, view) =>
      (u, if u = v then view.learn slot contents else view) }

def detach (c : Container) (v : ViewerId) : Container :=
  { c with viewers := c.viewers.filter fun p => p.1 ≠ v }

end Container

inductive Content where
  | slot (s : Slot)
  | ordered (c : Composite)
  | grid (g : GridComposite)
  | container (c : Container)
deriving Inhabited

namespace Content

def kind : Content → NodeKind
  | slot _ => .slot
  | ordered _ => .ordered
  | grid _ => .grid
  | container _ => .container

def composite? : Content → Option Composite
  | ordered c => some c
  | grid g => some g.composite
  | _ => none

def container? : Content → Option Container
  | container c => some c
  | _ => none

def slot? : Content → Option Slot
  | slot s => some s
  | _ => none

end Content

structure Node where
  content : Content
  parent : Option NodeId
  /-- The topmost node above, kept for the whole tree whenever a tree gets a parent. -/
  root : NodeId
  name : Option String
  archetype : Option ArchetypeId
  properties : PropertyStore
  shiftClick : Option ShiftClick
deriving Inhabited

def Node.plain (id : NodeId) (content : Content) : Node where
  content := content
  parent := none
  root := id
  name := none
  archetype := none
  properties := .empty
  shiftClick := none

end Stowage
