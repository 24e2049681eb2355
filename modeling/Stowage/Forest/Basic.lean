import Stowage.Arena
import Stowage.Node

/-!
# The forest of nodes

All nodes are kept in one arena and refer to each other by handle. Everything here reads the forest;
a stale handle has no kind, no parent, no slots and no children.
-/

namespace Stowage

set_option autoImplicit false

structure Forest where
  nodes : Arena Node
deriving Inhabited

namespace Forest

def empty : Forest := ⟨.empty⟩

def node? (f : Forest) (id : NodeId) : Option Node := f.nodes.get? id

def contains (f : Forest) (id : NodeId) : Bool := f.nodes.contains id

def size (f : Forest) : Nat := f.nodes.size

def kind (f : Forest) (id : NodeId) : Option NodeKind := (f.node? id).map fun n => n.content.kind

def parent (f : Forest) (id : NodeId) : Option NodeId := (f.node? id).bind Node.parent

/-- The topmost node above, or the node itself. -/
def root (f : Forest) (id : NodeId) : Option NodeId := (f.node? id).map Node.root

def name (f : Forest) (id : NodeId) : Option String := (f.node? id).bind Node.name

def archetype (f : Forest) (id : NodeId) : Option ArchetypeId := (f.node? id).bind Node.archetype

def composite? (f : Forest) (id : NodeId) : Option Composite :=
  (f.node? id).bind fun n => n.content.composite?

def container? (f : Forest) (id : NodeId) : Option Container :=
  (f.node? id).bind fun n => n.content.container?

def slot (f : Forest) (id : SlotId) : Option Slot := (f.node? id).bind fun n => n.content.slot?

def contents (f : Forest) (id : SlotId) : Option Stack := (f.slot id).bind Slot.contents

/-- The direct children in index order; those of a container are the inventories it shows. -/
def children (f : Forest) (id : NodeId) : List NodeId :=
  match f.node? id with
  | none => []
  | some n => match n.content with
    | .slot _ => []
    | .ordered c => c.children.map ChildEntry.node
    | .grid g => g.composite.children.map ChildEntry.node
    | .container c => c.children

def first (f : Forest) (id : NodeId) : Option NodeId := (f.children id).head?

def next (f : Forest) (id : NodeId) : Option NodeId :=
  (f.parent id).bind fun p => (f.composite? p).bind fun c =>
    (c.positionOf id).bind fun i => c.children[i + 1]?.map ChildEntry.node

/-- The slots in index order. -/
def slots (f : Forest) (id : NodeId) : List SlotId :=
  match f.node? id with
  | none => []
  | some n => match n.content with
    | .slot _ => [id]
    | .ordered c => c.slots
    | .grid g => g.composite.slots
    | .container c => c.slots

/-- The slots in fill and drain order. -/
def fillOrder (f : Forest) (id : NodeId) : List SlotId :=
  match f.node? id with
  | none => []
  | some n => match n.content with
    | .slot _ => [id]
    | .ordered c => c.fillOrder
    | .grid g => g.composite.fillOrder
    | .container c => c.fillOrder

def capacity (f : Forest) (id : NodeId) : Nat := (f.slots id).length

def slotAt (f : Forest) (id : NodeId) (index : Nat) : Option SlotId := (f.slots id)[index]?

def indexOf (f : Forest) (id : NodeId) (slot : SlotId) : Option Nat := (f.slots id).idxOf? slot

def grid? (f : Forest) (id : NodeId) : Option GridComposite :=
  (f.node? id).bind fun n => match n.content with
    | .grid g => some g
    | _ => none

def gridSize (f : Forest) (id : NodeId) : Option (Nat × Nat) :=
  (f.grid? id).map fun g => (g.columns, g.rows)

def slotInCell (f : Forest) (id : NodeId) (x y : Nat) : Option SlotId :=
  (f.grid? id).bind fun g => g.slotIn x y

def cellOfSlot (f : Forest) (id : NodeId) (slot : SlotId) : Option (Nat × Nat) :=
  (f.grid? id).bind fun g => g.cellOf slot

def modify (f : Forest) (id : NodeId) (change : Node → Node) : Forest := ⟨f.nodes.modify id change⟩

def remove (f : Forest) (id : NodeId) : Forest := ⟨f.nodes.remove id⟩

/-- Adds a node that may refer to its own handle, and gives the handle. -/
def insert (f : Forest) (node : NodeId → Node) : Forest × NodeId :=
  let (nodes, id) := f.nodes.insertWith node
  (⟨nodes⟩, id)

def setContents (f : Forest) (id : SlotId) (contents : Option Stack) : Forest :=
  f.modify id fun n => match n.content with
    | .slot s => { n with content := .slot { s with contents := contents } }
    | _ => n

def modifyContainer (f : Forest) (id : NodeId) (change : Container → Container) : Forest :=
  f.modify id fun n => match n.content with
    | .container c => { n with content := .container (change c) }
    | _ => n

end Forest

end Stowage
