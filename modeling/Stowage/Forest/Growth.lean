import Stowage.Forest.Traversal
import Stowage.Refusal
import Stowage.Sorted

/-!
# Making inventories

An archetype is made into nodes from the children upwards, so that a composite finds the slots of
its children. Existing inventories without a parent can be joined under a new one.
-/

namespace Stowage.Forest

set_option autoImplicit false

/-- The slots of the children in fill order, higher priorities first; equal ones keep their
order. -/
def derivedFillOrder (f : Forest) (children : List ChildEntry) : List SlotId :=
  (stableSort (fun a b => decide (b.priority ≤ a.priority)) children).flatMap fun c =>
    f.fillOrder c.node

def fillOrderOf (f : Forest) (children : List ChildEntry) (slots : List SlotId) :
    Option (List Nat) → List SlotId
  | none => f.derivedFillOrder children
  | some order => order.filterMap fun i => slots[i]?

def rowComposite (f : Forest) (children : List ChildEntry) (order : Option (List Nat)) :
    Composite :=
  let slots := children.flatMap fun c => f.slots c.node
  ⟨children, slots, f.fillOrderOf children slots order⟩

/-- Whether a cell comes no later than another, row by row. -/
def cellBefore (a b : Nat × Nat) : Bool := a.2 < b.2 || (a.2 == b.2 && a.1 ≤ b.1)

/-- A composite of children on a grid. They are kept by their top left cells; the slots follow the
cells that were laid out when the archetype was frozen. -/
def gridComposite (f : Forest) (children : List (Placement × ChildEntry)) (columns rows : Nat)
    (cells : List (Nat × Nat)) (order : Option (List Nat)) : GridComposite :=
  let slotsOf := children.map fun c => f.slots c.2.node
  let slots := cells.filterMap fun (child, offset) => slotsOf[child]?.bind fun s => s[offset]?
  let placed := stableSort (fun a b => cellBefore a.1.origin b.1.origin) children
  let entries := placed.map Prod.snd
  ⟨⟨entries, slots, f.fillOrderOf entries slots order⟩, columns, rows,
    placed.map fun c => c.1.origin⟩

/-- What a node made from a description holds, once its children are there. -/
def contentOf (f : Forest) (defaultLimit : Nat) (draft : Draft) (shape : Shape)
    (children : List (Placement × ChildEntry)) : Content :=
  match shape.kind with
  | .slot => .slot (Slot.new (draft.filter.getD .any) (draft.maxStackSize.getD defaultLimit))
  | .ordered => .ordered (f.rowComposite (children.map Prod.snd) draft.fillOrder)
  | .grid columns rows =>
    .grid (f.gridComposite children columns rows shape.cells draft.fillOrder)

def adopt (f : Forest) (parent : NodeId) (children : List NodeId) : Forest :=
  children.foldl (fun acc c => acc.modify c fun n => { n with parent := some parent }) f

mutual

def grow (defaultLimit : Nat) (f : Forest) : Archetype → Forest × NodeId
  | .frozen archetype draft shape children =>
    let (grown, entries) := growAll defaultLimit f children
    let (planted, id) := grown.insert fun id =>
      { Node.plain id (grown.contentOf defaultLimit draft shape entries) with
        name := draft.name, archetype := archetype, properties := draft.properties,
        shiftClick := draft.shiftClick }
    (planted.adopt id (entries.map fun e => e.2.node), id)

def growAll (defaultLimit : Nat) (f : Forest) :
    List (Placing × Archetype) → Forest × List (Placement × ChildEntry)
  | [] => (f, [])
  | (p, a) :: rest =>
    let (grown, id) := grow defaultLimit f a
    let (last, entries) := growAll defaultLimit grown rest
    (last, (p.placement, ⟨id, p.priority, p.relative⟩) :: entries)

end

/-- Makes `root` the topmost node of all nodes below it. -/
def setRoot (f : Forest) (root : NodeId) : Forest :=
  let whole := root :: f.descendants root
  whole.foldl (fun acc id => acc.modify id fun n => { n with root := root }) f

def instantiate (defaultLimit : Nat) (f : Forest) (a : Archetype) : Forest × NodeId :=
  let (grown, id) := grow defaultLimit f a
  (grown.setRoot id, id)

def childRefusal (f : Forest) (earlier : List NodeId) (child : NodeId) : Option Refusal :=
  match f.node? child with
  | none => some (.unknownNode child)
  | some n =>
    if n.parent.isSome ∨ child ∈ earlier then some (.alreadyOwned child)
    else match n.content with
      | .container _ => some (.invalidBuilder "<composed>" (.containerChild child))
      | _ => none

def joinRefusal (f : Forest) (earlier : List NodeId) : List NodeId → Option Refusal
  | [] => none
  | c :: rest => match f.childRefusal earlier c with
    | some r => some r
    | none => f.joinRefusal (earlier ++ [c]) rest

def compose (f : Forest) (children : List (NodeId × Int)) : Except Refusal (Forest × NodeId) :=
  match f.joinRefusal [] (children.map Prod.fst) with
  | some r => .error r
  | none =>
    let entries := children.map fun (c, priority) => ⟨c, priority, .empty⟩
    let (planted, id) := f.insert fun id => Node.plain id (.ordered (f.rowComposite entries none))
    .ok ((planted.adopt id (children.map Prod.fst)).setRoot id, id)

end Stowage.Forest
