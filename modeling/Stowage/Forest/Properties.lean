import Stowage.Forest.Basic
import Stowage.Settings

/-!
# Properties of nodes

A property is looked up in three places: in the node's own store, in what the parent tells of this
child, and in what follows from the shape. The title of a node is the text that stands for its name.
-/

namespace Stowage.Forest

set_option autoImplicit false

/-- Whether a look-up with this key may be answered from the shape. -/
def asksDefault : Option String → Bool
  | none => true
  | some key => key == defaultKey

def relativeStore (f : Forest) (id : NodeId) (n : Node) : Option PropertyStore :=
  n.parent.bind fun p => (f.composite? p).bind fun c => (c.child id).map ChildEntry.relative

def slotIndex (f : Forest) (id : NodeId) (n : Node) : Option PropertyValue :=
  n.parent.bind fun p => (f.composite? p).bind fun c =>
    (c.slots.idxOf? id).map fun i => .int i

def childCell (g : GridComposite) (id : NodeId) : Option PropertyValue :=
  (g.composite.positionOf id).bind fun i => g.origins[i]?.map fun (x, y) => .position x y

/-- What the parent tells of a node: the index of a slot and the cell of a child on a grid come from
the shape, all else from the parent's store for this child. -/
def relativeProperty (f : Forest) (id : NodeId) (n : Node) (kind : PropertyKind)
    (key : Option String) : Option PropertyValue :=
  let stored := (f.relativeStore id n).bind fun s => s.get kind key
  if asksDefault key then
    match kind with
    | .slotIndex => match n.content with
      | .slot _ => f.slotIndex id n
      | _ => stored
    | .slotPosition => match n.parent.bind f.grid? with
      | some g => childCell g id
      | none => stored
    | _ => stored
  else stored

def ownTitle (env : Environment) (n : Node) : String :=
  env.phrase (n.name.getD env.settings.defaultName)

/-- What follows from the shape, given the title that the node has by itself. -/
def structuralProperty (f : Forest) (title : Node → String) (id : NodeId) (n : Node) :
    PropertyKind → Option PropertyValue
  | .capacity => some (.int (f.capacity id))
  | .title => some (.text (title n))
  | _ => none

/-- The first value that one of the three places has. -/
def propertyFrom (f : Forest) (title : Node → String) (id : NodeId) (kind : PropertyKind)
    (key : Option String) : Option PropertyValue :=
  (f.node? id).bind fun n =>
    match n.properties.get kind key with
    | some v => some v
    | none => match f.relativeProperty id n kind key with
      | some v => some v
      | none => if asksDefault key then f.structuralProperty title id n kind else none

def titleFrom (env : Environment) (f : Forest) (title : Node → String) (id : NodeId) : String :=
  ((f.propertyFrom title id .title none).bind PropertyValue.text?).getD
    (env.phrase env.settings.defaultName)

/-- A container is called by the title of its top inventory, which is no container. -/
def titleOfNode (env : Environment) (f : Forest) (n : Node) : String :=
  match n.content with
  | .container c => titleFrom env f (ownTitle env) c.top
  | _ => ownTitle env n

def property (env : Environment) (f : Forest) (id : NodeId) (kind : PropertyKind)
    (key : Option String) : Option PropertyValue :=
  f.propertyFrom (titleOfNode env f) id kind key

def title (env : Environment) (f : Forest) (id : NodeId) : String :=
  titleFrom env f (titleOfNode env f) id

/-- Every value of a property: the node's own, then those that the parent keeps; where there are
none, what the shape tells. -/
def properties (env : Environment) (f : Forest) (id : NodeId) (kind : PropertyKind) :
    List PropertyValue :=
  match f.node? id with
  | none => []
  | some n =>
    let stored := n.properties.all kind ++ ((f.relativeStore id n).map fun s => s.all kind).getD []
    if stored.isEmpty then
      match f.relativeProperty id n kind none with
      | some v => [v]
      | none => (f.structuralProperty (titleOfNode env f) id n kind).toList
    else stored

/-- The equipment types of a node, from either of the two properties. -/
def equipmentTypes (env : Environment) (f : Forest) (id : NodeId) : List Equipment :=
  (properties env f id .equipmentSlot ++ properties env f id .armorSlot).filterMap
    PropertyValue.equipment?

end Stowage.Forest
