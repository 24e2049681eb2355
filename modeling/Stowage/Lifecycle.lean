import Stowage.Archetype.Registry
import Stowage.Container.Session

/-!
# Making, joining and removing inventories; registering listeners
-/

namespace Stowage

set_option autoImplicit false

namespace State

/-- The container, if there is one, that shows any of the nodes. -/
def showing (s : State) (nodes : List NodeId) : Option NodeId :=
  s.containers.find? fun id =>
    (s.forest.container? id).any fun c => nodes.contains c.top || nodes.contains c.bottom

def dropNodes (s : State) (nodes : List NodeId) : State :=
  { s with
    forest := nodes.foldl Forest.remove s.forest
    listeners := nodes.foldl Listeners.forget s.listeners }

end State

namespace Step

def instantiate (a : Archetype) : Step NodeId := do
  let s ← state
  let (forest, root) := s.forest.instantiate s.env.settings.defaultMaxStackSize a
  updateForest fun _ => forest
  log (.debug
    s!"Instantiated inventory {root.describe} from archetype {a.displayId} ({a.slotCount} slots)")
  return root

def instantiateId (r : Registry) (id : ArchetypeId) : Step (Except Refusal NodeId) := do
  match r.get? id with
  | none => return .error (.unknownArchetype id)
  | some a => return .ok (← instantiate a)

/-- Joins inventories that have no parent under a new one, each with its priority. -/
def composePrioritized (children : List (NodeId × Int)) : Step (Except Refusal NodeId) := do
  match (← state).forest.compose children with
  | .error r => return .error r
  | .ok (forest, id) => do
    updateForest fun _ => forest
    log (.debug s!"Composed inventory {id.describe} from {children.length} children")
    return .ok id

def compose (children : List NodeId) : Step (Except Refusal NodeId) :=
  composePrioritized (children.map fun c => (c, defaultPriority))

def removeTree (node : NodeId) : Step (Except Refusal Unit) := do
  let s ← state
  let nodes := s.forest.descendants node ++ [node]
  match s.showing nodes with
  | some container => return .error (.inUse node container)
  | none => do
    update fun s => s.dropNodes nodes
    log (.debug s!"Removed inventory {node.describe} ({nodes.length} nodes)")
    return .ok ()

def removeContainer (id : NodeId) (c : Container) : Step (Except Refusal Unit) :=
  if c.viewers.isEmpty then do
    let _ ← discard id
    return .ok ()
  else return .error (.inUse id id)

/-- Removes a whole inventory, or a container without viewers. Nothing is removed that has a parent
or is shown by a container. -/
def remove (node : NodeId) : Step (Except Refusal Unit) := do
  match (← state).forest.node? node with
  | none => return .error (.unknownNode node)
  | some n =>
    if n.parent.isSome then return .error (.alreadyOwned node)
    else match n.content with
      | .container c => removeContainer node c
      | _ => removeTree node

/-- Hangs a listener on a node that is known to be there. -/
def listen (node : NodeId) (hears : EventKind) (react : List Emission → Event → Reaction) :
    Step ListenerId := do
  let id := (← state).listeners.nextId
  update fun s => { s with listeners := s.listeners.register node hears react }
  return id

/-- Calls `react` for every change of a slot below the node, or bound by it if it is a container. -/
def onSlotChange (node : NodeId) (react : List Emission → SlotChange → Reaction) :
    Step (Except Refusal ListenerId) := do
  if (← state).forest.contains node then
    return .ok (← listen node .slotChange fun trace e => match e with
      | .slotChange c => react trace c
      | _ => .ok)
  else return .error (.unknownNode node)

def onView (container : NodeId) (react : List Emission → ViewEvent → Reaction) :
    Step (Except Refusal ListenerId) := do
  match (← state).containerAt container with
  | .error r => return .error r
  | .ok _ => return .ok (← listen container .view fun trace e => match e with
      | .view v => react trace v
      | _ => .ok)

def onClose (container : NodeId) (react : List Emission → CloseEvent → Reaction) :
    Step (Except Refusal ListenerId) := do
  match (← state).containerAt container with
  | .error r => return .error r
  | .ok _ => return .ok (← listen container .close fun trace e => match e with
      | .close c => react trace c
      | _ => .ok)

/-- Takes a listener away; false when it was not there. -/
def removeListener (id : ListenerId) : Step Bool := do
  let registered := (← state).listeners.isRegistered id
  update fun s => { s with listeners := s.listeners.unregister id }
  return registered

end Step

end Stowage
