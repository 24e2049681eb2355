import Stowage.Container.Snapshot
import Stowage.Contents.Operations

/-!
# Opening and closing

A container shows a top and a bottom inventory to viewers. A viewer has at most one container open.
A container of two inventories is discarded when its last viewer closes it, and what its cursor
holds is offered to the bottom inventory.
-/

namespace Stowage

set_option autoImplicit false

namespace Forest

def showRefusal (f : Forest) (id : NodeId) : Option Refusal :=
  match f.kind id with
  | none => some (.unknownNode id)
  | some .container => some (.invalidBuilder "<container>" (.containerViewed id))
  | some _ => none

/-- The items of `first` and those of `second` that are not among `bound`. -/
def followedBy (first second bound : List SlotId) : List SlotId :=
  first ++ second.filter fun s => !bound.contains s

/-- The container that shows `top` over `bottom`, each slot bound once. -/
def containerOver (f : Forest) (top bottom : NodeId) (cursor : SlotId) : Container where
  top := top
  bottom := bottom
  cursor := cursor
  slots := if top = bottom then f.slots top
    else followedBy (f.slots top) (f.slots bottom) (f.slots top)
  fillOrder := if top = bottom then f.fillOrder top
    else followedBy (f.fillOrder top) (f.fillOrder bottom) (f.slots top)
  viewers := []

def addContainer (defaultLimit : Nat) (f : Forest) (top bottom : NodeId) : Forest × NodeId :=
  let (withCursor, cursor) := f.insert fun id => Node.plain id (.slot (Slot.new .any defaultLimit))
  let (planted, id) := withCursor.insert fun id =>
    { Node.plain id (.container (f.containerOver top bottom cursor)) with name := f.name top }
  (planted.modify cursor fun n => { n with parent := some id, root := id }, id)

end Forest

structure Closed where
  container : NodeId
  discarded : Bool
  /-- Units of the cursor that could not be put back. -/
  leftover : Option Stack
deriving DecidableEq, Repr, Inhabited

namespace Step

/-- A container that shows `top` over `bottom`; with the same node twice, the owner's resident
container. -/
def createContainer (top bottom : NodeId) : Step (Except Refusal NodeId) := do
  let s ← state
  match s.forest.showRefusal top <|> s.forest.showRefusal bottom with
  | some r => return .error r
  | none => do
    let (forest, id) := s.forest.addContainer s.env.settings.defaultMaxStackSize top bottom
    update fun s => { s with forest := forest, containers := s.containers ++ [id] }
    log (.debug s!"Created container {id.describe} (top {top.describe}, bottom {bottom.describe})")
    return .ok id

/-- Empties the cursor into the bottom inventory if settings say so; what does not go there is
handed back. -/
def returnCursor (c : Container) : Step (Option Stack) := do
  let s ← state
  match s.contents c.cursor with
  | none => return none
  | some stack =>
    if s.env.settings.returnCursorOnDiscard then do
      let _ ← commit c.cursor none
      let offered ← offerTo c.bottom stack
      return offered.rejected
    else return some stack

def dropContainer (id : NodeId) (cursor : SlotId) : Step Unit :=
  update fun s =>
    { s with
      forest := (s.forest.remove cursor).remove id
      listeners := (s.listeners.forget cursor).forget id
      containers := s.containers.filter fun c => c ≠ id
      sessions := s.sessions.filter fun p => p.2 ≠ id }

/-- Discards a container. What its cursor held and the bottom inventory did not take is handed
back. -/
def discard (id : NodeId) : Step (Option Stack) := do
  match (← state).forest.container? id with
  | none => return none
  | some c => do
    let leftover ← returnCursor c
    dropContainer id c.cursor
    log (.debug s!"Discarded container {id.describe}")
    return leftover

/-- Detaches a viewer from the container `id`, which was `c` before. -/
def leave (viewer : ViewerId) (id : NodeId) (c : Container) : Step Closed := do
  updateForest fun f => f.modifyContainer id fun c => c.detach viewer
  send (.release viewer)
  log (.debug s!"{viewer.describe} closed container {id.describe}")
  notify (.view ⟨id, viewer, false⟩)
  let idle := (c.detach viewer).viewers.isEmpty
  let discarded := idle && !c.isResident && (← state).env.settings.discardIdleContainers
  notify (.close ⟨id, viewer, discarded⟩)
  let leftover ← if discarded then discard id else pure none
  return ⟨id, discarded, leftover⟩

/-- Closes what a viewer has open; `none` when that is nothing. -/
def close (viewer : ViewerId) : Step (Option Closed) := do
  match (← state).openContainer viewer with
  | none => return none
  | some id => do
    update fun s => { s with sessions := s.sessions.filter fun p => p.1 ≠ viewer }
    match (← state).forest.container? id with
    | none => return none
    | some c => return some (← leave viewer id c)

def attach (viewer : ViewerId) (id : NodeId) (c : Container) : Step Unit := do
  let s ← state
  let view := s.freshView c
  each (fun r => send (.bind viewer r.wire r.slot)) view.rows
  send (.fullState viewer (s.snapshotOfView c view))
  update fun s =>
    { s with
      forest := s.forest.modifyContainer id fun c => c.attach viewer view
      sessions := s.sessions ++ [(viewer, id)] }
  log (.debug s!"{viewer.describe} opened container {id.describe}")
  notify (.view ⟨id, viewer, true⟩)

/-- Attaches a viewer to a container. Another container that the viewer has open is closed first,
and one that the viewer has open already is left as it is. -/
def openContainer (id : NodeId) (viewer : ViewerId) : Step (Except Refusal Unit) := do
  let s ← state
  match s.containerAt id with
  | .error r => return .error r
  | .ok _ =>
    if s.openContainer viewer = some id then return .ok ()
    else do
      let _ ← close viewer
      match (← state).containerAt id with
      | .error r => return .error r
      | .ok c => do
        attach viewer id c
        return .ok ()

end Step

end Stowage
