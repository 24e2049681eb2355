import Stowage.Dispatch

/-!
# Committing a change

One slot gets new contents; then listeners hear of it, and then every viewer of every container that
binds the slot is told, unless the viewer knows already.
-/

namespace Stowage.Step

set_option autoImplicit false

/-- Tells one viewer of a container what a slot holds now, unless the viewer knows. -/
def tellViewer (container : NodeId) (wire : Int) (slot : SlotId) (contents : Option Stack)
    (viewer : ViewerId) (view : ClientView) : Step Unit :=
  if view.knows slot contents then pure ()
  else do
    updateForest fun f => f.modifyContainer container fun c => c.learn viewer slot contents
    log (.trace s!"Sync slot {wire} of container {container.describe} to {viewer.describe}")
    send (.delta viewer wire contents)

def tellViewersOf (slot : SlotId) (contents : Option Stack) (id : NodeId) : Step Unit := do
  match (← state).forest.container? id with
  | none => pure ()
  | some c => match c.wireIndex slot with
    | none => pure ()
    | some wire =>
      each (fun (viewer, view) => tellViewer id wire slot contents viewer view) c.viewers

/-- Tells everyone who has the slot bound, from the oldest container on. -/
def tellViewers (slot : SlotId) : Step Unit := do
  let s ← state
  each (tellViewersOf slot (s.contents slot)) s.containers

/-- Puts contents into a slot that holds something else, and tells of it. -/
def replaceContents (slot : SlotId) (before after : Option Stack) : Step Change := do
  updateForest fun f => f.setContents slot after
  notifySlotChange slot before after
  tellViewers slot
  return ⟨slot, before, after⟩

/-- Puts contents into a slot. Nothing happens when the slot is stale or holds just that. -/
def commit (slot : SlotId) (after : Option Stack) : Step (Option Change) := do
  match (← state).forest.slot slot with
  | none => return none
  | some target =>
    if target.contents = after then return none
    else return some (← replaceContents slot target.contents after)

def commitAll : List (SlotId × Option Stack) → Step (List Change)
  | [] => return []
  | (slot, after) :: rest => do
    let first ← commit slot after
    let others ← commitAll rest
    return first.toList ++ others

end Stowage.Step
