import Stowage.State
import Stowage.Forest.Traversal

/-!
# Calling listeners

Every listener of a node is called in the order of registration, whatever those before it did. A
failure is logged and reported; a panic is a failure like any other while panics are isolated.
-/

namespace Stowage.Step

set_option autoImplicit false

def reportFailure (l : Listener) (e : Event) (kind : FailureKind) (message : String) :
    Step Unit := do
  log (.warn
    s!"Inventory listener {l.id.describe} on {e.node.describe} failed during {e.name}: {message}")
  emit ((← state).diagnostics.carry ⟨l.id, e.node, e.name, kind, message⟩)

def handle (l : Listener) (e : Event) : Reaction → Step Unit
  | .ok => pure ()
  | .error m => reportFailure l e .error m
  | .panic text => do
    if (← state).env.settings.isolateListenerPanics then
      reportFailure l e .panic (text.getD unknownPanic)
    else escape ⟨text⟩

def call (e : Event) (l : Listener) : Step Unit := do
  let reaction := l.react (← trace) e
  emit [.heard l.id e]
  handle l e reaction

def notify (e : Event) : Step Unit := do each (call e) ((← state).listeners.hearing e)

end Stowage.Step

namespace Stowage

/-- The nodes whose listeners hear of a change of `slot`: the slot and the nodes above it, innermost
first, and then the other containers that bind it. -/
def State.changeTargets (s : State) (slot : SlotId) : List NodeId :=
  let above := s.forest.ancestors slot
  above ++ s.containers.filter fun id =>
    !above.contains id && (s.forest.container? id).any fun c => c.binds slot

def Step.notifySlotChange (slot : SlotId) (before after : Option Stack) : Step Unit := do
  Step.each (fun node => Step.notify (.slotChange ⟨node, slot, before, after⟩))
    ((← Step.state).changeTargets slot)

end Stowage
