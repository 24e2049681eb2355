import Stowage.Sync

/-!
# Events and listeners

Listeners hang on nodes and are called with events. What a listener does is a function of everything
that was given out before the call, so it may answer differently every time. A failure is reported
with the listener, the node and the event.
-/

namespace Stowage

set_option autoImplicit false

/-- Listeners are numbered from 1 in the order of their registration. -/
structure ListenerId where
  number : Nat
deriving DecidableEq, Repr, Inhabited

def ListenerId.describe (l : ListenerId) : String := s!"ListenerId({l.number})"

/-- A slot changed; `inventory` is the node on which the listener hangs. -/
structure SlotChange where
  inventory : NodeId
  slot : SlotId
  before : Option Stack
  after : Option Stack
deriving DecidableEq, Repr, Inhabited

structure ViewEvent where
  container : NodeId
  viewer : ViewerId
  attached : Bool
deriving DecidableEq, Repr, Inhabited

/-- A viewer closed a container, which is `discarded` after this event or not. -/
structure CloseEvent where
  container : NodeId
  viewer : ViewerId
  discarded : Bool
deriving DecidableEq, Repr, Inhabited

inductive Event where
  | slotChange (e : SlotChange)
  | view (e : ViewEvent)
  | close (e : CloseEvent)
deriving DecidableEq, Repr, Inhabited

def Event.name : Event → String
  | slotChange _ => "slot change"
  | view _ => "view"
  | close _ => "close"

/-- The node whose listeners hear the event. -/
def Event.node : Event → NodeId
  | slotChange e => e.inventory
  | view e => e.container
  | close e => e.container

inductive FailureKind where
  | error
  | panic
deriving DecidableEq, Repr, Inhabited

structure Diagnostic where
  listener : ListenerId
  node : NodeId
  event : String
  kind : FailureKind
  message : String
deriving DecidableEq, Repr, Inhabited

/-- Something given out while an operation runs: a message handed to the transport, a call of a
listener, a failure report or a line of the log. -/
inductive Emission where
  | sent (m : Message)
  | heard (listener : ListenerId) (e : Event)
  | reported (d : Diagnostic)
  | logged (r : LogRecord)
deriving DecidableEq, Repr, Inhabited

/-- What a listener does when it is called. A panic may carry a text. -/
inductive Reaction where
  | ok
  | error (message : String)
  | panic (text : Option String)
deriving DecidableEq, Repr, Inhabited

def unknownPanic : String := "Unknown panic"

/-- The failure that a reaction amounts to, if it is one. -/
def Reaction.failure : Reaction → Option (FailureKind × String)
  | ok => none
  | error m => some (.error, m)
  | panic t => some (.panic, t.getD unknownPanic)

inductive EventKind where
  | slotChange
  | view
  | close
deriving DecidableEq, Repr, Inhabited

def Event.kind : Event → EventKind
  | slotChange _ => .slotChange
  | view _ => .view
  | close _ => .close

structure Listener where
  id : ListenerId
  node : NodeId
  hears : EventKind
  react : List Emission → Event → Reaction

instance : Inhabited Listener := ⟨default, default, default, fun _ _ => .ok⟩

/-- The listeners in the order of their registration, and how many numbers were given out. -/
structure Listeners where
  issued : Nat
  registered : List Listener
deriving Inhabited

namespace Listeners

def empty : Listeners := ⟨0, []⟩

def nextId (l : Listeners) : ListenerId := ⟨l.issued + 1⟩

def register (l : Listeners) (node : NodeId) (hears : EventKind)
    (react : List Emission → Event → Reaction) : Listeners :=
  ⟨l.issued + 1, l.registered ++ [⟨l.nextId, node, hears, react⟩]⟩

def isRegistered (l : Listeners) (id : ListenerId) : Bool := l.registered.any fun r => r.id = id

def unregister (l : Listeners) (id : ListenerId) : Listeners :=
  { l with registered := l.registered.filter fun r => r.id ≠ id }

def forget (l : Listeners) (node : NodeId) : Listeners :=
  { l with registered := l.registered.filter fun r => r.node ≠ node }

/-- Those who hear an event, in the order of their registration. -/
def hearing (l : Listeners) (e : Event) : List Listener :=
  l.registered.filter fun r => r.hears = e.kind ∧ r.node = e.node

end Listeners

end Stowage
