import Stowage.Forest.Growth
import Stowage.Forest.Properties
import Stowage.Event

/-!
# State and steps

The state is the forest with its open containers, listeners and outlets. A step changes the state
and gives out emissions; a panic of a listener that is not isolated ends it on the spot, and what
was done before stays done.
-/

namespace Stowage

set_option autoImplicit false

/-- How messages leave: all of them, only the changes, into a closed channel, or not at all. -/
inductive Transport where
  | live
  | deltasOnly
  | disconnected
  | silent
deriving DecidableEq, Repr, Inhabited

def Transport.carry : Transport → Message → List Emission
  | live, m => [.sent m]
  | deltasOnly, .delta v w c => [.sent (.delta v w c)]
  | deltasOnly, _ => []
  | disconnected, _ => [.logged (.debug "Sync channel disconnected, dropping message")]
  | silent, _ => []

/-- Where failure reports go: to a receiver, to one that is gone, or nowhere. -/
inductive DiagnosticsOutlet where
  | connected
  | disconnected
  | absent
deriving DecidableEq, Repr, Inhabited

def DiagnosticsOutlet.carry : DiagnosticsOutlet → Diagnostic → List Emission
  | connected, d => [.reported d]
  | disconnected, d =>
    let cause := s!"receiver disconnected ({d.listener.describe})"
    [.logged (.warn s!"Dropped listener diagnostic for {d.node.describe}: {cause}")]
  | absent, _ => []

structure State where
  env : Environment
  forest : Forest
  /-- All containers, oldest first. -/
  containers : List NodeId
  sessions : List (ViewerId × NodeId)
  listeners : Listeners
  transport : Transport
  diagnostics : DiagnosticsOutlet
deriving Inhabited

namespace State

def new (env : Environment) (transport : Transport) (diagnostics : DiagnosticsOutlet) : State where
  env := env
  forest := .empty
  containers := []
  sessions := []
  listeners := .empty
  transport := transport
  diagnostics := diagnostics

def kind (s : State) (id : NodeId) : Option NodeKind := s.forest.kind id

def contents (s : State) (id : SlotId) : Option Stack := s.forest.contents id

def property (s : State) (id : NodeId) (kind : PropertyKind) (key : Option String) :
    Option PropertyValue :=
  s.forest.property s.env id kind key

def properties (s : State) (id : NodeId) (kind : PropertyKind) : List PropertyValue :=
  s.forest.properties s.env id kind

def title (s : State) (id : NodeId) : String := s.forest.title s.env id

def equipmentTypes (s : State) (id : NodeId) : List Equipment := s.forest.equipmentTypes s.env id

def openContainer (s : State) (v : ViewerId) : Option NodeId := s.sessions.lookup v

/-- The container behind a handle, or the cause why there is none. -/
def containerAt (s : State) (id : NodeId) : Except Refusal Container :=
  match s.forest.node? id with
  | none => .error (.unknownNode id)
  | some n => match n.content with
    | .container c => .ok c
    | _ => .error (.notAContainer id)

end State

structure World where
  state : State
  trace : List Emission
deriving Inhabited

structure Escape where
  text : Option String
deriving DecidableEq, Repr, Inhabited

/-- A computation that changes the world and ends with a value, or with a panic of a listener. The
world is there in both cases. -/
def Step (α : Type) : Type := World → Except Escape α × World

namespace Step

variable {α β : Type}

def andThen (m : Step α) (next : α → Step β) : Step β := fun w =>
  match m w with
  | (.ok a, w') => next a w'
  | (.error e, w') => (.error e, w')

instance : Monad Step where
  pure a := fun w => (.ok a, w)
  bind := andThen

theorem pure_apply (a : α) (w : World) : (pure a : Step α) w = (.ok a, w) := rfl

theorem bind_apply (m : Step α) (next : α → Step β) (w : World) :
    (m >>= next) w = andThen m next w := rfl

theorem bind_of_ok {m : Step α} {w w' : World} {a : α} (h : m w = (.ok a, w'))
    (next : α → Step β) : (m >>= next) w = next a w' := by
  rw [bind_apply, andThen, h]

theorem bind_of_error {m : Step α} {w w' : World} {e : Escape} (h : m w = (.error e, w'))
    (next : α → Step β) : (m >>= next) w = (.error e, w') := by
  rw [bind_apply, andThen, h]

instance : LawfulMonad Step := LawfulMonad.mk' Step
  (by
    intro α m
    funext w
    change andThen m pure w = m w
    rcases h : m w with ⟨_ | a, w'⟩ <;> simp [andThen, h, pure_apply])
  (fun _ _ => rfl)
  (by
    intro α β γ m f g
    funext w
    change andThen (andThen m f) g w = andThen m (fun a => andThen (f a) g) w
    rcases h : m w with ⟨_ | a, w'⟩ <;> simp [andThen, h])

def escape (e : Escape) : Step α := fun w => (.error e, w)

def state : Step State := fun w => (.ok w.state, w)

def trace : Step (List Emission) := fun w => (.ok w.trace, w)

def update (change : State → State) : Step Unit := fun w =>
  (.ok (), { w with state := change w.state })

def updateForest (change : Forest → Forest) : Step Unit :=
  update fun s => { s with forest := change s.forest }

def emit (es : List Emission) : Step Unit := fun w => (.ok (), { w with trace := w.trace ++ es })

def log (r : LogRecord) : Step Unit := emit [.logged r]

def send (m : Message) : Step Unit := do emit ((← state).transport.carry m)

/-- Messages go to another transport from now on. -/
def setTransport (t : Transport) : Step Unit := update fun s => { s with transport := t }

/-- Failure reports go to another outlet from now on. -/
def setDiagnostics (d : DiagnosticsOutlet) : Step Unit :=
  update fun s => { s with diagnostics := d }

def each (act : α → Step Unit) : List α → Step Unit
  | [] => pure ()
  | a :: rest => do
    act a
    each act rest

end Step

end Stowage
