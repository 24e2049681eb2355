import Stowage.Proofs.Listeners
import Stowage.Proofs.Isolation

/-!
# Telling an event

While panics are isolated, an event is told to every listener of its node, once each and in the
order of registration, whatever those before it did. What a listener does shows only in the report
of its failure, which follows the call. An operation is made of changes of the state, of messages
and lines of the log, and of events that are told in this way.
-/

namespace Stowage

set_option autoImplicit false

open Relation

def Emission.report? : Emission → Option Diagnostic
  | .reported d => some d
  | _ => none

def reports (es : List Emission) : List Diagnostic := es.filterMap Emission.report?

def Listener.diagnostic (l : Listener) (e : Event) (r : Reaction) : Option Diagnostic :=
  r.failure.map fun (kind, message) => ⟨l.id, e.node, e.name, kind, message⟩

/-- What is given out after a call: nothing, or a line of the log and the report of a failure. -/
def DiagnosticsOutlet.account (o : DiagnosticsOutlet) (l : Listener) (e : Event) (r : Reaction) :
    List Emission :=
  match l.diagnostic e r with
  | none => []
  | some d =>
    let text :=
      s!"Inventory listener {l.id.describe} on {e.node.describe} failed during {e.name}: {d.message}"
    .logged (.warn text) :: o.carry d

def DiagnosticsOutlet.around (o : DiagnosticsOutlet) (e : Event) (p : Listener × Reaction) :
    List Emission :=
  .heard p.1.id e :: o.account p.1 e p.2

def DiagnosticsOutlet.reactions (o : DiagnosticsOutlet) (e : Event) :
    List Emission → List Listener → List (Listener × Reaction)
  | _, [] => []
  | t, l :: rest =>
    let p := (l, l.react t e)
    p :: o.reactions e (t ++ o.around e p) rest

namespace World

def reactions (w : World) (e : Event) : List (Listener × Reaction) :=
  w.state.diagnostics.reactions e w.trace (w.state.listeners.hearing e)

def dispatched (w : World) (e : Event) : List Emission :=
  (w.reactions e).flatMap (w.state.diagnostics.around e)

/-- The event reaches all who listen for it, in order and once each, and each failure is reported
with the listener, the node, the event, the kind and the message. Nothing else happens. -/
structure TellsAll (w : World) (e : Event) : Prop where
  notify : Step.notify e w = (.ok (), w.give (w.dispatched e))
  listeners : (w.reactions e).map Prod.fst = w.state.listeners.hearing e
  once : (w.state.listeners.hearing e).Pairwise fun a b => a.id.number < b.id.number
  calls : Step.heard (w.dispatched e) = (w.state.listeners.hearing e).map fun l => (l.id, e)
  reported : w.state.diagnostics = .connected →
    reports (w.dispatched e) = (w.reactions e).filterMap fun p => p.1.diagnostic e p.2
  unreported : w.state.diagnostics ≠ .connected → reports (w.dispatched e) = []

end World

section Reactions
variable {o : DiagnosticsOutlet} {e : Event}

theorem DiagnosticsOutlet.map_fst_reactions (t : List Emission) (ls : List Listener) :
    (o.reactions e t ls).map Prod.fst = ls := by
  induction ls generalizing t with
  | nil => rfl
  | cons l rest ih => exact congrArg (l :: ·) (ih _)

theorem DiagnosticsOutlet.heard_around (p : Listener × Reaction) :
    Step.heard (o.around e p) = [(p.1.id, e)] := by
  have hnone : Step.heard (o.account p.1 e p.2) = [] := by
    unfold account
    cases p.1.diagnostic e p.2 with
    | none => rfl
    | some d => cases o <;> rfl
  exact congrArg ((p.1.id, e) :: ·) hnone

theorem DiagnosticsOutlet.reports_around (p : Listener × Reaction) : reports (o.around e p) =
    if o = .connected then (p.1.diagnostic e p.2).toList else [] := by
  change reports (o.account p.1 e p.2) = _
  unfold account
  cases p.1.diagnostic e p.2 with
  | none => cases o <;> rfl
  | some d => cases o <;> rfl

theorem reports_flatMap {α : Type} (l : List α) (f : α → List Emission) :
    reports (l.flatMap f) = l.flatMap fun a => reports (f a) := List.filterMap_flatMap

theorem Step.heard_flatMap {α : Type} (l : List α) (f : α → List Emission) :
    heard (l.flatMap f) = l.flatMap fun a => heard (f a) := List.filterMap_flatMap

variable {w : World}

theorem World.heard_dispatched :
    Step.heard (w.dispatched e) = (w.state.listeners.hearing e).map fun l => (l.id, e) := by
  unfold dispatched
  simp only [Step.heard_flatMap, DiagnosticsOutlet.heard_around]
  rw [← List.map_eq_flatMap, ← DiagnosticsOutlet.map_fst_reactions w.trace
    (w.state.listeners.hearing e), List.map_map]
  rfl

theorem World.reports_dispatched : reports (w.dispatched e) =
    (w.reactions e).flatMap fun p =>
      if w.state.diagnostics = .connected then (p.1.diagnostic e p.2).toList else [] := by
  unfold dispatched
  simp only [reports_flatMap, DiagnosticsOutlet.reports_around]

end Reactions

namespace Step
variable {w : World} {e : Event}

theorem reportFailure_eq {l : Listener} {kind : FailureKind} {message : String} {r : Reaction}
    (hr : r.failure = some (kind, message)) : reportFailure l e kind message w =
      (.ok (), w.give (w.state.diagnostics.account l e r)) := by
  have hd : l.diagnostic e r = some ⟨l.id, e.node, e.name, kind, message⟩ := by
    unfold Listener.diagnostic
    rw [hr]
    rfl
  unfold reportFailure log DiagnosticsOutlet.account
  rw [emit_bind, state_bind, hd]
  exact Prod.ext rfl (World.give_give _ _ _)

theorem handle_eq (hw : w.state.env.settings.isolateListenerPanics = true) (l : Listener)
    (r : Reaction) : handle l e r w = (.ok (), w.give (w.state.diagnostics.account l e r)) := by
  cases r with
  | ok => exact Prod.ext rfl w.give_nil.symm
  | error m => exact reportFailure_eq rfl
  | panic text =>
    simp only [handle, state_bind, if_pos hw]
    exact reportFailure_eq rfl

theorem each_call (hw : w.state.env.settings.isolateListenerPanics = true) (ls : List Listener) :
    each (call e) ls w = (.ok (), w.give ((w.state.diagnostics.reactions e w.trace ls).flatMap
      (w.state.diagnostics.around e))) := by
  induction ls generalizing w with
  | nil => exact Prod.ext rfl w.give_nil.symm
  | cons l rest ih =>
    have hcall : call e l w =
        (.ok (), w.give (w.state.diagnostics.around e (l, l.react w.trace e))) := by
      unfold call
      rw [trace_bind, emit_bind]
      rw [handle_eq (w := w.give [.heard l.id e]) hw, World.give_give]
      rfl
    rw [each_cons, bind_of_ok hcall]
    rw [ih (w := w.give (w.state.diagnostics.around e (l, l.react w.trace e))) hw, World.give_give]
    rfl

/-- While panics are isolated, an event is told to the end. -/
theorem notify_eq (hw : w.state.env.settings.isolateListenerPanics = true) (e : Event) :
    notify e w = (.ok (), w.give (w.dispatched e)) := each_call hw _

end Step

theorem World.tellsAll {w : World} (hw : w.state.env.settings.isolateListenerPanics = true)
    (hn : w.state.listeners.Numbered) (e : Event) : w.TellsAll e where
  notify := Step.notify_eq hw e
  listeners := DiagnosticsOutlet.map_fst_reactions _ _
  once := hn.increasing.sublist List.filter_sublist
  calls := World.heard_dispatched
  reported := by
    intro hd
    rw [World.reports_dispatched, List.filterMap_eq_flatMap_toList]
    simp only [if_pos hd]
  unreported := by
    intro hd
    rw [World.reports_dispatched]
    simp only [if_neg hd, List.flatMap_eq_nil_iff, implies_true]

/-- A piece of an operation: the state is changed, something is sent or logged, or an event is
told. -/
inductive Beat (w : World) : World → Prop where
  | change (t : State) (hl : w.state.listeners.Turn t.listeners)
      (hd : t.diagnostics = w.state.diagnostics) (henv : t.env = w.state.env) :
      Beat w { w with state := t }
  | say (es : List Emission) (hcalls : Step.heard es = []) (hreports : reports es = []) :
      Beat w (w.give es)
  | tell (e : Event) : Beat w (w.give (w.dispatched e))

abbrev Beats : World → World → Prop := ReflTransGen Beat

section Beats
variable {w u : World}

theorem Beats.env (h : Beats w u) : u.state.env = w.state.env := by
  induction h with
  | refl => rfl
  | tail _ hstep ih =>
    rw [← ih]
    cases hstep with
    | change t _ _ henv => exact henv
    | say es _ _ => rfl
    | tell e => rfl

theorem Beats.numbered (h : Beats w u) (hn : w.state.listeners.Numbered) :
    u.state.listeners.Numbered := by
  induction h with
  | refl => exact hn
  | tail _ hstep ih =>
    cases hstep with
    | change t hl _ _ => exact ih.turn hl
    | say es _ _ => exact ih
    | tell e => exact ih

end Beats

end Stowage
