import Stowage.Proofs.Pairs
import Stowage.Proofs.Seniority

/-!
# Listeners have no influence

Two runs of the same operations, whose listeners do different things, stay twins: the same
inventories and containers, the same answers, messages and calls. This holds while panics are
isolated, and whatever becomes of failure reports.
-/

namespace Stowage

set_option autoImplicit false

open Relation

/-- What an operation answers. -/
inductive Answer where
  | node (r : Except Refusal NodeId)
  | done (r : Except Refusal Unit)
  | closed (r : Option Closed)
  | transaction (t : Transaction)
  | offered (o : Offered)
  | polled (taken : Option Stack) (t : Transaction)
  | moved (r : Except Refusal Transaction)
  | listener (r : Except Refusal ListenerId)
  | removed (found : Bool)

namespace Operation

def perform : Operation → Step Answer
  | .instantiate a _ => Step.instantiate a >>= fun id => pure (.node (.ok id))
  | .instantiateId r id _ => Step.instantiateId r id >>= fun r => pure (.node r)
  | .compose children => Step.composePrioritized children >>= fun r => pure (.node r)
  | .createContainer top bottom => Step.createContainer top bottom >>= fun r => pure (.node r)
  | .openContainer container v => Step.openContainer container v >>= fun r => pure (.done r)
  | .close v => Step.close v >>= fun r => pure (.closed r)
  | .remove node => Step.remove node >>= fun r => pure (.done r)
  | .offer node stack => Step.offer node stack >>= fun t => pure (.transaction t)
  | .offerTo node stack => Step.offerTo node stack >>= fun o => pure (.offered o)
  | .poll node limit => Step.poll node limit >>= fun r => pure (.polled r.1 r.2)
  | .set slot stack => Step.set slot stack >>= fun t => pure (.transaction t)
  | .setAt node index stack => Step.setAt node index stack >>= fun t => pure (.transaction t)
  | .clear node => Step.clear node >>= fun t => pure (.transaction t)
  | .revert t => Step.revert t >>= fun t => pure (.transaction t)
  | .shiftClick custom container slot =>
    Step.shiftClick custom container slot >>= fun r => pure (.moved r)
  | .offerInView view stack => view.offer stack >>= fun t => pure (.transaction t)
  | .offerToView view stack => view.offerTo stack >>= fun o => pure (.offered o)
  | .pollInView view limit => view.poll limit >>= fun r => pure (.polled r.1 r.2)
  | .setInView view index stack => view.setAt index stack >>= fun t => pure (.transaction t)
  | .onSlotChange node react => Step.onSlotChange node react >>= fun r => pure (.listener r)
  | .onView container react => Step.onView container react >>= fun r => pure (.listener r)
  | .onClose container react => Step.onClose container react >>= fun r => pure (.listener r)
  | .removeListener l => Step.removeListener l >>= fun b => pure (.removed b)
  | .setTransport t => Step.setTransport t >>= fun _ => pure (.done (.ok ()))
  | .setDiagnostics d => Step.setDiagnostics d >>= fun _ => pure (.done (.ok ()))

theorem run_eq (op : Operation) : op.run = op.perform.ignored := by
  have hanswered : ∀ {α β : Type} (m : Step α) (f : α → β),
      m.ignored = (m >>= fun a => pure (f a)).ignored := by
    intro α β m f
    unfold Step.ignored
    rw [bind_assoc]
    rfl
  cases op <;> exact hanswered _ _

def plain : Operation → Bool
  | .onSlotChange _ _ | .onView _ _ | .onClose _ _ | .shiftClick _ _ _ | .setDiagnostics _ => false
  | _ => true

inductive Twin : Operation → Operation → Prop where
  | onSlotChange (node : NodeId) (react react' : List Emission → SlotChange → Reaction) :
      Twin (.onSlotChange node react) (.onSlotChange node react')
  | onView (container : NodeId) (react react' : List Emission → ViewEvent → Reaction) :
      Twin (.onView container react) (.onView container react')
  | onClose (container : NodeId) (react react' : List Emission → CloseEvent → Reaction) :
      Twin (.onClose container react) (.onClose container react')
  | shiftClick {custom : CustomTargets} (h : custom.Deaf) (container : NodeId) (slot : SlotId) :
      Twin (.shiftClick custom container slot) (.shiftClick custom container slot)
  | same {op : Operation} (h : op.plain = true) : Twin op op

variable {op op' : Operation}

theorem Twin.right (h : op.Twin op') : op'.Twin op' := by
  cases h with
  | onSlotChange node _ react' => exact .onSlotChange node react' react'
  | onView container _ react' => exact .onView container react' react'
  | onClose container _ react' => exact .onClose container react' react'
  | shiftClick h container slot => exact .shiftClick h container slot
  | same h => exact .same h

theorem deaf_perform (h : op.plain = true) : Step.Deaf op.perform := by
  cases op with
  | instantiate a _ => exact .bind (Step.deaf_instantiate a) fun _ => .pure _
  | instantiateId r id _ => exact .bind (Step.deaf_instantiateId r id) fun _ => .pure _
  | compose children => exact .bind (Step.deaf_compose children) fun _ => .pure _
  | createContainer top bottom => exact .bind (Step.deaf_createContainer _ _) fun _ => .pure _
  | openContainer container v => exact .bind (Step.deaf_openContainer _ _) fun _ => .pure _
  | close v => exact .bind (Step.deaf_close v) fun _ => .pure _
  | remove node => exact .bind (Step.deaf_remove node) fun _ => .pure _
  | offer node stack => exact .bind (Step.deaf_offer _ _) fun _ => .pure _
  | offerTo node stack => exact .bind (Step.deaf_offerTo _ _) fun _ => .pure _
  | poll node limit => exact .bind (Step.deaf_poll _ _) fun _ => .pure _
  | set slot stack => exact .bind (Step.deaf_set _ _) fun _ => .pure _
  | setAt node index stack => exact .bind (Step.deaf_setAt _ _ _) fun _ => .pure _
  | clear node => exact .bind (Step.deaf_clear node) fun _ => .pure _
  | revert t => exact .bind (Step.deaf_revert t) fun _ => .pure _
  | offerInView view stack =>
    exact .bind (.bind (Step.deaf_offerIn _ _) fun _ => .pure _) fun _ => .pure _
  | offerToView view stack => exact .bind (Step.deaf_offerIn _ _) fun _ => .pure _
  | pollInView view limit => exact .bind (Step.deaf_pollIn _ _) fun _ => .pure _
  | setInView view index stack => exact .bind (Step.deaf_setIn _ _ _) fun _ => .pure _
  | removeListener l => exact .bind (Step.deaf_removeListener l) fun _ => .pure _
  | setTransport t => exact .bind (Step.deaf_setTransport t) fun _ => .pure _
  | shiftClick custom container slot => cases h
  | onSlotChange node react => cases h
  | onView container react => cases h
  | onClose container react => cases h
  | setDiagnostics d => cases h

theorem Twin.paired (h : op.Twin op') : Step.Paired op.perform op'.perform := by
  cases h with
  | onSlotChange node _ _ => exact .bind (Step.paired_onSlotChange node _ _) fun _ => .pure _
  | onView container _ _ => exact .bind (Step.paired_onView container _ _) fun _ => .pure _
  | onClose container _ _ => exact .bind (Step.paired_onClose container _ _) fun _ => .pure _
  | shiftClick h container slot =>
    exact .bind (Step.deaf_shiftClick h container slot) fun _ => .pure _
  | same h => exact deaf_perform h

variable {w v : World}

/-- The same operation in twin worlds. -/
theorem Twin.perform (h : op.Twin op') (hwv : w.Twin v)
    (hw : w.state.env.settings.isolateListenerPanics = true) :
    ∃ a, op.perform w = (.ok a, (op.run w).2) ∧ op'.perform v = (.ok a, (op'.run v).2) ∧
      (op.run w).2.Twin (op'.run v).2 ∧ Beats w (op.run w).2 ∧ Beats v (op'.run v).2 := by
  have hv : v.state.env.settings.isolateListenerPanics = true := by rw [hwv.state.env, hw]
  obtain ⟨a, w', v', hop, hop', htwin, _⟩ := h.paired.twin hwv hw
  have hrun : (op.run w).2 = w' := by
    rw [op.run_eq]
    unfold Step.ignored
    rw [Step.bind_of_ok hop]
    rfl
  have hrun' : (op'.run v).2 = v' := by
    rw [op'.run_eq]
    unfold Step.ignored
    rw [Step.bind_of_ok hop']
    rfl
  rw [hrun, hrun']
  exact ⟨a, hop, hop', htwin, h.paired.beats hw hop, h.right.paired.beats hv hop'⟩

end Operation

/-- Two runs of the same operations side by side, with other callbacks and another outlet for
failure reports. -/
inductive TwinRun : World → World → Prop where
  | start (env : Environment) (transport : Transport) (o o' : DiagnosticsOutlet)
      (h : env.settings.isolateListenerPanics = true) :
      TwinRun ⟨.new env transport o, []⟩ ⟨.new env transport o', []⟩
  | step {w v : World} {op op' : Operation} (h : op.Twin op') (before : TwinRun w v) :
      TwinRun (op.run w).2 (op'.run v).2
  | setDiagnostics {w v : World} (o o' : DiagnosticsOutlet) (before : TwinRun w v) :
      TwinRun ((Operation.setDiagnostics o).run w).2 ((Operation.setDiagnostics o').run v).2

section TwinRun
variable {w v : World}

theorem TwinRun.runs (h : TwinRun w v) : ∃ past past', Run past w ∧ Run past' v := by
  induction h with
  | start env transport o o' _ => exact ⟨[], [], .start env transport o, .start env transport o'⟩
  | step _ _ ih =>
    obtain ⟨past, past', hw, hv⟩ := ih
    exact ⟨_, _, hw.step _, hv.step _⟩
  | setDiagnostics o o' _ ih =>
    obtain ⟨past, past', hw, hv⟩ := ih
    exact ⟨_, _, hw.step _, hv.step _⟩

theorem TwinRun.twin (h : TwinRun w v) :
    w.Twin v ∧ w.state.env.settings.isolateListenerPanics = true := by
  induction h with
  | start env transport o o' henv => exact ⟨⟨⟨rfl, rfl, rfl, rfl, .refl _, rfl⟩, rfl⟩, henv⟩
  | step hop _ ih =>
    obtain ⟨_, _, _, htwin, hbeats, _⟩ := hop.perform ih.1 ih.2
    exact ⟨htwin, by rw [hbeats.env]; exact ih.2⟩
  | setDiagnostics o o' _ ih =>
    obtain ⟨⟨⟨henv, hforest, hcontainers, hsessions, hlisteners, htransport⟩, hevents⟩, hw⟩ := ih
    exact ⟨⟨⟨henv, hforest, hcontainers, hsessions, hlisteners, htransport⟩, hevents⟩, hw⟩

theorem Beats.tellsAll {past : List World} {u : World} (h : Run past w)
    (hw : w.state.env.settings.isolateListenerPanics = true) (hu : Beats w u) (e : Event) :
    u.TellsAll e :=
  World.tellsAll (by rw [hu.env]; exact hw) (hu.numbered h.numbered) e

/-- After every operation both runs have the same state, answers, messages and calls of listeners.
Each operation is made of pieces, and wherever an event is told in between, it is told to all. -/
theorem listeners_have_no_influence (h : TwinRun w v) :
    w.Twin v ∧
    (∀ op op' : Operation, op.Twin op' → ∃ a, op.perform w = (.ok a, (op.run w).2) ∧
      op'.perform v = (.ok a, (op'.run v).2) ∧ (op.run w).2.Twin (op'.run v).2 ∧
      Beats w (op.run w).2 ∧ Beats v (op'.run v).2) ∧
    ∀ u, Beats w u ∨ Beats v u → ∀ e, u.TellsAll e := by
  obtain ⟨htwin, hw⟩ := h.twin
  have hv : v.state.env.settings.isolateListenerPanics = true := by rw [htwin.state.env, hw]
  obtain ⟨_, _, hrun, hrun'⟩ := h.runs
  refine ⟨htwin, fun op op' hop => hop.perform htwin hw, ?_⟩
  rintro u (hu | hu) e
  · exact hu.tellsAll hrun hw e
  · exact hu.tellsAll hrun' hv e

end TwinRun

section Quarrel

def Operation.overheard (reaction : Reaction) : List Operation :=
  [.instantiate .anySlot Archetype.anySlot_made, .onSlotChange ⟨0, 0⟩ fun _ _ => reaction,
    .set ⟨0, 0⟩ (some (.single ⟨"minecraft:stone"⟩))]

def World.attended (o : DiagnosticsOutlet) : World := ⟨.new default .live o, []⟩

theorem listeners_have_no_influence_overheard : ∃ w v, TwinRun w v ∧ reports w.trace = [] ∧
    reports v.trace = [⟨⟨1⟩, ⟨0, 0⟩, "slot change", .panic, "full"⟩] ∧ w.Twin v := by
  have hrun : TwinRun
      (Operation.through [] (.attended .disconnected) (Operation.overheard .ok)).2
      (Operation.through [] (.attended .connected) (Operation.overheard (.panic "full"))).2 :=
    .step (.same rfl) (.step (.onSlotChange _ _ _) (.step (.same rfl) (.start _ _ _ _ rfl)))
  exact ⟨_, _, hrun, by decide +kernel, by decide +kernel, (listeners_have_no_influence hrun).1⟩

end Quarrel

end Stowage
