import Stowage.Proofs.Archetype.Made
import Stowage.Proofs.Container.Sessions
import Stowage.Proofs.Listeners

/-!
# Operations and runs

All that can be done to a tree of inventories, and the worlds that are reached by doing it again and
again. What one operation does is said once, in `Advance`; whatever holds throughout a run follows
from that.
-/

namespace Stowage

set_option autoImplicit false

open Relation

/-- An operation with its arguments. Archetypes are given together with their making. -/
inductive Operation where
  | instantiate (a : Archetype) (made : a.Made)
  | instantiateId (r : Registry) (id : ArchetypeId) (made : ∀ a, r.get? id = some a → a.Made)
  | compose (children : List (NodeId × Int))
  | createContainer (top bottom : NodeId)
  | openContainer (container : NodeId) (v : ViewerId)
  | close (v : ViewerId)
  | remove (node : NodeId)
  | offer (node : NodeId) (stack : Stack)
  | offerTo (node : NodeId) (stack : Stack)
  | poll (node : NodeId) (limit : Option Nat)
  | set (slot : SlotId) (stack : Option Stack)
  | setAt (node : NodeId) (index : Nat) (stack : Option Stack)
  | clear (node : NodeId)
  | revert (t : Transaction)
  | shiftClick (custom : CustomTargets) (container : NodeId) (slot : SlotId)
  | offerInView (view : View) (stack : Stack)
  | offerToView (view : View) (stack : Stack)
  | pollInView (view : View) (limit : Option Nat)
  | setInView (view : View) (index : Nat) (stack : Option Stack)
  | onSlotChange (node : NodeId) (react : List Emission → SlotChange → Reaction)
  | onView (container : NodeId) (react : List Emission → ViewEvent → Reaction)
  | onClose (container : NodeId) (react : List Emission → CloseEvent → Reaction)
  | removeListener (l : ListenerId)
  | setTransport (t : Transport)
  | setDiagnostics (d : DiagnosticsOutlet)

def Step.ignored {α : Type} (m : Step α) : Step Unit := m >>= fun _ => pure ()

def Operation.run : Operation → Step Unit
  | .instantiate a _ => (Step.instantiate a).ignored
  | .instantiateId r id _ => (Step.instantiateId r id).ignored
  | .compose children => (Step.composePrioritized children).ignored
  | .createContainer top bottom => (Step.createContainer top bottom).ignored
  | .openContainer container v => (Step.openContainer container v).ignored
  | .close v => (Step.close v).ignored
  | .remove node => (Step.remove node).ignored
  | .offer node stack => (Step.offer node stack).ignored
  | .offerTo node stack => (Step.offerTo node stack).ignored
  | .poll node limit => (Step.poll node limit).ignored
  | .set slot stack => (Step.set slot stack).ignored
  | .setAt node index stack => (Step.setAt node index stack).ignored
  | .clear node => (Step.clear node).ignored
  | .revert t => (Step.revert t).ignored
  | .shiftClick custom container slot => (Step.shiftClick custom container slot).ignored
  | .offerInView view stack => (view.offer stack).ignored
  | .offerToView view stack => (view.offerTo stack).ignored
  | .pollInView view limit => (view.poll limit).ignored
  | .setInView view index stack => (view.setAt index stack).ignored
  | .onSlotChange node react => (Step.onSlotChange node react).ignored
  | .onView container react => (Step.onView container react).ignored
  | .onClose container react => (Step.onClose container react).ignored
  | .removeListener l => (Step.removeListener l).ignored
  | .setTransport t => (Step.setTransport t).ignored
  | .setDiagnostics d => (Step.setDiagnostics d).ignored

/-- Operations one after another. The list has the worlds before the last one, the newest first; a
panic may have escaped from any of the operations. -/
inductive Run : List World → World → Prop where
  | start (env : Environment) (transport : Transport) (diagnostics : DiagnosticsOutlet) :
      Run [] ⟨.new env transport diagnostics, []⟩
  | step {past : List World} {w : World} (op : Operation) (before : Run past w) :
      Run (w :: past) (op.run w).2

inductive CalmRun : List World → World → Prop where
  | start (env : Environment) (transport : Transport) (diagnostics : DiagnosticsOutlet) :
      CalmRun [] ⟨.new env transport diagnostics, []⟩
  | step {past : List World} {w w' : World} (op : Operation) (before : CalmRun past w)
      (ok : op.run w = (.ok (), w')) : CalmRun (w :: past) w'

/-- What one operation does as a whole; `calm` when nothing escapes from it. -/
inductive Advance (calm : Prop) (w : World) : World → Prop where
  | moves {w' : World} (h : Moves w w') (hcalm : calm → World.Calm w w') : Advance calm w w'
  | listen (l : Listeners) (hl : w.state.listeners.Turn l) :
      Advance calm w { w with state := { w.state with listeners := l } }
  | rewire (t : Transport) (d : DiagnosticsOutlet) :
      Advance calm w { w with state := { w.state with transport := t, diagnostics := d } }
  | grow {g : Forest} {w' : World} (hg : Forest.Grown w.state.forest g)
      (hq : World.Quiet { w with state := { w.state with forest := g } } w') : Advance calm w w'
  | frame {g : Forest} {id top bottom : NodeId} {w' : World}
      (ht : w.state.forest.Showable top) (hb : w.state.forest.Showable bottom)
      (hg : Forest.Framed w.state.forest g id
        (w.state.forest.containerOver top bottom w.state.forest.nextId))
      (hq : World.Quiet { w with state := w.state.frame g id } w') : Advance calm w w'
  | raze {r : NodeId} {w' : World} (hr : w.state.forest.parent r = none)
      (hn : w.state.forest.container? r = none)
      (hfree : w.state.showing (w.state.forest.descendants r ++ [r]) = none)
      (hq : World.Quiet
        { w with state := w.state.dropNodes (w.state.forest.descendants r ++ [r]) } w') :
      Advance calm w w'
  | enter {u w' : World} {v : ViewerId} {id : NodeId} {c : Container} (hm : Moves w u)
      (hcalm : World.Calm w u) (hc : u.state.forest.container? id = some c)
      (hv : u.state.openContainer v = none) (hq : World.Quiet (u.enter v id c) w') :
      Advance calm w w'

theorem Advance.mono {p q : Prop} {w w' : World} (hpq : q → p) (h : Advance p w w') :
    Advance q w w' := by
  cases h with
  | moves h hcalm => exact .moves h fun hq => hcalm (hpq hq)
  | listen l hl => exact .listen l hl
  | rewire t d => exact .rewire t d
  | grow hg hq => exact .grow hg hq
  | frame ht hb hg hq => exact .frame ht hb hg hq
  | raze hr hn hfree hq => exact .raze hr hn hfree hq
  | enter hm hcalm hc hv hq => exact .enter hm hcalm hc hv hq

/-- Listeners or whole inventories came or went, or messages and reports go elsewhere. Nothing was
sent, a new container has no viewers, and a slot that stays holds what it held. -/
structure World.Rebuilt (w b : World) : Prop where
  trace : b.trace = w.trace
  sessions : b.state.sessions = w.state.sessions
  container? : ∀ {id : NodeId} {c : Container}, b.state.forest.container? id = some c →
    w.state.forest.container? id = some c ∨ w.state.forest.contains id = false ∧ c.viewers = []
  contents : ∀ {x : SlotId}, w.state.forest.contains x = true →
    b.state.forest.contains x = true → b.state.contents x = w.state.contents x

section Rebuilt
variable {w b : World}

theorem World.Rebuilt.view (h : w.Rebuilt b) {id : NodeId} {c : Container} {v : ViewerId}
    {view : ClientView} (hc : b.state.forest.container? id = some c) (hv : (v, view) ∈ c.viewers) :
    w.state.forest.container? id = some c := by
  rcases h.container? hc with hc | hnew
  · exact hc
  · rw [hnew.2] at hv
    cases hv

theorem World.rebuilt_listen (w : World) (l : Listeners) :
    w.Rebuilt { w with state := { w.state with listeners := l } } :=
  ⟨rfl, rfl, fun hc => Or.inl hc, fun _ _ => rfl⟩

theorem World.rebuilt_rewire (w : World) (t : Transport) (d : DiagnosticsOutlet) :
    w.Rebuilt { w with state := { w.state with transport := t, diagnostics := d } } :=
  ⟨rfl, rfl, fun hc => Or.inl hc, fun _ _ => rfl⟩

theorem World.rebuilt_grow {g : Forest} (hg : Forest.Grown w.state.forest g) :
    w.Rebuilt { w with state := { w.state with forest := g } } where
  trace := rfl
  sessions := rfl
  container? := by
    intro id c hc
    rw [hg.container?] at hc
    exact Or.inl hc
  contents := fun hx _ => (hg.content _ hx).contents

theorem World.rebuilt_frame {g : Forest} {id : NodeId} {c : Container}
    (hg : Forest.Framed w.state.forest g id c) (hc : c.viewers = []) :
    w.Rebuilt { w with state := w.state.frame g id } where
  trace := rfl
  sessions := rfl
  container? := by
    intro x d hd
    change g.container? x = some d at hd
    rw [hg.container?] at hd
    split at hd
    · rename_i hx
      cases hd
      rw [hx]
      exact Or.inr ⟨hg.fresh, hc⟩
    · exact Or.inl hd
  contents := fun hx _ => (hg.content _ hx).contents

theorem World.rebuilt_raze (w : World) (nodes : List NodeId) :
    w.Rebuilt { w with state := w.state.dropNodes nodes } where
  trace := rfl
  sessions := rfl
  container? := fun hc => Or.inl (Forest.of_container?_removed hc).2
  contents := fun _ hx => Forest.contents_removed (Forest.contains_removed_iff.mp hx).2

end Rebuilt

/-- To those who look into containers an operation is made of moves, or rebuilds something, or
brings a viewer. -/
theorem Advance.cases {calm : Prop} {w w' : World} (h : Advance calm w w') :
    (Moves w w' ∧ (calm → World.Calm w w')) ∨
    (∃ b, w.Rebuilt b ∧ World.Quiet b w') ∨
    ∃ u v id c, Moves w u ∧ World.Calm w u ∧ u.state.forest.container? id = some c ∧
      u.state.openContainer v = none ∧ World.Quiet (u.enter v id c) w' := by
  cases h with
  | moves h hcalm => exact Or.inl ⟨h, hcalm⟩
  | listen l => exact Or.inr (Or.inl ⟨_, w.rebuilt_listen l, .refl _⟩)
  | rewire t d => exact Or.inr (Or.inl ⟨_, w.rebuilt_rewire t d, .refl _⟩)
  | grow hg hq => exact Or.inr (Or.inl ⟨_, World.rebuilt_grow hg, hq⟩)
  | frame ht hb hg hq => exact Or.inr (Or.inl ⟨_, World.rebuilt_frame hg rfl, hq⟩)
  | raze hr hn hfree hq => exact Or.inr (Or.inl ⟨_, w.rebuilt_raze _, hq⟩)
  | enter hm hcalm hc hv hq => exact Or.inr (Or.inr ⟨_, _, _, _, hm, hcalm, hc, hv, hq⟩)

namespace Step

variable {α β : Type}

def Advances (m : Step α) (w : World) : Prop := Advance (∃ a, (m w).1 = .ok a) w (m w).2

section
variable {w : World}

theorem Advances.map {m : Step α} (h : m.Advances w) (answer : α → β) :
    (m >>= fun a => pure (answer a)).Advances w := by
  unfold Advances at *
  rcases hm : m w with ⟨r, u⟩
  rw [hm] at h
  cases r with
  | error e =>
    rw [bind_of_error hm]
    refine h.mono ?_
    intro hok
    obtain ⟨_, hok⟩ := hok
    cases hok
  | ok a =>
    rw [bind_of_ok hm]
    exact h.mono fun _ => ⟨a, rfl⟩

theorem Advances.ignored {m : Step α} (h : m.Advances w) : m.ignored.Advances w :=
  h.map fun _ => ()

theorem Orderly.advances {m : Step α} (h : m.Orderly w) : m.Advances w := by
  refine .moves h.1 ?_
  intro hok
  obtain ⟨a, ha⟩ := hok
  exact h.2 a ha

theorem Tidy.advances {m : Step α} (h : m.Tidy) (hw : w.state.Sound) : m.Advances w :=
  (Orderly.of_tidy h hw).advances

theorem quiet_log (w : World) (r : LogRecord) : World.Quiet w (w.give [.logged r]) := by
  refine ⟨.view, _, rfl, ?_⟩
  intro e he
  rw [List.mem_singleton.mp he]
  trivial

theorem advances_instantiate (hw : w.state.Sound) {a : Archetype} (ha : a.Made) :
    (instantiate a).Advances w :=
  .grow (Forest.instantiate_grown w.state.env.settings.defaultMaxStackSize hw.forest ha.fits)
    (quiet_log _ _)

theorem advances_instantiateId (hw : w.state.Sound) {r : Registry} {id : ArchetypeId}
    (ha : ∀ a, r.get? id = some a → a.Made) : (instantiateId r id).Advances w := by
  unfold instantiateId
  cases hr : r.get? id with
  | none => exact Orderly.advances (Orderly.of_pure _)
  | some a => exact (advances_instantiate hw (ha a hr)).map _

theorem advances_compose (hw : w.state.Sound) (children : List (NodeId × Int)) :
    (composePrioritized children).Advances w := by
  unfold Advances composePrioritized
  rw [state_bind]
  cases hg : w.state.forest.compose children with
  | error r => exact Orderly.advances (Orderly.of_pure _)
  | ok g =>
    obtain ⟨g, id⟩ := g
    exact .grow (Forest.compose_grown hw.forest hg) (quiet_log _ _)

theorem advances_createContainer (hw : w.state.Sound) (top bottom : NodeId) :
    (createContainer top bottom).Advances w := by
  unfold Advances createContainer
  rw [state_bind]
  dsimp only
  cases hnone : (w.state.forest.showRefusal top <|> w.state.forest.showRefusal bottom) with
  | some r => exact Orderly.advances (Orderly.of_pure _)
  | none =>
    have hboth : w.state.forest.showRefusal top = none ∧
        w.state.forest.showRefusal bottom = none := by simpa using hnone
    have ht := Forest.showable_of_showRefusal hboth.1
    have hb := Forest.showable_of_showRefusal hboth.2
    have hg := Forest.addContainer_framed hw.forest w.state.env.settings.defaultMaxStackSize top
      bottom ht hb
    exact .frame ht hb hg (quiet_log _ _)

theorem quiet_attach (v : ViewerId) (id : NodeId) (c : Container) (w : World) (answer : α) :
    World.Quiet (w.enter v id c) ((attach v id c >>= fun _ => pure answer) w).2 := by
  have hq := quiet_afterEntering v id (w.enter v id c)
  rw [← attach_eq] at hq
  rcases ha : attach v id c w with ⟨r, u⟩
  rw [ha] at hq
  cases r with
  | error e =>
    rw [bind_of_error ha]
    exact hq
  | ok a =>
    rw [bind_of_ok ha]
    exact hq

theorem advances_openContainer (hw : w.state.Sound) (id : NodeId) (v : ViewerId) :
    (openContainer id v).Advances w := by
  unfold Advances openContainer
  rw [state_bind]
  cases w.state.containerAt id with
  | error r => exact Orderly.advances (Orderly.of_pure _)
  | ok _ =>
    by_cases hopen : w.state.openContainer v = some id
    · simp only [if_pos hopen]
      exact Orderly.advances (Orderly.of_pure _)
    · simp only [if_neg hopen]
      have hclose := orderly_close hw v
      unfold Orderly at hclose
      rcases h : close v w with ⟨r, u⟩
      rw [h] at hclose
      cases r with
      | error e =>
        rw [bind_of_error h]
        refine .moves hclose.1 ?_
        intro hok
        obtain ⟨_, hok⟩ := hok
        cases hok
      | ok closed =>
        have hcalm := hclose.2 closed rfl
        rw [bind_of_ok h, state_bind]
        cases hc : u.state.containerAt id with
        | error r => exact .moves hclose.1 fun _ => hcalm
        | ok c =>
          exact .enter hclose.1 hcalm (containerAt_eq_ok_iff.mp hc) (openContainer_close hw h)
            (quiet_attach v id c u _)

theorem advances_removeContainer (hw : w.state.Sound) {id : NodeId} {c : Container}
    (hc : w.state.forest.container? id = some c) : (removeContainer id c).Advances w := by
  unfold removeContainer
  split
  · rename_i hempty
    exact (orderly_discard hw hc (List.isEmpty_iff.mp hempty)).advances.map _
  · exact Orderly.advances (Orderly.of_pure _)

theorem advances_removeTree {r : NodeId} (hr : w.state.forest.parent r = none)
    (hn : w.state.forest.container? r = none) : (removeTree r).Advances w := by
  unfold Advances removeTree
  rw [state_bind]
  cases hfree : w.state.showing (w.state.forest.descendants r ++ [r]) with
  | some id => exact Orderly.advances (Orderly.of_pure _)
  | none => exact .raze hr hn hfree (quiet_log _ _)

theorem advances_remove (hw : w.state.Sound) (node : NodeId) : (remove node).Advances w := by
  unfold Advances remove
  rw [state_bind]
  cases hn : w.state.forest.node? node with
  | none => exact Orderly.advances (Orderly.of_pure _)
  | some n =>
    by_cases hparent : n.parent.isSome = true
    · simp only [if_pos hparent]
      exact Orderly.advances (Orderly.of_pure _)
    · have hr : w.state.forest.parent node = none := by
        unfold Forest.parent
        rw [hn]
        simpa using hparent
      have htree : n.content.container? = none → (removeTree node).Advances w := by
        intro hc
        apply advances_removeTree hr
        unfold Forest.container?
        rw [hn]
        exact hc
      simp only [if_neg hparent]
      cases hc : n.content with
      | container c =>
        exact advances_removeContainer hw (Forest.container?_eq_some_iff.mpr ⟨n, hn, hc⟩)
      | slot s => exact htree (by rw [hc]; rfl)
      | ordered k => exact htree (by rw [hc]; rfl)
      | grid g => exact htree (by rw [hc]; rfl)

theorem advances_listen (node : NodeId) (hears : EventKind)
    (react : List Emission → Event → Reaction) : (listen node hears react).Advances w :=
  .listen _ (.register node hears react)

theorem advances_onSlotChange (node : NodeId) (react : List Emission → SlotChange → Reaction) :
    (onSlotChange node react).Advances w := by
  unfold Advances onSlotChange
  rw [state_bind]
  cases w.state.forest.contains node with
  | false => exact Orderly.advances (Orderly.of_pure _)
  | true => exact (advances_listen node .slotChange _).map _

theorem advances_onView (container : NodeId) (react : List Emission → ViewEvent → Reaction) :
    (onView container react).Advances w := by
  unfold Advances onView
  rw [state_bind]
  cases w.state.containerAt container with
  | error r => exact Orderly.advances (Orderly.of_pure _)
  | ok _ => exact (advances_listen container .view _).map _

theorem advances_onClose (container : NodeId) (react : List Emission → CloseEvent → Reaction) :
    (onClose container react).Advances w := by
  unfold Advances onClose
  rw [state_bind]
  cases w.state.containerAt container with
  | error r => exact Orderly.advances (Orderly.of_pure _)
  | ok _ => exact (advances_listen container .close _).map _

end

end Step

section Operation
variable {w w' : World}

theorem Operation.advances (op : Operation) (hw : w.state.Sound) : op.run.Advances w := by
  cases op with
  | instantiate a made => exact (Step.advances_instantiate hw made).ignored
  | instantiateId r id made => exact (Step.advances_instantiateId hw made).ignored
  | compose children => exact (Step.advances_compose hw children).ignored
  | createContainer top bottom => exact (Step.advances_createContainer hw top bottom).ignored
  | openContainer container v => exact (Step.advances_openContainer hw container v).ignored
  | close v => exact (Step.orderly_close hw v).advances.ignored
  | remove node => exact (Step.advances_remove hw node).ignored
  | offer node stack => exact ((Step.tidy_offer node stack).advances hw).ignored
  | offerTo node stack => exact ((Step.tidy_offerTo node stack).advances hw).ignored
  | poll node limit => exact ((Step.tidy_poll node limit).advances hw).ignored
  | set slot stack => exact ((Step.tidy_set slot stack).advances hw).ignored
  | setAt node index stack => exact ((Step.tidy_setAt node index stack).advances hw).ignored
  | clear node => exact ((Step.tidy_clear node).advances hw).ignored
  | revert t => exact ((Step.tidy_revert t).advances hw).ignored
  | shiftClick custom container slot =>
    exact ((Step.tidy_shiftClick custom container slot).advances hw).ignored
  | offerInView view stack => exact ((Step.tidy_viewOffer view stack).advances hw).ignored
  | offerToView view stack => exact ((Step.tidy_offerIn view.slots stack).advances hw).ignored
  | pollInView view limit => exact ((Step.tidy_pollIn view.slots limit).advances hw).ignored
  | setInView view index stack =>
    exact ((Step.tidy_setIn view.slots index stack).advances hw).ignored
  | onSlotChange node react => exact (Step.advances_onSlotChange node react).ignored
  | onView container react => exact (Step.advances_onView container react).ignored
  | onClose container react => exact (Step.advances_onClose container react).ignored
  | removeListener l => exact .listen _ (.thin (Listeners.thinned_unregister _ l))
  | setTransport t => exact .rewire t _
  | setDiagnostics d => exact .rewire _ d

theorem Advance.sound {calm : Prop} (h : Advance calm w w') (hw : w.state.Sound) :
    w'.state.Sound := by
  cases h with
  | moves h _ => exact h.sound hw
  | listen l => exact hw.congr hw.forest rfl rfl fun _ => rfl
  | rewire t d => exact hw.congr hw.forest rfl rfl fun _ => rfl
  | grow hg hq =>
    rw [hq.state_eq]
    exact hw.grow hg
  | frame ht hb hg hq =>
    rw [hq.state_eq]
    exact hw.frame hg rfl
  | raze hr hn hfree hq =>
    rw [hq.state_eq]
    exact hw.dropNodes hr hn
  | enter hm _ hc hv hq =>
    rw [hq.state_eq]
    exact (hm.sound hw).enter hc hv (State.bindings_freshView _ _)

theorem Advance.env {calm : Prop} (h : Advance calm w w') : w'.state.env = w.state.env := by
  cases h with
  | moves h _ => exact h.env
  | listen l => rfl
  | rewire t d => rfl
  | grow hg hq => rw [hq.state_eq]
  | frame ht hb hg hq =>
    rw [hq.state_eq]
    rfl
  | raze hr hn hfree hq =>
    rw [hq.state_eq]
    rfl
  | enter hm _ hc hv hq =>
    rw [hq.state_eq]
    exact hm.env

variable {past : List World}

/-- The three records of who looks into what agree throughout a run. -/
theorem Run.sound (h : Run past w) : w.state.Sound := by
  induction h with
  | start env transport diagnostics => exact State.sound_new env transport diagnostics
  | step op _ ih => exact (op.advances ih).sound ih

theorem Run.env (h : Run past w) {u : World} (hu : u ∈ w :: past) :
    u.state.env = w.state.env := by
  induction h with
  | start env transport diagnostics => rw [List.mem_singleton.mp hu]
  | step op before ih =>
    rcases List.mem_cons.mp hu with hnew | hold
    · rw [hnew]
    · rw [ih hold, (op.advances before.sound).env]

theorem Run.earlier (h : Run past w) {u : World} (hu : u ∈ w :: past) : ∃ before, Run before u := by
  induction h with
  | start env transport diagnostics =>
    rw [List.mem_singleton.mp hu]
    exact ⟨[], .start env transport diagnostics⟩
  | step op before ih =>
    rcases List.mem_cons.mp hu with hnew | hold
    · rw [hnew]
      exact ⟨_, before.step op⟩
    · exact ih hold

theorem CalmRun.run (h : CalmRun past w) : Run past w := by
  induction h with
  | start env transport diagnostics => exact .start env transport diagnostics
  | @step past w w' op _ ok ih =>
    have hw' : w' = (op.run w).2 := by rw [ok]
    rw [hw']
    exact .step op ih

end Operation

section Through
variable {past : List World} {w : World}

def Operation.through (past : List World) (w : World) : List Operation → List World × World
  | [] => (past, w)
  | op :: rest => through (w :: past) (op.run w).2 rest

def Operation.calmThrough (w : World) : List Operation → Bool
  | [] => true
  | op :: rest => (op.run w).1.isOk && calmThrough (op.run w).2 rest

theorem Run.through (h : Run past w) (ops : List Operation) :
    Run (Operation.through past w ops).1 (Operation.through past w ops).2 := by
  induction ops generalizing past w with
  | nil => exact h
  | cons op rest ih => exact ih (.step op h)

theorem CalmRun.through (h : CalmRun past w) {ops : List Operation}
    (hcalm : Operation.calmThrough w ops = true) :
    CalmRun (Operation.through past w ops).1 (Operation.through past w ops).2 := by
  induction ops generalizing past w with
  | nil => exact h
  | cons op rest ih =>
    obtain ⟨hop, hrest⟩ := Bool.and_eq_true_iff.mp hcalm
    refine ih (.step op h ?_) hrest
    rcases hrun : op.run w with ⟨r, u⟩
    rw [hrun] at hop
    cases r with
    | error e => cases hop
    | ok _ => rfl

end Through

section Chest

def Archetype.anySlot : Archetype := .frozen none Builder.slot.draft ⟨.slot, 1, []⟩ []

theorem Archetype.anySlot_made : anySlot.Made :=
  .frozen (.kind .slot .unset) (show Builder.slot.freeze none = .ok anySlot from rfl)

def Operation.chest : List Operation :=
  [.instantiate .anySlot Archetype.anySlot_made, .instantiate .anySlot Archetype.anySlot_made,
    .createContainer ⟨0, 0⟩ ⟨1, 0⟩]

def Operation.visit : List Operation :=
  chest ++ [.openContainer ⟨3, 0⟩ ⟨7⟩, .set ⟨0, 0⟩ (some (.single ⟨"minecraft:stone"⟩))]

def Operation.hollow : List Operation :=
  chest ++ [.set ⟨1, 0⟩ (some (.new ⟨"minecraft:apple"⟩ 3)),
    .revert (.ofChanges [⟨⟨0, 0⟩, some ⟨⟨"minecraft:apple"⟩, 0, []⟩, none⟩] none)]

def World.blank : World := ⟨.new default .live .absent, []⟩

def World.exposed : World :=
  ⟨.new { (default : Environment) with
    settings := { Settings.standard with isolateListenerPanics := false } } .live .absent, []⟩

def World.reached (ops : List Operation) : List World × World := Operation.through [] blank ops

theorem Run.reached (ops : List Operation) : Run (World.reached ops).1 (World.reached ops).2 :=
  (Run.start default .live .absent).through ops

theorem CalmRun.reached {ops : List Operation}
    (hcalm : Operation.calmThrough World.blank ops = true) :
    CalmRun (World.reached ops).1 (World.reached ops).2 :=
  (CalmRun.start default .live .absent).through hcalm

end Chest

end Stowage
