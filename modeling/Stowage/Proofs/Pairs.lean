import Stowage.Container.ShiftClick
import Stowage.Lifecycle
import Stowage.Proofs.Dispatches
import Stowage.Proofs.Events

/-!
# Steps that do not hear what listeners do

Two steps are paired if they are put together in the same way from the same parts and only register
listeners with other callbacks. While panics are isolated, paired steps lead twin worlds to twin
worlds and answer the same; twins differ in callbacks and in what becomes of failure reports.
-/

namespace Stowage

set_option autoImplicit false

open Relation

def Listener.place (l : Listener) : ListenerId × NodeId × EventKind := (l.id, l.node, l.hears)

structure Listeners.Twin (a b : Listeners) : Prop where
  issued : b.issued = a.issued
  places : b.registered.map Listener.place = a.registered.map Listener.place

/-- The same in all but callbacks and the outlet of failure reports. -/
structure State.Twin (s t : State) : Prop where
  env : t.env = s.env
  forest : t.forest = s.forest
  containers : t.containers = s.containers
  sessions : t.sessions = s.sessions
  listeners : s.listeners.Twin t.listeners
  transport : t.transport = s.transport

structure World.Twin (w v : World) : Prop where
  state : w.state.Twin v.state
  events : events v.trace = events w.trace

namespace Listeners
variable {a b : Listeners}

theorem Twin.refl (a : Listeners) : a.Twin a := ⟨rfl, rfl⟩

theorem Twin.nextId (h : a.Twin b) : b.nextId = a.nextId := by
  unfold Listeners.nextId
  rw [h.issued]

theorem Twin.filter (h : a.Twin b) (q : ListenerId × NodeId × EventKind → Bool) :
    (b.registered.filter fun r => q r.place).map Listener.place =
      (a.registered.filter fun r => q r.place).map Listener.place := by
  have hfilter : ∀ l : List Listener,
      (l.filter fun r => q r.place).map Listener.place = (l.map Listener.place).filter q :=
    fun l => List.filter_map.symm
  rw [hfilter, hfilter, h.places]

theorem Twin.unregister (h : a.Twin b) (id : ListenerId) :
    (a.unregister id).Twin (b.unregister id) := ⟨h.issued, h.filter fun p => p.1 ≠ id⟩

theorem Twin.forget (h : a.Twin b) (node : NodeId) : (a.forget node).Twin (b.forget node) :=
  ⟨h.issued, h.filter fun p => p.2.1 ≠ node⟩

theorem Twin.forgetAll (h : a.Twin b) (nodes : List NodeId) :
    (nodes.foldl Listeners.forget a).Twin (nodes.foldl Listeners.forget b) := by
  induction nodes generalizing a b with
  | nil => exact h
  | cons node rest ih => exact ih (h.forget node)

theorem Twin.register (h : a.Twin b) (node : NodeId) (hears : EventKind)
    (react react' : List Emission → Event → Reaction) :
    (a.register node hears react).Twin (b.register node hears react') where
  issued := congrArg (· + 1) h.issued
  places := by
    simp only [Listeners.register, List.map_append, List.map_singleton, Listener.place, h.nextId]
    exact congrArg (· ++ [(a.nextId, node, hears)]) h.places

theorem Twin.hearing (h : a.Twin b) (e : Event) :
    (b.hearing e).map Listener.place = (a.hearing e).map Listener.place :=
  h.filter fun p => p.2.2 = e.kind ∧ p.2.1 = e.node

theorem Twin.isRegistered (h : a.Twin b) (id : ListenerId) :
    b.isRegistered id = a.isRegistered id := by
  have hany : ∀ l : List Listener,
      (l.any fun r => r.id = id) = (l.map Listener.place).any fun p => p.1 = id := by
    intro l
    rw [List.any_map]
    rfl
  unfold Listeners.isRegistered
  rw [hany, hany, h.places]

end Listeners

theorem State.Twin.refl (s : State) : s.Twin s := ⟨rfl, rfl, rfl, rfl, .refl _, rfl⟩

def CustomTargets.Deaf (custom : CustomTargets) : Prop :=
  ∀ {s t : State}, s.Twin t → ∀ name, custom name t = custom name s

theorem State.Twin.eq {s t : State} (h : s.Twin t) :
    t = { s with listeners := t.listeners, diagnostics := t.diagnostics } := by
  obtain ⟨henv, hforest, hcontainers, hsessions, _, htransport⟩ := h
  cases t
  simp_all

/-- What is read from the state is the same in twins if it is no callback and no outlet. -/
theorem State.Twin.read {α : Type} {f : State → α} {s t : State} (h : s.Twin t)
    (hread : ∀ s l o, f { s with listeners := l, diagnostics := o } = f s) : f t = f s := by
  rw [h.eq]
  exact hread s t.listeners t.diagnostics

theorem State.Twin.containerAt {s t : State} (h : s.Twin t) (id : NodeId) :
    t.containerAt id = s.containerAt id :=
  h.read (f := fun s => s.containerAt id) fun _ _ _ => rfl

theorem State.Twin.dropNodes {s t : State} (h : s.Twin t) (nodes : List NodeId) :
    (s.dropNodes nodes).Twin (t.dropNodes nodes) where
  env := h.env
  forest := by
    unfold State.dropNodes
    rw [h.forest]
  containers := h.containers
  sessions := h.sessions
  listeners := h.listeners.forgetAll nodes
  transport := h.transport

theorem State.planPollFrom_unheard (s : State) (l : Listeners) (o : DiagnosticsOutlet)
    (order : List SlotId) (taken : Option Stack) (budget : Option Nat) :
    ({ s with listeners := l, diagnostics := o } : State).planPollFrom order taken budget =
      s.planPollFrom order taken budget := by
  induction order generalizing taken budget with
  | nil => rfl
  | cons id rest ih =>
    unfold planPollFrom
    simp only [ih]
    rfl

theorem State.Twin.planPoll {s t : State} (h : s.Twin t) : t.planPoll = s.planPoll := by
  refine h.read fun s l o => ?_
  funext order limit
  unfold State.planPoll
  rw [s.planPollFrom_unheard]

theorem State.Twin.target {custom : CustomTargets} (hcustom : custom.Deaf) {s t : State}
    (h : s.Twin t) (container : NodeId) (slot : SlotId) (behavior : ShiftClick) :
    t.target custom container slot behavior = s.target custom container slot behavior := by
  cases behavior with
  | standard => exact h.read (f := fun s => s.standardTarget container slot) fun _ _ _ => rfl
  | player main equipment =>
    exact h.read (f := fun s => s.playerTarget main equipment container slot) fun _ _ _ => rfl
  | custom name => exact congrFun (congrFun (hcustom h name) container) slot

namespace Step

variable {α β : Type}

structure Fair (f g : State → State) : Prop where
  twin : ∀ {s t : State}, s.Twin t → (f s).Twin (g t)
  listeners : ∀ s : State, s.listeners.Turn (f s).listeners
  diagnostics : ∀ s : State, (f s).diagnostics = s.diagnostics
  env : ∀ s : State, (f s).env = s.env

inductive Paired : {α : Type} → Step α → Step α → Prop where
  | pure {α : Type} (a : α) : Paired (pure a) (pure a)
  | bind {α β : Type} {m n : Step α} {f g : α → Step β} (hm : Paired m n)
      (hf : ∀ a, Paired (f a) (g a)) : Paired (m >>= f) (n >>= g)
  | state_bind {α : Type} {f g : State → Step α} (h : ∀ s t, s.Twin t → Paired (f s) (g t)) :
      Paired (state >>= f) (state >>= g)
  | update {f g : State → State} (h : Fair f g) : Paired (update f) (update g)
  | say {es : List Emission} (hcalls : heard es = []) (hreports : reports es = []) :
      Paired (emit es) (emit es)
  | notify (e : Event) : Paired (notify e) (notify e)

abbrev Deaf (m : Step α) : Prop := Paired m m

section Paired
variable {m n : Step α}

theorem events_dispatched (w : World) (e : Event) : events (w.dispatched e) =
    calls (((w.state.listeners.hearing e).map Listener.place).map fun p => (p.1, e)) := by
  have hof : ∀ x ∈ w.dispatched e, x.Of e.kind := by
    intro x hx
    obtain ⟨p, _, hx⟩ := List.mem_flatMap.mp hx
    rcases List.mem_cons.mp hx with rfl | hx
    · rfl
    · unfold DiagnosticsOutlet.account at hx
      split at hx
      · cases hx
      · rcases List.mem_cons.mp hx with rfl | hx
        · trivial
        · exact DiagnosticsOutlet.carry_of _ _ _ _ hx
  rw [events_of hof, World.heard_dispatched, List.map_map]
  rfl

/-- Paired steps that start in twin worlds end in twin worlds, with the same answer. -/
theorem Paired.twin (h : Paired m n) {w v : World} (hwv : w.Twin v)
    (hw : w.state.env.settings.isolateListenerPanics = true) :
    ∃ a w' v', m w = (.ok a, w') ∧ n v = (.ok a, v') ∧ w'.Twin v' ∧
      w'.state.env = w.state.env := by
  induction h generalizing w v with
  | pure a => exact ⟨a, w, v, rfl, rfl, hwv, rfl⟩
  | bind _ _ ihm ihf =>
    obtain ⟨a, w₁, v₁, hm, hn, hwv₁, henv⟩ := ihm hwv hw
    obtain ⟨b, w₂, v₂, hf, hg, hwv₂, henv₂⟩ := ihf a hwv₁ (by rw [henv]; exact hw)
    refine ⟨b, w₂, v₂, ?_, ?_, hwv₂, henv₂.trans henv⟩
    · rw [bind_of_ok hm, hf]
    · rw [bind_of_ok hn, hg]
  | state_bind _ ih => exact ih w.state v.state hwv.state hwv hw
  | update hfg => exact ⟨(), _, _, rfl, rfl, ⟨hfg.twin hwv.state, hwv.events⟩, hfg.env _⟩
  | @say es _ _ =>
    refine ⟨(), w.give es, v.give es, rfl, rfl, ⟨hwv.state, ?_⟩, rfl⟩
    exact (events_append _ _).trans ((congrArg (· ++ events es) hwv.events).trans
      (events_append _ _).symm)
  | notify e =>
    have hv : v.state.env.settings.isolateListenerPanics = true := by rw [hwv.state.env, hw]
    refine ⟨(), _, _, notify_eq hw e, notify_eq hv e, ⟨hwv.state, ?_⟩, rfl⟩
    change events (v.trace ++ _) = events (w.trace ++ _)
    rw [events_append, events_append, hwv.events, events_dispatched, events_dispatched,
      hwv.state.listeners.hearing]

theorem Paired.beats (h : Paired m n) {w w' : World} {a : α}
    (hw : w.state.env.settings.isolateListenerPanics = true) (hm : m w = (.ok a, w')) :
    Beats w w' := by
  induction h generalizing w w' with
  | pure a =>
    cases hm
    exact .refl
  | bind _ _ ihm ihf =>
    obtain ⟨b, u, hu, hf⟩ := bind_eq_ok hm
    have hfirst := ihm hw hu
    exact hfirst.trans (ihf b (by rw [hfirst.env]; exact hw) hf)
  | state_bind _ ih => exact ih w.state w.state (.refl _) hw hm
  | update hfg =>
    cases hm
    exact .single (.change _ (hfg.listeners _) (hfg.diagnostics _) (hfg.env _))
  | say hcalls hreports =>
    cases hm
    exact .single (.say _ hcalls hreports)
  | notify e =>
    rw [notify_eq hw] at hm
    cases hm
    exact .single (.tell e)

end Paired

section Closure

theorem Paired.read {f : State → Step α}
    (hread : ∀ s l o, f { s with listeners := l, diagnostics := o } = f s)
    (h : ∀ s, Deaf (f s)) : Deaf (state >>= f) := by
  apply Paired.state_bind
  intro s t hst
  rw [hst.read hread]
  exact h s

theorem Fair.of_plain {f : State → State}
    (hplain : ∀ s l o, f { s with listeners := l, diagnostics := o } =
      { f s with listeners := l, diagnostics := o })
    (henv : ∀ s, (f s).env = s.env) : Fair f f := by
  have hself : ∀ s : State, f s =
      { f s with listeners := s.listeners, diagnostics := s.diagnostics } :=
    fun s => hplain s s.listeners s.diagnostics
  have hlisteners : ∀ s : State, (f s).listeners = s.listeners := fun s => by rw [hself s]
  refine ⟨?_, ?_, ?_, henv⟩
  · intro s t hst
    have hft := hplain s t.listeners t.diagnostics
    rw [← hst.eq] at hft
    rw [hft]
    refine ⟨rfl, rfl, rfl, rfl, ?_, rfl⟩
    rw [hlisteners]
    exact hst.listeners
  · intro s
    rw [hlisteners]
    exact .thin (.refl _)
  · exact fun s => by rw [hself s]

theorem deaf_updateForest (change : Forest → Forest) : Deaf (updateForest change) :=
  .update (.of_plain (fun _ _ _ => rfl) fun _ => rfl)

theorem deaf_log (r : LogRecord) : Deaf (log r) := .say rfl rfl

theorem deaf_send (m : Message) : Deaf (send m) := by
  refine .read (fun _ _ _ => rfl) fun s => .say ?_ ?_
  · cases s.transport <;> cases m <;> rfl
  · cases s.transport <;> cases m <;> rfl

theorem deaf_setTransport (t : Transport) : Deaf (setTransport t) :=
  .update (.of_plain (fun _ _ _ => rfl) fun _ => rfl)

theorem deaf_each {act : α → Step Unit} (h : ∀ a, Deaf (act a)) (l : List α) :
    Deaf (each act l) := by
  induction l with
  | nil => exact .pure ()
  | cons a rest ih => exact .bind (h a) fun _ => ih

theorem deaf_notifySlotChange (slot : SlotId) (before after : Option Stack) :
    Deaf (notifySlotChange slot before after) :=
  .read (fun _ _ _ => rfl) fun _ => deaf_each (fun _ => .notify _) _

end Closure

section Contents

theorem deaf_tellViewer (id : NodeId) (wire : Int) (slot : SlotId) (contents : Option Stack)
    (v : ViewerId) (view : ClientView) : Deaf (tellViewer id wire slot contents v view) := by
  unfold tellViewer
  split
  · exact .pure ()
  · exact .bind (deaf_updateForest _) fun _ => .bind (deaf_log _) fun _ => deaf_send _

theorem deaf_tellViewersOf (slot : SlotId) (contents : Option Stack) (id : NodeId) :
    Deaf (tellViewersOf slot contents id) := by
  refine .read (fun _ _ _ => rfl) fun s => ?_
  split
  · exact .pure ()
  · split
    · exact .pure ()
    · exact deaf_each (fun _ => deaf_tellViewer _ _ _ _ _ _) _

theorem deaf_tellViewers (slot : SlotId) : Deaf (tellViewers slot) :=
  .read (fun _ _ _ => rfl) fun _ => deaf_each (fun _ => deaf_tellViewersOf _ _ _) _

theorem deaf_replaceContents (slot : SlotId) (before after : Option Stack) :
    Deaf (replaceContents slot before after) :=
  .bind (deaf_updateForest _) fun _ => .bind (deaf_notifySlotChange _ _ _) fun _ =>
    .bind (deaf_tellViewers slot) fun _ => .pure _

theorem deaf_commit (slot : SlotId) (after : Option Stack) : Deaf (commit slot after) := by
  refine .read (fun _ _ _ => rfl) fun s => ?_
  split
  · exact .pure none
  · split
    · exact .pure none
    · exact .bind (deaf_replaceContents _ _ _) fun _ => .pure _

theorem deaf_commitAll (changes : List (SlotId × Option Stack)) : Deaf (commitAll changes) := by
  induction changes with
  | nil => exact .pure []
  | cons change rest ih => exact .bind (deaf_commit _ _) fun _ => .bind ih fun _ => .pure _

theorem deaf_unlessStale {operation : String} {node : NodeId} {refused : α} {act : Step α}
    (h : Deaf act) : Deaf (unlessStale operation node refused act) := by
  refine .read (fun _ _ _ => rfl) fun s => ?_
  split
  · exact h
  · exact .bind (deaf_log _) fun _ => .pure refused

theorem deaf_offerIn (order : List SlotId) (stack : Stack) : Deaf (offerIn order stack) :=
  .read (fun _ _ _ => rfl) fun _ => .bind (deaf_commitAll _) fun _ => .pure _

theorem deaf_pollIn (order : List SlotId) (limit : Option Nat) : Deaf (pollIn order limit) := by
  apply Paired.state_bind
  intro s t hst
  rw [hst.planPoll]
  split
  · exact .pure _
  · exact .bind (deaf_commitAll _) fun _ => .pure _

theorem deaf_poll (node : NodeId) (limit : Option Nat) : Deaf (poll node limit) :=
  deaf_unlessStale (.read (fun _ _ _ => rfl) fun _ => deaf_pollIn _ _)

theorem deaf_offerTo (node : NodeId) (stack : Stack) : Deaf (offerTo node stack) :=
  deaf_unlessStale (.read (fun _ _ _ => rfl) fun _ => deaf_offerIn _ _)

theorem deaf_offer (node : NodeId) (stack : Stack) : Deaf (offer node stack) :=
  .bind (deaf_offerTo node stack) fun _ => .pure _

theorem deaf_set (slot : SlotId) (stack : Option Stack) : Deaf (set slot stack) := by
  refine deaf_unlessStale (.read (fun _ _ _ => rfl) fun s => ?_)
  split
  · exact .pure _
  · exact .bind (deaf_commitAll _) fun _ => .pure _

theorem deaf_setIn (order : List SlotId) (index : Nat) (stack : Option Stack) :
    Deaf (setIn order index stack) := by
  unfold setIn
  split
  · exact .pure _
  · exact deaf_set _ _

theorem deaf_setAt (node : NodeId) (index : Nat) (stack : Option Stack) :
    Deaf (setAt node index stack) :=
  .read (fun _ _ _ => rfl) fun _ => deaf_setIn _ _ _

theorem deaf_clear (node : NodeId) : Deaf (clear node) :=
  .read (fun _ _ _ => rfl) fun _ => .bind (deaf_commitAll _) fun _ => .pure _

theorem deaf_revert (t : Transaction) : Deaf (revert t) :=
  .bind (deaf_commitAll _) fun _ => .pure _

theorem deaf_shiftClick {custom : CustomTargets} (hcustom : custom.Deaf) (container : NodeId)
    (slot : SlotId) : Deaf (shiftClick custom container slot) := by
  apply Paired.state_bind
  intro s t hst
  have hmovable : t.movable = s.movable := hst.read fun _ _ _ => rfl
  have hbehavior : t.behaviorOf = s.behaviorOf := hst.read fun _ _ _ => rfl
  have hplan : t.planOffer = s.planOffer := hst.read fun _ _ _ => rfl
  rw [hst.containerAt, hmovable, hbehavior, hplan]
  simp only [hst.target hcustom]
  split
  · exact .pure _
  · split
    · exact .pure _
    · split
      · exact .pure _
      · exact .bind (deaf_commitAll _) fun _ => .pure _

end Contents

section Sessions

theorem deaf_createContainer (top bottom : NodeId) : Deaf (createContainer top bottom) := by
  refine .read (fun _ _ _ => rfl) fun s => ?_
  split
  · exact .pure _
  · exact .bind (.update (.of_plain (fun _ _ _ => rfl) fun _ => rfl)) fun _ =>
      .bind (deaf_log _) fun _ => .pure _

theorem deaf_returnCursor (c : Container) : Deaf (returnCursor c) := by
  refine .read (fun _ _ _ => rfl) fun s => ?_
  split
  · exact .pure none
  · split
    · exact .bind (deaf_commit _ _) fun _ => .bind (deaf_offerTo _ _) fun _ => .pure _
    · exact .pure _

theorem deaf_dropContainer (id : NodeId) (cursor : SlotId) : Deaf (dropContainer id cursor) := by
  refine .update ⟨?_, ?_, fun _ => rfl, fun _ => rfl⟩
  · rintro s t ⟨henv, hforest, hcontainers, hsessions, hlisteners, htransport⟩
    simp only [henv, hforest, hcontainers, hsessions, htransport]
    exact ⟨rfl, rfl, rfl, rfl, (hlisteners.forget cursor).forget id, rfl⟩
  · intro s
    exact .thin ((Listeners.thinned_forget _ _).trans (Listeners.thinned_forget _ _))

theorem deaf_discard (id : NodeId) : Deaf (discard id) := by
  refine .read (fun _ _ _ => rfl) fun s => ?_
  split
  · exact .pure none
  · exact .bind (deaf_returnCursor _) fun _ => .bind (deaf_dropContainer _ _) fun _ =>
      .bind (deaf_log _) fun _ => .pure _

theorem deaf_leave (v : ViewerId) (id : NodeId) (c : Container) : Deaf (leave v id c) := by
  refine .bind (deaf_updateForest _) fun _ => .bind (deaf_send _) fun _ =>
    .bind (deaf_log _) fun _ => .bind (.notify _) fun _ =>
    .read (fun _ _ _ => rfl) fun s => .bind (.notify _) fun _ => ?_
  dsimp only
  split
  · exact .bind (deaf_discard id) fun _ => .pure _
  · exact .bind (.pure none) fun _ => .pure _

theorem deaf_close (v : ViewerId) : Deaf (close v) := by
  refine .read (fun _ _ _ => rfl) fun s => ?_
  split
  · exact .pure none
  · refine .bind (.update (.of_plain (fun _ _ _ => rfl) fun _ => rfl)) fun _ =>
      .read (fun _ _ _ => rfl) fun t => ?_
    split
    · exact .pure none
    · exact .bind (deaf_leave _ _ _) fun _ => .pure _

theorem deaf_attach (v : ViewerId) (id : NodeId) (c : Container) : Deaf (attach v id c) :=
  .read (fun _ _ _ => rfl) fun _ => .bind (deaf_each (fun _ => deaf_send _) _) fun _ =>
    .bind (deaf_send _) fun _ => .bind (.update (.of_plain (fun _ _ _ => rfl) fun _ => rfl))
      fun _ => .bind (deaf_log _) fun _ => .notify _

theorem deaf_openContainer (id : NodeId) (v : ViewerId) : Deaf (openContainer id v) := by
  refine .read (fun _ _ _ => rfl) fun s => ?_
  split
  · exact .pure _
  · split
    · exact .pure _
    · refine .bind (deaf_close v) fun _ => .read (fun _ _ _ => rfl) fun t => ?_
      split
      · exact .pure _
      · exact .bind (deaf_attach v id _) fun _ => .pure _

end Sessions

section Lifecycle

theorem deaf_instantiate (a : Archetype) : Deaf (instantiate a) :=
  .read (fun _ _ _ => rfl) fun _ => .bind (deaf_updateForest _) fun _ => .bind (deaf_log _) fun _ =>
    .pure _

theorem deaf_instantiateId (r : Registry) (id : ArchetypeId) : Deaf (instantiateId r id) := by
  unfold instantiateId
  split
  · exact .pure _
  · exact .bind (deaf_instantiate _) fun _ => .pure _

theorem deaf_compose (children : List (NodeId × Int)) : Deaf (composePrioritized children) := by
  refine .read (fun _ _ _ => rfl) fun s => ?_
  split
  · exact .pure _
  · exact .bind (deaf_updateForest _) fun _ => .bind (deaf_log _) fun _ => .pure _

theorem deaf_removeTree (node : NodeId) : Deaf (removeTree node) := by
  refine .read (fun _ _ _ => rfl) fun s => ?_
  dsimp only
  split
  · exact .pure _
  · exact .bind (.update ⟨fun h => h.dropNodes _, fun _ => .thin (Listeners.thinned_forgetAll _ _),
      fun _ => rfl, fun _ => rfl⟩) fun _ => .bind (deaf_log _) fun _ => .pure _

theorem deaf_removeContainer (id : NodeId) (c : Container) : Deaf (removeContainer id c) := by
  unfold removeContainer
  split
  · exact .bind (deaf_discard id) fun _ => .pure _
  · exact .pure _

theorem deaf_remove (node : NodeId) : Deaf (remove node) := by
  refine .read (fun _ _ _ => rfl) fun s => ?_
  split
  · exact .pure _
  · split
    · exact .pure _
    · split
      · exact deaf_removeContainer node _
      · exact deaf_removeTree node

theorem paired_listen (node : NodeId) (hears : EventKind)
    (react react' : List Emission → Event → Reaction) :
    Paired (listen node hears react) (listen node hears react') := by
  apply Paired.state_bind
  intro s t hst
  rw [hst.listeners.nextId]
  refine .bind (.update ⟨?_, ?_, fun _ => rfl, fun _ => rfl⟩) fun _ => .pure _
  · rintro s t ⟨henv, hforest, hcontainers, hsessions, hlisteners, htransport⟩
    exact ⟨henv, hforest, hcontainers, hsessions, hlisteners.register _ _ _ _, htransport⟩
  · exact fun s => .register _ _ _

theorem paired_onSlotChange (node : NodeId)
    (react react' : List Emission → SlotChange → Reaction) :
    Paired (onSlotChange node react) (onSlotChange node react') := by
  apply Paired.state_bind
  intro s t hst
  rw [hst.forest]
  split
  · exact .bind (paired_listen _ _ _ _) fun _ => .pure _
  · exact .pure _

theorem paired_onView (container : NodeId) (react react' : List Emission → ViewEvent → Reaction) :
    Paired (onView container react) (onView container react') := by
  apply Paired.state_bind
  intro s t hst
  rw [hst.containerAt]
  split
  · exact .pure _
  · exact .bind (paired_listen _ _ _ _) fun _ => .pure _

theorem paired_onClose (container : NodeId)
    (react react' : List Emission → CloseEvent → Reaction) :
    Paired (onClose container react) (onClose container react') := by
  apply Paired.state_bind
  intro s t hst
  rw [hst.containerAt]
  split
  · exact .pure _
  · exact .bind (paired_listen _ _ _ _) fun _ => .pure _

theorem deaf_removeListener (id : ListenerId) : Deaf (removeListener id) := by
  apply Paired.state_bind
  intro s t hst
  rw [hst.listeners.isRegistered]
  refine .bind (.update ⟨?_, ?_, fun _ => rfl, fun _ => rfl⟩) fun _ => .pure _
  · rintro s t ⟨henv, hforest, hcontainers, hsessions, hlisteners, htransport⟩
    exact ⟨henv, hforest, hcontainers, hsessions, hlisteners.unregister id, htransport⟩
  · exact fun s => .thin (Listeners.thinned_unregister _ _)

end Lifecycle

end Step

end Stowage
