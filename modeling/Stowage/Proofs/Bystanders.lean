import Stowage.Proofs.Messages
import Stowage.Proofs.OneContainer

/-!
# Bystanders

A viewer comes to a container, or leaves it while others stay, and touches no one else: slots hold
what they held, the others know what they knew, and only the one who comes or leaves is sent
anything.
-/

namespace Stowage

set_option autoImplicit false

def World.sent (w : World) : List Message := w.trace.filterMap Emission.message?

/-- Slots hold what they held, and all but one viewer have open what they had and know of it what
they knew. -/
structure World.Spares (v : ViewerId) (w w' : World) : Prop where
  slot : ∀ x : SlotId, w'.state.forest.slot x = w.state.forest.slot x
  openContainer : ∀ u, u ≠ v → w'.state.openContainer u = w.state.openContainer u
  clientView : ∀ id u, u ≠ v → w'.state.clientView id u = w.state.clientView id u

namespace Container
variable {c d : Container} {u v : ViewerId}

theorem viewOf_congr (hc : c.Ordered) (hd : d.Ordered)
    (h : ∀ view, (u, view) ∈ d.viewers ↔ (u, view) ∈ c.viewers) : d.viewOf u = c.viewOf u := by
  ext view
  unfold viewOf
  rw [lookup_eq_some_iff_mem hd.nodup, lookup_eq_some_iff_mem hc.nodup, h]

theorem viewOf_detach (hc : c.Ordered) (hu : u ≠ v) : (c.detach v).viewOf u = c.viewOf u := by
  refine viewOf_congr hc (hc.detach v) fun view => ?_
  rw [mem_detach_iff, and_iff_left hu]

theorem viewOf_attach (hc : c.Ordered) (hv : v ∉ c.viewers.map Prod.fst) (view : ClientView)
    (hu : u ≠ v) : (c.attach v view).viewOf u = c.viewOf u := by
  refine viewOf_congr hc (hc.attach v view) fun other => ?_
  rw [mem_attach_iff hv, or_iff_left fun he => hu (congrArg Prod.fst he)]

end Container

namespace State
variable {s t : State} {u v : ViewerId}

theorem Sound.openContainer_congr (hs : s.Sound) (ht : t.Sound)
    (h : ∀ id, (u, id) ∈ t.sessions ↔ (u, id) ∈ s.sessions) :
    t.openContainer u = s.openContainer u := by
  ext id
  rw [ht.openContainer_iff, hs.openContainer_iff, h]

theorem clientView_modifyContainer {x : NodeId} {change : Container → Container}
    (hforest : t.forest = s.forest.modifyContainer x change)
    (h : ∀ c, s.forest.container? x = some c → (change c).viewOf u = c.viewOf u) (id : NodeId) :
    t.clientView id u = s.clientView id u := by
  unfold clientView
  rw [hforest, Forest.container?_modifyContainer]
  split
  · rename_i hid
    rw [hid]
    cases hc : s.forest.container? x with
    | none => rfl
    | some c => exact h c hc
  · rfl

end State

theorem Transport.eq_of_carry {t : Transport} {m n : Message} {e : Emission} (he : e ∈ t.carry m)
    (hn : e.message? = some n) : n = m := by
  cases t <;> cases m <;> simp_all [carry, Emission.message?]

namespace World
variable {w w' : World} {u v : ViewerId} {id : NodeId} {c : Container}

theorem Spares.refl (v : ViewerId) (w : World) : Spares v w w :=
  ⟨fun _ => rfl, fun _ _ => rfl, fun _ _ _ => rfl⟩

theorem Spares.of_state_eq {b : World} (h : Spares v w b) (hstate : w'.state = b.state) :
    Spares v w w' := by
  refine ⟨?_, ?_, ?_⟩
  · rw [hstate]
    exact h.slot
  · rw [hstate]
    exact h.openContainer
  · rw [hstate]
    exact h.clientView

theorem spares_leave (hw : w.state.Sound) (hc : w.state.forest.container? id = some c)
    (hv : v ∈ c.viewers.map Prod.fst) : Spares v w (w.leave v id) where
  slot := w.slot_leave v id
  openContainer := by
    intro u hu
    refine hw.openContainer_congr (hw.leave hc hv) fun x => ?_
    change (u, x) ∈ (w.state.leave v id).sessions ↔ _
    rw [State.mem_sessions_leave, and_iff_left hu]
  clientView := by
    intro x u hu
    refine State.clientView_modifyContainer rfl ?_ x
    intro d hd
    exact Container.viewOf_detach (hw.ordered hd) hu

theorem spares_enter (hw : w.state.Sound) (hc : w.state.forest.container? id = some c)
    (hv : w.state.openContainer v = none) : Spares v w (w.enter v id c) where
  slot := w.slot_enter v id c
  openContainer := by
    intro u hu
    have hentered := hw.enter hc hv (State.bindings_freshView w.state c)
    refine hw.openContainer_congr hentered fun x => ?_
    change (u, x) ∈ (w.state.enter v id _).sessions ↔ _
    rw [State.mem_sessions_enter, or_iff_left fun he => hu he.1]
  clientView := by
    intro x u hu
    refine State.clientView_modifyContainer rfl ?_ x
    intro d hd
    exact Container.viewOf_attach (hw.ordered hd) (hw.not_viewer_of_none hv hd) _ hu

theorem sent_give (w : World) (es : List Emission) :
    (w.give es).sent = w.sent ++ es.filterMap Emission.message? := List.filterMap_append

theorem sent_give_of_none {es : List Emission} (h : ∀ e ∈ es, e.message? = none) :
    (w.give es).sent = w.sent := by
  rw [sent_give, List.filterMap_eq_nil_iff.mpr h, List.append_nil]

theorem sent_quiet (h : Quiet w w') : w'.sent = w.sent := by
  obtain ⟨k, es, rfl, hof⟩ := h
  exact sent_give_of_none fun e he => (hof e he).message?

theorem sent_leave (w : World) (v : ViewerId) (id : NodeId) :
    (w.leave v id).sent = w.sent ++ if w.state.transport = .live then [.release v] else [] := by
  unfold sent leave
  rw [List.filterMap_append]
  cases w.state.transport <;> rfl

theorem sent_enter (w : World) (v : ViewerId) (id : NodeId) (c : Container) :
    ∃ ms, (w.enter v id c).sent = w.sent ++ ms ∧ ∀ m ∈ ms, m.viewer = v := by
  refine ⟨_, List.filterMap_append, ?_⟩
  intro m hm
  obtain ⟨e, he, hem⟩ := List.mem_filterMap.mp hm
  obtain ⟨n, hn, hcarried⟩ := List.mem_flatMap.mp he
  rw [Transport.eq_of_carry hcarried hem]
  exact viewer_greeting n hn

end World

namespace Step
variable {w : World} {v : ViewerId} {id : NodeId} {c : Container}

/-- While someone stays, nothing follows upon leaving but calls of listeners and the log. -/
theorem inert_afterLeaving (hstays : (c.detach v).viewers ≠ []) :
    Inert (fun e => e.message? = none) (afterLeaving v id c) := by
  have hidle : (c.detach v).viewers.isEmpty = false := by simpa using hstays
  apply Inert.bind ((inert_log _ .view).mono fun _ h => h.message?)
  intro _
  apply Inert.bind ((inert_notify _).mono fun _ h => h.message?)
  intro _
  apply Inert.state_bind
  intro s
  apply Inert.bind ((inert_notify _).mono fun _ h => h.message?)
  intro _
  simp only [hidle, Bool.false_and, Bool.false_eq_true, if_false]
  exact Inert.of_pure _

theorem close_among (hw : w.state.Sound) {u : ViewerId} (hu : u ≠ v)
    (hc : w.state.forest.container? id = some c) (hvc : v ∈ c.viewers.map Prod.fst)
    (huc : u ∈ c.viewers.map Prod.fst) : ∃ es, (close v w).2 = (w.leave v id).give es ∧
      ∀ e ∈ es, e.message? = none := by
  have hstays : (c.detach v).viewers ≠ [] := by
    intro hempty
    have hmem := Container.mem_viewers_detach_iff.mpr ⟨huc, hu⟩
    rw [hempty] at hmem
    cases hmem
  rw [close_of_some (hw.openContainer_eq_some_iff.mpr ⟨c, hc, hvc⟩) hc]
  exact (Inert.bind (inert_afterLeaving hstays) fun _ => Inert.of_pure _) _

/-- A viewer who has nothing open only enters, or is refused. -/
theorem openContainer_of_none (id : NodeId) (ho : w.state.openContainer v = none) :
    (openContainer id v w).2 = w ∨ ∃ c, w.state.forest.container? id = some c ∧
      World.Quiet (w.enter v id c) (openContainer id v w).2 := by
  unfold openContainer
  rw [state_bind]
  cases hc : w.state.containerAt id with
  | error r => exact Or.inl rfl
  | ok c =>
    refine Or.inr ⟨c, containerAt_eq_ok_iff.mp hc, ?_⟩
    have hother : w.state.openContainer v ≠ some id := by
      rw [ho]
      exact nofun
    dsimp only
    rw [if_neg hother, bind_of_ok (close_of_none ho), state_bind, hc]
    exact quiet_attach v id c w _

end Step

section Run
variable {past : List World} {w : World}

/-- In every state that is reached, a viewer who closes a container that another one has open, and a
viewer who opens one with nothing else open, touch no one else. All that is sent is the release of
the one, and messages to the other. -/
theorem viewers_are_independent (h : Run past w) :
    (∀ id v u, u ≠ v → v ∈ w.state.viewers id → u ∈ w.state.viewers id →
      w.Spares v (Step.close v w).2 ∧
      (Step.close v w).2.sent =
        w.sent ++ if w.state.transport = .live then [.release v] else []) ∧
    ∀ id v, w.state.openContainer v = none →
      w.Spares v (Step.openContainer id v w).2 ∧
      ∃ ms, (Step.openContainer id v w).2.sent = w.sent ++ ms ∧ ∀ m ∈ ms, m.viewer = v := by
  have hw := h.sound
  constructor
  · intro id v u hu hvid huid
    rw [hw.mem_viewers_iff, hw.openContainer_eq_some_iff] at hvid huid
    obtain ⟨c, hc, hvc⟩ := hvid
    obtain ⟨d, hd, huc⟩ := huid
    rw [hc] at hd
    cases hd
    obtain ⟨es, hclosed, hnone⟩ := Step.close_among hw hu hc hvc huc
    rw [hclosed, World.sent_give_of_none hnone, World.sent_leave]
    exact ⟨(World.spares_leave hw hc hvc).of_state_eq rfl, rfl⟩
  · intro id v hv
    rcases Step.openContainer_of_none id hv with hrefused | ⟨c, hc, hquiet⟩
    · rw [hrefused]
      exact ⟨.refl v w, [], (List.append_nil _).symm, nofun⟩
    · rw [World.sent_quiet hquiet]
      exact ⟨(World.spares_enter hw hc hv).of_state_eq hquiet.state_eq, w.sent_enter v id c⟩

def Operation.joinedVisit : List Operation := visit ++ [.openContainer ⟨3, 0⟩ ⟨8⟩]

theorem viewers_are_independent_two :
    ⟨7⟩ ∈ (World.reached Operation.joinedVisit).2.state.viewers ⟨3, 0⟩ ∧
    ⟨8⟩ ∈ (World.reached Operation.joinedVisit).2.state.viewers ⟨3, 0⟩ ∧
    (Step.close ⟨8⟩ (World.reached Operation.joinedVisit).2).2.state.clientView ⟨3, 0⟩ ⟨7⟩ =
      (World.reached Operation.joinedVisit).2.state.clientView ⟨3, 0⟩ ⟨7⟩ ∧
    (World.reached Operation.joinedVisit).2.state.openContainer ⟨9⟩ = none ∧
    (Step.openContainer ⟨3, 0⟩ ⟨9⟩ (World.reached Operation.joinedVisit).2).2.state.openContainer
      ⟨8⟩ = some ⟨3, 0⟩ := by
  obtain ⟨hclose, hopen⟩ := viewers_are_independent (Run.reached Operation.joinedVisit)
  have hseven : ⟨7⟩ ∈ (World.reached Operation.joinedVisit).2.state.viewers ⟨3, 0⟩ := by
    decide +kernel
  have height : ⟨8⟩ ∈ (World.reached Operation.joinedVisit).2.state.viewers ⟨3, 0⟩ := by
    decide +kernel
  have hnine : (World.reached Operation.joinedVisit).2.state.openContainer ⟨9⟩ = none := by
    decide +kernel
  refine ⟨hseven, height, ?_, hnine, ?_⟩
  · exact (hclose ⟨3, 0⟩ ⟨8⟩ ⟨7⟩ (by decide) height hseven).1.clientView _ _ (by decide)
  · rw [(hopen ⟨3, 0⟩ ⟨9⟩ hnine).1.openContainer ⟨8⟩ (by decide)]
    decide +kernel

end Run

end Stowage
