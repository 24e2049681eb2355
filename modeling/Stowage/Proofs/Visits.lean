import Stowage.Proofs.Forest.Titles
import Stowage.Proofs.Messages

/-!
# Visits

To one viewer the messages tell of one visit after another: the slots are bound, the full state is
sent, changes of bound slots follow, and a release ends the visit. The last visit may still go on.
-/

namespace Stowage

set_option autoImplicit false

/-- What a viewer is told of its stay with one container. -/
structure Visit where
  container : NodeId
  bindings : List (Int × SlotId)
  snapshot : Snapshot
  changes : List (Int × Option Stack)

namespace Visit

def opening (v : ViewerId) (x : Visit) : List Message :=
  (x.bindings.map fun b => .bind v b.1 b.2) ++ [.fullState v x.snapshot]

def body (v : ViewerId) (x : Visit) : List Message :=
  x.opening v ++ x.changes.map fun d => .delta v d.1 d.2

def messages (v : ViewerId) (x : Visit) : List Message := x.body v ++ [.release v]

/-- The visit followed the visits `before`. In the world of the run in which it had just begun, the
container was bound slot by slot in wire order and looked as the full state says; and all changes
are changes of bound slots. -/
def Happened (run : List World) (v : ViewerId) (before : List Visit) (x : Visit) : Prop :=
  (x.bindings.map Prod.fst).Pairwise (· < ·) ∧
  (∀ d ∈ x.changes, d.1 ∈ x.bindings.map Prod.fst) ∧
  ∃ u ∈ run, messagesTo v u.trace = before.flatMap (messages v) ++ x.opening v ∧
    u.state.openContainer v = some x.container ∧
    u.state.snapshot x.container = some x.snapshot ∧
    ∃ c, u.state.forest.container? x.container = some c ∧
      x.bindings = (cursorWire, c.cursor) :: c.slots.zipIdx.map fun p => (Int.ofNat p.2, p.1)

theorem Happened.mono {run : List World} {v : ViewerId} {before : List Visit} {x : Visit}
    (h : x.Happened run v before) (w : World) : x.Happened (w :: run) v before := by
  obtain ⟨hwires, hchanges, u, hu, hrest⟩ := h
  exact ⟨hwires, hchanges, u, List.mem_cons_of_mem _ hu, hrest⟩

def begun (s : State) (id : NodeId) (c : Container) : Visit :=
  ⟨id, c.bindings, s.snapshotOfView c (s.freshView c), []⟩

theorem greeting_eq_opening (v : ViewerId) (s : State) (id : NodeId) (c : Container) :
    World.greeting v (s.freshView c) (s.snapshotOfView c (s.freshView c)) =
      (begun s id c).opening v := by
  change _ = (c.bindings.map fun b => Message.bind v b.1 b.2) ++ [.fullState v _]
  unfold World.greeting
  rw [← State.bindings_freshView s c, ClientView.bindings, List.map_map]
  rfl

end Visit

section Snapshot
variable {w : World} {v : ViewerId} {id : NodeId} {c : Container}

theorem slots_snapshotOfView (s : State) (c : Container) :
    (s.snapshotOfView c (s.freshView c)).slots =
      c.slots.zipIdx.map fun (slot, i) => ⟨i, s.contents slot⟩ := by
  have hrest : ((c.slots.zipIdx.map fun (slot, i) => (⟨i, slot, s.contents slot⟩ : ViewRow)).filter
      fun r => r.wire ≠ cursorWire) =
      c.slots.zipIdx.map fun (slot, i) => (⟨i, slot, s.contents slot⟩ : ViewRow) := by
    rw [List.filter_eq_self]
    intro r hr
    obtain ⟨p, _, rfl⟩ := List.mem_map.mp hr
    apply decide_eq_true
    change (p.2 : Int) ≠ -1
    omega
  unfold State.snapshotOfView State.freshView
  dsimp only
  rw [List.filter_cons_of_neg (by simp), hrest, List.map_map]
  rfl

theorem cursor_snapshotOfView (s : State) (c : Container) :
    (s.snapshotOfView c (s.freshView c)).cursor = s.contents c.cursor := by
  simp [State.snapshotOfView, State.freshView, ClientView.slot, ClientView.lastKnown]

/-- The full state that a viewer is sent and the snapshot of the container are two ways to read the
same slots. -/
theorem snapshot_enter (hc : w.state.forest.container? id = some c) :
    (w.enter v id c).state.snapshot id =
      some (w.state.snapshotOfView c (w.state.freshView c)) := by
  have halike := w.state.forest.alike_modifyContainer id
    (fun d => d.attach v (w.state.freshView c)) fun _ => rfl
  have hcontents := w.contents_enter v id c
  unfold State.snapshot
  rw [World.container?_enter hc, Option.map_some]
  apply congrArg
  have hslots := slots_snapshotOfView w.state c
  have hcursor := cursor_snapshotOfView w.state c
  rw [Snapshot.mk.injEq]
  refine ⟨halike.title c.top, halike.archetype c.top, ?_, ?_⟩
  · rw [hslots]
    change c.slots.zipIdx.map (fun p => (⟨p.2, (w.enter v id c).state.contents p.1⟩ : WireSlot)) = _
    simp only [hcontents]
  · rw [hcursor]
    exact hcontents c.cursor

end Snapshot

/-- All messages to a viewer belong to visits that happened; the last one goes on while the viewer
has the container open. -/
structure Accounted (run : List World) (w : World) (v : ViewerId) (visits : List Visit)
    (current : Option Visit) : Prop where
  messages : messagesTo v w.trace =
    visits.flatMap (Visit.messages v) ++ (current.map (Visit.body v)).getD []
  session : w.state.openContainer v = current.map Visit.container
  bound : ∀ {x : Visit} {c : Container}, current = some x →
    w.state.forest.container? x.container = some c → x.bindings = c.bindings
  past : ∀ {before : List Visit} {x : Visit} {after : List Visit}, visits = before ++ x :: after →
    x.Happened run v before
  present : ∀ {x : Visit}, current = some x → x.Happened run v visits

namespace Accounted
variable {run : List World} {w w' : World} {v : ViewerId} {visits : List Visit}
variable {current : Option Visit}

theorem same (h : Accounted run w v visits current)
    (hmessages : messagesTo v w'.trace = messagesTo v w.trace)
    (hsession : w'.state.openContainer v = w.state.openContainer v)
    (hbound : ∀ {id c}, w'.state.forest.container? id = some c →
      w'.state.openContainer v = some id →
      ∃ d, w.state.forest.container? id = some d ∧ d.bindings = c.bindings) :
    Accounted run w' v visits current where
  messages := hmessages.trans h.messages
  session := hsession.trans h.session
  bound := by
    intro x c hx hc
    have hopen : w'.state.openContainer v = some x.container := by
      rw [hsession, h.session, hx]
      rfl
    obtain ⟨d, hd, he⟩ := hbound hc hopen
    rw [h.bound hx hd, he]
  past := h.past
  present := h.present

theorem happened (h : Accounted run w v visits current) {x : Visit} (hx : current = some x)
    {before after : List Visit} {y : Visit} (hsplit : visits ++ [x] = before ++ y :: after) :
    y.Happened run v before := by
  rcases List.eq_nil_or_concat after with hnil | ⟨rest, z, hlast⟩
  · rw [hnil] at hsplit
    obtain ⟨hbefore, hy⟩ := List.append_inj' hsplit rfl
    cases hy
    rw [← hbefore]
    exact h.present hx
  · rw [hlast, List.concat_eq_append, ← List.cons_append, ← List.append_assoc] at hsplit
    exact h.past (List.append_inj' hsplit rfl).1

theorem kept (h : Accounted run w v visits current) (hk : w.state.Kept w'.state)
    (hmessages : messagesTo v w'.trace = messagesTo v w.trace) :
    Accounted run w' v visits current := by
  refine h.same hmessages (hk.openContainer v) ?_
  intro id c hc _
  obtain ⟨d, hd, hframe⟩ := hk.exists_container? hc
  exact ⟨d, hd, Container.bindings_of_bare_eq (Container.bare_of_frame_eq hframe)⟩

theorem quiet (h : Accounted run w v visits current) (hq : World.Quiet w w') :
    Accounted run w' v visits current := by
  refine h.kept ?_ (messagesTo_quiet hq)
  rw [hq.state_eq]
  exact .refl _

theorem tell (h : Accounted run w v visits current) (hw : w.state.Sound)
    (hlive : w.state.transport = .live) {id : NodeId} {c : Container} {u : ViewerId}
    {view : ClientView} {slot : SlotId} {wire : Int} {t : Option Stack}
    (hc : w.state.forest.container? id = some c) (hu : (u, view) ∈ c.viewers)
    (hwire : c.wireIndex slot = some wire) :
    ∃ current', Accounted run (w.tell id u slot wire t) v visits current' := by
  have hkept := w.kept_tell id u slot wire t
  have hmessages : messagesTo v (w.tell id u slot wire t).trace =
      messagesTo v w.trace ++ if u = v then [.delta u wire t] else [] := messagesTo_tell hlive
  by_cases huv : u = v
  · subst huv
    have hopen := hw.openContainer_of_view hc hu
    rw [h.session, Option.map_eq_some_iff] at hopen
    obtain ⟨x, hx, hid⟩ := hopen
    have hcx : w.state.forest.container? x.container = some c := by
      rw [hid]
      exact hc
    have hbound := h.bound hx hcx
    obtain ⟨hwires, hchanges, hrest⟩ := h.present hx
    refine ⟨some { x with changes := x.changes ++ [(wire, t)] }, ?_, ?_, ?_, h.past, ?_⟩
    · rw [hmessages, if_pos rfl, h.messages, hx]
      simp [Visit.body, Visit.opening]
    · rw [hkept.openContainer, h.session, hx]
      rfl
    · intro y d hy hd
      cases hy
      obtain ⟨d₀, hd₀, hframe⟩ := hkept.exists_container? hd
      change w.state.forest.container? x.container = some d₀ at hd₀
      rw [← Container.bindings_of_bare_eq (Container.bare_of_frame_eq hframe)]
      have hbindings := h.bound hx hd₀
      exact hbindings
    · intro y hy
      cases hy
      refine ⟨hwires, ?_, hrest⟩
      intro d hd
      rcases List.mem_append.mp hd with hd | hd
      · exact hchanges d hd
      · rw [List.mem_singleton.mp hd]
        change wire ∈ x.bindings.map Prod.fst
        rw [hbound]
        exact List.mem_map_of_mem (f := Prod.fst) (Container.mem_bindings_of_wireIndex hwire)
  · rw [if_neg huv, List.append_nil] at hmessages
    exact ⟨current, h.kept hkept hmessages⟩

theorem leave (h : Accounted run w v visits current) (hw : w.state.Sound)
    (hlive : w.state.transport = .live) {id : NodeId} {c : Container} {u : ViewerId}
    (hc : w.state.forest.container? id = some c) (hu : u ∈ c.viewers.map Prod.fst) :
    ∃ visits' current', Accounted run (w.leave u id) v visits' current' := by
  have hleft : (w.leave u id).state.Sound := hw.leave hc hu
  have hmem : ∀ x, (v, x) ∈ (w.leave u id).state.sessions ↔ (v, x) ∈ w.state.sessions ∧ v ≠ u :=
    fun x => State.mem_sessions_leave
  have hmessages : messagesTo v (w.leave u id).trace =
      messagesTo v w.trace ++ if u = v then [.release u] else [] := messagesTo_leave hlive
  by_cases huv : u = v
  · subst huv
    have hopen := hw.openContainer_eq_some_iff.mpr ⟨c, hc, hu⟩
    rw [h.session, Option.map_eq_some_iff] at hopen
    obtain ⟨x, hx, hid⟩ := hopen
    refine ⟨visits ++ [x], none, ?_, ?_, ?_, ?_, ?_⟩
    · rw [hmessages, if_pos rfl, h.messages, hx]
      simp [Visit.messages]
    · cases hnone : (w.leave u id).state.openContainer u with
      | none => rfl
      | some y => exact absurd rfl ((hmem y).mp (hleft.openContainer_iff.mp hnone)).2
    · intro y d hy
      cases hy
    · intro before y after hsplit
      exact h.happened hx hsplit
    · intro y hy
      cases hy
  · rw [if_neg huv, List.append_nil] at hmessages
    refine ⟨visits, current, h.same hmessages ?_ ?_⟩
    · apply Option.ext
      intro x
      rw [hleft.openContainer_iff, hmem, hw.openContainer_iff]
      exact and_iff_left (Ne.symm huv)
    · intro x d hd _
      obtain ⟨k, hk, rfl⟩ := Forest.of_container?_modifyContainer hd
      refine ⟨k, hk, ?_⟩
      split <;> rfl

theorem drop (h : Accounted run w v visits current) (hw : w.state.Sound) {id : NodeId}
    {c : Container} (hc : w.state.forest.container? id = some c) (hv : c.viewers = []) :
    Accounted run (w.drop id c.cursor) v visits current := by
  have hdropped := hw.drop hc
  refine h.same rfl ?_ ?_
  · apply Option.ext
    intro x
    change (w.state.drop id c.cursor).openContainer v = some x ↔ _
    rw [hdropped.openContainer_iff, hw.openContainer_iff]
    rw [State.mem_sessions_drop, and_iff_left_iff_imp]
    intro hsession hx
    obtain ⟨d, hd, hvd⟩ := (hw.session_iff v x).mp hsession
    rw [hx, hc] at hd
    cases hd
    rw [hv] at hvd
    cases hvd
  · intro x d hd _
    exact ⟨d, (State.of_container?_drop hw.forest hc hd).2, rfl⟩

theorem move (h : Accounted run w v visits current) (hw : w.state.Sound)
    (hlive : w.state.transport = .live) (hm : Move w w') :
    ∃ visits' current', Accounted run w' v visits' current' := by
  cases hm with
  | touch ht =>
    cases ht with
    | put t hs => exact ⟨visits, current, h.kept (w.kept_put _ t) rfl⟩
    | tell ht =>
      cases ht with
      | give hes => exact ⟨visits, current, h.quiet ⟨_, _, rfl, hes⟩⟩
      | tell hc hu hwire hknows => exact ⟨visits, h.tell hw hlive hc hu hwire⟩
  | announce hes => exact ⟨visits, current, h.quiet ⟨_, _, rfl, hes⟩⟩
  | leave hc hu => exact h.leave hw hlive hc hu
  | drop hc hv => exact ⟨visits, current, h.drop hw hc hv⟩

theorem moves (h : Accounted run w v visits current) (hw : w.state.Sound)
    (hlive : w.state.transport = .live) (hm : Moves w w') :
    ∃ visits' current', Accounted run w' v visits' current' := by
  induction hm with
  | refl => exact ⟨visits, current, h⟩
  | tail hm hstep ih =>
    obtain ⟨visits', current', h'⟩ := ih
    exact h'.move (Moves.sound hm hw) ((Moves.transport hm).trans hlive) hstep

theorem mono (h : Accounted run w v visits current) (u : World) :
    Accounted (u :: run) w v visits current :=
  ⟨h.messages, h.session, h.bound, fun hs => (h.past hs).mono u, fun hx => (h.present hx).mono u⟩

section Enter
variable {id : NodeId} {c : Container} {u : ViewerId} (hw : w.state.Sound)
variable (hlive : w.state.transport = .live) (hc : w.state.forest.container? id = some c)
variable (hu : w.state.openContainer u = none)
include hw hlive hc hu

/-- An arrival begins a visit; nothing is sent after it within the same operation. -/
theorem enter_self (h : Accounted run w u visits current)
    (hq : World.Quiet (w.enter u id c) w') :
    Accounted (w' :: run) w' u visits (some (Visit.begun w.state id c)) := by
  have hopen : (w.enter u id c).state.openContainer u = some id :=
    (hw.enter hc hu (State.bindings_freshView w.state c)).openContainer_iff.mpr
      (State.mem_sessions_enter.mpr (Or.inr ⟨rfl, rfl⟩))
  have hnone : current = none := by
    rw [h.session, Option.map_eq_none_iff] at hu
    exact hu
  have hsent : messagesTo u w'.trace =
      visits.flatMap (Visit.messages u) ++ (Visit.begun w.state id c).opening u := by
    rw [messagesTo_quiet hq, messagesTo_enter hlive, if_pos rfl, h.messages, hnone,
      Visit.greeting_eq_opening u w.state id c]
    simp
  refine ⟨?_, ?_, ?_, fun hs => (h.past hs).mono w', ?_⟩
  · rw [hsent]
    simp [Visit.body, Visit.begun]
  · rw [hq.state_eq, hopen]
    rfl
  · intro y d hy hd
    cases hy
    rw [hq.state_eq] at hd
    change (w.enter u id c).state.forest.container? id = some d at hd
    rw [World.container?_enter hc, Option.some.injEq] at hd
    rw [← hd]
    rfl
  · intro y hy
    cases hy
    refine ⟨c.wires_increase, nofun, w', List.mem_cons_self, hsent, ?_⟩
    rw [hq.state_eq]
    exact ⟨hopen, snapshot_enter hc, c.attach u (w.state.freshView c), World.container?_enter hc,
      rfl⟩

theorem enter_other (h : Accounted run w v visits current) (huv : u ≠ v) :
    Accounted run (w.enter u id c) v visits current := by
  have hentered : (w.enter u id c).state.Sound :=
    hw.enter hc hu (State.bindings_freshView w.state c)
  have hmessages : messagesTo v (w.enter u id c).trace = messagesTo v w.trace := by
    rw [messagesTo_enter hlive, if_neg huv, List.append_nil]
  refine h.same hmessages ?_ ?_
  · apply Option.ext
    intro x
    rw [hentered.openContainer_iff, hw.openContainer_iff]
    refine State.mem_sessions_enter.trans ?_
    exact or_iff_left fun hv => huv hv.1.symm
  · intro x d hd _
    obtain ⟨k, hk, rfl⟩ := Forest.of_container?_modifyContainer hd
    refine ⟨k, hk, ?_⟩
    split <;> rfl

end Enter

theorem advance (h : Accounted run w v visits current) (hw : w.state.Sound)
    (hlive : w.state.transport = .live) {calm : Prop} (ha : Advance calm w w') :
    ∃ visits' current', Accounted (w' :: run) w' v visits' current' := by
  rcases ha.cases with ⟨hm, _⟩ | ⟨b, hb, hq⟩ | ⟨b, u, id, c, hm, _, hc, hu, hq⟩
  · obtain ⟨visits', current', h'⟩ := h.moves hw hlive hm
    exact ⟨visits', current', h'.mono w'⟩
  · have hsession : b.state.openContainer v = w.state.openContainer v := by
      unfold State.openContainer
      rw [hb.sessions]
    refine ⟨visits, current, ((h.same (by rw [hb.trace]) hsession ?_).quiet hq).mono w'⟩
    intro id c hc hopen
    rw [hsession] at hopen
    obtain ⟨d, hd, _⟩ := hw.openContainer_eq_some_iff.mp hopen
    rcases hb.container? hc with hold | ⟨hfresh, _⟩
    · exact ⟨c, hold, rfl⟩
    · rw [Forest.contains_of_container? hd] at hfresh
      cases hfresh
  · obtain ⟨visits', current', h'⟩ := h.moves hw hlive hm
    have hb := hm.sound hw
    have hblive := hm.transport.trans hlive
    by_cases huv : u = v
    · subst huv
      exact ⟨visits', _, h'.enter_self hb hblive hc hu hq⟩
    · exact ⟨visits', current', ((h'.enter_other hb hblive hc hu huv).quiet hq).mono w'⟩

end Accounted

theorem Run.accounted {past : List World} {w : World} (h : Run past w)
    (hlive : ∀ u ∈ w :: past, u.state.transport = .live) (v : ViewerId) :
    ∃ visits current, Accounted (w :: past) w v visits current := by
  induction h with
  | start env transport diagnostics =>
    exact ⟨[], none, rfl, rfl, nofun, by simp, nofun⟩
  | step op before ih =>
    have hbefore := fun u hu => hlive u (List.mem_cons_of_mem _ hu)
    obtain ⟨visits, current, haccounted⟩ := ih hbefore
    exact haccounted.advance before.sound (hbefore _ List.mem_cons_self)
      (op.advances before.sound)

/-- The messages to a viewer are those of visits that happened one after another, up to some point
of the last one; between a release and the next binding there is nothing. To open again what is open
already sends nothing and changes nothing. -/
theorem messages_are_visits {past : List World} {w : World} (h : Run past w)
    (hlive : ∀ u ∈ w :: past, u.state.transport = .live) (v : ViewerId) :
    (∃ visits : List Visit, messagesTo v w.trace <+: visits.flatMap (Visit.messages v) ∧
      (w.state.openContainer v = none →
        messagesTo v w.trace = visits.flatMap (Visit.messages v)) ∧
      ∀ (before : List Visit) (x : Visit) (after : List Visit), visits = before ++ x :: after →
        x.Happened (w :: past) v before) ∧
    ∀ id, w.state.openContainer v = some id → Step.openContainer id v w = (.ok (.ok ()), w) := by
  refine ⟨?_, ?_⟩
  · obtain ⟨visits, current, haccounted⟩ := h.accounted hlive v
    cases hcurrent : current with
    | none =>
      have hmessages := haccounted.messages
      rw [hcurrent, Option.map_none, Option.getD_none, List.append_nil] at hmessages
      refine ⟨visits, ?_, fun _ => hmessages, fun _ _ _ => haccounted.past⟩
      exact ⟨[], by rw [hmessages, List.append_nil]⟩
    | some x =>
      have hmessages := haccounted.messages
      rw [hcurrent] at hmessages
      refine ⟨visits ++ [x], ?_, ?_, ?_⟩
      · rw [hmessages, List.flatMap_append, List.flatMap_singleton]
        exact ⟨[.release v], by simp [Visit.messages]⟩
      · intro hnone
        rw [haccounted.session, hcurrent] at hnone
        cases hnone
      · intro before y after hsplit
        exact haccounted.happened hcurrent hsplit
  · intro id hopen
    obtain ⟨c, hc, _⟩ := h.sound.openContainer_eq_some_iff.mp hopen
    have hat := Step.containerAt_eq_ok_iff.mpr hc
    unfold Step.openContainer
    rw [Step.state_bind]
    simp only [hat, if_pos hopen]
    rfl

theorem messages_are_visits_one :
    messagesTo ⟨7⟩ (World.reached Operation.visit).2.trace ≠ [] ∧
    ∃ visits, messagesTo ⟨7⟩ (World.reached Operation.visit).2.trace <+:
        visits.flatMap (Visit.messages ⟨7⟩) ∧
      ∀ (before : List Visit) (x : Visit) (after : List Visit), visits = before ++ x :: after →
        x.Happened ((World.reached Operation.visit).2 :: (World.reached Operation.visit).1) ⟨7⟩
          before := by
  have hrun := Run.reached Operation.visit
  obtain ⟨⟨visits, hprefix, _, hhappened⟩, _⟩ :=
    messages_are_visits hrun (by decide +kernel) ⟨7⟩
  exact ⟨by decide +kernel, visits, hprefix, hhappened⟩

end Stowage
