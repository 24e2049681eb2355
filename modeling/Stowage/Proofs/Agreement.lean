import Stowage.Proofs.Replicas

/-!
# Viewers that are up to date

While a viewer keeps a container open and a slot stays where it is, the viewer was last told just
what the slot holds. The time that counts is the one since the last full state: before that the
viewer may have known another container, and a handle may have been another slot's.
-/

namespace Stowage

set_option autoImplicit false

def Message.isFullState : Message → Bool
  | .fullState _ _ => true
  | .bind _ _ _ => false
  | .delta _ _ _ => false
  | .release _ => false

namespace World

def arrivals (w : World) (v : ViewerId) : Nat := (messagesTo v w.trace).countP Message.isFullState

/-- What a viewer has who replays what was sent. -/
def replica (w : World) (v : ViewerId) : Replica := Stowage.replica (messagesTo v w.trace)

section
variable {w w' : World} {u v : ViewerId} {x : SlotId}

theorem arrivals_quiet (h : Quiet w w') : w'.arrivals v = w.arrivals v := by
  unfold arrivals
  rw [messagesTo_quiet h]

theorem arrivals_next {b : World} (hq : Quiet b w') (htrace : b.trace = w.trace) :
    w'.arrivals v = w.arrivals v := by
  rw [arrivals_quiet hq]
  unfold arrivals
  rw [htrace]

theorem arrivals_move (hlive : w.state.transport = .live) (h : Move w w') :
    w'.arrivals v = w.arrivals v := by
  cases h with
  | touch h =>
    cases h with
    | put t hs => rfl
    | tell h =>
      cases h with
      | give hes => exact arrivals_quiet ⟨.slotChange, _, rfl, hes⟩
      | tell hc hv hwire hknows =>
        unfold arrivals
        rw [messagesTo_tell hlive, List.countP_append]
        split <;> rfl
  | announce hes => exact arrivals_quiet ⟨_, _, rfl, hes⟩
  | leave hc hv =>
    unfold arrivals
    rw [messagesTo_leave hlive, List.countP_append]
    split <;> rfl
  | drop hc hv => rfl

theorem arrivals_moves (hlive : w.state.transport = .live) (h : Moves w w') :
    w'.arrivals v = w.arrivals v := by
  induction h with
  | refl => rfl
  | tail hm hstep ih => rw [arrivals_move ((Moves.transport hm).trans hlive) hstep, ih]

theorem arrivals_enter (hlive : w.state.transport = .live) {id : NodeId} {c : Container} :
    (w.enter u id c).arrivals v = w.arrivals v + if u = v then 1 else 0 := by
  unfold arrivals
  rw [messagesTo_enter hlive, List.countP_append]
  split
  · have hbinds : ∀ rows : List ViewRow, (rows.map fun r =>
        Message.bind u r.wire r.slot).countP Message.isFullState = 0 := by
      intro rows
      rw [List.countP_eq_zero]
      intro m hm
      obtain ⟨r, _, rfl⟩ := List.mem_map.mp hm
      exact Bool.false_ne_true
    unfold greeting
    rw [List.countP_append, hbinds]
    rfl
  · rfl

section Enter
variable {id : NodeId} {c : Container} (hw : w.state.Sound)
variable (hu : w.state.openContainer u = none)
include hw hu

theorem agrees_enter_self : (w.enter u id c).Agrees u x := by
  intro y d view hd hv _ r hr hrx
  rw [contents_enter, ← hrx]
  rcases view_enter hw hu hd hv with hnew | hold
  · rw [hnew.2] at hr
    exact State.lastKnown_freshView hr
  · exact absurd rfl hold.1

theorem agrees_enter_other (hne : v ≠ u) (h : w.Agrees v x) : (w.enter u id c).Agrees v x := by
  apply h.transfer
  · intro y d view hd hv
    rcases view_enter hw hu hd hv with hnew | hold
    · exact absurd hnew.1 hne
    · exact ⟨y, hold.2⟩
  · intro hlive
    rw [contains_enter] at hlive
    exact ⟨hlive, contents_enter w u id c x⟩

end Enter

theorem Agrees.quiet (h : w.Agrees v x) (hq : Quiet w w') : w'.Agrees v x :=
  Calm.of_state_eq hq.state_eq v x h

/-- An operation from which nothing escapes keeps a viewer in agreement with every slot that was
there before. -/
theorem Agrees.advance (h : w.Agrees v x) (hw : w.state.Sound) (ha : Advance True w w')
    (hx : w.state.forest.contains x = true) : w'.Agrees v x := by
  rcases ha.cases with ⟨_, hcalm⟩ | ⟨b, hb, hq⟩ | ⟨b, u, id, c, hm, hcalm, _, hu, hq⟩
  · exact hcalm trivial v x h
  · have hrebuilt : b.Agrees v x := by
      apply h.transfer
      · intro id c view hc hv
        exact ⟨id, c, hb.view hc hv, hv⟩
      · intro hlive
        exact ⟨hx, hb.contents hx hlive⟩
    exact hrebuilt.quiet hq
  · have hb := hm.sound hw
    by_cases hv : v = u
    · subst hv
      exact (agrees_enter_self hb hu).quiet hq
    · exact (agrees_enter_other hb hu hv (hcalm v x h)).quiet hq

/-- An operation from which nothing escapes sends a viewer no full state and keeps the agreement, or
sends one and brings the viewer into agreement with all slots. -/
theorem agrees_advance (hw : w.state.Sound) (hlive : w.state.transport = .live)
    (h : Advance True w w') :
    (w'.arrivals v = w.arrivals v ∧
      (w.state.forest.contains x = true → w.Agrees v x → w'.Agrees v x)) ∨
    (w'.arrivals v ≠ w.arrivals v ∧ w'.Agrees v x) := by
  have hkeeps : w.state.forest.contains x = true → w.Agrees v x → w'.Agrees v x :=
    fun hx hagrees => hagrees.advance hw h hx
  rcases h.cases with ⟨hm, _⟩ | ⟨b, hb, hq⟩ | ⟨b, u, id, c, hm, _, _, hu, hq⟩
  · exact Or.inl ⟨arrivals_moves hlive hm, hkeeps⟩
  · exact Or.inl ⟨arrivals_next hq hb.trace, hkeeps⟩
  · have hb := hm.sound hw
    have harrivals := arrivals_quiet (v := v) hq
    rw [arrivals_enter (hm.transport.trans hlive), arrivals_moves hlive hm] at harrivals
    by_cases hv : v = u
    · subst hv
      rw [if_pos rfl] at harrivals
      exact Or.inr ⟨by omega, (agrees_enter_self hb hu).quiet hq⟩
    · rw [if_neg (Ne.symm hv)] at harrivals
      exact Or.inl ⟨harrivals, hkeeps⟩

end

end World

/-- The slot that the viewer was bound to is still there: it was live in every world since the
viewer's last full state. A handle that died in between may come round again for another slot. -/
def StillLive (past : List World) (w : World) (v : ViewerId) (x : SlotId) : Prop :=
  ∀ u ∈ w :: past, u.arrivals v = w.arrivals v → u.state.forest.contains x = true

section Run
variable {past : List World} {w : World}

theorem CalmRun.synced (h : CalmRun past w)
    (hlive : ∀ u ∈ w :: past, u.state.transport = .live) : w.Synced := by
  induction h with
  | start env transport diagnostics =>
    refine ⟨?_, fresh_nil⟩
    intro id c v view hc
    simp [State.new, Forest.container?, Forest.node?_empty] at hc
  | @step past w w' op before ok ih =>
    have hw := before.run.sound
    have hadvance := op.advances hw
    unfold Step.Advances at hadvance
    rw [ok] at hadvance
    have hbefore : ∀ u ∈ w :: past, u.state.transport = .live :=
      fun u hu => hlive u (List.mem_cons_of_mem _ hu)
    exact (ih hbefore).advance hw (hbefore w List.mem_cons_self) hadvance

theorem CalmRun.agrees (h : CalmRun past w) (hlive : ∀ u ∈ w :: past, u.state.transport = .live)
    {v : ViewerId} {x : SlotId} (hx : StillLive past w v x) : w.Agrees v x := by
  induction h with
  | start env transport diagnostics =>
    intro id c view hc
    simp [State.new, Forest.container?, Forest.node?_empty] at hc
  | @step past w w' op before ok ih =>
    have hw := before.run.sound
    have hadvance := op.advances hw
    unfold Step.Advances at hadvance
    rw [ok] at hadvance
    have hcalm := hadvance.mono (q := True) fun _ => ⟨(), rfl⟩
    have hlived : ∀ u ∈ w :: past, u.state.transport = .live :=
      fun u hu => hlive u (List.mem_cons_of_mem _ hu)
    rcases World.agrees_advance hw (hlived w List.mem_cons_self) hcalm with
      ⟨hsame, hkeeps⟩ | ⟨_, hnew⟩
    · have hbefore : StillLive past w v x := by
        intro u hu heq
        exact hx u (List.mem_cons_of_mem _ hu) (heq.trans hsame.symm)
      exact hkeeps (hbefore w List.mem_cons_self rfl) (ih hlived hbefore)
    · exact hnew

end Run

/-- In every world of a run without escapes, what a viewer has from replaying its messages is what
the container notes that it was told, and this is what the slot holds if the slot is still live; and
every change that was sent changed what the viewer had. -/
theorem replicas_agree {past : List World} {w : World} (h : CalmRun past w)
    (hlive : ∀ u ∈ w :: past, u.state.transport = .live) :
    (∀ (id : NodeId) (v : ViewerId) (view : ClientView), w.state.clientView id v = some view →
      ∀ (wire : Int) (slot : SlotId), view.slot wire = some slot →
        w.replica v wire = some (view.lastKnown slot) ∧
        (StillLive past w v slot → view.lastKnown slot = w.state.contents slot)) ∧
    ∀ (i : Nat) (v : ViewerId) (wire : Int) (t : Option Stack),
      (w.trace)[i]? = some (.sent (.delta v wire t)) →
        ∃ old, replica (messagesTo v (w.trace.take i)) wire = some old ∧ old ≠ t := by
  have hw := h.run.sound
  have hsynced := h.synced hlive
  refine ⟨?_, hsynced.fresh⟩
  intro id v view hview wire slot hslot
  obtain ⟨c, hc, hv⟩ := Option.bind_eq_some_iff.mp hview
  have hmem := (hw.viewOf_iff hc).mp hv
  obtain ⟨r, hr, hrwire, hrslot⟩ := ClientView.row_of_slot hslot
  have hknown : view.lastKnown slot = r.lastKnown := by
    rw [← hrslot]
    exact ClientView.lastKnown_of_row (hw.bound hc hmem) (hw.forest.nodup_bound hc) hr
  rw [hknown, ← hrwire]
  refine ⟨hsynced.replica hc hmem r hr, ?_⟩
  intro hstill
  exact h.agrees hlive hstill id c view hc hmem (hstill w List.mem_cons_self rfl) r hr hrslot

theorem stillLive_visit : StillLive (World.reached Operation.visit).1
    (World.reached Operation.visit).2 ⟨7⟩ ⟨0, 0⟩ := by
  unfold StillLive
  decide +kernel

theorem replicas_agree_visit :
    (World.reached Operation.visit).2.replica ⟨7⟩ 0 =
      some ((World.reached Operation.visit).2.state.contents ⟨0, 0⟩) := by
  have hcalm := CalmRun.reached (show Operation.calmThrough .blank Operation.visit = true by
    decide +kernel)
  have hview : ((World.reached Operation.visit).2.state.clientView ⟨3, 0⟩ ⟨7⟩).any
      (fun view => view.slot 0 = some ⟨0, 0⟩) = true := by decide +kernel
  obtain ⟨view, hv, hslot⟩ := (Option.any_eq_true _ _).mp hview
  obtain ⟨hreplica, hcontents⟩ := (replicas_agree hcalm (by decide +kernel)).1 ⟨3, 0⟩ ⟨7⟩ view hv 0
    ⟨0, 0⟩ (of_decide_eq_true hslot)
  rw [← hcontents stillLive_visit]
  exact hreplica

end Stowage
