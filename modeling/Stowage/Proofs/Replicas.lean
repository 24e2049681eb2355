import Stowage.Proofs.Messages

/-!
# Viewers that follow

A viewer who takes the last full state and overwrites it with every later change has, behind each
wire, what the container notes that it was told, and this is what the slot holds. No change is sent
to a viewer who has it already.
-/

namespace Stowage

set_option autoImplicit false

/-- What a viewer has behind each wire; `none` where nothing was told. -/
abbrev Replica := Int → Option (Option Stack)

def Snapshot.replica (s : Snapshot) : Replica := fun wire =>
  if wire = cursorWire then some s.cursor
  else (s.slots.find? fun x => x.index = wire).map WireSlot.contents

def replay (r : Replica) : Message → Replica
  | .fullState _ s => s.replica
  | .delta _ wire t => fun i => if i = wire then some t else r i
  | .bind _ _ _ => r
  | .release _ => r

def replica (ms : List Message) : Replica := ms.foldl replay fun _ => none

theorem replica_append (ms ns : List Message) :
    replica (ms ++ ns) = ns.foldl replay (replica ms) := List.foldl_append

namespace State
variable {s : State} {c : Container} {view : ClientView}

theorem replica_snapshotOfView (h : view.bindings = c.bindings) (hc : (c.cursor :: c.slots).Nodup)
    {r : ViewRow} (hr : r ∈ view.rows) :
    (s.snapshotOfView c view).replica r.wire = some r.lastKnown := by
  unfold Snapshot.replica snapshotOfView
  split
  · rename_i hwire
    rw [← hwire, ClientView.slot_of_row h hr, Option.bind_some,
      ClientView.lastKnown_of_row h hc hr]
  · rename_i hwire
    have hnodup : (((view.rows.filter fun r => r.wire ≠ cursorWire).map
        fun r => (⟨r.wire, r.lastKnown⟩ : WireSlot)).map WireSlot.index).Nodup := by
      rw [List.map_map]
      exact (ClientView.nodup_row_wires h).sublist (List.filter_sublist.map _)
    have hmem : (⟨r.wire, r.lastKnown⟩ : WireSlot) ∈
        (view.rows.filter fun r => r.wire ≠ cursorWire).map
          fun r => (⟨r.wire, r.lastKnown⟩ : WireSlot) := by
      refine List.mem_map.mpr ⟨r, List.mem_filter.mpr ⟨hr, ?_⟩, rfl⟩
      exact decide_eq_true hwire
    rw [find?_of_nodup hnodup hmem]
    rfl

end State

/-- Every change that was sent differs from what the viewer had. -/
def Fresh (es : List Emission) : Prop :=
  ∀ (i : Nat) (v : ViewerId) (wire : Int) (t : Option Stack),
    es[i]? = some (.sent (.delta v wire t)) →
    ∃ old, replica (messagesTo v (es.take i)) wire = some old ∧ old ≠ t

theorem fresh_nil : Fresh [] := by
  intro i v wire t h
  simp at h

theorem Fresh.append {es fs : List Emission} (h : Fresh es)
    (hfs : ∀ (j : Nat) (v : ViewerId) (wire : Int) (t : Option Stack),
      fs[j]? = some (.sent (.delta v wire t)) →
      ∃ old, replica (messagesTo v (es ++ fs.take j)) wire = some old ∧ old ≠ t) :
    Fresh (es ++ fs) := by
  intro i v wire t hi
  by_cases hlt : i < es.length
  · rw [List.getElem?_append_left hlt] at hi
    rw [List.take_append_of_le_length (by omega)]
    exact h i v wire t hi
  · rw [List.getElem?_append_right (by omega)] at hi
    rw [List.take_append, List.take_of_length_le (by omega)]
    exact hfs (i - es.length) v wire t hi

theorem Fresh.append_other {es fs : List Emission} (h : Fresh es)
    (hfs : ∀ v wire t, .sent (.delta v wire t) ∉ fs) : Fresh (es ++ fs) := by
  apply h.append
  intro j v wire t hj
  exact absurd (List.mem_of_getElem? hj) (hfs v wire t)

/-- All viewers have what the containers note that they were told. -/
structure World.Synced (w : World) : Prop where
  replica : ∀ {id : NodeId} {c : Container} {v : ViewerId} {view : ClientView},
    w.state.forest.container? id = some c → (v, view) ∈ c.viewers →
    ∀ r ∈ view.rows, replica (messagesTo v w.trace) r.wire = some r.lastKnown
  fresh : Fresh w.trace

namespace World.Synced
variable {w w' : World}

theorem of_views (h : w.Synced) (htrace : w'.trace = w.trace)
    (hviews : ∀ {id c v view}, w'.state.forest.container? id = some c → (v, view) ∈ c.viewers →
      ∃ x d, w.state.forest.container? x = some d ∧ (v, view) ∈ d.viewers) : w'.Synced := by
  refine ⟨?_, ?_⟩
  · intro id c v view hc hv
    obtain ⟨x, d, hd, hvd⟩ := hviews hc hv
    rw [htrace]
    exact h.replica hd hvd
  · rw [htrace]
    exact h.fresh

theorem give (h : w.Synced) {k : EventKind} {es : List Emission} (hes : ∀ e ∈ es, e.Of k) :
    (w.give es).Synced := by
  refine ⟨?_, ?_⟩
  · intro id c v view hc hv
    rw [messagesTo_give hes]
    exact h.replica hc hv
  · refine h.fresh.append_other ?_
    intro v wire t hmem
    exact hes _ hmem

theorem quiet (h : w.Synced) (hq : World.Quiet w w') : w'.Synced := by
  obtain ⟨k, es, rfl, hes⟩ := hq
  exact h.give hes

theorem replica_tell (h : w.Synced) (hw : w.state.Sound) (hlive : w.state.transport = .live)
    {id x : NodeId} {c d : Container} {u v : ViewerId} {old view : ClientView} {slot : SlotId}
    {wire : Int} {t : Option Stack} (hc : w.state.forest.container? id = some c)
    (hv : (v, old) ∈ c.viewers) (hwire : c.wireIndex slot = some wire)
    (hd : (w.tell id v slot wire t).state.forest.container? x = some d)
    (hu : (u, view) ∈ d.viewers) {r : ViewRow} (hr : r ∈ view.rows) :
    Stowage.replica (messagesTo u (w.tell id v slot wire t).trace) r.wire = some r.lastKnown := by
  rw [messagesTo_tell hlive]
  rcases World.view_tell hw hc hv hd hu with ⟨huv, hview⟩ | ⟨huv, k, hk, hku⟩
  · rw [hview] at hr
    rw [if_pos huv.symm, replica_append]
    change (if r.wire = wire then some t else _) = some r.lastKnown
    rcases ClientView.row_of_learn (hw.bound hc hv) (hw.forest.nodup_bound hc)
      (Container.mem_bindings_of_wireIndex hwire) hr with ⟨hrw, hknown⟩ | ⟨hrw, hold⟩
    · rw [if_pos hrw, hknown]
    · rw [if_neg hrw, huv]
      exact h.replica hc hv r hold
  · rw [if_neg (Ne.symm huv), List.append_nil]
    exact h.replica hk hku r hr

/-- A change is not what the viewer has, for the viewer has what the view notes. -/
theorem fresh_tell (h : w.Synced) (hw : w.state.Sound) (hlive : w.state.transport = .live)
    {id : NodeId} {c : Container} {v : ViewerId} {view : ClientView} {slot : SlotId} {wire : Int}
    {t : Option Stack} (hc : w.state.forest.container? id = some c) (hv : (v, view) ∈ c.viewers)
    (hwire : c.wireIndex slot = some wire) (hknows : view.knows slot t = false) :
    Fresh (w.tell id v slot wire t).trace := by
  change Fresh (w.trace ++ w.state.transport.carry (.delta v wire t))
  rw [hlive]
  apply h.fresh.append
  intro j u i t' hj
  have hzero : j = 0 := by
    have hlt := (List.getElem?_eq_some_iff.mp hj).1
    simpa [Transport.carry] using hlt
  subst hzero
  cases hj
  obtain ⟨r, hr, hrwire, hrslot⟩ :=
    ClientView.exists_row (hw.bound hc hv) (Container.mem_bindings_of_wireIndex hwire)
  rw [List.take_zero, List.append_nil]
  refine ⟨r.lastKnown, ?_, ?_⟩
  · rw [← hrwire]
    exact h.replica hc hv r hr
  · intro hknown
    have hany : view.knows slot t = true := by
      unfold ClientView.knows
      rw [List.any_eq_true]
      exact ⟨r, hr, decide_eq_true ⟨hrslot, hknown⟩⟩
    rw [hknows] at hany
    cases hany

theorem leave (h : w.Synced) (hlive : w.state.transport = .live) (v : ViewerId) (id : NodeId) :
    (w.leave v id).Synced := by
  refine ⟨?_, ?_⟩
  · intro x d u view hd hu r hr
    obtain ⟨k, hk, hku⟩ := World.view_leave hd hu
    rw [messagesTo_leave hlive, replica_append]
    split
    · exact h.replica hk hku r hr
    · exact h.replica hk hku r hr
  · refine h.fresh.append_other ?_
    rw [hlive]
    intro u wire t hmem
    cases List.mem_singleton.mp hmem

theorem enter (h : w.Synced) (hw : w.state.Sound) (hlive : w.state.transport = .live)
    {v : ViewerId} {id : NodeId} {c : Container} (hc : w.state.forest.container? id = some c)
    (hv : w.state.openContainer v = none) : (w.enter v id c).Synced := by
  refine ⟨?_, ?_⟩
  · intro x d u view hd hu r hr
    rw [messagesTo_enter hlive]
    rcases World.view_enter hw hv hd hu with ⟨hnew, hview⟩ | ⟨hne, k, hk, hku⟩
    · rw [hview] at hr
      rw [if_pos hnew.symm, replica_append]
      simp only [World.greeting, List.foldl_append, List.foldl_cons, List.foldl_nil, replay]
      exact State.replica_snapshotOfView (w.state.bindings_freshView c)
        (hw.forest.nodup_bound hc) hr
    · rw [if_neg (Ne.symm hne), List.append_nil]
      exact h.replica hk hku r hr
  · refine h.fresh.append_other ?_
    rw [hlive]
    intro u wire t hmem
    obtain ⟨m, hm, hsent⟩ := List.mem_flatMap.mp hmem
    cases List.mem_singleton.mp hsent
    rcases List.mem_append.mp hm with hm | hm
    · obtain ⟨r, _, hr⟩ := List.mem_map.mp hm
      cases hr
    · cases List.mem_singleton.mp hm

theorem move (h : w.Synced) (hw : w.state.Sound) (hlive : w.state.transport = .live)
    (hm : Move w w') : w'.Synced := by
  cases hm with
  | touch ht =>
    cases ht with
    | put t hs =>
      refine h.of_views rfl ?_
      intro id c v view hc hv
      change (w.state.forest.setContents _ t).container? id = some c at hc
      rw [Forest.container?_setContents] at hc
      exact ⟨id, c, hc, hv⟩
    | tell ht =>
      cases ht with
      | give hes => exact h.give hes
      | tell hc hv hwire hknows =>
        exact ⟨fun hd hu _ hr => h.replica_tell hw hlive hc hv hwire hd hu hr,
          h.fresh_tell hw hlive hc hv hwire hknows⟩
  | announce hes => exact h.give hes
  | leave hc hv => exact h.leave hlive _ _
  | @drop id c hc hv =>
    refine h.of_views rfl ?_
    intro x d v view hd hv
    exact ⟨x, d, (State.of_container?_drop hw.forest hc hd).2, hv⟩

theorem moves (h : w.Synced) (hw : w.state.Sound) (hlive : w.state.transport = .live)
    (hm : Moves w w') : w'.Synced := by
  induction hm with
  | refl => exact h
  | tail hm hstep ih =>
    exact ih.move (Moves.sound hm hw) ((Moves.transport hm).trans hlive) hstep

theorem advance (h : w.Synced) (hw : w.state.Sound) (hlive : w.state.transport = .live)
    {calm : Prop} (ha : Advance calm w w') : w'.Synced := by
  rcases ha.cases with ⟨hm, _⟩ | ⟨b, hb, hq⟩ | ⟨b, u, id, c, hm, _, hc, hu, hq⟩
  · exact h.moves hw hlive hm
  · have hrebuilt : b.Synced := h.of_views hb.trace fun hc hv => ⟨_, _, hb.view hc hv, hv⟩
    exact hrebuilt.quiet hq
  · exact ((h.moves hw hlive hm).enter (hm.sound hw) (hm.transport.trans hlive) hc hu).quiet hq

end World.Synced

end Stowage
