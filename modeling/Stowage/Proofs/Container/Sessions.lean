import Stowage.Proofs.Contents

/-!
# Coming and leaving

Closing lets the viewer leave, calls the listeners and may drop the container; opening closes what
was open before and then lets the viewer enter. Each is a sequence of moves, and is calm unless
something escapes.
-/

namespace Stowage

set_option autoImplicit false

open Relation

namespace World
variable {w : World}

theorem calm_leave (w : World) (v : ViewerId) (id : NodeId) : Calm w (w.leave v id) := by
  intro u x hagrees
  apply hagrees.transfer
  · intro y d view hd hv
    exact ⟨y, view_leave hd hv⟩
  · intro hlive
    rw [contains_leave] at hlive
    exact ⟨hlive, contents_leave w v id x⟩

theorem contents_drop {id : NodeId} {cursor x : SlotId}
    (hlive : (w.drop id cursor).state.forest.contains x = true) :
    w.state.forest.contains x = true ∧
      (w.drop id cursor).state.contents x = w.state.contents x := by
  have hforest := w.state.forest_drop id cursor
  change (w.state.drop id cursor).forest.contains x = true at hlive
  rw [hforest] at hlive
  obtain ⟨hx, hmem⟩ := Forest.contains_removed_iff.mp hlive
  refine ⟨hx, ?_⟩
  change (w.state.drop id cursor).forest.contents x = w.state.forest.contents x
  rw [hforest, Forest.contents_removed hmem]

theorem calm_drop (hw : w.state.Sound) {id : NodeId} {c : Container}
    (hc : w.state.forest.container? id = some c) : Calm w (w.drop id c.cursor) := by
  intro u x hagrees
  apply hagrees.transfer
  · intro y d view hd hv
    exact ⟨y, d, (State.of_container?_drop hw.forest hc hd).2, hv⟩
  · exact contents_drop

end World

namespace Step

variable {α β : Type}

/-- From `w` on the step is made of moves, and is calm when nothing escapes. -/
def Orderly (m : Step α) (w : World) : Prop :=
  Moves w (m w).2 ∧ ∀ a, (m w).1 = .ok a → World.Calm w (m w).2

namespace Orderly
variable {w : World}

theorem of_pure (a : α) : (pure a : Step α).Orderly w := ⟨.refl, fun _ _ => .refl w⟩

theorem of_tidy {m : Step α} (hm : m.Tidy) (hw : w.state.Sound) : m.Orderly w :=
  ⟨(hm w hw).1.moves, (hm w hw).2⟩

theorem of_inert {m : Step α} {k : EventKind} (hm : Inert (Emission.Of k) m) : m.Orderly w := by
  obtain ⟨es, hes, hof⟩ := hm w
  unfold Orderly
  rw [hes]
  exact ⟨.single (.announce w hof), fun _ _ => .of_state_eq rfl⟩

theorem bind {m : Step α} {next : α → Step β} (hm : m.Orderly w)
    (hn : ∀ a u, m w = (.ok a, u) → (next a).Orderly u) : (m >>= next).Orderly w := by
  obtain ⟨hmoves, hcalm⟩ := hm
  unfold Orderly
  rcases h : m w with ⟨r, u⟩
  rw [h] at hmoves hcalm
  cases r with
  | error e =>
    rw [bind_of_error h]
    refine ⟨hmoves, ?_⟩
    intro b hb
    cases hb
  | ok a =>
    rw [bind_of_ok h]
    obtain ⟨hmoves', hcalm'⟩ := hn a u h
    exact ⟨hmoves.trans hmoves', fun b hb => (hcalm a rfl).trans (hcalm' b hb)⟩

theorem head {m : Step α} {u : World} (hmove : Move w u) (hcalm : World.Calm w u)
    (hm : m.Orderly u) : Moves w (m u).2 ∧ ∀ a, (m u).1 = .ok a → World.Calm w (m u).2 :=
  ⟨.head hmove hm.1, fun a ha => hcalm.trans (hm.2 a ha)⟩

end Orderly

theorem Inert.state_eq {P : Emission → Prop} {m : Step α} (hm : Inert P m) {w u : World} {a : α}
    (h : m w = (.ok a, u)) : u.state = w.state := by
  obtain ⟨es, rfl, _⟩ := hm.ok h
  rfl

theorem tidy_returnCursor (c : Container) : (returnCursor c).Tidy := by
  apply Tidy.state_bind
  intro s
  split
  · exact Tidy.of_pure _
  · split
    · apply Tidy.bind (tidy_commit c.cursor none)
      intro _
      apply Tidy.bind (tidy_offerTo c.bottom _)
      intro offered
      exact Tidy.of_pure _
    · exact Tidy.of_pure _

section Discard
variable {w : World} {id : NodeId} {c : Container}

theorem dropContainer_bind (id : NodeId) (cursor : SlotId) (next : Unit → Step β) (w : World) :
    (dropContainer id cursor >>= next) w = next () (w.drop id cursor) := rfl

theorem discard_eq (hc : w.state.forest.container? id = some c) :
    discard id w = (returnCursor c >>= fun leftover => dropContainer id c.cursor >>= fun _ =>
      log (.debug s!"Discarded container {id.describe}") >>= fun _ => pure leftover) w := by
  unfold discard
  rw [state_bind, hc]

/-- The container that is dropped is the one that was there before its cursor was emptied. -/
theorem kept_empty (hc : w.state.forest.container? id = some c) (hv : c.viewers = []) {u : World}
    (hu : Touches w u) : ∃ d, u.state.forest.container? id = some d ∧ d.cursor = c.cursor ∧
      d.viewers = [] := by
  obtain ⟨d, hd, hframe⟩ := hu.kept.exists_container?' hc
  refine ⟨d, hd, (Container.of_bare_eq (Container.bare_of_frame_eq hframe)).2.2.1, ?_⟩
  have hkeys := Container.viewers_fst_of_frame_eq hframe
  rw [hv, List.map_nil, List.map_eq_nil_iff] at hkeys
  exact hkeys

theorem orderly_discard (hw : w.state.Sound) (hc : w.state.forest.container? id = some c)
    (hv : c.viewers = []) : (discard id).Orderly w := by
  unfold Orderly
  rw [discard_eq hc]
  apply Orderly.bind (Orderly.of_tidy (tidy_returnCursor c) hw)
  intro leftover u hu
  have htouches := (tidy_returnCursor c w hw).1
  rw [hu] at htouches
  obtain ⟨d, hd, hcursor, hnone⟩ := kept_empty hc hv htouches
  have husound := htouches.kept.sound hw
  have hmove : Move u (u.drop id c.cursor) := by
    rw [← hcursor]
    exact .drop u hd hnone
  have hcalm : World.Calm u (u.drop id c.cursor) := by
    rw [← hcursor]
    exact World.calm_drop husound hd
  unfold Orderly
  rw [dropContainer_bind]
  apply Orderly.head hmove hcalm
  exact Orderly.bind (Orderly.of_inert (inert_log _ .view)) fun _ _ _ => Orderly.of_pure _

theorem discard_ok {w' : World} {leftover : Option Stack} (hw : w.state.Sound)
    (hc : w.state.forest.container? id = some c)
    (h : discard id w = (.ok leftover, w')) :
    ∃ u note, Touches w u ∧ w' = (u.drop id c.cursor).give [.logged note] := by
  rw [discard_eq hc] at h
  obtain ⟨_, u, hu, h⟩ := bind_eq_ok h
  have htouches := (tidy_returnCursor c w hw).1
  rw [hu] at htouches
  exact ⟨u, _, htouches, (congrArg Prod.snd h).symm⟩

end Discard

def afterLeaving (viewer : ViewerId) (id : NodeId) (c : Container) : Step Closed := do
  log (.debug s!"{viewer.describe} closed container {id.describe}")
  notify (.view ⟨id, viewer, false⟩)
  let idle := (c.detach viewer).viewers.isEmpty
  let discarded := idle && !c.isResident && (← state).env.settings.discardIdleContainers
  notify (.close ⟨id, viewer, discarded⟩)
  let leftover ← if discarded then discard id else pure none
  return ⟨id, discarded, leftover⟩

section Close
variable {w : World} {v : ViewerId} {id : NodeId} {c : Container}

theorem close_of_none (h : w.state.openContainer v = none) : close v w = (.ok none, w) := by
  unfold close
  rw [state_bind, h]
  rfl

theorem close_of_some (ho : w.state.openContainer v = some id)
    (hc : w.state.forest.container? id = some c) :
    close v w = (afterLeaving v id c >>= fun r => pure (some r)) (w.leave v id) := by
  unfold close
  rw [state_bind, ho]
  simp only [update_bind, state_bind, hc]
  rfl

theorem container?_leave (hc : w.state.forest.container? id = some c) :
    (w.leave v id).state.forest.container? id = some (c.detach v) := by
  change (w.state.leave v id).forest.container? id = _
  rw [State.container?_leave, if_pos rfl, hc, Option.map_some]

theorem orderly_afterLeaving (hw : w.state.Sound)
    (hc : w.state.forest.container? id = some (c.detach v)) : (afterLeaving v id c).Orderly w := by
  apply Orderly.bind (Orderly.of_inert (inert_log _ .view))
  intro _ w₁ h₁
  have hs₁ := (inert_log _ .view).state_eq h₁
  apply Orderly.bind (Orderly.of_inert (inert_notify _))
  intro _ w₂ h₂
  have hs₂ := (inert_notify _).state_eq h₂
  unfold Orderly
  rw [state_bind]
  apply Orderly.bind (Orderly.of_inert (inert_notify _))
  intro _ w₃ h₃
  have hs₃ : w₃.state = w.state := by rw [(inert_notify _).state_eq h₃, hs₂, hs₁]
  have hempty := @orderly_discard w₃ id (c.detach v) (by rwa [hs₃]) (by rwa [hs₃])
  dsimp only
  split
  · rename_i hdiscard
    simp only [Bool.and_eq_true] at hdiscard
    exact Orderly.bind (hempty (List.isEmpty_iff.mp hdiscard.1.1)) fun _ _ _ => Orderly.of_pure _
  · exact Orderly.bind (Orderly.of_pure _) fun _ _ _ => Orderly.of_pure _

theorem orderly_close (hw : w.state.Sound) (v : ViewerId) : (close v).Orderly w := by
  unfold Orderly
  cases ho : w.state.openContainer v with
  | none =>
    rw [close_of_none ho]
    exact ⟨.refl, fun _ _ => .refl w⟩
  | some id =>
    obtain ⟨c, hc, hv⟩ := hw.openContainer_eq_some_iff.mp ho
    rw [close_of_some ho hc]
    refine Orderly.head (.leave w hc hv) (World.calm_leave w v id) ?_
    exact Orderly.bind (orderly_afterLeaving (hw.leave hc hv) (container?_leave hc))
      fun _ _ _ => Orderly.of_pure _

end Close

section Open
variable {w : World} {v : ViewerId} {id : NodeId} {c : Container}

theorem send_bind (m : Message) (next : Unit → Step β) (w : World) :
    (send m >>= next) w = next () (w.give (w.state.transport.carry m)) := rfl

theorem each_send (message : α → Message) (l : List α) (w : World) :
    each (fun a => send (message a)) l w =
      (.ok (), w.give ((l.map message).flatMap w.state.transport.carry)) := by
  induction l generalizing w with
  | nil =>
    rw [each_nil, List.map_nil, List.flatMap_nil, World.give_nil]
  | cons a rest ih =>
    rw [each_cons, send_bind, ih, World.give_give]
    rfl

def afterEntering (viewer : ViewerId) (id : NodeId) : Step Unit := do
  log (.debug s!"{viewer.describe} opened container {id.describe}")
  notify (.view ⟨id, viewer, true⟩)

theorem attach_eq (v : ViewerId) (id : NodeId) (c : Container) (w : World) :
    attach v id c w = afterEntering v id (w.enter v id c) := by
  unfold attach
  rw [state_bind]
  rw [bind_of_ok (each_send (fun r : ViewRow => .bind v r.wire r.slot) _ w), send_bind, update_bind,
    World.give_give]
  unfold World.enter World.greeting
  rw [List.flatMap_append, List.flatMap_singleton]
  rfl

theorem quiet_afterEntering (v : ViewerId) (id : NodeId) (w : World) :
    World.Quiet w (afterEntering v id w).2 := by
  have hinert : Inert (Emission.Of .view) (afterEntering v id) :=
    Inert.bind (inert_log _ .view) fun _ => inert_notify _
  obtain ⟨es, hes, hof⟩ := hinert w
  exact ⟨.view, es, hes, hof⟩

theorem containerAt_eq_ok_iff {s : State} : s.containerAt id = .ok c ↔
    s.forest.container? id = some c := by
  unfold State.containerAt Forest.container?
  cases s.forest.node? id with
  | none => simp
  | some n => cases hn : n.content <;> simp [hn, Content.container?]

theorem openContainer_close {r : Option Closed} {w' : World} (hw : w.state.Sound)
    (h : close v w = (.ok r, w')) : w'.state.openContainer v = none := by
  have hmoves : ∀ {a b : World}, Moves a b → a.state.openContainer v = none →
      a.state.Sound → b.state.openContainer v = none := by
    intro a b hab ha hsound
    induction hab with
    | refl => exact ha
    | @tail b d hab hstep ih =>
      have hb := Moves.sound hab hsound
      have hd := hstep.sound hb
      have hsub : ∀ p, p ∈ d.state.sessions → p ∈ b.state.sessions := by
        intro p hp
        cases hstep with
        | touch ht =>
          rw [ht.kept.sessions] at hp
          exact hp
        | announce _ => exact hp
        | leave _ _ => exact (List.mem_filter.mp hp).1
        | drop _ _ => exact (List.mem_filter.mp hp).1
      cases hopen : d.state.openContainer v with
      | none => rfl
      | some x =>
        rw [hb.openContainer_iff.mpr (hsub _ (hd.openContainer_iff.mp hopen))] at ih
        cases ih
  cases ho : w.state.openContainer v with
  | none =>
    rw [close_of_none ho] at h
    cases h
    exact ho
  | some id =>
    obtain ⟨c, hc, hv⟩ := hw.openContainer_eq_some_iff.mp ho
    rw [close_of_some ho hc] at h
    obtain ⟨closed, u, hu, h⟩ := bind_eq_ok h
    have hleft := hw.leave hc hv
    have horderly := (orderly_afterLeaving hleft (container?_leave hc)).1
    rw [hu] at horderly
    cases h
    refine hmoves horderly ?_ hleft
    cases hopen : (w.leave v id).state.openContainer v with
    | none => rfl
    | some x =>
      have hmem := hleft.openContainer_iff.mp hopen
      simp [State.leave] at hmem

end Open

end Step

end Stowage
