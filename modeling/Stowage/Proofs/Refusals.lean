import Stowage.Proofs.OneContainer

/-!
# Refused requests

A request that is refused has done nothing: every cause of a refusal is found before anything is
changed or given out. Opening is the one request that looks twice, and closing what the viewer had
open before cannot make the second look fail.
-/

namespace Stowage

set_option autoImplicit false

namespace Step

variable {α β : Type} {w : World}

/-- If the step refuses, the world is what it was, with all that was given out. -/
def Atomic (m : Step (Except Refusal α)) (w : World) : Prop :=
  ∀ r w', m w = (.ok (.error r), w') → w' = w

def Grants (m : Step (Except Refusal α)) : Prop :=
  ∀ w r w', m w ≠ (.ok (.error r), w')

theorem Atomic.state_bind {next : State → Step (Except Refusal α)}
    (h : (next w.state).Atomic w) : (state >>= next).Atomic w := h

theorem atomic_refused (r : Refusal) : (pure (.error r) : Step (Except Refusal α)).Atomic w := by
  intro r' w' h
  exact (congrArg Prod.snd h).symm

theorem grants_answered (a : α) : (pure (.ok a) : Step (Except Refusal α)).Grants := by
  intro w r w' h
  cases h

theorem Grants.bind {m : Step β} {next : β → Step (Except Refusal α)}
    (hn : ∀ b, (next b).Grants) : (m >>= next).Grants := by
  intro w r w' h
  obtain ⟨b, u, _, hb⟩ := bind_eq_ok h
  exact hn b u r w' hb

theorem Grants.atomic {m : Step (Except Refusal α)} (hm : m.Grants) : m.Atomic w :=
  fun r w' h => absurd h (hm w r w')

theorem atomic_instantiateId (r : Registry) (id : ArchetypeId) : (instantiateId r id).Atomic w := by
  unfold instantiateId
  split
  · exact atomic_refused _
  · exact (Grants.bind grants_answered).atomic

theorem atomic_compose (children : List (NodeId × Int)) :
    (composePrioritized children).Atomic w := by
  unfold composePrioritized
  apply Atomic.state_bind
  split
  · exact atomic_refused _
  · exact (Grants.bind fun _ => .bind fun _ => grants_answered _).atomic

theorem atomic_createContainer (top bottom : NodeId) : (createContainer top bottom).Atomic w := by
  unfold createContainer
  apply Atomic.state_bind
  split
  · exact atomic_refused _
  · exact (Grants.bind fun _ => .bind fun _ => grants_answered _).atomic

theorem atomic_removeTree (node : NodeId) : (removeTree node).Atomic w := by
  unfold removeTree
  apply Atomic.state_bind
  dsimp only
  split
  · exact atomic_refused _
  · exact (Grants.bind fun _ => .bind fun _ => grants_answered _).atomic

theorem atomic_removeContainer (id : NodeId) (c : Container) : (removeContainer id c).Atomic w := by
  unfold removeContainer
  split
  · exact (Grants.bind fun _ => grants_answered _).atomic
  · exact atomic_refused _

theorem atomic_remove (node : NodeId) : (remove node).Atomic w := by
  unfold remove
  apply Atomic.state_bind
  split
  · exact atomic_refused _
  · split
    · exact atomic_refused _
    · split
      · exact atomic_removeContainer node _
      · exact atomic_removeTree node

theorem atomic_shiftClick (custom : CustomTargets) (container : NodeId) (slot : SlotId) :
    (shiftClick custom container slot).Atomic w := by
  unfold shiftClick
  apply Atomic.state_bind
  split
  · exact atomic_refused _
  · split
    · exact (grants_answered _).atomic
    · dsimp only
      split
      · exact (grants_answered _).atomic
      · exact (Grants.bind fun _ => grants_answered _).atomic

theorem atomic_onSlotChange (node : NodeId) (react : List Emission → SlotChange → Reaction) :
    (onSlotChange node react).Atomic w := by
  unfold onSlotChange
  apply Atomic.state_bind
  split
  · exact (Grants.bind grants_answered).atomic
  · exact atomic_refused _

theorem atomic_onView (container : NodeId) (react : List Emission → ViewEvent → Reaction) :
    (onView container react).Atomic w := by
  unfold onView
  apply Atomic.state_bind
  split
  · exact atomic_refused _
  · exact (Grants.bind grants_answered).atomic

theorem atomic_onClose (container : NodeId) (react : List Emission → CloseEvent → Reaction) :
    (onClose container react).Atomic w := by
  unfold onClose
  apply Atomic.state_bind
  split
  · exact atomic_refused _
  · exact (Grants.bind grants_answered).atomic

section Open
variable {v : ViewerId} {id x : NodeId} {c d : Container} {w' : World}

theorem exists_container?_discard {leftover : Option Stack} (hw : w.state.Sound)
    (hc : w.state.forest.container? id = some c) (hv : c.viewers = [])
    (h : discard id w = (.ok leftover, w')) (hx : x ≠ id)
    (hd : w.state.forest.container? x = some d) :
    ∃ e, w'.state.forest.container? x = some e := by
  obtain ⟨u, note, htouches, rfl⟩ := discard_ok hw hc h
  obtain ⟨e, he, hcursor, _⟩ := kept_empty hc hv htouches
  obtain ⟨e', he', _⟩ := htouches.kept.exists_container?' hd
  refine ⟨e', ?_⟩
  change (u.state.drop id c.cursor).forest.container? x = some e'
  rw [← hcursor, State.container?_drop (htouches.kept.sound hw).forest he, if_neg hx, he']

theorem exists_container?_close {r : Option Closed} (hw : w.state.Sound)
    (hopen : w.state.openContainer v ≠ some x) (h : close v w = (.ok r, w'))
    (hd : w.state.forest.container? x = some d) :
    ∃ e, w'.state.forest.container? x = some e := by
  cases ho : w.state.openContainer v with
  | none =>
    rw [close_of_none ho] at h
    cases h
    exact ⟨d, hd⟩
  | some id =>
    have hx : x ≠ id := by
      rintro rfl
      exact hopen ho
    obtain ⟨c, hc, hv⟩ := hw.openContainer_eq_some_iff.mp ho
    rw [close_of_some ho hc] at h
    obtain ⟨closed, u, hafter, hpure⟩ := bind_eq_ok h
    cases hpure
    obtain ⟨y, _, hstate, _, _, hrest⟩ := afterLeaving_announced hafter
    have hleft : y.state.forest.container? x = some d := by
      rw [hstate]
      change (w.state.leave v id).forest.container? x = some d
      rw [State.container?_leave, if_neg hx, hd]
    have hsound : y.state.Sound := by
      rw [hstate]
      exact hw.leave hc hv
    obtain ⟨leftover, z, hz, hpure⟩ := bind_eq_ok hrest
    cases hpure
    cases hgoes : c.goesWith v (w.leave v id).state.env.settings with
    | false =>
      rw [hgoes] at hz
      cases hz
      exact ⟨d, hleft⟩
    | true =>
      rw [hgoes] at hz
      have hempty : (c.detach v).viewers = [] := by
        unfold Container.goesWith at hgoes
        simp only [Bool.and_eq_true] at hgoes
        exact List.isEmpty_iff.mp hgoes.1.1
      refine exists_container?_discard hsound ?_ hempty hz hx hleft
      rw [hstate]
      exact container?_leave hc

theorem atomic_openContainer (hw : w.state.Sound) (id : NodeId) (v : ViewerId) :
    (openContainer id v).Atomic w := by
  intro r w' h
  unfold openContainer at h
  rw [state_bind] at h
  cases hfirst : w.state.containerAt id with
  | error r =>
    rw [hfirst] at h
    exact atomic_refused _ _ _ h
  | ok c =>
    rw [hfirst] at h
    by_cases hopen : w.state.openContainer v = some id
    · simp only [if_pos hopen] at h
      exact absurd h (grants_answered () w r w')
    · simp only [if_neg hopen] at h
      obtain ⟨closed, u, hclose, h⟩ := bind_eq_ok h
      obtain ⟨e, he⟩ := exists_container?_close hw hopen hclose (containerAt_eq_ok_iff.mp hfirst)
      rw [state_bind, containerAt_eq_ok_iff.mpr he] at h
      exact absurd h (Grants.bind (fun _ => grants_answered ()) u r w')

end Open

end Step

/-- Nothing that is refused here has changed anything, given anything out or numbered anything. -/
structure World.RefusesCleanly (w : World) : Prop where
  instantiateId : ∀ r id, (Step.instantiateId r id).Atomic w
  composePrioritized : ∀ children, (Step.composePrioritized children).Atomic w
  compose : ∀ children, (Step.compose children).Atomic w
  createContainer : ∀ top bottom, (Step.createContainer top bottom).Atomic w
  openContainer : ∀ container v, (Step.openContainer container v).Atomic w
  remove : ∀ node, (Step.remove node).Atomic w
  shiftClick : ∀ custom container slot, (Step.shiftClick custom container slot).Atomic w
  onSlotChange : ∀ node react, (Step.onSlotChange node react).Atomic w
  onView : ∀ container react, (Step.onView container react).Atomic w
  onClose : ∀ container react, (Step.onClose container react).Atomic w

theorem refusals_are_atomic {past : List World} {w : World} (h : Run past w) :
    w.RefusesCleanly where
  instantiateId := Step.atomic_instantiateId
  composePrioritized := Step.atomic_compose
  compose := fun _ => Step.atomic_compose _
  createContainer := Step.atomic_createContainer
  openContainer := Step.atomic_openContainer h.sound
  remove := Step.atomic_remove
  shiftClick := Step.atomic_shiftClick
  onSlotChange := Step.atomic_onSlotChange
  onView := Step.atomic_onView
  onClose := Step.atomic_onClose

theorem refusals_are_atomic_chest :
    ∃ w', Step.remove ⟨0, 0⟩ (World.reached Operation.chest).2 =
      (.ok (.error (.inUse ⟨0, 0⟩ ⟨3, 0⟩)), w') ∧ w' = (World.reached Operation.chest).2 := by
  refine ⟨_, rfl, ?_⟩
  exact (refusals_are_atomic (Run.reached Operation.chest)).remove ⟨0, 0⟩ _ _ rfl

end Stowage
