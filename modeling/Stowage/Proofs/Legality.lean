import Stowage.Proofs.Forest.Furnishing
import Stowage.Proofs.Operation
import Stowage.Proofs.Reports

/-!
# Slots stay legal while containers and inventories come and go

Closing puts the cursor away by an offer, and all else that opening, closing and removing do leaves
the slots that stay as they are. New inventories come with unused slots.
-/

namespace Stowage

set_option autoImplicit false

theorem State.Legal.furnish {own : SlotId → Prop} {s t : State} (h : s.Legal own)
    (henv : t.env = s.env) (hslots : s.forest.Furnished t.forest) : t.Legal own := by
  intro x slot hslot
  rw [henv]
  rcases hslots x slot hslot with hold | hnew
  · exact h x slot hold
  · refine ⟨hnew.limit, ?_⟩
    intro held hheld
    rw [hnew.empty] at hheld
    cases hheld

namespace Step

variable {α β : Type}

structure Lawful (own : SlotId → Prop) (m : Step α) (w : World) : Prop where
  sound : (m w).2.state.Sound
  legal : (m w).2.state.Legal own

namespace Lawful
variable {own : SlotId → Prop} {m : Step α} {w : World}

theorem of_state_eq (hw : w.state.Sound) (hl : w.state.Legal own) (h : (m w).2.state = w.state) :
    m.Lawful own w := by
  constructor
  · rw [h]
    exact hw
  · rw [h]
    exact hl

theorem of_pure (hw : w.state.Sound) (hl : w.state.Legal own) (a : α) :
    (pure a : Step α).Lawful own w :=
  ⟨hw, hl⟩

theorem of_inert {P : Emission → Prop} (hm : Inert P m) (hw : w.state.Sound)
    (hl : w.state.Legal own) :
    m.Lawful own w := by
  obtain ⟨es, hes, _⟩ := hm w
  exact of_state_eq hw hl (by rw [hes]; rfl)

theorem of_tidy (hm : m.Tidy) (hw : w.state.Sound) (hl : (m w).2.state.Legal own) :
    m.Lawful own w :=
  ⟨(hm w hw).1.kept.sound hw, hl⟩

theorem bind {next : α → Step β} (hm : m.Lawful own w)
    (hn : ∀ a u, m w = (.ok a, u) → u.state.Sound → u.state.Legal own → (next a).Lawful own u) :
    (m >>= next).Lawful own w := by
  obtain ⟨hsound, hlegal⟩ := hm
  rcases h : m w with ⟨r, u⟩
  rw [h] at hsound hlegal
  cases r with
  | error e =>
    refine ⟨?_, ?_⟩ <;> rw [bind_of_error h]
    · exact hsound
    · exact hlegal
  | ok a =>
    have hnext := hn a u h hsound hlegal
    refine ⟨?_, ?_⟩ <;> rw [bind_of_ok h]
    · exact hnext.sound
    · exact hnext.legal

theorem state_bind {next : State → Step α} (h : (next w.state).Lawful own w) :
    (state >>= next).Lawful own w := ⟨h.sound, h.legal⟩

theorem of_eq {m' : Step α} {w' : World} (h : m w = m' w') (h' : m'.Lawful own w') :
    m.Lawful own w := by
  constructor
  · rw [h]
    exact h'.sound
  · rw [h]
    exact h'.legal

end Lawful

section Close
variable {own : SlotId → Prop} {w : World} {v : ViewerId} {id : NodeId} {c : Container}

theorem lawful_returnCursor (hw : w.state.Sound) (hl : w.state.Legal own) (c : Container) :
    (returnCursor c).Lawful own w := by
  refine .state_bind ?_
  cases w.state.contents c.cursor with
  | none => exact .of_pure hw hl none
  | some stack =>
    dsimp only
    split
    · have hcommit := legal_commit hw hl (w.state.takes_none c.cursor)
      refine .bind (.of_tidy (tidy_commit c.cursor none) hw hcommit) ?_
      intro _ u _ hu hul
      have hwrites : Writes (u.state.Takes own) Offered.changes (offerTo c.bottom stack) u :=
        ⟨_, u.state.offerPuts_takes _ stack, commits_offerTo c.bottom stack u⟩
      have hoffer := hwrites.legal hu hul
      refine .bind (.of_tidy (tidy_offerTo c.bottom stack) hu hoffer) ?_
      intro o u' _ hu' hul'
      exact .of_pure hu' hul' _
    · exact .of_pure hw hl _

theorem legal_drop (hl : w.state.Legal own) (id : NodeId) (cursor : SlotId) :
    (w.drop id cursor).state.Legal own := by
  refine hl.furnish rfl ?_
  change w.state.forest.Furnished (w.state.drop id cursor).forest
  rw [State.forest_drop]
  exact .removed _ _

theorem lawful_discard (hw : w.state.Sound) (hl : w.state.Legal own) (id : NodeId) :
    (discard id).Lawful own w := by
  cases hc : w.state.forest.container? id with
  | none =>
    refine .state_bind ?_
    rw [hc]
    exact .of_pure hw hl none
  | some c =>
    refine .of_eq (discard_eq hc) (.bind (lawful_returnCursor hw hl c) ?_)
    intro leftover u hu husound hulegal
    have htouches := (tidy_returnCursor c w hw).1
    rw [hu] at htouches
    obtain ⟨d, hd, hframe⟩ := htouches.kept.exists_container?' hc
    have hcursor := (Container.of_bare_eq (Container.bare_of_frame_eq hframe)).2.2.1
    have hdrop : (u.drop id c.cursor).state.Sound := by
      rw [← hcursor]
      exact husound.drop hd
    refine .of_eq (dropContainer_bind id c.cursor _ u) ?_
    refine .bind (.of_inert (inert_log _ .view) hdrop (legal_drop hulegal id c.cursor)) ?_
    intro _ u' _ hu' hul'
    exact .of_pure hu' hul' leftover

theorem lawful_afterLeaving (hw : w.state.Sound) (hl : w.state.Legal own) (v : ViewerId)
    (id : NodeId) (c : Container) : (afterLeaving v id c).Lawful own w := by
  refine .bind (.of_inert (inert_log _ .view) hw hl) ?_
  intro _ w₁ _ hw₁ hl₁
  refine .bind (.of_inert (inert_notify _) hw₁ hl₁) ?_
  intro _ w₂ _ hw₂ hl₂
  refine .state_bind (.bind (.of_inert (inert_notify _) hw₂ hl₂) ?_)
  intro _ w₃ _ hw₃ hl₃
  dsimp only
  split
  · refine .bind (lawful_discard hw₃ hl₃ id) ?_
    intro leftover u _ hu hul
    exact .of_pure hu hul _
  · exact .of_pure hw₃ hl₃ _

theorem lawful_close (hw : w.state.Sound) (hl : w.state.Legal own) (v : ViewerId) :
    (close v).Lawful own w := by
  cases ho : w.state.openContainer v with
  | none =>
    refine .of_state_eq hw hl ?_
    rw [close_of_none ho]
  | some id =>
    obtain ⟨c, hc, hv⟩ := hw.openContainer_eq_some_iff.mp ho
    have hleft : (w.leave v id).state.Legal own := hl.furnish rfl (.of_slot_eq (w.slot_leave v id))
    refine .of_eq (close_of_some ho hc) ?_
    refine .bind (lawful_afterLeaving (hw.leave hc hv) hleft v id c) ?_
    intro closed u _ hu hul
    exact .of_pure hu hul _

end Close

section Legal
variable {own : SlotId → Prop} {w : World}

theorem legal_attach (hl : w.state.Legal own) (v : ViewerId) (id : NodeId) (c : Container) :
    (attach v id c w).2.state.Legal own := by
  rw [attach_eq, (quiet_afterEntering v id (w.enter v id c)).state_eq]
  exact hl.furnish rfl (.of_slot_eq (w.slot_enter v id c))

theorem legal_openContainer (hw : w.state.Sound) (hl : w.state.Legal own) (id : NodeId)
    (v : ViewerId) : (openContainer id v w).2.state.Legal own := by
  unfold openContainer
  rw [state_bind]
  cases w.state.containerAt id with
  | error r => exact hl
  | ok _ =>
    dsimp only
    split
    · exact hl
    · have hclose := (lawful_close hw hl v).legal
      rcases h : close v w with ⟨r, u⟩
      rw [h] at hclose
      cases r with
      | error e =>
        rw [bind_of_error h]
        exact hclose
      | ok closed =>
        rw [bind_of_ok h, state_bind]
        cases u.state.containerAt id with
        | error r => exact hclose
        | ok c =>
          dsimp only
          rw [map_snd]
          exact legal_attach hclose v id c

theorem legal_remove (hw : w.state.Sound) (hl : w.state.Legal own) (node : NodeId) :
    (remove node w).2.state.Legal own := by
  unfold remove
  rw [state_bind]
  cases w.state.forest.node? node with
  | none => exact hl
  | some n =>
    dsimp only
    split
    · exact hl
    · have htree : (removeTree node w).2.state.Legal own := by
        unfold removeTree
        rw [state_bind]
        cases w.state.showing (w.state.forest.descendants node ++ [node]) with
        | some id => exact hl
        | none => exact hl.furnish rfl (.removed _ _)
      cases n.content with
      | container c =>
        dsimp only [removeContainer]
        split
        · rw [map_snd]
          exact (lawful_discard hw hl node).legal
        · exact hl
      | slot s => exact htree
      | ordered k => exact htree
      | grid g => exact htree

theorem legal_instantiate (hw : w.state.Sound) (hl : w.state.Legal own)
    (hlimit : w.state.env.settings.defaultMaxStackSize ≤ maxQuantity) {a : Archetype}
    (made : a.Made) (hr : a.InRange) : (instantiate a w).2.state.Legal own :=
  hl.furnish rfl (Forest.instantiate_furnished hlimit hw.forest made.fits hr)

theorem legal_instantiateId (hw : w.state.Sound) (hl : w.state.Legal own)
    (hlimit : w.state.env.settings.defaultMaxStackSize ≤ maxQuantity) {r : Registry}
    {id : ArchetypeId} (made : ∀ a, r.get? id = some a → a.Made)
    (hr : ∀ a, r.get? id = some a → a.InRange) : (instantiateId r id w).2.state.Legal own := by
  unfold instantiateId
  cases ha : r.get? id with
  | none => exact hl
  | some a =>
    dsimp only
    rw [map_snd]
    exact legal_instantiate hw hl hlimit (made a ha) (hr a ha)

theorem legal_compose (hw : w.state.Sound) (hl : w.state.Legal own)
    (children : List (NodeId × Int)) :
    (composePrioritized children w).2.state.Legal own := by
  unfold composePrioritized
  rw [state_bind]
  cases hg : w.state.forest.compose children with
  | error r => exact hl
  | ok g => exact hl.furnish rfl (Forest.compose_furnished hw.forest hg)

theorem legal_createContainer (hw : w.state.Sound) (hl : w.state.Legal own)
    (hlimit : w.state.env.settings.defaultMaxStackSize ≤ maxQuantity) (top bottom : NodeId) :
    (createContainer top bottom w).2.state.Legal own := by
  unfold createContainer
  rw [state_bind]
  dsimp only
  cases (w.state.forest.showRefusal top <|> w.state.forest.showRefusal bottom) with
  | some r => exact hl
  | none => exact hl.furnish rfl (Forest.addContainer_furnished hlimit hw.forest top bottom)

theorem legal_onSlotChange (hl : w.state.Legal own) (node : NodeId)
    (react : List Emission → SlotChange → Reaction) :
    (onSlotChange node react w).2.state.Legal own := by
  unfold onSlotChange
  rw [state_bind]
  split <;> exact hl

theorem legal_onView (hl : w.state.Legal own) (container : NodeId)
    (react : List Emission → ViewEvent → Reaction) :
    (onView container react w).2.state.Legal own := by
  unfold onView
  rw [state_bind]
  cases w.state.containerAt container <;> exact hl

theorem legal_onClose (hl : w.state.Legal own) (container : NodeId)
    (react : List Emission → CloseEvent → Reaction) :
    (onClose container react w).2.state.Legal own := by
  unfold onClose
  rw [state_bind]
  cases w.state.containerAt container <;> exact hl

end Legal

end Step

end Stowage
