import Stowage.Proofs.Container.Clicks
import Stowage.Proofs.OutermostMatches

/-!
# Where a shift-click moves to

The standard behavior moves what is in the top inventory to the bottom one and all else to the top.
In a container over a single inventory it moves away from the slots that have the same parent. But
of two inventories one may lie within the other. What is moved to the bottom then ends up in the
top, or may do so.
-/

namespace Stowage

set_option autoImplicit false

namespace Forest
variable {f : Forest} {a b x : NodeId}

theorem Sound.isWithin_slot_iff (hf : f.Sound) (ha : f.container? a = none) {slot : Slot}
    (hx : f.slot x = some slot) : f.isWithin a x = true ↔ x ∈ f.slots a := by
  rw [hf.isWithin_iff ha]
  constructor
  · rintro ⟨_, n, hu⟩
    exact hu.slots_subset hf (by rw [slots_of_slot hx]; exact List.mem_singleton_self x)
  · intro hmem
    exact ⟨contains_of_slot hx, (hf.under_of_mem_slots ha hmem).1⟩

theorem Sound.disjoint_slots (hf : f.Sound) (ha : f.container? a = none)
    (hb : f.container? b = none) (hab : f.isWithin a b = false) (hba : f.isWithin b a = false) :
    (f.slots a).Disjoint (f.slots b) := by
  intro x hxa hxb
  obtain ⟨⟨i, hi⟩, hslot⟩ := hf.under_of_mem_slots ha hxa
  obtain ⟨⟨j, hj⟩, _⟩ := hf.under_of_mem_slots hb hxb
  obtain ⟨slot, hslot⟩ := Option.isSome_iff_exists.mp hslot
  have hlive := contains_of_slot hslot
  rcases hi.comparable hf hj with ⟨k, hk⟩ | ⟨k, hk⟩
  · rw [(hf.isWithin_iff ha).mpr ⟨hj.contains hf hlive, k, hk⟩] at hab
    cases hab
  · rw [(hf.isWithin_iff hb).mpr ⟨hi.contains hf hlive, k, hk⟩] at hba
    cases hba

end Forest

namespace State
variable {s : State} {container : NodeId} {c : Container} {slot x p : SlotId}

theorem not_mem_group (hc : s.forest.container? container = some c) (hsame : c.top = c.bottom)
    (hx : x ∈ (s.standardTarget container slot).slots) (hp : s.forest.parent slot = some p)
    (hne : p ≠ c.top) : x ∉ s.forest.slots p := by
  have hresident : c.isResident = true := beq_iff_eq.mpr hsame
  unfold standardTarget View.without at hx
  rw [hc] at hx
  dsimp only at hx
  rw [if_pos hresident, hp, Option.getD_some, if_neg hne, View.mem_slots_new_iff, List.mem_filter,
    Bool.not_eq_true', List.contains_eq_mem, decide_eq_false_iff_not] at hx
  exact hx.2

/-- Between two inventories the target is the one that the slot does not lie within. -/
theorem mem_opposite (hc : s.forest.container? container = some c) (hne : c.top ≠ c.bottom)
    (hx : x ∈ (s.standardTarget container slot).slots) :
    x ∈ s.forest.fillOrder (if s.forest.isWithin c.top slot then c.bottom else c.top) := by
  have hresident : ¬ c.isResident = true := fun h => hne (beq_iff_eq.mp h)
  unfold standardTarget View.ofNode at hx
  rw [hc] at hx
  dsimp only at hx
  rwa [if_neg hresident, View.mem_slots_new_iff] at hx

/-- What was touched beside a slot lies on the other side of the container: not beside the slot, if
there is one inventory; in the bottom, if the slot is in the top, and otherwise in the top. So it
lies outside of the top, if that and the bottom do not overlap. -/
structure LeadsAway (s : State) (c : Container) (slot : SlotId) (touched : List SlotId) : Prop where
  aside : c.top = c.bottom → ∀ p, s.forest.parent slot = some p → p ≠ c.top →
    ∀ x ∈ touched, x ≠ slot → x ∉ s.forest.slots p
  down : c.top ≠ c.bottom → slot ∈ s.forest.slots c.top →
    ∀ x ∈ touched, x ≠ slot → x ∈ s.forest.slots c.bottom
  up : c.top ≠ c.bottom → slot ∉ s.forest.slots c.top →
    ∀ x ∈ touched, x ≠ slot → x ∈ s.forest.slots c.top
  away : c.top ≠ c.bottom → s.forest.isWithin c.top c.bottom = false →
    s.forest.isWithin c.bottom c.top = false → slot ∈ s.forest.slots c.top →
      ∀ x ∈ touched, x ≠ slot → x ∉ s.forest.slots c.top

end State

section Run
variable {past : List World} {w : World} {container : NodeId} {c : Container}

/-- Whatever happened before, a click on a slot of a container with the standard behavior gives a
transaction and leads away. The handles of the two inventories must not have come round again. -/
theorem clicks_lead_away (h : Run past w) (hshows : ShowsUnwrapped past w container)
    (hc : w.state.containerAt container = .ok c) (hstandard : w.state.behaviorOf c = .standard)
    (custom : CustomTargets) (slot : SlotId) :
    (w.state.env.settings.isolateListenerPanics = true →
      ∃ t w', Step.shiftClick custom container slot w = (.ok (.ok t), w')) ∧
    ∀ t w', Step.shiftClick custom container slot w = (.ok (.ok t), w') →
      w.state.LeadsAway c slot t.touched := by
  refine ⟨?_, fun t w' hclick => ?_⟩
  · intro hisolated
    obtain ⟨r, w', hclick, _⟩ := Step.returns_shiftClick custom container slot w hisolated
    obtain ⟨t, rfl⟩ := Step.shiftClick_answers hc hclick
    exact ⟨t, w', hclick⟩
  · have hat := Step.containerAt_eq_ok_iff.mp hc
    have hf := h.sound.forest
    have htarget : ∀ x ∈ t.touched, x ≠ slot →
        (∃ live, w.state.forest.slot slot = some live) ∧
          x ∈ (w.state.standardTarget container slot).slots := by
      intro x hx hother
      obtain ⟨hmovable, hmem⟩ := Step.touched_shiftClick h.sound hc hclick hx hother
      obtain ⟨stack, hstack⟩ := Option.ne_none_iff_exists'.mp hmovable
      obtain ⟨live, hlive, _⟩ := Option.bind_eq_some_iff.mp (State.contents_of_movable hstack)
      rw [hstandard] at hmem
      exact ⟨⟨live, hlive⟩, hmem⟩
    have htop : w.state.forest.container? c.top = none := h.overPlain hshows c.top (by
      rw [Forest.children_of_container? hat, Container.mem_children_iff]
      exact Or.inl rfl)
    have hbottom : w.state.forest.container? c.bottom = none := h.overPlain hshows c.bottom (by
      rw [Forest.children_of_container? hat, Container.mem_children_iff]
      exact Or.inr rfl)
    have hdown : c.top ≠ c.bottom → slot ∈ w.state.forest.slots c.top →
        ∀ x ∈ t.touched, x ≠ slot → x ∈ w.state.forest.slots c.bottom := by
      intro hne hslot x hx hother
      obtain ⟨⟨live, hlive⟩, hmem⟩ := htarget x hx hother
      have hopposite := State.mem_opposite hat hne hmem
      rw [if_pos ((hf.isWithin_slot_iff htop hlive).mpr hslot)] at hopposite
      exact (hf.fillOrder_perm hbottom).mem_iff.mp hopposite
    refine ⟨?_, hdown, ?_, ?_⟩
    · intro hsame p hp hne x hx hother
      exact State.not_mem_group hat hsame (htarget x hx hother).2 hp hne
    · intro hne hslot x hx hother
      obtain ⟨⟨live, hlive⟩, hmem⟩ := htarget x hx hother
      have hopposite := State.mem_opposite hat hne hmem
      rw [if_neg fun hwithin => hslot ((hf.isWithin_slot_iff htop hlive).mp hwithin)] at hopposite
      exact (hf.fillOrder_perm htop).mem_iff.mp hopposite
    · intro hne hbelow habove hslot x hx hother hmem
      exact hf.disjoint_slots htop hbottom hbelow habove hmem (hdown hne hslot x hx hother)

theorem clicks_lead_away_apples : ∃ c t w',
    (World.reached Operation.apples).2.state.containerAt ⟨3, 0⟩ = .ok c ∧
    Step.clickChest (World.reached Operation.apples).2 = (.ok (.ok t), w') ∧
    t.touched = [⟨0, 0⟩, ⟨1, 0⟩] ∧
    (World.reached Operation.apples).2.state.LeadsAway c ⟨0, 0⟩ t.touched := by
  have hthere : ((World.reached Operation.apples).2.state.containerAt ⟨3, 0⟩).toOption.any
      (fun c => (World.reached Operation.apples).2.state.behaviorOf c = .standard) = true := by
    decide +kernel
  obtain ⟨c, hc, hstandard⟩ := exists_ok_of_any hthere
  obtain ⟨hreturns, hleads⟩ := clicks_lead_away (Run.reached Operation.apples)
    (fun _ _ => ⟨unwrapped_of_length (by decide), unwrapped_of_length (by decide)⟩) hc
    (of_decide_eq_true hstandard) (fun _ _ _ _ => .empty) ⟨0, 0⟩
  obtain ⟨t, w', hclick⟩ := hreturns (by decide +kernel)
  have htouched : (Step.clickChest (World.reached Operation.apples).2).1.toOption.any
      (fun r => r.toOption.any fun t => t.touched = [⟨0, 0⟩, ⟨1, 0⟩]) = true := by decide +kernel
  change Step.clickChest _ = _ at hclick
  rw [hclick] at htouched
  exact ⟨c, t, w', hc, hclick, of_decide_eq_true htouched, hleads t w' hclick⟩

def Operation.nested : List Operation :=
  [.instantiate .anySlot Archetype.anySlot_made, .instantiate .anySlot Archetype.anySlot_made,
    .compose [(⟨0, 0⟩, 5), (⟨1, 0⟩, 5)], .instantiate .anySlot Archetype.anySlot_made,
    .compose [(⟨2, 0⟩, 5), (⟨3, 0⟩, 5)], .createContainer ⟨2, 0⟩ ⟨4, 0⟩,
    .set ⟨0, 0⟩ (some (.new ⟨"minecraft:apple"⟩ 5))]

def Step.clickNested : Step (Except Refusal Transaction) :=
  shiftClick (fun _ _ _ _ => .empty) ⟨6, 0⟩ ⟨0, 0⟩

/-- The apples go into the other slot of the row and not into the third slot. -/
theorem click_stays_inside :
    ¬ ∀ (past : List World) (w w' : World) (container : NodeId) (c : Container)
      (custom : CustomTargets) (slot : SlotId) (t : Transaction), Run past w →
        w.state.containerAt container = .ok c → w.state.behaviorOf c = .standard →
          Step.shiftClick custom container slot w = (.ok (.ok t), w') → c.top ≠ c.bottom →
            slot ∈ w.state.forest.slots c.top →
              ∀ x ∈ t.touched, x ≠ slot → x ∉ w.state.forest.slots c.top := by
  intro h
  have hthere : ((World.reached Operation.nested).2.state.containerAt ⟨6, 0⟩).toOption.any
      (fun c => (World.reached Operation.nested).2.state.behaviorOf c = .standard ∧
        c.top = ⟨2, 0⟩ ∧ c.bottom = ⟨4, 0⟩) = true := by decide +kernel
  obtain ⟨c, hc, hthere⟩ := exists_ok_of_any hthere
  obtain ⟨hstandard, htop, hbottom⟩ := of_decide_eq_true hthere
  have hslots : (World.reached Operation.nested).2.state.forest.slots ⟨2, 0⟩ =
      [⟨0, 0⟩, ⟨1, 0⟩] := by decide +kernel
  have htouched : (Step.clickNested (World.reached Operation.nested).2).1.toOption.any
      (fun r => r.toOption.any fun t => t.touched = [⟨0, 0⟩, ⟨1, 0⟩]) = true := by decide +kernel
  obtain ⟨r, w', hclick, _⟩ := Step.returns_shiftClick (fun _ _ _ _ => .empty) ⟨6, 0⟩ ⟨0, 0⟩
    (World.reached Operation.nested).2 (by decide +kernel)
  obtain ⟨t, rfl⟩ := Step.shiftClick_answers hc hclick
  have hclick' : Step.clickNested _ = _ := hclick
  rw [hclick'] at htouched
  have hclaimed := h _ _ w' _ c _ _ t (Run.reached Operation.nested) hc hstandard hclick
    (by rw [htop, hbottom]; decide) (by rw [htop, hslots]; decide) ⟨1, 0⟩
    (by rw [of_decide_eq_true htouched]; decide) (by decide)
  rw [htop, hslots] at hclaimed
  exact hclaimed (by decide)

end Run

end Stowage
