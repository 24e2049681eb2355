import Stowage.Proofs.Diffs
import Stowage.Proofs.Isolation
import Stowage.Proofs.OfferPriority

/-!
# Equipment before the rest

What is moved out of a player's main inventory is offered to the equipment slots that are typed for
it, and behind them to all others. But an offer goes through its slots twice, and empty slots wait
for the second time: slots that hold some of the same already come before empty equipment slots.
With this exception equipment comes first.
-/

namespace Stowage

set_option autoImplicit false

namespace State
variable {s t : State} {stack : Stack} {x y slot : SlotId}

def roomFor (s : State) (stack : Stack) (x : SlotId) : Bool :=
  (s.forest.slot x).any fun slot => slot.hasRoom s.env.rules stack

def Gains (s t : State) (x : SlotId) : Prop :=
  ∃ k : ItemClass, k.unitsIn (s.contents x) < k.unitsIn (t.contents x)

def gear (s : State) (equipment : List ArchetypeId) (container : NodeId) (slot : SlotId)
    (e : Equipment) : List SlotId :=
  (distinct (equipment.flatMap fun a => (s.search container [.archetype a]).slots)).filter fun x =>
    x ≠ slot && (s.equipmentTypes x).any fun t => t.includes e

theorem slot_map_contents (s : State) (x : SlotId) :
    (s.forest.slot x).map (fun live => { live with contents := s.contents x }) =
      s.forest.slot x := by
  cases hlive : s.forest.slot x with
  | none => rfl
  | some live =>
    rw [contents_of_slot hlive]
    rfl

/-- Between two states the stack went from a slot into others, and into the gear first. Gear that
was empty may be left with room when a slot elsewhere held some of the same. -/
structure GearFirst (s t : State) (gear : List SlotId) (slot : SlotId) (stack : Stack) : Prop where
  elsewhere : ∀ x, x ∉ gear → x ≠ slot → s.Gains t x → ∀ y ∈ gear, t.roomFor stack y = true →
    s.contents y = none ∧ ∃ held, s.contents x = some held ∧ held.mergesWith stack = true
  inOrder : ∀ y x, [y, x].Sublist gear → s.Gains t x →
    (s.contents x = none ∨ s.contents y ≠ none) → t.roomFor stack y = false

theorem GearFirst.of_same {gear : List SlotId}
    (h : ∀ x, t.forest.slot x = s.forest.slot x) : s.GearFirst t gear slot stack := by
  have hidle : ∀ x, ¬ s.Gains t x := by
    rintro x ⟨k, hk⟩
    rw [contents_of_slot_eq (h x)] at hk
    exact Nat.lt_irrefl _ hk
  exact ⟨fun x _ _ hx => absurd hx (hidle x), fun _ x _ hx => absurd hx (hidle x)⟩

section Offer
variable {order gear : List SlotId} (horder : order.Nodup) (hslot : slot ∉ order)
  (hahead : gear <+: order) (henv : t.env = s.env)
  (hleft : ∀ x, x ≠ slot → t.forest.slot x = (s.forest.slot x).map fun live =>
    { live with contents := (s.planOffer order stack).after s x })
include hleft

theorem mem_puts_of_gains (hx : x ≠ slot) (h : s.Gains t x) :
    x ∈ (s.planOffer order stack).puts.map Prod.fst := by
  by_contra hmem
  obtain ⟨k, hk⟩ := h
  have hsame : t.forest.slot x = s.forest.slot x := by
    rw [hleft x hx, OfferPlan.after_of_not_mem hmem, slot_map_contents]
  rw [contents_of_slot_eq hsame] at hk
  exact Nat.lt_irrefl _ hk

include henv in
theorem roomFor_of_settled (hy : y ≠ slot)
    (h : OfferPlan.Settled s stack (s.planOffer order stack) y) : t.roomFor stack y = false := by
  unfold roomFor
  rw [hleft y hy, henv]
  cases hlive : s.forest.slot y with
  | none => rfl
  | some live => exact h live hlive

include horder hslot hahead henv in
theorem GearFirst.of_offer (hsteady : ∀ y ∈ gear, ∀ live, s.forest.slot y = some live →
    live.filter.Steady s.env.rules) : s.GearFirst t gear slot stack := by
  have hother : ∀ z ∈ order, z ≠ slot := fun z hz he => hslot (he ▸ hz)
  refine ⟨?_, ?_⟩
  · intro x hx hxslot hgains y hy hroom
    have hput := mem_puts_of_gains hleft hxslot hgains
    obtain ⟨rest, rfl⟩ := hahead
    have hrest : x ∈ rest :=
      (List.mem_append.mp (s.planOffer_puts_subset _ stack hput)).resolve_left hx
    have hyx : [y, x].Sublist (gear ++ rest) :=
      (List.singleton_sublist.mpr hy).append (List.singleton_sublist.mpr hrest)
    have hlate : ¬ (s.contents x = none ∨ s.contents y ≠ none) := by
      intro hturn
      have hsettled := planOffer_settles horder hyx (hsteady y hy) hput hturn
      rw [roomFor_of_settled henv hleft (hother y (List.mem_append_left _ hy)) hsettled] at hroom
      cases hroom
    rw [not_or, not_not] at hlate
    obtain ⟨held, hheld⟩ := Option.ne_none_iff_exists'.mp hlate.1
    exact ⟨hlate.2, held, hheld, planOffer_merges hput hheld⟩
  · intro y x hyx hgains hturn
    have hy : y ∈ gear := hyx.subset List.mem_cons_self
    have hx : x ∈ gear := hyx.subset (List.mem_cons_of_mem _ List.mem_cons_self)
    have hput := mem_puts_of_gains hleft (hother x (hahead.subset hx)) hgains
    have hsettled := planOffer_settles horder (hyx.trans hahead.sublist) (hsteady y hy) hput hturn
    exact roomFor_of_settled henv hleft (hother y (hahead.subset hy)) hsettled

end Offer

/-- The gear comes first among the slots that a click in the main inventory moves to. -/
theorem gear_first {c : Container} {main : ArchetypeId} {equipment : List ArchetypeId}
    {container : NodeId} {e : Equipment} (custom : CustomTargets)
    (hbehavior : s.behaviorOf c = .player main equipment)
    (hmain : (s.search container [.archetype main]).containsSlot slot = true)
    (hstack : s.contents slot = some stack) (htype : s.env.rules.equipment stack.kind = some e) :
    s.gear equipment container slot e <+: s.shiftTarget custom container slot c := by
  have htarget : s.target custom container slot (s.behaviorOf c) =
      (s.equipmentTarget equipment container slot).union (s.standardTarget container slot) := by
    rw [hbehavior]
    exact if_pos hmain
  have hequipment : (s.equipmentTarget equipment container slot).slots =
      (distinct (equipment.flatMap fun a => (s.search container [.archetype a]).slots)).filter
        fun x => (s.equipmentTypes x).any fun t => t.includes e := by
    unfold equipmentTarget
    rw [hstack, Option.bind_some, htype]
    dsimp only
    rw [View.ofSlots, View.slots_new, distinct_filter]
  unfold shiftTarget View.without
  rw [htarget, View.union, View.slots_new, View.slots_new, distinct_filter,
    distinct_of_nodup (nodup_distinct _), hequipment]
  have hfirst := (distinct_starts ((distinct (equipment.flatMap fun a =>
    (s.search container [.archetype a]).slots)).filter fun x =>
      (s.equipmentTypes x).any fun t => t.includes e)
    (s.standardTarget container slot).slots).filter fun x => !([slot].contains x)
  rw [distinct_of_nodup ((nodup_distinct _).filter _), List.filter_filter] at hfirst
  have hsame : s.gear equipment container slot e =
      (distinct (equipment.flatMap fun a => (s.search container [.archetype a]).slots)).filter
        fun x => !([slot].contains x) && (s.equipmentTypes x).any fun t => t.includes e := by
    unfold gear
    refine List.filter_congr fun x _ => ?_
    simp
  rw [hsame]
  exact hfirst

end State

namespace Step
variable {w w' : World} {custom : CustomTargets} {container : NodeId} {slot : SlotId}
  {c : Container} {stack : Stack}

theorem returns_shiftClick (custom : CustomTargets) (container : NodeId) (slot : SlotId) :
    (shiftClick custom container slot).Returns := by
  apply Returns.state_bind
  intro s _
  split
  · exact .of_pure _
  · split
    · exact .of_pure _
    · dsimp only
      split
      · exact .of_pure _
      · exact .bind (returns_commitAll _) fun _ => .of_pure _

/-- A shift-click changes nothing, or leaves in all other slots what the offer has for them. -/
theorem shiftClick_ok (hw : w.state.Sound) (hc : w.state.containerAt container = .ok c)
    (hstack : w.state.contents slot = some stack) {r : Except Refusal Transaction}
    (h : shiftClick custom container slot w = (.ok r, w')) : (∃ t, r = .ok t) ∧
      ((∀ x, w'.state.forest.slot x = w.state.forest.slot x) ∨
        ∀ x, x ≠ slot → w'.state.forest.slot x = (w.state.forest.slot x).map fun live =>
          { live with contents := (w.state.planOffer
            (w.state.shiftTarget custom container slot c) stack).after w.state x }) := by
  have hmovable : w.state.movable c slot = none ∨ w.state.movable c slot = some stack := by
    unfold State.movable
    split
    · exact Or.inr hstack
    · exact Or.inl rfl
  have hnodup := w.state.nodup_shiftPuts custom container slot
  unfold State.shiftPuts at hnodup
  unfold shiftClick at h
  rw [hc] at hnodup
  rw [state_bind, hc] at h
  dsimp only [Except.toOption, Option.bind] at h hnodup
  rcases hmovable with hmovable | hmovable
  · rw [hmovable] at h
    cases h
    exact ⟨⟨_, rfl⟩, Or.inl fun _ => rfl⟩
  · rw [hmovable] at h hnodup
    dsimp only at h
    split at h
    · cases h
      exact ⟨⟨_, rfl⟩, Or.inl fun _ => rfl⟩
    · obtain ⟨cs, u, hcommit, h⟩ := bind_eq_ok h
      cases h
      refine ⟨⟨_, rfl⟩, Or.inr fun x hx => ?_⟩
      by_cases hmem : x ∈ (w.state.planOffer
          (w.state.shiftTarget custom container slot c) stack).puts.map Prod.fst
      · obtain ⟨⟨y, a⟩, hput, rfl⟩ := List.mem_map.mp hmem
        have hdistinct := (List.nodup_cons.mp hnodup).2
        rw [State.offerPuts_fst] at hdistinct
        rw [OfferPlan.after_of_mem hdistinct hput, (commitAll_ok hw hnodup hcommit).2 y (some a)
          (List.mem_cons_of_mem _ (List.mem_map_of_mem hput)), Forest.slot_setContents, if_pos rfl]
      · rw [OfferPlan.after_of_not_mem hmem, State.slot_map_contents]
        refine slot_commitAll_of_not_mem hw hcommit ?_
        rw [List.map_cons, List.mem_cons, not_or]
        refine ⟨hx, ?_⟩
        change x ∉ (w.state.offerPuts (w.state.shiftTarget custom container slot c) stack).map
          Prod.fst
        rwa [State.offerPuts_fst]

end Step

section Run
variable {past : List World} {w : World} {container : NodeId} {slot : SlotId} {c : Container}
  {main : ArchetypeId} {equipment : List ArchetypeId} {stack : Stack} {e : Equipment}

/-- A shift-click on a slot of a player's main inventory that holds a piece of equipment gives a
transaction, whatever happened before. Slots that are not typed for the piece get none of it before
the ones that are have no room left, unless these were empty and the former held some already. Among
the typed ones those go first that come first in the declared order. -/
theorem equipment_is_filled_first (h : Run past w) (custom : CustomTargets)
    (hc : w.state.containerAt container = .ok c)
    (hbehavior : w.state.behaviorOf c = .player main equipment)
    (hmain : (w.state.search container [.archetype main]).containsSlot slot = true)
    (hstack : w.state.contents slot = some stack)
    (htype : w.state.env.rules.equipment stack.kind = some e)
    (hsteady : ∀ y ∈ w.state.gear equipment container slot e, ∀ live,
      w.state.forest.slot y = some live → live.filter.Steady w.state.env.rules) :
    (w.state.env.settings.isolateListenerPanics = true →
      ∃ t w', Step.shiftClick custom container slot w = (.ok (.ok t), w')) ∧
    ∀ r w', Step.shiftClick custom container slot w = (.ok r, w') → (∃ t, r = .ok t) ∧
      w.state.GearFirst w'.state (w.state.gear equipment container slot e) slot stack := by
  refine ⟨?_, ?_⟩
  · intro hisolated
    obtain ⟨r, w', hclick, _⟩ := Step.returns_shiftClick custom container slot w hisolated
    obtain ⟨⟨t, rfl⟩, _⟩ := Step.shiftClick_ok h.sound hc hstack hclick
    exact ⟨t, w', hclick⟩
  · intro r w' hclick
    obtain ⟨ht, hleft⟩ := Step.shiftClick_ok h.sound hc hstack hclick
    refine ⟨ht, ?_⟩
    rcases hleft with hsame | hleft
    · exact .of_same hsame
    · have htidy := Step.tidy_shiftClick custom container slot w h.sound
      rw [hclick] at htidy
      exact .of_offer (View.nodup_new _ _) (View.not_mem_without _ slot)
        (State.gear_first custom hbehavior hmain hstack htype) htidy.1.kept.env hleft hsteady

end Run

section Pumpkins

theorem exists_ok_of_any {r : Except Refusal Container} {p : Container → Bool}
    (h : r.toOption.any p = true) : ∃ c, r = .ok c ∧ p c = true := by
  cases r with
  | error e => cases h
  | ok c => exact ⟨c, rfl, h⟩

def ItemKind.pumpkin : ItemKind := ⟨"minecraft:carved_pumpkin"⟩

def ArchetypeId.main : ArchetypeId := ⟨"minecraft", "main"⟩

def ArchetypeId.helmet : ArchetypeId := ⟨"minecraft", "helmet"⟩

def Archetype.mainSlot : Archetype := .frozen (some .main) Builder.slot.draft ⟨.slot, 1, []⟩ []

theorem Archetype.mainSlot_made : mainSlot.Made :=
  .frozen (.kind .slot .unset) (show Builder.slot.freeze (some .main) = .ok mainSlot from rfl)

def Archetype.helmet : Archetype :=
  .frozen (some .helmet) (Builder.slot.equipment .headwear).draft ⟨.slot, 1, []⟩ []

theorem Archetype.helmet_made : helmet.Made :=
  .frozen (.filter _ (.propertyKeyed _ _ _ (.kind .slot .unset)))
    (show (Builder.slot.equipment .headwear).freeze (some .helmet) = .ok helmet from rfl)

def Builder.wardrobe : Builder :=
  (((ordered.add .mainSlot defaultPriority).add .anySlot defaultPriority).add .helmet
    defaultPriority).shiftClick (.player .main [.helmet])

def Archetype.wardrobe : Archetype :=
  .frozen none Builder.wardrobe.draft ⟨.ordered, 3, []⟩ Builder.wardrobe.children

theorem Archetype.wardrobe_made : wardrobe.Made :=
  .frozen (.shiftClick _ (.place _ _ (.place _ _ (.place _ _ (.kind .ordered .unset) mainSlot_made)
    anySlot_made) helmet_made)) (show Builder.wardrobe.freeze none = .ok wardrobe from rfl)

def World.autumn : World :=
  ⟨.new { (default : Environment) with
    rules := (ItemCatalog.empty.recordEquipment .pumpkin .headwear).rules } .live .absent, []⟩

def Operation.harvest (pumpkins : List (SlotId × Nat)) : List Operation :=
  [.instantiate .wardrobe Archetype.wardrobe_made, .createContainer ⟨3, 0⟩ ⟨3, 0⟩] ++
    pumpkins.map fun (x, n) => .set x (some (.new .pumpkin n))

theorem Run.harvest (pumpkins : List (SlotId × Nat)) :
    Run (Operation.through [] .autumn (Operation.harvest pumpkins)).1
      (Operation.through [] .autumn (Operation.harvest pumpkins)).2 :=
  (Run.start _ .live .absent).through _

def Step.clickMain : Step (Except Refusal Transaction) :=
  shiftClick (fun _ _ _ _ => .empty) ⟨5, 0⟩ ⟨0, 0⟩

def World.worn : World :=
  (Operation.through [] .autumn (Operation.harvest [(⟨0, 0⟩, 10), (⟨2, 0⟩, 60)])).2

theorem equipment_is_filled_first_worn : ∃ t w', Step.clickMain World.worn = (.ok (.ok t), w') ∧
    World.worn.state.Gains w'.state ⟨1, 0⟩ ∧
    w'.state.roomFor (.new .pumpkin 10) ⟨2, 0⟩ = false := by
  have hthere : (World.worn.state.containerAt ⟨5, 0⟩).toOption.any (fun c =>
      World.worn.state.behaviorOf c = .player .main [.helmet]) = true := by decide +kernel
  obtain ⟨c, hc, hbehavior⟩ := exists_ok_of_any hthere
  have hmain : (World.worn.state.search ⟨5, 0⟩ [.archetype .main]).containsSlot ⟨0, 0⟩ = true := by
    decide +kernel
  have hstack : World.worn.state.contents ⟨0, 0⟩ = some (.new .pumpkin 10) := by decide +kernel
  have htype : World.worn.state.env.rules.equipment .pumpkin = some .headwear := by decide +kernel
  obtain ⟨hreturns, hfirst⟩ := equipment_is_filled_first
    (Run.harvest [(⟨0, 0⟩, 10), (⟨2, 0⟩, 60)]) (fun _ _ _ _ => .empty) hc
    (of_decide_eq_true hbehavior) hmain hstack htype
    fun y _ => State.steady_of_known (by decide +kernel) y
  obtain ⟨t, w', hclick⟩ := hreturns (by decide +kernel)
  have hw' : w' = (Step.clickMain World.worn).2 := by
    change Step.clickMain World.worn = _ at hclick
    rw [hclick]
  have hgains : World.worn.state.Gains w'.state ⟨1, 0⟩ := by
    rw [hw']
    exact ⟨⟨.pumpkin, []⟩, by decide +kernel⟩
  refine ⟨t, w', hclick, hgains, ?_⟩
  by_contra hroom
  obtain ⟨hempty, _⟩ := (hfirst _ w' hclick).2.elsewhere ⟨1, 0⟩ (by decide +kernel) (by decide)
    hgains ⟨2, 0⟩ (by decide +kernel) (Bool.eq_true_of_not_eq_false hroom)
  exact absurd hempty (by decide +kernel)

def World.stored : World :=
  (Operation.through [] .autumn (Operation.harvest [(⟨0, 0⟩, 5), (⟨1, 0⟩, 3)])).2

/-- All five go to the three, and none is worn. -/
theorem fallback_filled_first_stored :
    ¬ ∀ (past : List World) (w w' : World) (custom : CustomTargets) (container : NodeId)
      (slot : SlotId) (c : Container) (main : ArchetypeId) (equipment : List ArchetypeId)
      (stack : Stack) (e : Equipment) (t : Transaction), Run past w →
      w.state.containerAt container = .ok c → w.state.behaviorOf c = .player main equipment →
      (w.state.search container [.archetype main]).containsSlot slot = true →
      w.state.contents slot = some stack → w.state.env.rules.equipment stack.kind = some e →
      (∀ y live, w.state.forest.slot y = some live → live.filter.Steady w.state.env.rules) →
      Step.shiftClick custom container slot w = (.ok (.ok t), w') →
      ∀ x, x ∉ w.state.gear equipment container slot e → x ≠ slot → w.state.Gains w'.state x →
        ∀ y ∈ w.state.gear equipment container slot e, w'.state.roomFor stack y = false := by
  intro h
  have hrun := Run.harvest [(⟨0, 0⟩, 5), (⟨1, 0⟩, 3)]
  have hthere : (World.stored.state.containerAt ⟨5, 0⟩).toOption.any (fun c =>
      World.stored.state.behaviorOf c = .player .main [.helmet]) = true := by decide +kernel
  obtain ⟨c, hc, hbehavior⟩ := exists_ok_of_any hthere
  have hstack : World.stored.state.contents ⟨0, 0⟩ = some (.new .pumpkin 5) := by decide +kernel
  obtain ⟨r, w', hclick, _⟩ := Step.returns_shiftClick (fun _ _ _ _ => .empty) ⟨5, 0⟩ ⟨0, 0⟩
    World.stored (by decide +kernel)
  obtain ⟨⟨t, rfl⟩, _⟩ := Step.shiftClick_ok hrun.sound hc hstack hclick
  have hw' : w' = (Step.clickMain World.stored).2 := by
    change Step.clickMain World.stored = _ at hclick
    rw [hclick]
  have hgains : World.stored.state.Gains w'.state ⟨1, 0⟩ := by
    rw [hw']
    exact ⟨⟨.pumpkin, []⟩, by decide +kernel⟩
  have hfull := h _ _ w' _ _ _ c .main [.helmet] _ .headwear t hrun hc
    (of_decide_eq_true hbehavior) (by decide +kernel) hstack (by decide +kernel)
    (State.steady_of_known (by decide +kernel)) hclick ⟨1, 0⟩ (by decide +kernel) (by decide)
    hgains ⟨2, 0⟩ (by decide +kernel)
  rw [hw'] at hfull
  exact absurd hfull (by decide +kernel)

end Pumpkins

end Stowage
