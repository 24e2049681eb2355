import Stowage.Proofs.Instances
import Stowage.Proofs.SlotOrders
import Stowage.Proofs.StaleHandles

/-!
# Wire indices

A container numbers its slots for its viewers. A number leads to its slot and back, the cursor has
a number of its own, and the slots of the top inventory come before those that only the bottom
inventory has. Every viewer is bound to just these numbers.
-/

namespace Stowage

set_option autoImplicit false

namespace Container
variable {c : Container} {slot : SlotId} {wire : Int}

theorem slotAtWire_natCast (c : Container) (i : Nat) : c.slotAtWire i = c.slots[i]? := by
  have hne : (i : Int) ≠ cursorWire := by
    unfold cursorWire
    omega
  unfold slotAtWire
  rw [if_neg hne]

theorem slotAtWire_eq_some_iff : c.slotAtWire wire = some slot ↔ (wire, slot) ∈ c.bindings := by
  have hlisted : (wire, slot) ∈ c.bindings ↔
      (wire = cursorWire ∧ slot = c.cursor) ∨ ∃ i : Nat, c.slots[i]? = some slot ∧ i = wire := by
    simp [bindings, List.mem_zipIdx_iff_getElem?]
  rw [hlisted]
  unfold slotAtWire
  split
  · rename_i hwire
    rw [hwire]
    constructor
    · intro h
      cases h
      exact Or.inl ⟨rfl, rfl⟩
    · rintro (⟨_, rfl⟩ | ⟨i, _, hi⟩)
      · rfl
      · exact absurd hi (by unfold cursorWire; omega)
  · rename_i hwire
    cases wire with
    | ofNat i =>
      rw [or_iff_right (fun h => hwire h.1)]
      simp only [Int.ofNat_eq_natCast, Int.ofNat_inj, exists_eq_right]
    | negSucc i =>
      constructor
      · intro h
        cases h
      · rintro (⟨hcursor, _⟩ | ⟨j, _, hj⟩)
        · exact absurd hcursor hwire
        · cases hj

theorem wireIndex_eq_some_iff (hc : (c.cursor :: c.slots).Nodup) :
    c.wireIndex slot = some wire ↔ (wire, slot) ∈ c.bindings := by
  constructor
  · exact mem_bindings_of_wireIndex
  · intro hmem
    cases hindex : c.wireIndex slot with
    | none => exact absurd hmem (not_mem_bindings_of_wireIndex hindex)
    | some other =>
      rw [← c.boundSlots_eq] at hc
      have hsame := List.inj_on_of_nodup_map hc (mem_bindings_of_wireIndex hindex) hmem rfl
      exact congrArg (fun p => some (Prod.fst p)) hsame

theorem mem_wires_iff :
    wire ∈ c.bindings.map Prod.fst ↔ wire = cursorWire ∨ 0 ≤ wire ∧ wire < c.slots.length := by
  rw [wires_eq, List.mem_cons, List.mem_map]
  refine or_congr Iff.rfl ?_
  constructor
  · rintro ⟨i, hi, rfl⟩
    have hi := List.mem_range.mp hi
    simp only [Int.ofNat_eq_natCast]
    omega
  · rintro ⟨hzero, hlt⟩
    exact ⟨wire.toNat, List.mem_range.mpr (by omega), Int.toNat_of_nonneg hzero⟩

theorem wire_fits (hsize : c.slots.length < 2 ^ 31) (hwire : c.slotAtWire wire = some slot) :
    (Int32.ofInt wire).toInt = wire := by
  have hmem := List.mem_map_of_mem (f := Prod.fst) (slotAtWire_eq_some_iff.mp hwire)
  have hrange := mem_wires_iff.mp hmem
  unfold cursorWire at hrange
  exact Int32.toInt_ofInt_of_le (by omega) (by omega)

end Container

def Forest.joined (f : Forest) (top bottom : NodeId) : List SlotId :=
  f.slots top ++ (f.slots bottom).filter fun slot => slot ∉ f.slots top

theorem Forest.slots_containerOver (f : Forest) (top bottom : NodeId) (cursor : SlotId) :
    (f.containerOver top bottom cursor).slots = f.joined top bottom := by
  simp only [containerOver, joined, followedBy]
  split
  · rename_i hsame
    subst hsame
    have hnone : (f.slots top).filter (fun slot => slot ∉ f.slots top) = [] := by
      simp
    rw [hnone, List.append_nil]
  · congr 2
    funext slot
    simp

/-- The wire indices of a container and its slots are one to one: the cursor is behind its own
index, and behind the others are the slots in index order. Each viewer is bound to all of them. -/
structure World.Wired (w : World) (id : NodeId) (c : Container) : Prop where
  inverse : ∀ wire slot, c.slotAtWire wire = some slot ↔ c.wireIndex slot = some wire
  used : ∀ wire, (∃ slot, c.slotAtWire wire = some slot) ↔
    wire = cursorWire ∨ 0 ≤ wire ∧ wire < w.state.forest.capacity id
  cursor : c.slotAtWire cursorWire = some c.cursor
  slotAt : ∀ i : Nat, c.slotAtWire i = w.state.forest.slotAt id i
  indexOf : ∀ slot (i : Nat),
    w.state.forest.indexOf id slot = some i ↔ c.wireIndex slot = some (i : Int)
  views : ∀ v view, w.state.clientView id v = some view →
    (view.bindings.map Prod.fst).Pairwise (· < ·) ∧
      ∀ wire slot, (wire, slot) ∈ view.bindings ↔ c.slotAtWire wire = some slot
  narrow : w.state.forest.capacity id < 2 ^ 31 → ∀ wire slot, c.slotAtWire wire = some slot →
    (Int32.ofInt wire).toInt = wire

/-- The container binds the slots of its two inventories as they were when it was made, and as they
are for as long as they live; its cursor is not among them. -/
structure World.Joins (past : List World) (w : World) (id : NodeId) (c : Container) : Prop where
  made : ∃ u ∈ past, u.state.forest.Showable c.top ∧ u.state.forest.Showable c.bottom ∧
    w.state.forest.slots id = u.state.forest.joined c.top c.bottom
  now : Unwrapped c.top past w → Unwrapped c.bottom past w →
    w.state.forest.contains c.top = true → w.state.forest.contains c.bottom = true →
    w.state.forest.slots id = w.state.forest.joined c.top c.bottom
  unlisted : c.cursor ∉ w.state.forest.slots id
  apart : ∀ x, x = c.top ∨ x = c.bottom → Unwrapped x past w → c.cursor ∉ w.state.forest.slots x

section Run
variable {past : List World} {w : World} {id : NodeId} {c : Container}

theorem Run.wired (h : Run past w) (hc : w.state.forest.container? id = some c) : w.Wired id c := by
  have hnodup := h.sound.forest.nodup_bound hc
  have hslots := (Forest.slots_of_container? hc).1
  have hinverse : ∀ wire slot, c.slotAtWire wire = some slot ↔ c.wireIndex slot = some wire := by
    intro wire slot
    rw [Container.slotAtWire_eq_some_iff, Container.wireIndex_eq_some_iff hnodup]
  have hslotAt : ∀ i : Nat, c.slotAtWire i = w.state.forest.slotAt id i := by
    intro i
    unfold Forest.slotAt
    rw [c.slotAtWire_natCast, hslots]
  refine ⟨hinverse, ?_, rfl, hslotAt, ?_, ?_, ?_⟩
  · intro wire
    unfold Forest.capacity
    rw [hslots, ← Container.mem_wires_iff]
    simp [Container.slotAtWire_eq_some_iff]
  · intro slot i
    rw [(h.sound.forest.numbered h.containersFilled id).inverse, ← hslotAt, hinverse]
  · intro v view hview
    have hmem : (v, view) ∈ c.viewers := by
      unfold State.clientView at hview
      rw [hc] at hview
      exact (h.sound.viewOf_iff hc).mp hview
    rw [h.sound.bound hc hmem]
    exact ⟨c.wires_increase, fun _ _ => Container.slotAtWire_eq_some_iff.symm⟩
  · intro hsize wire slot hwire
    unfold Forest.capacity at hsize
    rw [hslots] at hsize
    exact Container.wire_fits hsize hwire

theorem Run.joins (h : Run past w) (hc : w.state.forest.container? id = some c) :
    w.Joins past id c := by
  have hnodup := h.sound.forest.nodup_bound hc
  have hslots := (Forest.slots_of_container? hc).1
  obtain ⟨u, hu, hbare, _, htop, hbottom⟩ := h.container_made hc
  have hmade : c.slots = u.state.forest.joined c.top c.bottom := by
    rw [← Forest.slots_containerOver _ _ _ c.cursor, ← hbare]
    rfl
  have hsame : ∀ x, u.state.forest.Showable x → Unwrapped x past w →
      w.state.forest.contains x = true → w.state.forest.slots x = u.state.forest.slots x :=
    fun x hx hun hlive => (Forest.orders_of_bareContent
      (h.bareContent hun (List.mem_cons_of_mem _ hu) hx.live hlive)).2.1
  have hcursor : c.cursor ∉ c.slots := (List.nodup_cons.mp hnodup).1
  have hpart : ∀ x, x = c.top ∨ x = c.bottom → ∀ slot ∈ u.state.forest.slots x,
      slot ∈ c.slots := by
    intro x hx slot hslot
    rw [hmade]
    unfold Forest.joined
    rcases hx with rfl | rfl
    · exact List.mem_append_left _ hslot
    · by_cases hshared : slot ∈ u.state.forest.slots c.top
      · exact List.mem_append_left _ hshared
      · exact List.mem_append_right _ (List.mem_filter.mpr ⟨hslot, by simpa using hshared⟩)
  refine ⟨⟨u, hu, htop, hbottom, hslots.trans hmade⟩, ?_, hslots ▸ hcursor, ?_⟩
  · intro htopUn hbottomUn htopLive hbottomLive
    rw [hslots, hmade]
    unfold Forest.joined
    rw [hsame _ htop htopUn htopLive, hsame _ hbottom hbottomUn hbottomLive]
  · intro x hx hun hmem
    have hshown : u.state.forest.Showable x := by
      rcases hx with rfl | rfl
      · exact htop
      · exact hbottom
    cases hlive : w.state.forest.contains x with
    | false =>
      rw [Forest.slots_of_dead hlive] at hmem
      cases hmem
    | true =>
      rw [hsame x hshown hun hlive] at hmem
      exact hcursor (hpart x hx _ hmem)

/-- In every state that is reached, whatever inventories a container shows, its wire indices are one
to one with its slots and its cursor, first those of the top inventory and then the others of the
bottom inventory, and every viewer is bound to just these. -/
theorem wires_number_bound_slots (h : Run past w) (hc : w.state.forest.container? id = some c) :
    w.Wired id c ∧ w.Joins past id c := ⟨h.wired hc, h.joins hc⟩

end Run

def Operation.overlappingVisit : List Operation :=
  [.instantiate .anySlot Archetype.anySlot_made, .instantiate .anySlot Archetype.anySlot_made,
    .compose [(⟨1, 0⟩, 5), (⟨0, 0⟩, 5)], .createContainer ⟨0, 0⟩ ⟨2, 0⟩,
    .openContainer ⟨4, 0⟩ ⟨7⟩]

theorem wires_number_bound_slots_overlapping : ∃ c,
    (World.reached Operation.overlappingVisit).2.state.forest.container? ⟨4, 0⟩ = some c ∧
    c.bindings = [(-1, ⟨3, 0⟩), (0, ⟨0, 0⟩), (1, ⟨1, 0⟩)] ∧
    (World.reached Operation.overlappingVisit).2.Wired ⟨4, 0⟩ c ∧
    (World.reached Operation.overlappingVisit).2.Joins
      (World.reached Operation.overlappingVisit).1 ⟨4, 0⟩ c := by
  obtain ⟨c, hc, hbindings⟩ : ∃ c,
      (World.reached Operation.overlappingVisit).2.state.forest.container? ⟨4, 0⟩ = some c ∧
      c.bindings = [(-1, ⟨3, 0⟩), (0, ⟨0, 0⟩), (1, ⟨1, 0⟩)] :=
    ⟨_, rfl, by decide +kernel⟩
  exact ⟨c, hc, hbindings, wires_number_bound_slots (Run.reached Operation.overlappingVisit) hc⟩

end Stowage
