import Stowage.Proofs.Commits
import Stowage.Proofs.Container.Sessions

/-!
# Offers keep all units

A plan is made up slot by slot. At every moment the units that it puts into slots and those left
over are the ones offered and the ones that these slots held before. No slot is filled twice as long
as the order has none twice, so carrying the plan out moves units and loses none.
-/

namespace Stowage

set_option autoImplicit false

section Slot
variable {slot : Slot} {rules : ItemRules} {stack : Stack} {plan : SlotPlan}

theorem Slot.planOffer_cases (h : slot.planOffer rules stack = some plan) :
    slot.accepts rules stack = true ∧
    ∃ current, slot.mergeBase stack = some current ∧ current < slot.maxStackFor rules stack ∧
      plan = ⟨stack.resize (current + min stack.quantity (slot.maxStackFor rules stack - current)),
        stack.resize
          (stack.quantity - min stack.quantity (slot.maxStackFor rules stack - current))⟩ := by
  unfold planOffer at h
  split at h
  · rename_i haccepts
    refine ⟨haccepts, ?_⟩
    cases hbase : slot.mergeBase stack with
    | none =>
      rw [hbase] at h
      cases h
    | some current =>
      rw [hbase] at h
      dsimp only at h
      split at h
      · cases h
      · rename_i hroom
        cases h
        exact ⟨current, rfl, by omega, rfl⟩
  · cases h

theorem Slot.mergeBase_cases {n : Nat} (h : slot.mergeBase stack = some n) :
    unitsIn slot.contents = n ∧
      ∀ held, slot.contents = some held → held.mergesWith stack = true := by
  unfold mergeBase at h
  cases hheld : slot.contents with
  | none =>
    rw [hheld] at h
    exact ⟨Option.some.inj h, nofun⟩
  | some held =>
    rw [hheld] at h
    dsimp only at h
    split at h
    · rename_i hmerges
      refine ⟨Option.some.inj h, fun other hother => ?_⟩
      rwa [← Option.some.inj hother]
    · cases h

theorem Slot.unitsIn_of_mergeBase {n : Nat} (h : slot.mergeBase stack = some n) (k : ItemClass) :
    k.unitsIn slot.contents = if stack.itemClass = k then n else 0 := by
  unfold mergeBase at h
  cases hc : slot.contents with
  | none =>
    rw [hc] at h
    cases h
    simp
  | some held =>
    rw [hc] at h
    dsimp only at h
    split at h
    · rename_i hmerges
      cases h
      rw [ItemClass.unitsIn_some, Stack.mergesWith_iff_itemClass.mp hmerges]
    · cases h

theorem Slot.unitsIn_of_planOffer_none (h : slot.planOffer rules stack = some plan)
    (hafter : plan.after = none) (k : ItemClass) : k.unitsIn slot.contents = 0 := by
  obtain ⟨_, current, hbase, _, rfl⟩ := planOffer_cases h
  rw [Slot.unitsIn_of_mergeBase hbase]
  dsimp only [Stack.resize] at hafter
  split at hafter
  · split <;> omega
  · cases hafter

theorem Slot.planOffer_balance (h : slot.planOffer rules stack = some plan) (k : ItemClass) :
    k.unitsIn plan.after + k.unitsIn plan.rejected =
      k.unitsIn (some stack) + k.unitsIn slot.contents := by
  obtain ⟨_, current, hbase, _, rfl⟩ := planOffer_cases h
  rw [Slot.unitsIn_of_mergeBase hbase, ItemClass.unitsIn_resize, ItemClass.unitsIn_resize,
    ItemClass.unitsIn_some]
  split <;> omega

end Slot

namespace OfferPlan

theorem fill_cases (s : State) (merging : Bool) (p : OfferPlan) (id : SlotId) :
    fill s merging p id = p ∨ ∃ rest slot step, p.remaining = some rest ∧
      s.forest.slot id = some slot ∧ eligible merging p id slot rest = true ∧
      slot.planOffer s.env.rules rest = some step ∧
      fill s merging p id =
        ⟨p.puts ++ (step.after.map fun a => (id, a)).toList, step.rejected⟩ := by
  unfold fill
  cases hrest : p.remaining with
  | none => exact Or.inl rfl
  | some rest =>
    cases hslot : s.forest.slot id with
    | none => exact Or.inl rfl
    | some slot =>
      dsimp only
      split
      · rename_i heligible
        cases hstep : slot.planOffer s.env.rules rest with
        | none => exact Or.inl rfl
        | some step => exact Or.inr ⟨rest, slot, step, rfl, rfl, heligible, hstep, rfl⟩
      · exact Or.inl rfl

theorem fill_puts_subset (s : State) (merging : Bool) (p : OfferPlan) (id : SlotId) {x : SlotId}
    (hx : x ∈ (fill s merging p id).puts.map Prod.fst) : x ∈ p.puts.map Prod.fst ∨ x = id := by
  rcases fill_cases s merging p id with h | ⟨rest, slot, step, _, _, _, _, h⟩
  · rw [h] at hx
    exact Or.inl hx
  · rw [h, List.map_append, List.mem_append] at hx
    rcases hx with hx | hx
    · exact Or.inl hx
    · cases ha : step.after with
      | none => simp [ha] at hx
      | some a => exact Or.inr (by simpa [ha] using hx)

theorem foldl_fill_puts_subset (s : State) (merging : Bool) (order : List SlotId) (p : OfferPlan)
    {x : SlotId} (hx : x ∈ (order.foldl (fill s merging) p).puts.map Prod.fst) :
    x ∈ p.puts.map Prod.fst ∨ x ∈ order := by
  induction order generalizing p with
  | nil => exact Or.inl hx
  | cons id rest ih =>
    rcases ih _ hx with hx | hx
    · rcases fill_puts_subset s merging p id hx with hx | hx
      · exact Or.inl hx
      · exact Or.inr (List.mem_cons.mpr (Or.inl hx))
    · exact Or.inr (List.mem_cons_of_mem _ hx)

/-- The plan accounts for all units of the stack and of the slots that it fills, each once. -/
structure Balanced (s : State) (stack : Stack) (p : OfferPlan) : Prop where
  nodup : (p.puts.map Prod.fst).Nodup
  live : ∀ put ∈ p.puts, (s.forest.slot put.1).isSome = true
  balance : ∀ k : ItemClass,
    (p.puts.map fun put => k.unitsIn (some put.2)).sum + k.unitsIn p.remaining =
      k.unitsIn (some stack) + (p.puts.map fun put => k.unitsIn (s.contents put.1)).sum

namespace Balanced
variable {s : State} {stack : Stack} {p : OfferPlan}

theorem start (s : State) (stack : Stack) : Balanced s stack (.start stack) :=
  ⟨List.nodup_nil, by simp [OfferPlan.start], by simp [OfferPlan.start]⟩

theorem fill (h : Balanced s stack p) (merging : Bool) {id : SlotId}
    (hnew : id ∉ p.puts.map Prod.fst) : Balanced s stack (fill s merging p id) := by
  rcases fill_cases s merging p id with he | ⟨rest, slot, step, hrest, hslot, _, hstep, he⟩
  · rw [he]
    exact h
  · rw [he]
    have hstep' := Slot.planOffer_balance hstep
    have hbalance := h.balance
    rw [hrest] at hbalance
    cases ha : step.after with
    | none =>
      refine ⟨by simpa using h.nodup, by simpa using h.live, ?_⟩
      intro k
      have hslotk := hstep' k
      have hplan := hbalance k
      rw [ha, ItemClass.unitsIn_none] at hslotk
      have hempty := Slot.unitsIn_of_planOffer_none hstep ha k
      simp only [Option.map_none, Option.toList_none, List.append_nil]
      omega
    | some a =>
      refine ⟨?_, ?_, ?_⟩
      · simp only [Option.map_some, Option.toList_some, List.map_append, List.map_cons,
          List.map_nil]
        exact List.nodup_append.mpr ⟨h.nodup, List.nodup_singleton _, fun x hx y hy hxy =>
          hnew (by rwa [← List.mem_singleton.mp hy, ← hxy])⟩
      · intro put hput
        rcases List.mem_append.mp hput with hput | hput
        · exact h.live put hput
        · rw [Option.map_some, Option.toList_some, List.mem_singleton] at hput
          rw [hput, hslot]
          rfl
      · intro k
        have hslotk := hstep' k
        have hplan := hbalance k
        rw [ha] at hslotk
        simp only [Option.map_some, Option.toList_some, List.map_append, List.map_cons,
          List.map_nil, List.sum_append, List.sum_singleton, State.contents_of_slot hslot]
        omega

/-- While merging, no slot is met twice. -/
theorem merge {order : List SlotId} (h : Balanced s stack p) (horder : order.Nodup)
    (hnew : ∀ id ∈ order, id ∉ p.puts.map Prod.fst) :
    Balanced s stack (order.foldl (OfferPlan.fill s true) p) := by
  induction order generalizing p with
  | nil => exact h
  | cons id rest ih =>
    obtain ⟨hid, hrest⟩ := List.nodup_cons.mp horder
    refine ih (h.fill true (hnew id List.mem_cons_self)) hrest ?_
    intro x hx hmem
    rcases fill_puts_subset s true p id hmem with hmem | he
    · exact hnew x (List.mem_cons_of_mem _ hx) hmem
    · exact hid (he ▸ hx)

theorem spread (order : List SlotId) (h : Balanced s stack p) :
    Balanced s stack (order.foldl (OfferPlan.fill s false) p) := by
  induction order generalizing p with
  | nil => exact h
  | cons id rest ih =>
    by_cases hmem : id ∈ p.puts.map Prod.fst
    · have hsame : OfferPlan.fill s false p id = p := by
        rcases fill_cases s false p id with he | ⟨rest, slot, step, _, _, heligible, _, _⟩
        · exact he
        · obtain ⟨put, hput, hid⟩ := List.mem_map.mp hmem
          simp only [eligible, Bool.false_eq_true, if_false, Bool.and_eq_true, Bool.not_eq_true',
            List.any_eq_false, decide_eq_true_eq] at heligible
          exact absurd hid (heligible.2 put hput)
      rw [List.foldl_cons, hsame]
      exact ih h
    · exact ih (h.fill false hmem)

end Balanced

end OfferPlan

namespace State
variable {s t : State} {order : List SlotId} {stack : Stack}

theorem planOffer_balanced (s : State) (stack : Stack) (horder : order.Nodup) :
    (s.planOffer order stack).Balanced s stack :=
  .spread order ((OfferPlan.Balanced.start s stack).merge horder (by simp [OfferPlan.start]))

theorem planOffer_puts_subset (s : State) (order : List SlotId) (stack : Stack) {x : SlotId}
    (hx : x ∈ (s.planOffer order stack).puts.map Prod.fst) : x ∈ order := by
  rcases OfferPlan.foldl_fill_puts_subset s false order _ hx with hx | hx
  · rcases OfferPlan.foldl_fill_puts_subset s true order _ hx with hx | hx
    · simp [OfferPlan.start] at hx
    · exact hx
  · exact hx

def offerPuts (s : State) (order : List SlotId) (stack : Stack) : List (SlotId × Option Stack) :=
  (s.planOffer order stack).puts.map fun put => (put.1, some put.2)

theorem offerPuts_fst (s : State) (order : List SlotId) (stack : Stack) :
    (s.offerPuts order stack).map Prod.fst = (s.planOffer order stack).puts.map Prod.fst := by
  unfold offerPuts
  rw [List.map_map]
  rfl

theorem nodup_offerPuts (horder : order.Nodup) (stack : Stack) :
    ((s.offerPuts order stack).map Prod.fst).Nodup := by
  rw [offerPuts_fst]
  exact (s.planOffer_balanced stack horder).nodup

theorem planOffer_congr (henv : t.env = s.env)
    (h : ∀ x ∈ order, t.forest.slot x = s.forest.slot x) (stack : Stack) :
    t.planOffer order stack = s.planOffer order stack := by
  have hpass : ∀ (merging : Bool) (p : OfferPlan),
      order.foldl (OfferPlan.fill t merging) p = order.foldl (OfferPlan.fill s merging) p := by
    intro merging p
    apply List.foldl_ext
    intro q x hx
    unfold OfferPlan.fill
    rw [h x hx, henv]
  unfold planOffer
  rw [hpass, hpass]

def rejects (s : State) (node : NodeId) (stack : Stack) : Option Stack :=
  (s.planOffer (s.forest.fillOrder node) stack).remaining

theorem rejects_stale {node : NodeId} (h : s.forest.contains node = false) (stack : Stack) :
    s.rejects node stack = some stack := by
  have horder : s.forest.fillOrder node = [] := by
    unfold Forest.fillOrder
    cases hn : s.forest.node? node with
    | none => rfl
    | some n =>
      rw [Forest.contains_iff.mpr ⟨n, hn⟩] at h
      cases h
  unfold rejects
  rw [horder]
  rfl

end State

namespace Step
variable {w w' : World} {order : List SlotId} {stack : Stack} {o : Offered}

theorem offerIn_eq (order : List SlotId) (stack : Stack) (w : World) : offerIn order stack w =
    (commitAll (w.state.offerPuts order stack) >>=
      fun changes => pure ⟨changes, (w.state.planOffer order stack).remaining⟩) w := rfl

theorem offerIn_ok (hw : w.state.Sound) (horder : order.Nodup)
    (h : offerIn order stack w = (.ok o, w')) :
    o.rejected = (w.state.planOffer order stack).remaining ∧
    (∀ k : ItemClass, w'.state.units k + k.unitsIn o.rejected =
      w.state.units k + k.unitsIn (some stack)) ∧
    ∀ x, x ∉ order → w'.state.forest.slot x = w.state.forest.slot x := by
  rw [offerIn_eq] at h
  obtain ⟨changes, u, hcommits, h⟩ := bind_eq_ok h
  cases h
  have hbalanced := w.state.planOffer_balanced stack horder
  refine ⟨rfl, ?_, ?_⟩
  · intro k
    have hunits := units_commitAll hw (State.nodup_offerPuts horder stack)
      (by
        intro c hc
        obtain ⟨put, hput, rfl⟩ := List.mem_map.mp hc
        exact hbalanced.live put hput) hcommits k
    have hbalance := hbalanced.balance k
    unfold State.offerPuts at hunits
    rw [List.map_map, List.map_map] at hunits
    simp only [Function.comp_def] at hunits
    dsimp only
    omega
  · intro x hx
    refine slot_commitAll_of_not_mem hw hcommits ?_
    rw [State.offerPuts_fst]
    exact fun hmem => hx (w.state.planOffer_puts_subset order stack hmem)

/-- An offer to an inventory moves units into its slots, and hands the others back. -/
theorem offerTo_ok (hw : w.state.Sound) {node : NodeId}
    (hnodup : (w.state.forest.fillOrder node).Nodup)
    (h : offerTo node stack w = (.ok o, w')) :
    o.rejected = w.state.rejects node stack ∧
    (∀ k : ItemClass, w'.state.units k + k.unitsIn o.rejected =
      w.state.units k + k.unitsIn (some stack)) ∧
    ∀ x, x ∉ w.state.forest.fillOrder node →
      w'.state.forest.slot x = w.state.forest.slot x := by
  unfold offerTo unlessStale at h
  rw [state_bind] at h
  split at h
  · rw [state_bind] at h
    exact offerIn_ok hw hnodup h
  · rename_i hstale
    obtain ⟨_, u, hlog, h⟩ := bind_eq_ok h
    cases h
    have hstate := (inert_log _ .slotChange).state_eq hlog
    refine ⟨(State.rejects_stale (Bool.eq_false_iff.mpr hstale) stack).symm, ?_, ?_⟩
    · intro k
      rw [hstate]
    · intro x _
      rw [hstate]

end Step

end Stowage
