import Stowage.Proofs.Admission
import Stowage.Proofs.Written.ReadingBack

/-!
# Where stacks of no units come from

A stack that is made, resized, split or planned for a slot has at least one unit, whatever it is
made of. Only reading asks for less: the quantity of a stack that is read is the one that is
written, and may be zero. It stays zero when other data are attached and when the stack grows by
nothing.
-/

namespace Stowage

set_option autoImplicit false

open Written

/-- The stacks that come in when data are read as a stack, as a wire slot or as the state of a
container. -/
inductive Datum.Brings (d : Datum) : Stack → Prop where
  | stack {s : Stack} (h : read d = some s) : d.Brings s
  | wireSlot {w : WireSlot} {s : Stack} (h : read d = some w) (hs : w.contents = some s) :
      d.Brings s
  | slot {p : Snapshot} {w : WireSlot} {s : Stack} (h : read d = some p) (hw : w ∈ p.slots)
      (hs : w.contents = some s) : d.Brings s
  | cursor {p : Snapshot} {s : Stack} (h : read d = some p) (hs : p.cursor = some s) : d.Brings s

/-- The stacks that can be had when `given` are the data that are read. Slots hold stacks that were
had before. -/
inductive Stack.Obtained (given : Datum → Prop) : Stack → Prop where
  | read {d : Datum} {s : Stack} (hd : given d) (h : d.Brings s) : Obtained given s
  | new (kind : ItemKind) (quantity : Nat) : Obtained given (.new kind quantity)
  | single (kind : ItemKind) : Obtained given (.single kind)
  | withAux {s : Stack} (h : Obtained given s) (aux : List UInt8) : Obtained given (s.withAux aux)
  | resize {s t : Stack} {n : Nat} (h : Obtained given s) (ht : s.resize n = some t) :
      Obtained given t
  | increase {s : Stack} (h : Obtained given s) (extra : Nat) : Obtained given (s.increase extra)
  | split {s t : Stack} {amount : Nat} (h : Obtained given s)
      (ht : (s.split amount).1 = some t ∨ (s.split amount).2 = some t) : Obtained given t
  | poll {slot : Slot} {limit : Option Nat} {part t : Stack} {left : Option Stack}
      (held : ∀ s, slot.contents = some s → Obtained given s)
      (hplan : slot.planPoll limit = some (part, left)) (ht : t = part ∨ left = some t) :
      Obtained given t
  | offer {slot : Slot} {rules : ItemRules} {s t : Stack} {plan : SlotPlan}
      (held : ∀ s, slot.contents = some s → Obtained given s) (h : Obtained given s)
      (hplan : slot.planOffer rules s = some plan)
      (ht : plan.after = some t ∨ plan.rejected = some t) : Obtained given t
  | set {slot : Slot} {rules : ItemRules} {s t : Stack} {plan : SlotPlan}
      (held : ∀ s, slot.contents = some s → Obtained given s) (h : Obtained given s)
      (hplan : slot.planSet rules s = some plan)
      (ht : plan.after = some t ∨ plan.rejected = some t) : Obtained given t

namespace Stack
variable {s t : Stack}

theorem one_le_new (kind : ItemKind) (quantity : Nat) : 1 ≤ (new kind quantity).quantity :=
  Nat.le_max_right _ _

theorem one_le_of_resize {n : Nat} (h : s.resize n = some t) : 1 ≤ t.quantity := by
  unfold resize at h
  split at h
  · cases h
  · cases h
    dsimp only
    omega

theorem one_le_of_split {amount : Nat}
    (h : (s.split amount).1 = some t ∨ (s.split amount).2 = some t) : 1 ≤ t.quantity := by
  rcases h with h | h
  · exact one_le_of_resize h
  · exact one_le_of_resize h

theorem increase_eq_self {extra : Nat} (h : (s.increase extra).quantity = 0) :
    s.quantity = 0 ∧ s.increase extra = s := by
  have hsum : min (s.quantity + extra) maxQuantity = 0 := h
  have hzero : s.quantity + extra = 0 := by
    unfold maxQuantity at hsum
    omega
  have hs : s.quantity = 0 := by omega
  refine ⟨hs, ?_⟩
  unfold increase
  rw [hsum, ← hs]

end Stack

namespace Slot
variable {slot : Slot} {rules : ItemRules} {s t part : Stack} {left : Option Stack}
  {plan : SlotPlan}

theorem one_le_of_planPoll {limit : Option Nat} (h : slot.planPoll limit = some (part, left))
    (ht : t = part ∨ left = some t) : 1 ≤ t.quantity := by
  unfold planPoll at h
  obtain ⟨held, _, h⟩ := Option.bind_eq_some_iff.mp h
  obtain ⟨taken, htaken, h⟩ := Option.map_eq_some_iff.mp h
  cases h
  rcases ht with rfl | ht
  · exact Stack.one_le_of_split (Or.inl htaken)
  · exact Stack.one_le_of_split (Or.inr ht)

theorem one_le_of_planOffer (h : slot.planOffer rules s = some plan)
    (ht : plan.after = some t ∨ plan.rejected = some t) : 1 ≤ t.quantity := by
  rcases ht with ht | ht
  · exact (show slot.Admits True rules t from planOffer_admits h ht).positive
  · exact (planOffer_rejected h ht).positive

theorem one_le_of_planSet (h : slot.planSet rules s = some plan)
    (ht : plan.after = some t ∨ plan.rejected = some t) : 1 ≤ t.quantity := by
  unfold planSet at h
  split at h
  · cases h
    rcases ht with ht | ht
    · exact Stack.one_le_of_resize ht
    · exact Stack.one_le_of_resize ht
  · cases h

end Slot

namespace Stack.Obtained
variable {given : Datum → Prop} {s : Stack}

/-- A stack without units was read as one; only its data may have been replaced since. -/
theorem exists_read (h : Obtained given s) (hzero : s.quantity = 0) :
    ∃ d z aux, given d ∧ d.Brings z ∧ z.quantity = 0 ∧ s = z.withAux aux := by
  induction h with
  | @read d s hd h => exact ⟨d, s, s.aux, hd, h, hzero, rfl⟩
  | new kind quantity => exact absurd hzero (Nat.one_le_iff_ne_zero.mp (one_le_new kind quantity))
  | single kind => exact absurd hzero (Nat.one_le_iff_ne_zero.mp (one_le_new kind 1))
  | withAux _ aux ih =>
    obtain ⟨d, z, _, hd, hz, hnone, rfl⟩ := ih hzero
    exact ⟨d, z, aux, hd, hz, hnone, rfl⟩
  | resize _ ht => exact absurd hzero (Nat.one_le_iff_ne_zero.mp (one_le_of_resize ht))
  | increase _ extra ih =>
    obtain ⟨hs, hsame⟩ := increase_eq_self hzero
    rw [hsame]
    exact ih hs
  | split _ ht => exact absurd hzero (Nat.one_le_iff_ne_zero.mp (one_le_of_split ht))
  | poll _ hplan ht =>
    exact absurd hzero (Nat.one_le_iff_ne_zero.mp (Slot.one_le_of_planPoll hplan ht))
  | offer _ _ hplan ht =>
    exact absurd hzero (Nat.one_le_iff_ne_zero.mp (Slot.one_le_of_planOffer hplan ht))
  | set _ _ hplan ht =>
    exact absurd hzero (Nat.one_le_iff_ne_zero.mp (Slot.one_le_of_planSet hplan ht))

theorem empty_iff : Obtained given s ∧ s.quantity = 0 ↔
    ∃ d z aux, given d ∧ d.Brings z ∧ z.quantity = 0 ∧ s = z.withAux aux := by
  constructor
  · rintro ⟨h, hzero⟩
    exact h.exists_read hzero
  · rintro ⟨d, z, aux, hd, hz, hzero, rfl⟩
    exact ⟨.withAux (.read hd hz) aux, hzero⟩

theorem one_le_iff : (∀ s, Obtained given s → 1 ≤ s.quantity) ↔
    ∀ d z, given d → d.Brings z → z.quantity ≠ 0 := by
  constructor
  · intro h d z hd hz
    exact Nat.one_le_iff_ne_zero.mp (h z (.read hd hz))
  · intro h s hs
    refine Nat.one_le_iff_ne_zero.mpr fun hzero => ?_
    obtain ⟨d, z, _, hd, hz, hnone, _⟩ := hs.exists_read hzero
    exact h d z hd hz hnone

end Stack.Obtained

/-- The stacks that are read from some data are those whose quantity is in range, whatever it is. -/
theorem Stack.exists_read_iff {s : Stack} : (∃ d, read d = some s) ↔ s.InRange := by
  constructor
  · rintro ⟨d, hd⟩
    obtain ⟨look, _, _, hquantity, _⟩ := read_eq_some_iff.mp hd
    obtain ⟨e, _, hread⟩ := Option.bind_eq_some_iff.mp hquantity
    exact le_of_readNat hread
  · intro h
    exact ⟨_, (readsBack h).same⟩

/-- A stack of no units is one that was read as such, perhaps with other data attached since. So all
stacks have units just when none is read without any; and reading admits every quantity in range,
zero included. -/
theorem empty_stacks_are_read (given : Datum → Prop) :
    ((∀ s, Stack.Obtained given s → 1 ≤ s.quantity) ↔
      ∀ d z, given d → d.Brings z → z.quantity ≠ 0) ∧
    (∀ s : Stack, Stack.Obtained given s ∧ s.quantity = 0 ↔
      ∃ d z aux, given d ∧ d.Brings z ∧ z.quantity = 0 ∧ s = z.withAux aux) ∧
    ∀ s : Stack, (∃ d, read d = some s) ↔ s.InRange :=
  ⟨Stack.Obtained.one_le_iff, fun _ => Stack.Obtained.empty_iff, fun _ => Stack.exists_read_iff⟩

def Datum.apples (n : Int) : Datum :=
  .record [("kind", .text "minecraft:apple"), ("quantity", .int n), ("aux", .list [])]

theorem Datum.quantity_of_apples {z : Stack} (h : (apples 5).Brings z) : z.quantity = 5 := by
  have hread : read (apples 5) = some (Stack.mk ⟨"minecraft:apple"⟩ 5 []) := rfl
  cases h with
  | stack h =>
    rw [hread] at h
    cases h
    rfl
  | wireSlot h _ => cases h
  | slot h _ _ => cases h
  | cursor h _ => cases h

theorem empty_stacks_are_read_apples :
    Stack.Obtained (· = .apples 5) ⟨⟨"minecraft:apple"⟩, 5, []⟩ ∧
    ∀ s, Stack.Obtained (· = .apples 5) s → 1 ≤ s.quantity := by
  refine ⟨.read rfl (.stack rfl), (empty_stacks_are_read _).1.mpr ?_⟩
  rintro d z rfl hz
  rw [Datum.quantity_of_apples hz]
  decide

/-- The stack of no apples is read, alone, in a wire slot and in the state of a container. -/
theorem empty_stack_read :
    (Datum.apples 0).Brings ⟨⟨"minecraft:apple"⟩, 0, []⟩ ∧
    (Datum.record [("index", .int 0), ("contents", .apples 0)]).Brings
      ⟨⟨"minecraft:apple"⟩, 0, []⟩ ∧
    (Datum.record [("title", .text ""), ("archetype", .null), ("slots", .list []),
      ("cursor", .apples 0)]).Brings ⟨⟨"minecraft:apple"⟩, 0, []⟩ ∧
    ¬ ∀ s, Stack.Obtained (fun _ => True) s → 1 ≤ s.quantity := by
  have halone : (Datum.apples 0).Brings ⟨⟨"minecraft:apple"⟩, 0, []⟩ := .stack rfl
  refine ⟨halone, .wireSlot (w := ⟨0, some ⟨⟨"minecraft:apple"⟩, 0, []⟩⟩) rfl rfl,
    .cursor (p := ⟨"", none, [], some ⟨⟨"minecraft:apple"⟩, 0, []⟩⟩) rfl rfl, ?_⟩
  intro h
  exact absurd (h _ (.read trivial halone)) (by decide)

end Stowage
