import Stowage.Contents.Operations

/-!
# Quantities stay in range

The planners once more, with every sum and every difference of quantities checked: a sum beyond the
largest quantity or a difference below zero gives no result at all. Over slots whose limits are in
range the checked planners always have a result, and it is that of the planners. Sums and products
of indices are checked in the same way.
-/

namespace Stowage

set_option autoImplicit false

namespace Quantity

def add? (a b : Nat) : Option Nat := if a + b ≤ maxQuantity then some (a + b) else none

def sub? (a b : Nat) : Option Nat := if b ≤ a then some (a - b) else none

theorem add?_eq {a b : Nat} (h : a + b ≤ maxQuantity) : add? a b = some (a + b) := if_pos h

theorem sub?_eq {a b : Nat} (h : b ≤ a) : sub? a b = some (a - b) := if_pos h

end Quantity

def maxIndex : Nat := 18446744073709551615

namespace Index

def add? (a b : Nat) : Option Nat := if a + b ≤ maxIndex then some (a + b) else none

def mul? (a b : Nat) : Option Nat := if a * b ≤ maxIndex then some (a * b) else none

theorem add?_eq {a b : Nat} (h : a + b ≤ maxIndex) : add? a b = some (a + b) := if_pos h

theorem mul?_eq {a b : Nat} (h : a * b ≤ maxIndex) : mul? a b = some (a * b) := if_pos h

/-- A grid whose columns and rows are quantities has no more cells than there are indices. -/
theorem mul_le_maxIndex {a b : Nat} (ha : a ≤ maxQuantity) (hb : b ≤ maxQuantity) :
    a * b ≤ maxIndex :=
  calc a * b ≤ maxQuantity * maxQuantity := Nat.mul_le_mul ha hb
    _ ≤ maxIndex := by decide

end Index

section Checked

def Stack.split? (s : Stack) (amount : Nat) : Option (Option Stack × Option Stack) := do
  let left ← Quantity.sub? s.quantity (min amount s.quantity)
  return (s.resize (min amount s.quantity), s.resize left)

namespace Slot

def planPoll? (s : Slot) (limit : Option Nat) : Option (Option (Stack × Option Stack)) :=
  match s.contents with
  | none => some none
  | some held => do
    let (taken, left) ← held.split? (limit.getD maxQuantity)
    return taken.map fun t => (t, left)

def planOffer? (s : Slot) (rules : ItemRules) (stack : Stack) : Option (Option SlotPlan) :=
  if s.accepts rules stack then
    match s.mergeBase stack with
    | none => some none
    | some current =>
      if s.maxStackFor rules stack ≤ current then some none
      else do
        let room ← Quantity.sub? (s.maxStackFor rules stack) current
        let total ← Quantity.add? current (min stack.quantity room)
        let rest ← Quantity.sub? stack.quantity (min stack.quantity room)
        return some ⟨stack.resize total, stack.resize rest⟩
  else some none

def planSet? (s : Slot) (rules : ItemRules) (stack : Stack) : Option (Option SlotPlan) :=
  if s.accepts rules stack then do
    let rest ← Quantity.sub? stack.quantity (min stack.quantity (s.maxStackFor rules stack))
    return some ⟨stack.resize (min stack.quantity (s.maxStackFor rules stack)), stack.resize rest⟩
  else some none

end Slot

def OfferPlan.fill? (s : State) (merging : Bool) (p : OfferPlan) (id : SlotId) :
    Option OfferPlan :=
  match p.remaining, s.forest.slot id with
  | some rest, some slot =>
    if eligible merging p id slot rest then do
      match ← slot.planOffer? s.env.rules rest with
      | none => return p
      | some step => return ⟨p.puts ++ (step.after.map fun a => (id, a)).toList, step.rejected⟩
    else some p
  | _, _ => some p

namespace State

def planOffer? (s : State) (order : List SlotId) (stack : Stack) : Option OfferPlan := do
  let merged ← order.foldlM (OfferPlan.fill? s true) (.start stack)
  order.foldlM (OfferPlan.fill? s false) merged

def planPollFrom? (s : State) : List SlotId → Option Stack → Option Nat →
    Option (Option Stack × List (SlotId × Option Stack))
  | [], taken, _ => some (taken, [])
  | id :: rest, taken, budget =>
    if budget = some 0 then some (taken, [])
    else match s.contents id, s.forest.slot id with
      | some held, some slot =>
        if taken.all fun t => t.mergesWith held then do
          match ← slot.planPoll? budget with
          | none => s.planPollFrom? rest taken budget
          | some (part, left) => do
            let gathered := match taken with
              | none => part
              | some t => t.increase part.quantity
            let wanted ← Quantity.sub? (budget.getD part.quantity) part.quantity
            let (last, leaves) ← s.planPollFrom? rest (some gathered) (some wanted)
            return (last, (id, left) :: leaves)
        else s.planPollFrom? rest taken budget
      | _, _ => s.planPollFrom? rest taken budget

def planPoll? (s : State) (order : List SlotId) (limit : Option Nat) :
    Option (Option PollPlan) := do
  match ← s.planPollFrom? order none limit with
  | (none, _) => return none
  | (some taken, leaves) => return some ⟨taken, leaves⟩

end State

end Checked

section Equal

theorem Stack.split?_eq (s : Stack) (amount : Nat) : s.split? amount = some (s.split amount) := by
  unfold split? split
  rw [Quantity.sub?_eq (Nat.min_le_right _ _)]
  rfl

namespace Slot
variable {s : Slot}

theorem planPoll?_eq (s : Slot) (limit : Option Nat) :
    s.planPoll? limit = some (s.planPoll limit) := by
  unfold planPoll? planPoll
  cases s.contents with
  | none => rfl
  | some held =>
    dsimp only
    rw [Stack.split?_eq]
    rfl

theorem maxStackFor_le (h : s.maxStackSize ≤ maxQuantity) (rules : ItemRules) (stack : Stack) :
    s.maxStackFor rules stack ≤ maxQuantity := by
  have hone : 1 ≤ maxQuantity := by decide
  unfold maxStackFor
  cases rules.maxStack stack.kind with
  | none =>
    dsimp only
    omega
  | some n =>
    dsimp only
    omega

theorem planOffer?_eq (h : s.maxStackSize ≤ maxQuantity) (rules : ItemRules) (stack : Stack) :
    s.planOffer? rules stack = some (s.planOffer rules stack) := by
  have hlimit := maxStackFor_le h rules stack
  unfold planOffer? planOffer
  split
  · cases s.mergeBase stack with
    | none => rfl
    | some current =>
      dsimp only
      split
      · rfl
      · rw [Quantity.sub?_eq (by omega), Option.bind_eq_bind, Option.bind_some,
          Quantity.add?_eq (by omega), Option.bind_some, Quantity.sub?_eq (Nat.min_le_left _ _)]
        rfl
  · rfl

/-- Beyond the range of limits the sum is refused. -/
example : (Slot.mk (some ⟨⟨"minecraft:apple"⟩, maxQuantity, []⟩) .any (maxQuantity + 1)).planOffer?
    .unrestricted ⟨⟨"minecraft:apple"⟩, 1, []⟩ = none := by decide

theorem planSet?_eq (s : Slot) (rules : ItemRules) (stack : Stack) :
    s.planSet? rules stack = some (s.planSet rules stack) := by
  unfold planSet? planSet
  split
  · rw [Quantity.sub?_eq (Nat.min_le_left _ _)]
    rfl
  · rfl

theorem quantity_le_of_planPoll {budget : Nat} {part : Stack} {left : Option Stack}
    (h : s.planPoll (some budget) = some (part, left)) : part.quantity ≤ budget := by
  unfold planPoll at h
  obtain ⟨held, _, h⟩ := Option.bind_eq_some_iff.mp h
  obtain ⟨taken, htaken, h⟩ := Option.map_eq_some_iff.mp h
  cases h
  change held.resize (min budget held.quantity) = some part at htaken
  unfold Stack.resize at htaken
  split at htaken
  · cases htaken
  · cases htaken
    exact Nat.min_le_left _ _

end Slot

namespace State
variable {s : State}

def LimitsInRange (s : State) : Prop :=
  ∀ (x : SlotId) (slot : Slot), s.forest.slot x = some slot → slot.maxStackSize ≤ maxQuantity

/-- The checked planners have a result whatever they are asked, and it is that of the planners. -/
structure Exact (s : State) : Prop where
  offers : ∀ order stack, s.planOffer? order stack = some (s.planOffer order stack)
  polls : ∀ order limit, s.planPoll? order limit = some (s.planPoll order limit)
  sets : ∀ (x : SlotId) (slot : Slot) (stack : Stack), s.forest.slot x = some slot →
    slot.planSet? s.env.rules stack = some (slot.planSet s.env.rules stack)
  splits : ∀ (stack : Stack) (amount : Nat), stack.split? amount = some (stack.split amount)

theorem LimitsInRange.fill? (h : s.LimitsInRange) (merging : Bool) (p : OfferPlan) (id : SlotId) :
    OfferPlan.fill? s merging p id = some (OfferPlan.fill s merging p id) := by
  unfold OfferPlan.fill? OfferPlan.fill
  cases p.remaining with
  | none => rfl
  | some rest =>
    cases hslot : s.forest.slot id with
    | none => rfl
    | some slot =>
      dsimp only
      split
      · rw [Slot.planOffer?_eq (h _ _ hslot)]
        cases slot.planOffer s.env.rules rest <;> rfl
      · rfl

theorem LimitsInRange.planOffer? (h : s.LimitsInRange) (order : List SlotId) (stack : Stack) :
    s.planOffer? order stack = some (s.planOffer order stack) := by
  have hpass : ∀ (merging : Bool) (p : OfferPlan), order.foldlM (OfferPlan.fill? s merging) p =
      some (order.foldl (OfferPlan.fill s merging) p) := by
    intro merging p
    induction order generalizing p with
    | nil => rfl
    | cons id rest ih =>
      rw [List.foldlM_cons, h.fill?]
      exact ih _
  unfold State.planOffer? planOffer
  rw [hpass]
  exact hpass false _

theorem planPollFrom?_eq (s : State) (order : List SlotId) (taken : Option Stack)
    (budget : Option Nat) :
    s.planPollFrom? order taken budget = some (s.planPollFrom order taken budget) := by
  induction order generalizing taken budget with
  | nil => rfl
  | cons id rest ih =>
    unfold planPollFrom? planPollFrom
    split
    · rfl
    · cases s.contents id with
      | none => exact ih taken budget
      | some held =>
        cases s.forest.slot id with
        | none => exact ih taken budget
        | some slot =>
          dsimp only [Option.bind_some]
          rw [Slot.planPoll?_eq]
          cases hpoll : slot.planPoll budget with
          | none =>
            dsimp only
            split
            · exact ih taken budget
            · exact ih taken budget
          | some plan =>
            obtain ⟨part, left⟩ := plan
            dsimp only
            split
            · have hle : part.quantity ≤ budget.getD part.quantity := by
                cases budget with
                | none => exact Nat.le_refl _
                | some n => exact Slot.quantity_le_of_planPoll hpoll
              rw [Option.bind_eq_bind, Option.bind_some]
              dsimp only
              rw [Quantity.sub?_eq hle, Option.bind_eq_bind, Option.bind_some, ih]
              rfl
            · exact ih taken budget

theorem planPoll?_eq (s : State) (order : List SlotId) (limit : Option Nat) :
    s.planPoll? order limit = some (s.planPoll order limit) := by
  unfold planPoll? planPoll
  rw [planPollFrom?_eq]
  rcases s.planPollFrom order none limit with ⟨taken, leaves⟩
  cases taken <;> rfl

theorem LimitsInRange.exact (h : s.LimitsInRange) : s.Exact where
  offers := h.planOffer?
  polls := s.planPoll?_eq
  sets := fun _ slot stack _ => slot.planSet?_eq s.env.rules stack
  splits := Stack.split?_eq

end State

end Equal

end Stowage
