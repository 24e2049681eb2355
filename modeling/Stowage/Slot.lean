import Stowage.Filter

/-!
# Slots

A slot holds at most one stack. The functions here compute what a change would leave behind; to
carry it out and to tell others of it is the business of the contents operations.
-/

namespace Stowage

set_option autoImplicit false

structure Slot where
  contents : Option Stack
  filter : Filter
  maxStackSize : Nat
deriving Inhabited

/-- What a change of one slot would leave in it, and the units that do not fit. -/
structure SlotPlan where
  after : Option Stack
  rejected : Option Stack
deriving DecidableEq, Repr, Inhabited

namespace Slot

/-- An empty slot; a limit of zero is raised to one. -/
def new (filter : Filter) (maxStackSize : Nat) : Slot := ⟨none, filter, max maxStackSize 1⟩

def standard : Slot := new .any 64

def isEmpty (s : Slot) : Bool := s.contents.isNone

def accepts (s : Slot) (rules : ItemRules) (stack : Stack) : Bool := s.filter.test rules stack

/-- The smaller of the slot's and the item's limit, and at least one. -/
def maxStackFor (s : Slot) (rules : ItemRules) (stack : Stack) : Nat :=
  max 1 (match rules.maxStack stack.kind with
    | none => s.maxStackSize
    | some n => min n s.maxStackSize)

/-- A copy of the contents, or of up to `limit` units of them. -/
def peek (s : Slot) (limit : Option Nat) : Option Stack :=
  s.contents.bind fun held => match limit with
    | none => some held
    | some n => (held.split n).1

/-- The units that a poll takes, and what stays. -/
def planPoll (s : Slot) (limit : Option Nat) : Option (Stack × Option Stack) :=
  s.contents.bind fun held =>
    let (taken, left) := held.split (limit.getD maxQuantity)
    taken.map fun t => (t, left)

/-- The quantity that `stack` would be added to, if it could be added at all. -/
def mergeBase (s : Slot) (stack : Stack) : Option Nat :=
  match s.contents with
  | none => some 0
  | some held => if held.mergesWith stack then some held.quantity else none

/-- Adds a stack to the contents; `none` when no unit would be taken. -/
def planOffer (s : Slot) (rules : ItemRules) (stack : Stack) : Option SlotPlan :=
  if s.accepts rules stack then
    match s.mergeBase stack with
    | none => none
    | some current =>
      let limit := s.maxStackFor rules stack
      if limit ≤ current then none
      else
        let accepted := min stack.quantity (limit - current)
        some ⟨stack.resize (current + accepted), stack.resize (stack.quantity - accepted)⟩
  else none

/-- Puts a stack in place of the contents, up to the limit; `none` when the filter refuses it. -/
def planSet (s : Slot) (rules : ItemRules) (stack : Stack) : Option SlotPlan :=
  if s.accepts rules stack then
    let kept := min stack.quantity (s.maxStackFor rules stack)
    some ⟨stack.resize kept, stack.resize (stack.quantity - kept)⟩
  else none

theorem one_le_maxStackFor (s : Slot) (rules : ItemRules) (stack : Stack) :
    1 ≤ s.maxStackFor rules stack := by
  unfold maxStackFor
  omega

end Slot

end Stowage
