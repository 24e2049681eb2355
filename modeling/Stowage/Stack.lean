/-!
# Item stacks

A stack is a quantity of one item kind with opaque data attached. Stacks are replaced, never
changed, and merge only when kind and data agree. "No stack" is `none`.
-/

namespace Stowage

set_option autoImplicit false

def maxQuantity : Nat := 4294967295

/-- Names an item type, such as `minecraft:stone`. -/
structure ItemKind where
  id : String
deriving DecidableEq, Repr, Inhabited

structure Stack where
  kind : ItemKind
  quantity : Nat
  aux : List UInt8
deriving DecidableEq, Repr, Inhabited

namespace Stack

/-- A stack without attached data; a quantity of zero is raised to one. -/
def new (kind : ItemKind) (quantity : Nat) : Stack := ⟨kind, max quantity 1, []⟩

def single (kind : ItemKind) : Stack := new kind 1

def withAux (s : Stack) (aux : List UInt8) : Stack := { s with aux := aux }

/-- The same items in another quantity; a quantity of zero is no stack. -/
def resize (s : Stack) (n : Nat) : Option Stack :=
  if n = 0 then none else some { s with quantity := n }

/-- The same items and `extra` more, up to the largest quantity. -/
def increase (s : Stack) (extra : Nat) : Stack :=
  { s with quantity := min (s.quantity + extra) maxQuantity }

/-- Up to `amount` units taken off, and what is left behind. -/
def split (s : Stack) (amount : Nat) : Option Stack × Option Stack :=
  (s.resize (min amount s.quantity), s.resize (s.quantity - min amount s.quantity))

/-- Two stacks merge when they hold the same kind with identical data. -/
def mergesWith (s t : Stack) : Bool := s.kind == t.kind && s.aux == t.aux

def describe (s : Stack) : String := s!"{s.quantity}x{s.kind.id}"

theorem resize_zero (s : Stack) : s.resize 0 = none := rfl

theorem resize_pos {n : Nat} (s : Stack) (h : 0 < n) :
    s.resize n = some { s with quantity := n } := by
  have hn : n ≠ 0 := by omega
  simp [resize, hn]

theorem resize_self {s : Stack} (h : 0 < s.quantity) : s.resize s.quantity = some s :=
  resize_pos s h

theorem mergesWith_iff {s t : Stack} : s.mergesWith t = true ↔ s.kind = t.kind ∧ s.aux = t.aux := by
  simp [mergesWith]

end Stack

def unitsIn : Option Stack → Nat
  | none => 0
  | some s => s.quantity

end Stowage
