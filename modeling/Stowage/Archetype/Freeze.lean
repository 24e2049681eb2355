import Stowage.Archetype.Builder
import Stowage.Archetype.Layout

/-!
# Freezing a description

A draft becomes an archetype when its kind supports all that was written down, its children fit, and
an explicit fill order names every slot once. The first cause that speaks against it is reported.
-/

namespace Stowage

set_option autoImplicit false

namespace Builder

def misuseRefusal (archetype : String) (kind : ArchetypeKind) : Misuse → Refusal
  | .structuralProperty k => .invalidBuilder archetype (.structuralProperty k)
  | .childPosition p n => .childPosition kind.builderName archetype p n

def shapeOfSlot (archetype : String) (b : Builder) : Except Refusal Shape :=
  if b.children.isEmpty then .ok ⟨.slot, 1, []⟩
  else .error (.invalidBuilder archetype .slotChildren)

/-- The number of slots of all children together, which 64 bits are meant to be enough for. -/
def childSlots (b : Builder) : Nat := b.children.foldr (fun c n => c.2.slotCount + n) 0

def shapeOfOrdered (archetype : String) (b : Builder) : Except Refusal Shape :=
  if b.children.any fun c => c.1.placement ≠ .inOrder then
    .error (.invalidBuilder archetype .gridPlacement)
  else match b.draft.declaredCapacity with
    | none => .ok ⟨.ordered, b.childSlots, []⟩
    | some declared =>
      if b.childSlots = declared then .ok ⟨.ordered, b.childSlots, []⟩
      else .error (.capacityMismatch "ordered" archetype declared b.childSlots)

def shapeOf (archetype : String) (b : Builder) : ArchetypeKind → Except Refusal Shape
  | .slot => b.shapeOfSlot archetype
  | .ordered => b.shapeOfOrdered archetype
  | .grid columns rows =>
    GridLayout.shape ⟨archetype, columns, rows, b.draft.inferRows⟩ b.children

/-- Whether the list names each of the indices below `n` once. -/
def isPermutation (n : Nat) (order : List Nat) : Bool :=
  order.length == n && order.all (· < n) && decide order.Nodup

def hasSlotOptions (b : Builder) : Bool := b.draft.filter.isSome || b.draft.maxStackSize.isSome

def selectedKind (archetype : String) (b : Builder) : Except Refusal ArchetypeKind :=
  match b.draft.kind with
  | none => .error (.missingFactory archetype)
  | some kind => .ok kind

def checkMisuse (archetype : String) (b : Builder) (kind : ArchetypeKind) : Except Refusal Unit :=
  match b.draft.misuse with
  | none => .ok ()
  | some m => .error (misuseRefusal archetype kind m)

def checkOptions (archetype : String) (b : Builder) (kind : ArchetypeKind) : Except Refusal Unit :=
  if kind ≠ .slot ∧ b.hasSlotOptions = true then .error (.invalidBuilder archetype .slotOptions)
  else .ok ()

def checkFillOrder (archetype : String) (b : Builder) (slotCount : Nat) : Except Refusal Unit :=
  match b.draft.fillOrder with
  | none => .ok ()
  | some order =>
    if isPermutation slotCount order then .ok ()
    else .error (.prioritySetMismatch archetype slotCount order.length)

def freeze (b : Builder) (id : Option ArchetypeId) : Except Refusal Archetype := do
  let archetype := Archetype.displayName id
  let kind ← b.selectedKind archetype
  b.checkMisuse archetype kind
  b.checkOptions archetype kind
  let shape ← b.shapeOf archetype kind
  b.checkFillOrder archetype shape.slotCount
  return .frozen id b.draft shape b.children

end Builder

end Stowage
