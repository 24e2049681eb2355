import Stowage.Refusal
import Std.Data.TreeMap

/-!
# Laying out a grid

Cells are counted row by row, so the cell in column `x` of row `y` has the index
`y * columns + x`. Every child of a grid covers cells: one cell, one full row, or as many full rows
as a sub-grid has. A layout is accepted when no cell is covered twice and the whole grid is
covered.
-/

namespace Stowage

set_option autoImplicit false

/-- The rows that a child stands in, and the cells that it covers in the order of its slots. -/
structure Footprint where
  top : Nat
  height : Nat
  cells : List Nat
deriving DecidableEq, Repr, Inhabited

namespace Footprint

/-- Full rows of a grid of the given width. -/
def band (columns top height : Nat) : Footprint :=
  ⟨top, height, (List.range (columns * height)).map fun i => top * columns + i⟩

/-- What a child of the given kind and size covers, unless it does not fit the width of the grid. -/
def ofChild (columns : Nat) (kind : ArchetypeKind) (slotCount : Nat) : Placement → Option Footprint
  | .inOrder => none
  | .cell x y => if kind = .slot ∧ x < columns then some ⟨y, 1, [y * columns + x]⟩ else none
  | .row y => match kind with
    | .ordered => if slotCount = columns then some (band columns y 1) else none
    | .grid c r => if c = columns ∧ r = 1 then some (band columns y 1) else none
    | .slot => none
  | .subGrid y => match kind with
    | .grid c r => if c = columns then some (band columns y r) else none
    | _ => none

end Footprint

/-- The cells covered so far, each with the child that covers it and the slot within that child, and
the row after the last one in use. -/
structure GridLayout where
  covered : Std.TreeMap Nat (Nat × Nat)
  usedRows : Nat

namespace GridLayout

/-- The dimensions that a grid is laid out under, and its name in messages. -/
structure Frame where
  archetype : String
  columns : Nat
  rows : Nat
  inferRows : Bool
deriving DecidableEq, Repr, Inhabited

namespace Frame

def capacityMismatch (f : Frame) (declared found : Nat) : Refusal :=
  .capacityMismatch "grid" f.archetype declared found

def positionOccupied (f : Frame) (cell : Nat) : Refusal :=
  .positionOccupied f.archetype (cell % f.columns) (cell / f.columns)

/-- The row after the last one of a footprint; `none` when it is no row number, or is below the end
of a grid of fixed height. -/
def endRow (f : Frame) (top height : Nat) : Option Nat :=
  if top + height ≤ maxQuantity ∧ (f.inferRows = true ∨ top + height ≤ f.rows) then
    some (top + height)
  else none

end Frame

def empty : GridLayout := ⟨.empty, 0⟩

def claim (f : Frame) (l : GridLayout) (cell : Nat) (owner : Nat × Nat) :
    Except Refusal GridLayout :=
  if l.covered.contains cell then .error (f.positionOccupied cell)
  else .ok { l with covered := l.covered.insert cell owner }

/-- Covers the cells of the child with the number `child`; they hold its slots from `offset` on. -/
def claimAll (f : Frame) (child : Nat) : GridLayout → Nat → List Nat → Except Refusal GridLayout
  | l, _, [] => .ok l
  | l, offset, cell :: rest => match l.claim f cell (child, offset) with
    | .error r => .error r
    | .ok l' => claimAll f child l' (offset + 1) rest

def addChild (f : Frame) (l : GridLayout) (ordinal : Nat) (p : Placing) (a : Archetype) :
    Except Refusal GridLayout :=
  if p.placement = .inOrder then .error (.invalidBuilder f.archetype .orderedPlacement)
  else match Footprint.ofChild f.columns a.kind a.slotCount p.placement with
    | none => .error (.shapeMismatch f.archetype a.displayId f.columns)
    | some area => match f.endRow area.top area.height with
      | none => .error (f.capacityMismatch (f.columns * f.rows) (ordinal + 1))
      | some last => match l.claimAll f ordinal 0 area.cells with
        | .error r => .error r
        | .ok l' => .ok { l' with usedRows := max l'.usedRows last }

def addChildren (f : Frame) :
    GridLayout → Nat → List (Placing × Archetype) → Except Refusal GridLayout
  | l, _, [] => .ok l
  | l, n, (p, a) :: rest => match l.addChild f n p a with
    | .error r => .error r
    | .ok l' => addChildren f l' (n + 1) rest

/-- The owners of the first `n` cells; `none` when one of them is free. -/
def owners (l : GridLayout) (n : Nat) : Option (List (Nat × Nat)) :=
  (List.range n).mapM fun i => l.covered[i]?

def finish (f : Frame) (l : GridLayout) : Except Refusal Shape :=
  let rows := if f.inferRows then l.usedRows else f.rows
  let declared := f.columns * rows
  if rows < l.usedRows ∨ l.covered.size ≠ declared then
    .error (f.capacityMismatch declared l.covered.size)
  else match l.owners declared with
    | none => .error (f.capacityMismatch declared l.covered.size)
    | some cells => .ok ⟨.grid f.columns rows, cells.length, cells⟩

def shape (f : Frame) (children : List (Placing × Archetype)) : Except Refusal Shape :=
  match addChildren f empty 0 children with
  | .error r => .error r
  | .ok l => l.finish f

end GridLayout

end Stowage
