import Stowage.Proofs.Arithmetic
import Stowage.Proofs.Grids

/-!
# Grid arithmetic stays in range

The layout of a grid and its look-ups once more, with every sum, product and quotient checked: one
that is out of its range, or a division by zero, gives no result at all. Rows and columns are
quantities, places within a sub-grid and numbers of cells are indices. The only sum that can be too
large is that of the end row, which is part of the layout and refuses the child; it keeps the sums
for the single rows and places in range. A grid without columns has no slots, so that no cell is
ever asked of it.
-/

namespace Stowage

set_option autoImplicit false

namespace Quantity

def mul? (a b : Nat) : Option Nat := if a * b ≤ maxQuantity then some (a * b) else none

def mod? (a b : Nat) : Option Nat := if b = 0 then none else some (a % b)

def div? (a b : Nat) : Option Nat := if b = 0 then none else some (a / b)

theorem mul?_eq {a b : Nat} (h : a * b ≤ maxQuantity) : mul? a b = some (a * b) := if_pos h

theorem mod?_eq {a b : Nat} (h : b ≠ 0) : mod? a b = some (a % b) := if_neg h

theorem div?_eq {a b : Nat} (h : b ≠ 0) : div? a b = some (a / b) := if_neg h

def ofIndex (i : Nat) : Nat := i % (maxQuantity + 1)

theorem ofIndex_eq {i : Nat} (h : i ≤ maxQuantity) : ofIndex i = i :=
  Nat.mod_eq_of_lt (Nat.lt_succ_of_le h)

end Quantity

section Checked

namespace Footprint

def bandCell? (columns top dy x : Nat) : Option (Nat × Nat) := do
  let row ← Quantity.add? top dy
  let start ← Index.mul? dy columns
  let offset ← Index.add? start x
  return (row * columns + x, offset)

def bandCells? (columns top height : Nat) : Option (List (Nat × Nat)) := do
  let rows ← (List.range height).mapM fun dy =>
    (List.range columns).mapM fun x => bandCell? columns top dy x
  return rows.flatten

end Footprint

namespace GridLayout

def Frame.endRow? (f : Frame) (top height : Nat) : Option Nat := do
  let last ← Quantity.add? top height
  if f.inferRows = true ∨ last ≤ f.rows then some last else none

/-- What a child covers that is of the given height. All numbers are found before any cell is
covered, so also those that a cell which is covered twice would have made needless. -/
def ownCells? (columns height : Nat) : Placement → Option (List (Nat × Nat))
  | .inOrder => some []
  | .cell x y => some [(y * columns + x, 0)]
  | .row y => some ((List.range columns).map fun x => (y * columns + x, x))
  | .subGrid y => Footprint.bandCells? columns y height

def claimCells (f : Frame) (child : Nat) :
    GridLayout → List (Nat × Nat) → Except Refusal GridLayout
  | l, [] => .ok l
  | l, (cell, offset) :: rest => match l.claim f cell (child, offset) with
    | .error r => .error r
    | .ok l' => claimCells f child l' rest

def addChild? (f : Frame) (l : GridLayout) (ordinal : Nat) (p : Placing) (a : Archetype) :
    Option (Except Refusal GridLayout) :=
  if p.placement = .inOrder then some (.error (.invalidBuilder f.archetype .orderedPlacement))
  else match Footprint.ofChild f.columns a.kind a.slotCount p.placement with
    | none => some (.error (.shapeMismatch f.archetype a.displayId f.columns))
    | some area => match f.endRow? area.top area.height with
      | none => do
        let declared ← Index.mul? f.columns f.rows
        return .error (f.capacityMismatch declared (ordinal + 1))
      | some last => do
        let cells ← ownCells? f.columns area.height p.placement
        match l.claimCells f ordinal cells with
          | .error r => return .error r
          | .ok l' => return .ok { l' with usedRows := max l'.usedRows last }

def addChildren? (f : Frame) :
    GridLayout → Nat → List (Placing × Archetype) → Option (Except Refusal GridLayout)
  | l, _, [] => some (.ok l)
  | l, n, (p, a) :: rest => do
    match ← l.addChild? f n p a with
      | .error r => return .error r
      | .ok l' => addChildren? f l' (n + 1) rest

def finish? (f : Frame) (l : GridLayout) : Option (Except Refusal Shape) := do
  let declared ← Index.mul? f.columns (f.height l)
  return if f.height l < l.usedRows ∨ l.covered.size ≠ declared then
      .error (f.capacityMismatch declared l.covered.size)
    else match l.owners declared with
      | none => .error (f.capacityMismatch declared l.covered.size)
      | some cells => .ok ⟨.grid f.columns (f.height l), cells.length, cells⟩

def shape? (f : Frame) (children : List (Placing × Archetype)) :
    Option (Except Refusal Shape) := do
  match ← addChildren? f empty 0 children with
    | .error r => return .error r
    | .ok l => l.finish? f

end GridLayout

namespace GridComposite

def slotIn? (g : GridComposite) (x y : Nat) : Option (Option SlotId) :=
  if x < g.columns ∧ y < g.rows then do
    let start ← Quantity.mul? y g.columns
    let index ← Quantity.add? start x
    return g.composite.slots[index]?
  else some none

def cellOf? (g : GridComposite) (slot : SlotId) : Option (Option (Nat × Nat)) :=
  match g.composite.slots.idxOf? slot with
  | none => some none
  | some i => do
    let column ← Quantity.mod? (Quantity.ofIndex i) g.columns
    let row ← Quantity.div? (Quantity.ofIndex i) g.columns
    return some (column, row)

end GridComposite

end Checked

section Cells
variable {columns top height : Nat}

theorem mapM_eq_some {α β : Type} {l : List α} {look : α → Option β} {value : α → β}
    (h : ∀ a ∈ l, look a = some (value a)) : l.mapM look = some (l.map value) := by
  induction l with
  | nil => rfl
  | cons a rest ih =>
    have hrest := ih fun b hb => h b (List.mem_cons_of_mem a hb)
    rw [List.mapM_cons, h a List.mem_cons_self, hrest]
    rfl

theorem map_range_mul {β : Type} (value : Nat → β) (columns rows : Nat) :
    (List.range (columns * rows)).map value =
      (List.range rows).flatMap fun y => (List.range columns).map fun x =>
        value (y * columns + x) := by
  induction rows with
  | zero => rfl
  | succ n ih =>
    rw [Nat.mul_succ, List.range_add, List.map_append, ih, List.range_succ, List.flatMap_append]
    simp [Nat.mul_comm]

/-- The sums for the single rows and places are in range because the end row is. -/
theorem Footprint.bandCell?_eq (hc : columns ≤ maxQuantity) (hend : top + height ≤ maxQuantity)
    {dy x : Nat} (hdy : dy < height) (hx : x < columns) :
    bandCell? columns top dy x = some ((top + dy) * columns + x, dy * columns + x) := by
  have hplace : dy * columns + x ≤ maxIndex :=
    calc dy * columns + x ≤ (dy + 1) * columns := by rw [Nat.succ_mul]; omega
      _ ≤ maxIndex := Index.mul_le_maxIndex (by omega) hc
  unfold bandCell?
  rw [Quantity.add?_eq (by omega), Index.mul?_eq (Nat.le_of_add_right_le hplace)]
  simp only [Option.bind_eq_bind, Option.bind_some, Index.add?_eq hplace]
  rfl

/-- Without the check of the end row there would be row numbers that are out of range. -/
example : Footprint.bandCell? 2 maxQuantity 1 0 = none := by decide

theorem Footprint.bandCells?_eq (hc : columns ≤ maxQuantity) (hend : top + height ≤ maxQuantity) :
    bandCells? columns top height = some (band columns top height).cells.zipIdx := by
  unfold bandCells?
  rw [mapM_eq_some fun dy hdy => mapM_eq_some fun x hx =>
    bandCell?_eq hc hend (List.mem_range.mp hdy) (List.mem_range.mp hx)]
  rw [band_cells, GridLayout.zipIdx_map_range, map_range_mul, List.flatMap_def]
  simp [Nat.add_mul, Nat.add_assoc]

theorem Footprint.eq_band_of_row {kind : ArchetypeKind} {slotCount y : Nat} {area : Footprint}
    (h : ofChild columns kind slotCount (.row y) = some area) : area = band columns y 1 := by
  unfold ofChild at h
  cases kind with
  | slot => cases h
  | ordered => exact Option.some.inj (Option.ite_none_right_eq_some.mp h).2.symm
  | grid c r => exact Option.some.inj (Option.ite_none_right_eq_some.mp h).2.symm

theorem Footprint.exists_band_of_subGrid {kind : ArchetypeKind} {slotCount y : Nat}
    {area : Footprint} (h : ofChild columns kind slotCount (.subGrid y) = some area) :
    ∃ rows, area = band columns y rows := by
  unfold ofChild at h
  cases kind with
  | slot => cases h
  | ordered => cases h
  | grid c rows => exact ⟨rows, Option.some.inj (Option.ite_none_right_eq_some.mp h).2.symm⟩

end Cells

namespace GridLayout
variable {f : Frame} {l l' : GridLayout}

section Layout

theorem Frame.endRow?_eq (f : Frame) (top height : Nat) :
    f.endRow? top height = f.endRow top height := by
  unfold endRow? endRow Quantity.add?
  by_cases hrange : top + height ≤ maxQuantity <;> simp [hrange]

theorem ownCells?_eq {columns slotCount : Nat} {kind : ArchetypeKind} {p : Placement}
    {area : Footprint} (harea : Footprint.ofChild columns kind slotCount p = some area)
    (hc : columns ≤ maxQuantity) (hend : area.top + area.height ≤ maxQuantity) :
    ownCells? columns area.height p = some area.cells.zipIdx := by
  cases p with
  | inOrder => cases harea
  | cell x y =>
    simp only [Footprint.ofChild] at harea
    split at harea
    · cases harea
      rfl
    · cases harea
  | row y =>
    obtain rfl := Footprint.eq_band_of_row harea
    rw [Footprint.band_cells, Nat.mul_one, zipIdx_map_range]
    rfl
  | subGrid y =>
    obtain ⟨rows, rfl⟩ := Footprint.exists_band_of_subGrid harea
    exact Footprint.bandCells?_eq hc hend

theorem claimCells_zipIdx (f : Frame) (child : Nat) (l : GridLayout) (offset : Nat)
    (cells : List Nat) :
    claimCells f child l (cells.zipIdx offset) = claimAll f child l offset cells := by
  induction cells generalizing l offset with
  | nil => rfl
  | cons cell rest ih =>
    rw [List.zipIdx_cons]
    simp only [claimCells, claimAll]
    cases l.claim f cell (child, offset) with
    | error r => rfl
    | ok l' => exact ih l' (offset + 1)

theorem allows_of_addChild {ordinal : Nat} {p : Placing} {a : Archetype}
    (h : l.addChild f ordinal p a = .ok l') : f.Allows (p.placement.bottom a) := by
  unfold addChild at h
  split at h
  · cases h
  split at h
  · cases h
  rename_i area harea
  split at h
  · cases h
  rename_i last hlast
  obtain ⟨_, htop, hheight⟩ := ofChild_some harea
  obtain ⟨_, hallows⟩ := Frame.endRow_eq_some_iff.mp hlast
  rwa [htop, hheight] at hallows

theorem usedRows_le {children : List (Placing × Archetype)} {n : Nat}
    (hl : l.usedRows ≤ maxQuantity) (h : addChildren f l n children = .ok l') :
    l'.usedRows ≤ maxQuantity := by
  induction children generalizing l n with
  | nil =>
    cases h
    exact hl
  | cons c rest ih =>
    simp only [addChildren] at h
    split at h
    · cases h
    · rename_i l₁ hadd
      refine ih ?_ h
      rw [usedRows_addChild hadd]
      exact Nat.max_le.mpr ⟨hl, (allows_of_addChild hadd).1⟩

theorem addChild?_eq (hc : f.columns ≤ maxQuantity) (hr : f.rows ≤ maxQuantity)
    (l : GridLayout) (ordinal : Nat) (p : Placing) (a : Archetype) :
    l.addChild? f ordinal p a = some (l.addChild f ordinal p a) := by
  unfold addChild? addChild
  split
  · rfl
  · cases harea : Footprint.ofChild f.columns a.kind a.slotCount p.placement with
    | none => rfl
    | some area =>
      dsimp only
      rw [Frame.endRow?_eq]
      cases hlast : f.endRow area.top area.height with
      | none =>
        dsimp only
        rw [Index.mul?_eq (Index.mul_le_maxIndex hc hr)]
        rfl
      | some last =>
        obtain ⟨rfl, hallows⟩ := Frame.endRow_eq_some_iff.mp hlast
        dsimp only
        rw [ownCells?_eq harea hc hallows.1, Option.bind_eq_bind, Option.bind_some,
          claimCells_zipIdx]
        cases l.claimAll f ordinal 0 area.cells <;> rfl

theorem addChildren?_eq (hc : f.columns ≤ maxQuantity) (hr : f.rows ≤ maxQuantity)
    (children : List (Placing × Archetype)) (l : GridLayout) (n : Nat) :
    addChildren? f l n children = some (addChildren f l n children) := by
  induction children generalizing l n with
  | nil => rfl
  | cons c rest ih =>
    obtain ⟨p, a⟩ := c
    simp only [addChildren?, addChildren]
    rw [addChild?_eq hc hr, Option.bind_eq_bind, Option.bind_some]
    cases l.addChild f n p a with
    | error r => rfl
    | ok l' => exact ih l' (n + 1)

theorem finish?_eq (hc : f.columns ≤ maxQuantity) (hr : f.rows ≤ maxQuantity)
    (hl : l.usedRows ≤ maxQuantity) : l.finish? f = some (l.finish f) := by
  have hheight : f.height l ≤ maxQuantity := by
    unfold Frame.height
    split
    · exact hl
    · exact hr
  unfold finish?
  rw [Index.mul?_eq (Index.mul_le_maxIndex hc hheight)]
  rfl

/-- Whatever is to be laid out, no sum and no product goes out of range. -/
theorem shape?_eq (hc : f.columns ≤ maxQuantity) (hr : f.rows ≤ maxQuantity)
    (children : List (Placing × Archetype)) :
    shape? f children = some (shape f children) := by
  unfold shape? shape
  rw [addChildren?_eq hc hr, Option.bind_eq_bind, Option.bind_some]
  cases hall : addChildren f empty 0 children with
  | error r => rfl
  | ok l => exact finish?_eq hc hr (usedRows_le (Nat.zero_le _) hall)

end Layout

end GridLayout

namespace GridComposite
variable {g : GridComposite}

theorem slotIn?_eq (hbound : g.columns * g.rows ≤ 2 ^ 32) (x y : Nat) :
    g.slotIn? x y = some (g.slotIn x y) := by
  unfold slotIn? slotIn
  split
  · rename_i hinside
    have hlt := index_lt hinside.1 hinside.2
    have hindex : y * g.columns + x ≤ maxQuantity := by
      unfold maxQuantity
      omega
    rw [Quantity.mul?_eq (Nat.le_of_add_right_le hindex), Option.bind_eq_bind, Option.bind_some,
      Quantity.add?_eq hindex]
    rfl
  · rfl

theorem cellOf?_eq (hfull : g.composite.slots.length = g.columns * g.rows)
    (hbound : g.columns * g.rows ≤ 2 ^ 32) (slot : SlotId) :
    g.cellOf? slot = some (g.cellOf slot) := by
  unfold cellOf? cellOf
  cases hi : g.composite.slots.idxOf? slot with
  | none => rfl
  | some i =>
    have hlt : i < g.columns * g.rows := by
      obtain ⟨hlt, _⟩ := List.idxOf?_eq_some_iff.mp hi
      rwa [hfull] at hlt
    have hpos : g.columns ≠ 0 := by
      rintro hzero
      rw [hzero, Nat.zero_mul] at hlt
      exact Nat.not_lt_zero _ hlt
    have hindex : i ≤ maxQuantity := by
      unfold maxQuantity
      omega
    dsimp only
    rw [Quantity.ofIndex_eq hindex, Quantity.mod?_eq hpos, Option.bind_eq_bind, Option.bind_some,
      Quantity.div?_eq hpos]
    rfl

/-- The look-ups by cell and by slot are those of checked arithmetic, and on a grid without cells
they find nothing. -/
structure Exact (g : GridComposite) : Prop where
  slots : ∀ x y, g.slotIn? x y = some (g.slotIn x y)
  cells : ∀ slot, g.cellOf? slot = some (g.cellOf slot)
  hollow : g.columns = 0 ∨ g.rows = 0 →
    (∀ x y, g.slotIn? x y = some none) ∧ ∀ slot, g.cellOf? slot = some none

theorem exact_of_full (hfull : g.composite.slots.length = g.columns * g.rows)
    (hbound : g.columns * g.rows ≤ 2 ^ 32) : g.Exact where
  slots := slotIn?_eq hbound
  cells := cellOf?_eq hfull hbound
  hollow := by
    intro hzero
    have hnone : g.composite.slots = [] := by
      rw [← List.length_eq_zero_iff, hfull]
      exact Nat.mul_eq_zero.mpr hzero
    constructor
    · intro x y
      rw [slotIn?_eq hbound]
      unfold slotIn
      simp [hnone]
    · intro slot
      rw [cellOf?_eq hfull hbound]
      unfold cellOf
      simp [hnone]

end GridComposite

/-- A grid whose columns and rows are quantities is laid out, or refused, without a sum or product
out of range, whatever its children are; and in every state that is reached the look-ups of a grid
of no more cells than quantities stay in range too and never divide by zero. -/
theorem grid_arithmetic_in_range :
    (∀ (f : GridLayout.Frame) (children : List (Placing × Archetype)), f.columns ≤ maxQuantity →
      f.rows ≤ maxQuantity → GridLayout.shape? f children = some (GridLayout.shape f children)) ∧
    ∀ (past : List World) (w : World), Run past w → ∀ (x : NodeId) (g : GridComposite),
      w.state.forest.grid? x = some g → g.columns * g.rows ≤ 2 ^ 32 → g.Exact := by
  refine ⟨fun f children hc hr => GridLayout.shape?_eq hc hr children, ?_⟩
  intro past w h x g hg hbound
  exact GridComposite.exact_of_full (h.charted x g hg).full hbound

def Builder.columnless : Builder := .grid 0 maxQuantity

def Archetype.columnless : Archetype :=
  .frozen none Builder.columnless.draft ⟨.grid 0 maxQuantity, 0, []⟩ []

theorem Archetype.columnless_made : columnless.Made :=
  .frozen (.kind _ .unset) (show Builder.columnless.freeze none = .ok columnless from rfl)

def Operation.columnless : List Operation := [.instantiate .columnless Archetype.columnless_made]

theorem grid_arithmetic_in_range_limits :
    GridLayout.shape? ⟨"<anonymous>", 1, 0, true⟩
      ((Builder.rows 1).cell 0 maxQuantity .anySlot).children =
        some (.error (.capacityMismatch "grid" "<anonymous>" 0 1)) ∧
    ∃ g, (World.reached Operation.columnless).2.state.forest.grid? ⟨0, 0⟩ = some g ∧
      g.columns = 0 ∧ g.rows = maxQuantity ∧ g.columns * g.rows ≤ 2 ^ 32 ∧ g.Exact := by
  refine ⟨?_, ?_⟩
  · rw [grid_arithmetic_in_range.1 _ _ (by decide) (by decide)]
    rfl
  · obtain ⟨g, hg, hcolumns, hrows⟩ : ∃ g,
        (World.reached Operation.columnless).2.state.forest.grid? ⟨0, 0⟩ = some g ∧
          g.columns = 0 ∧ g.rows = maxQuantity := ⟨_, rfl, rfl, rfl⟩
    have hbound : g.columns * g.rows ≤ 2 ^ 32 := by
      rw [hcolumns, Nat.zero_mul]
      exact Nat.zero_le _
    exact ⟨g, hg, hcolumns, hrows, hbound,
      grid_arithmetic_in_range.2 _ _ (Run.reached Operation.columnless) _ g hg hbound⟩

end Stowage
