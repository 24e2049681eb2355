import Stowage.Archetype.Freeze
import Stowage.Proofs.Archetype.Layout

/-!
# Archetypes that builders make

A builder can be brought by calls alone to any description that uses archetypes made before. What is
frozen from it has a shape that fits its children, all the way down.
-/

namespace Stowage

set_option autoImplicit false

mutual

/-- A builder as a sequence of calls leaves it. All calls that are not named here are made up of
those that are. -/
inductive Builder.Written : Builder → Prop where
  | unset : Builder.Written .unset
  | rows (columns : Nat) : Builder.Written (.rows columns)
  | ofArchetype {a : Archetype} : Archetype.Made a → Builder.Written (.ofArchetype a)
  | kind {b : Builder} (k : ArchetypeKind) : Builder.Written b → Builder.Written (b.kind k)
  | name {b : Builder} (key : String) : Builder.Written b → Builder.Written (b.name key)
  | propertyKeyed {b : Builder} (kind : PropertyKind) (key : String) (value : PropertyValue) :
      Builder.Written b → Builder.Written (b.propertyKeyed kind key value)
  | filter {b : Builder} (f : Filter) : Builder.Written b → Builder.Written (b.filter f)
  | maxStackSize {b : Builder} (n : Nat) : Builder.Written b → Builder.Written (b.maxStackSize n)
  | capacity {b : Builder} (n : Nat) : Builder.Written b → Builder.Written (b.capacity n)
  | place {b : Builder} {a : Archetype} (placement : Placement) (priority : Int) :
      Builder.Written b → Archetype.Made a → Builder.Written (b.place placement a priority)
  | insert {b : Builder} {a : Archetype} (position : Nat) (priority : Int) :
      Builder.Written b → Archetype.Made a → Builder.Written (b.insert position a priority)
  | childProperty {b : Builder} (position : Nat) (kind : PropertyKind) (value : PropertyValue) :
      Builder.Written b → Builder.Written (b.childProperty position kind value)
  | fillOrder {b : Builder} (order : List Nat) :
      Builder.Written b → Builder.Written (b.fillOrder order)
  | shiftClick {b : Builder} (behavior : ShiftClick) :
      Builder.Written b → Builder.Written (b.shiftClick behavior)

inductive Archetype.Made : Archetype → Prop where
  | frozen {b : Builder} {id : Option ArchetypeId} {a : Archetype} :
      Builder.Written b → b.freeze id = .ok a → Archetype.Made a

end

namespace Builder

theorem exists_ok_of_bind {ε α β : Type} {x : Except ε α} {next : α → Except ε β} {b : β}
    (h : (x >>= next) = .ok b) : ∃ a, x = .ok a ∧ next a = .ok b := by
  cases x with
  | error e => cases h
  | ok a => exact ⟨a, rfl, h⟩

theorem perm_of_isPermutation {n : Nat} {order : List Nat} (h : isPermutation n order = true) :
    order.Perm (List.range n) := by
  simp only [isPermutation, Bool.and_eq_true, beq_iff_eq, List.all_eq_true, decide_eq_true_eq] at h
  obtain ⟨⟨hlen, hbelow⟩, hnodup⟩ := h
  have hsub : order ⊆ List.range n := fun i hi => List.mem_range.mpr (hbelow i hi)
  exact (hnodup.subperm hsub).perm_of_length_le (by simp [hlen])

theorem ordered_of_checkFillOrder {b : Builder} {archetype : String} {n : Nat} {u : Unit}
    (h : b.checkFillOrder archetype n = .ok u) : b.draft.Ordered n := by
  intro order horder
  unfold checkFillOrder at h
  rw [horder] at h
  dsimp only at h
  split at h
  · rename_i hperm
    exact perm_of_isPermutation hperm
  · cases h

theorem freeze_ok {b : Builder} {id : Option ArchetypeId} {a : Archetype}
    (h : b.freeze id = .ok a) : ∃ kind shape,
      b.shapeOf (Archetype.displayName id) kind = .ok shape ∧
        b.draft.Ordered shape.slotCount ∧ a = .frozen id b.draft shape b.children := by
  obtain ⟨kind, _, h⟩ := exists_ok_of_bind h
  obtain ⟨_, _, h⟩ := exists_ok_of_bind h
  obtain ⟨_, _, h⟩ := exists_ok_of_bind h
  obtain ⟨shape, hshape, h⟩ := exists_ok_of_bind h
  obtain ⟨_, horder, h⟩ := exists_ok_of_bind h
  cases h
  exact ⟨kind, shape, hshape, ordered_of_checkFillOrder horder, rfl⟩

theorem childSlots_eq (b : Builder) :
    b.childSlots = (b.children.map fun c => c.2.slotCount).sum := by
  unfold childSlots List.sum
  rw [List.foldr_map]

theorem shapeOf_cases {b : Builder} {archetype : String} {kind : ArchetypeKind} {s : Shape}
    (h : b.shapeOf archetype kind = .ok s) :
    (kind = .slot ∧ b.children = [] ∧ s = ⟨.slot, 1, []⟩) ∨
      (kind = .ordered ∧ s = ⟨.ordered, b.childSlots, []⟩) ∨
      ∃ columns rows, kind = .grid columns rows ∧
        GridLayout.shape ⟨archetype, columns, rows, b.draft.inferRows⟩ b.children = .ok s := by
  cases kind with
  | slot =>
    simp only [shapeOf, shapeOfSlot] at h
    split at h
    · rename_i hempty
      cases h
      exact Or.inl ⟨rfl, List.isEmpty_iff.mp hempty, rfl⟩
    · cases h
  | ordered =>
    refine Or.inr (Or.inl ⟨rfl, ?_⟩)
    simp only [shapeOf, shapeOfOrdered] at h
    split at h
    · cases h
    split at h
    · cases h
      rfl
    · split at h
      · cases h
        rfl
      · cases h
  | grid columns rows => exact Or.inr (Or.inr ⟨columns, rows, rfl, h⟩)

theorem shapeOf_fits {b : Builder} {archetype : String} {kind : ArchetypeKind} {s : Shape}
    (hc : ∀ c ∈ b.children, c.2.Fits) (h : b.shapeOf archetype kind = .ok s) :
    s.Fits b.children := by
  rcases shapeOf_cases h with ⟨_, hnone, rfl⟩ | ⟨_, rfl⟩ | ⟨columns, rows, _, hshape⟩
  · exact ⟨hnone, rfl⟩
  · exact b.childSlots_eq
  · exact GridLayout.shape_fits hc hshape

end Builder

mutual

theorem Builder.Written.made {b : Builder} : b.Written → ∀ c ∈ b.children, c.2.Made
  | .unset => by simp [Builder.unset]
  | .rows columns => by simp [Builder.rows, Builder.grid, Builder.kind, Builder.unset]
  | .ofArchetype h => h.children_made
  | .kind k h => h.made
  | .name key h => h.made
  | @Builder.Written.propertyKeyed b kind key value h => by
    unfold Builder.propertyKeyed
    split
    · unfold Builder.misused
      split <;> exact h.made
    · exact h.made
  | .filter f h => h.made
  | .maxStackSize n h => h.made
  | .capacity n h => h.made
  | @Builder.Written.place b a placement priority h ha => by
    intro c hc
    rcases List.mem_append.mp hc with hc | hc
    · exact h.made c hc
    · rw [List.mem_singleton.mp hc]
      exact ha
  | @Builder.Written.insert b a position priority h ha => by
    unfold Builder.insert
    split
    · unfold Builder.misused
      split <;> exact h.made
    · rename_i hpos
      intro c hc
      rcases (List.mem_insertIdx (by omega)).mp hc with hc | hc
      · rw [hc]
        exact ha
      · exact h.made c hc
  | @Builder.Written.childProperty b position kind value h => by
    unfold Builder.childProperty
    split
    · intro c hc
      obtain ⟨i, hi⟩ := List.mem_iff_getElem?.mp hc
      rw [List.getElem?_modify] at hi
      obtain ⟨d, hd, rfl⟩ := Option.map_eq_some_iff.mp hi
      have hmade := h.made d (List.mem_iff_getElem?.mpr ⟨i, hd⟩)
      split <;> exact hmade
    · unfold Builder.misused
      split <;> exact h.made
  | .fillOrder order h => h.made
  | .shiftClick behavior h => h.made

theorem Archetype.Made.children_made {a : Archetype} : a.Made → ∀ c ∈ a.children, c.2.Made
  | .frozen h hf => by
    obtain ⟨_, _, _, _, rfl⟩ := Builder.freeze_ok hf
    exact h.made

end

/-- Shapes of archetypes that were made fit all the way down. -/
theorem Archetype.Made.fits : {a : Archetype} → a.Made → a.Fits
  | .frozen id draft shape children, ha => by
    have hbelow : ∀ c ∈ children, c.2.Fits := by
      intro c hc
      have hsize := List.sizeOf_lt_of_mem hc
      exact (ha.children_made c hc).fits
    cases ha with
    | frozen h hf =>
      obtain ⟨kind, shape, hs, horder, ha⟩ := Builder.freeze_ok hf
      cases ha
      exact .frozen hbelow (Builder.shapeOf_fits hbelow hs) horder
termination_by a => sizeOf a
decreasing_by
  obtain ⟨p, c⟩ := c
  simp at hsize ⊢
  omega

theorem Builder.Written.fits {b : Builder} (h : b.Written) : ∀ c ∈ b.children, c.2.Fits :=
  fun c hc => (h.made c hc).fits

end Stowage
