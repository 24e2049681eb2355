import Stowage.Forest.Growth
import Stowage.Proofs.Archetype.Made
import Mathlib.Data.List.Sort

/-!
# Grids are filled row by row

The cells of one child follow each other without a gap, and no two children share a cell. So once
the children are sorted by their first cells, all cells of one come before all cells of the next,
and the cell table of a grid is the same as the slots of its sorted children one after another.
-/

namespace Stowage

set_option autoImplicit false

open Forest (cellBefore)

def rowOrder (children : List (Placing × Archetype)) : List ((Placing × Archetype) × Nat) :=
  stableSort (fun a b => cellBefore a.1.1.placement.origin b.1.1.placement.origin) children.zipIdx

def ownersOf (c : (Placing × Archetype) × Nat) : List (Nat × Nat) :=
  (List.range c.1.2.slotCount).map fun k => (c.2, k)

/-- The cells of a grid are those of its sorted children one after another. -/
def Shape.InRows (s : Shape) (children : List (Placing × Archetype)) : Prop :=
  ∀ columns rows, s.kind = .grid columns rows → s.cells = (rowOrder children).flatMap ownersOf

section CellBefore
variable {a b c : Nat × Nat}

theorem cellBefore_iff : cellBefore a b = true ↔ a.2 < b.2 ∨ a.2 = b.2 ∧ a.1 ≤ b.1 := by
  simp [cellBefore]

theorem cellBefore_total (a b : Nat × Nat) : cellBefore a b = true ∨ cellBefore b a = true := by
  rw [cellBefore_iff, cellBefore_iff]
  omega

theorem cellBefore_trans (hab : cellBefore a b = true) (hbc : cellBefore b c = true) :
    cellBefore a c = true := by
  rw [cellBefore_iff] at *
  omega

theorem Placement.start_le {columns : Nat} {p q : Placement} (hp : p.origin.1 ≤ columns)
    (h : cellBefore p.origin q.origin = true) : p.start columns ≤ q.start columns := by
  unfold Placement.start
  rcases cellBefore_iff.mp h with hrow | ⟨hrow, hcolumn⟩
  · have hnext := Nat.mul_le_mul_right columns (Nat.succ_le_of_lt hrow)
    rw [Nat.succ_mul] at hnext
    omega
  · rw [hrow]
    omega

end CellBefore

theorem pairwise_rowOrder (children : List (Placing × Archetype)) :
    (rowOrder children).Pairwise fun a b =>
      cellBefore a.1.1.placement.origin b.1.1.placement.origin = true := by
  refine pairwise_stableSort ?_ ?_ children.zipIdx
  · intro a b
    exact cellBefore_total _ _
  · intro a b c
    exact cellBefore_trans

namespace GridLayout

section Increasing
variable {columns : Nat}

theorem mem_claimsOf {c : (Placing × Archetype) × Nat} {cell : Nat} :
    cell ∈ (claimsOf columns c).map Prod.fst ↔
      c.1.1.placement.start columns ≤ cell ∧
        cell < c.1.1.placement.start columns + c.1.2.slotCount := by
  simp only [claimsOf, List.map_map, List.mem_map, List.mem_range, Function.comp_apply]
  constructor
  · rintro ⟨k, hk, rfl⟩
    omega
  · rintro ⟨hle, hlt⟩
    exact ⟨cell - c.1.1.placement.start columns, by omega, by omega⟩

theorem pairwise_claimsOf (c : (Placing × Archetype) × Nat) :
    ((claimsOf columns c).map Prod.fst).Pairwise (· < ·) := by
  simp only [claimsOf, List.map_map, List.pairwise_map, Function.comp_apply]
  exact List.pairwise_lt_range.imp fun h => Nat.add_lt_add_left h _

/-- Of two children without a common cell, the one that starts first ends first. -/
theorem lt_of_disjoint {c d : (Placing × Archetype) × Nat}
    (hle : c.1.1.placement.start columns ≤ d.1.1.placement.start columns)
    (hdisjoint : ∀ x ∈ (claimsOf columns c).map Prod.fst,
      ∀ y ∈ (claimsOf columns d).map Prod.fst, x ≠ y)
    {x y : Nat} (hx : x ∈ (claimsOf columns c).map Prod.fst)
    (hy : y ∈ (claimsOf columns d).map Prod.fst) : x < y := by
  by_contra hlt
  refine hdisjoint y ?_ y hy rfl
  rw [mem_claimsOf] at *
  omega

theorem pairwise_lt_claims {sorted : List ((Placing × Archetype) × Nat)}
    (hwithin : ∀ c ∈ sorted, c.1.1.placement.origin.1 ≤ columns)
    (hsorted : sorted.Pairwise fun a b =>
      cellBefore a.1.1.placement.origin b.1.1.placement.origin = true)
    (hnodup : ((sorted.flatMap (claimsOf columns)).map Prod.fst).Nodup) :
    ((sorted.flatMap (claimsOf columns)).map Prod.fst).Pairwise (· < ·) := by
  induction sorted with
  | nil => exact .nil
  | cons c rest ih =>
    rw [List.flatMap_cons, List.map_append] at hnodup ⊢
    obtain ⟨_, hrest, hdisjoint⟩ := List.nodup_append.mp hnodup
    obtain ⟨hfirst, hsorted⟩ := List.pairwise_cons.mp hsorted
    refine List.pairwise_append.mpr ⟨pairwise_claimsOf c,
      ih (fun d hd => hwithin d (List.mem_cons_of_mem _ hd)) hsorted hrest, ?_⟩
    intro x hx y hy
    obtain ⟨claim, hclaim, rfl⟩ := List.mem_map.mp hy
    obtain ⟨d, hd, hclaim⟩ := List.mem_flatMap.mp hclaim
    have hle := Placement.start_le (hwithin c List.mem_cons_self) (hfirst d hd)
    refine lt_of_disjoint hle ?_ hx (List.mem_map_of_mem hclaim)
    intro x hx y hy
    obtain ⟨claim, hclaim, rfl⟩ := List.mem_map.mp hy
    exact hdisjoint x hx _ (List.mem_map_of_mem (List.mem_flatMap.mpr ⟨d, hd, hclaim⟩))

end Increasing

theorem Records.perm {l : GridLayout} {claims claims' : List (Nat × Nat × Nat)}
    (h : Records l claims) (hp : claims'.Perm claims) : Records l claims' where
  nodup := (hp.map Prod.fst).nodup_iff.mpr h.nodup
  mem_iff := fun cell owner => (h.mem_iff cell owner).trans hp.mem_iff.symm
  size := h.size.trans hp.length_eq.symm

theorem Records.owners_eq {l : GridLayout} {claims : List (Nat × Nat × Nat)}
    {cells : List (Nat × Nat)} (h : Records l claims)
    (hcells : l.owners l.covered.size = some cells)
    (hlt : (claims.map Prod.fst).Pairwise (· < ·)) : cells = claims.map Prod.snd := by
  have hmap := map_eq_of_mapM hcells
  have hfst : List.range l.covered.size = claims.map Prod.fst :=
    (h.range_perm hcells).eq_of_pairwise' List.pairwise_lt_range hlt
  have hlook : (claims.map Prod.fst).map (fun i => l.covered[i]?) =
      (claims.map Prod.snd).map some := by
    rw [List.map_map, List.map_map]
    refine List.map_congr_left fun claim hclaim => ?_
    exact (h.mem_iff _ _).mpr hclaim
  rw [hfst, hlook] at hmap
  exact (List.map_injective_iff.mpr (Option.some_injective _) hmap).symm

/-- The cells of an accepted grid are those of its sorted children one after another. -/
theorem shape_inRows {f : Frame} {children : List (Placing × Archetype)} {s : Shape}
    (hc : ∀ c ∈ children, c.2.Fits) (h : shape f children = .ok s) : s.InRows children := by
  obtain ⟨l, rows, cells, hclaims, hwithin, hsize, hcells, rfl⟩ := exists_records hc h
  intro _ _ _
  have hperm : (rowOrder children).Perm children.zipIdx := stableSort_perm _ _
  have hsorted := hclaims.perm (hperm.flatMap_right (claimsOf f.columns))
  have hlt := pairwise_lt_claims
    (fun c hc => hwithin c.1 (List.fst_mem_of_mem_zipIdx (hperm.mem_iff.mp hc)))
    (pairwise_rowOrder children) hsorted.nodup
  change cells = _
  rw [hsorted.owners_eq hcells hlt, List.map_flatMap]
  refine List.flatMap_congr fun c _ => ?_
  simp [claimsOf, ownersOf, Function.comp_def]

end GridLayout

namespace Builder

theorem shapeOf_inRows {b : Builder} {archetype : String} {kind : ArchetypeKind} {s : Shape}
    (hc : ∀ c ∈ b.children, c.2.Fits) (h : b.shapeOf archetype kind = .ok s) :
    s.InRows b.children := by
  rcases shapeOf_cases h with ⟨_, _, rfl⟩ | ⟨_, rfl⟩ | ⟨columns, rows, _, hshape⟩
  · rintro _ _ ⟨⟩
  · rintro _ _ ⟨⟩
  · exact GridLayout.shape_inRows hc hshape

end Builder

theorem Archetype.Made.inRows {a : Archetype} (h : a.Made) : a.shape.InRows a.children := by
  cases h with
  | frozen hb hf =>
    obtain ⟨kind, shape, hs, _, rfl⟩ := Builder.freeze_ok hf
    exact Builder.shapeOf_inRows hb.fits hs

end Stowage
