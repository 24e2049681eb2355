import Stowage.Archetype.Layout
import Mathlib.Algebra.Order.Ring.Nat
import Mathlib.Data.List.Nodup
import Mathlib.Data.List.Range
import Mathlib.Data.List.Perm.Subperm

/-!
# What an accepted layout covers

The claims of the children are kept beside the map of covered cells. An accepted grid is covered
cell by cell, so its owners in cell order are the claims in another order: every slot of every child
stands in just one cell.
-/

namespace Stowage

set_option autoImplicit false

def ownersFrom (n : Nat) : List (Placing × Archetype) → List (Nat × Nat)
  | [] => []
  | (_, a) :: rest => (List.range a.slotCount).map (fun k => (n, k)) ++ ownersFrom (n + 1) rest

/-- The shape says of its kind and size what the children make of it. -/
def Shape.Fits (s : Shape) (children : List (Placing × Archetype)) : Prop :=
  match s.kind with
  | .slot => children = [] ∧ s.slotCount = 1
  | .ordered => s.slotCount = (children.map fun c => c.2.slotCount).sum
  | .grid columns rows => s.slotCount = columns * rows ∧ s.slotCount = s.cells.length ∧
    s.cells.Perm (ownersFrom 0 children)

def Draft.Ordered (d : Draft) (slotCount : Nat) : Prop :=
  ∀ order, d.fillOrder = some order → order.Perm (List.range slotCount)

inductive Archetype.Fits : Archetype → Prop where
  | frozen {id : Option ArchetypeId} {draft : Draft} {shape : Shape}
      {children : List (Placing × Archetype)} (below : ∀ c ∈ children, Archetype.Fits c.2)
      (here : shape.Fits children) (order : draft.Ordered shape.slotCount) :
      Archetype.Fits (.frozen id draft shape children)

theorem Archetype.Fits.shape_fits {a : Archetype} (h : a.Fits) : a.shape.Fits a.children := by
  cases h
  assumption

theorem length_ownersFrom (n : Nat) (children : List (Placing × Archetype)) :
    (ownersFrom n children).length = (children.map fun c => c.2.slotCount).sum := by
  induction children generalizing n with
  | nil => rfl
  | cons c rest ih => simp [ownersFrom, ih]

def Placement.start (columns : Nat) (p : Placement) : Nat := p.origin.2 * columns + p.origin.1

namespace Footprint

theorem band_cells (columns y height : Nat) :
    (band columns y height).cells = (List.range (columns * height)).map fun k => y * columns + k :=
  rfl

theorem cells_eq {columns : Nat} {a : Archetype} {p : Placement} {area : Footprint}
    (ha : a.Fits) (h : ofChild columns a.kind a.slotCount p = some area) :
    area.cells = (List.range a.slotCount).map (fun k => p.start columns + k) ∧
      p.origin.1 ≤ columns := by
  have hfits := ha.shape_fits
  unfold Shape.Fits at hfits
  unfold Archetype.kind Archetype.slotCount at *
  unfold Placement.start
  cases p with
  | inOrder => simp [ofChild] at h
  | cell x y =>
    simp only [ofChild] at h
    split at h
    · rename_i hk
      cases h
      rw [hk.1] at hfits
      rw [hfits.2]
      exact ⟨rfl, Nat.le_of_lt hk.2⟩
    · cases h
  | row y =>
    simp only [ofChild] at h
    split at h
    · split at h
      · rename_i hc
        cases h
        rw [band_cells, hc, Nat.mul_one]
        exact ⟨rfl, Nat.zero_le _⟩
      · cases h
    · rename_i c r hk
      split at h
      · rename_i hcr
        cases h
        rw [hk] at hfits
        rw [band_cells, hfits.1, hcr.1, hcr.2]
        exact ⟨rfl, Nat.zero_le _⟩
      · cases h
    · cases h
  | subGrid y =>
    simp only [ofChild] at h
    split at h
    · rename_i c r hk
      split at h
      · rename_i hc
        cases h
        rw [hk] at hfits
        rw [band_cells, hfits.1, hc]
        exact ⟨rfl, Nat.zero_le _⟩
      · cases h
    · cases h

end Footprint

namespace GridLayout

structure Records (l : GridLayout) (claims : List (Nat × Nat × Nat)) : Prop where
  nodup : (claims.map Prod.fst).Nodup
  mem_iff : ∀ cell owner, l.covered[cell]? = some owner ↔ (cell, owner) ∈ claims
  size : l.covered.size = claims.length

/-- What the child with a number covers: each cell with the number and with the slot in it. -/
def claimsOf (columns : Nat) (c : (Placing × Archetype) × Nat) : List (Nat × Nat × Nat) :=
  (List.range c.1.2.slotCount).map fun k => (c.1.1.placement.start columns + k, c.2, k)

def claimsFrom (columns n : Nat) (children : List (Placing × Archetype)) :
    List (Nat × Nat × Nat) := (children.zipIdx n).flatMap (claimsOf columns)

theorem map_snd_claimsFrom (columns n : Nat) (children : List (Placing × Archetype)) :
    (claimsFrom columns n children).map Prod.snd = ownersFrom n children := by
  induction children generalizing n with
  | nil => rfl
  | cons c rest ih =>
    have hrest := ih (n + 1)
    unfold claimsFrom at *
    rw [List.zipIdx_cons, List.flatMap_cons, List.map_append, hrest, ownersFrom]
    simp [claimsOf, Function.comp_def]

theorem records_empty : Records empty [] := by
  refine ⟨List.nodup_nil, ?_, ?_⟩
  · intro cell owner
    simp [empty]
  · simp [empty]

theorem Records.claim {f : Frame} {l l' : GridLayout} {claims : List (Nat × Nat × Nat)}
    {cell : Nat} {owner : Nat × Nat} (h : Records l claims)
    (hl : l.claim f cell owner = .ok l') : Records l' (claims ++ [(cell, owner)]) := by
  unfold GridLayout.claim at hl
  split at hl
  · cases hl
  · rename_i hfree
    cases hl
    have hnone : l.covered[cell]? = none := by
      rw [Std.TreeMap.contains_eq_isSome_getElem?] at hfree
      exact Option.not_isSome_iff_eq_none.mp hfree
    have hnew : cell ∉ claims.map Prod.fst := by
      intro hmem
      obtain ⟨⟨c, o⟩, hco, rfl⟩ := List.mem_map.mp hmem
      have hsome := (h.mem_iff _ _).mpr hco
      simp only at hnone
      rw [hnone] at hsome
      cases hsome
    refine ⟨?_, ?_, ?_⟩
    · rw [List.map_append, List.nodup_append]
      refine ⟨h.nodup, List.nodup_singleton _, ?_⟩
      intro x hx y hy hxy
      rw [hxy, List.mem_singleton.mp hy] at hx
      exact hnew hx
    · intro c o
      rw [Std.TreeMap.getElem?_insert, List.mem_append, ← h.mem_iff, List.mem_singleton]
      by_cases hc : cell = c
      · subst hc
        rw [if_pos (Nat.compare_eq_eq.mpr rfl), hnone]
        constructor
        · intro ho
          cases ho
          exact Or.inr rfl
        · intro ho
          rcases ho with ho | ho
          · cases ho
          · cases ho
            rfl
      · have hcmp : compare cell c ≠ .eq := fun h => hc (Nat.compare_eq_eq.mp h)
        simp [hcmp, Ne.symm hc]
    · rw [Std.TreeMap.size_insert, if_neg hfree, h.size]
      simp

theorem Records.claimAll {f : Frame} {child : Nat} (cells : List Nat) {l l' : GridLayout}
    {claims : List (Nat × Nat × Nat)} {offset : Nat} (h : Records l claims)
    (hl : claimAll f child l offset cells = .ok l') :
    Records l' (claims ++ (cells.zipIdx offset).map fun c => (c.1, child, c.2)) := by
  induction cells generalizing l claims offset with
  | nil =>
    simp only [GridLayout.claimAll] at hl
    cases hl
    simpa using h
  | cons cell rest ih =>
    simp only [GridLayout.claimAll] at hl
    split at hl
    · cases hl
    · rename_i l₁ hclaim
      simpa using ih (h.claim hclaim) hl

theorem zipIdx_map_range {α : Type} (g : Nat → α) (n : Nat) :
    ((List.range n).map g).zipIdx = (List.range n).map fun k => (g k, k) := by
  apply List.ext_getElem?
  intro i
  by_cases hi : i < n <;> simp [hi]

theorem Records.addChild {f : Frame} {l l' : GridLayout} {claims : List (Nat × Nat × Nat)}
    {n : Nat} {p : Placing} {a : Archetype} (h : Records l claims) (ha : a.Fits)
    (hl : l.addChild f n p a = .ok l') :
    Records l' (claims ++ claimsOf f.columns ((p, a), n)) ∧ p.placement.origin.1 ≤ f.columns := by
  unfold GridLayout.addChild at hl
  split at hl
  · cases hl
  split at hl
  · cases hl
  rename_i area harea
  split at hl
  · cases hl
  split at hl
  · cases hl
  rename_i l₁ hclaim
  cases hl
  obtain ⟨hcells, hwithin⟩ := Footprint.cells_eq ha harea
  have hmore := h.claimAll _ hclaim
  rw [hcells, zipIdx_map_range, List.map_map] at hmore
  exact ⟨⟨hmore.nodup, hmore.mem_iff, hmore.size⟩, hwithin⟩

theorem Records.addChildren {f : Frame} (children : List (Placing × Archetype))
    {l l' : GridLayout} {claims : List (Nat × Nat × Nat)} {n : Nat} (h : Records l claims)
    (hc : ∀ c ∈ children, c.2.Fits) (hl : addChildren f l n children = .ok l') :
    Records l' (claims ++ claimsFrom f.columns n children) ∧
      ∀ c ∈ children, c.1.placement.origin.1 ≤ f.columns := by
  induction children generalizing l claims n with
  | nil =>
    simp only [GridLayout.addChildren] at hl
    cases hl
    exact ⟨by simpa [claimsFrom] using h, by simp⟩
  | cons c rest ih =>
    obtain ⟨p, a⟩ := c
    simp only [GridLayout.addChildren] at hl
    split at hl
    · cases hl
    · rename_i l₁ hadd
      obtain ⟨hfirst, hwithin⟩ := h.addChild (hc (p, a) List.mem_cons_self) hadd
      obtain ⟨hmore, hrest⟩ := ih hfirst (fun c hcr => hc c (List.mem_cons_of_mem _ hcr)) hl
      refine ⟨by simpa [claimsFrom] using hmore, ?_⟩
      intro c hcm
      rcases List.mem_cons.mp hcm with rfl | hcm
      · exact hwithin
      · exact hrest c hcm

theorem map_eq_of_mapM {α β : Type} {look : α → Option β} {l : List α} {r : List β}
    (h : l.mapM look = some r) : l.map look = r.map some := by
  induction l generalizing r with
  | nil =>
    simp only [List.mapM_nil] at h
    cases h
    rfl
  | cons a rest ih =>
    simp only [List.mapM_cons] at h
    obtain ⟨b, hb, h⟩ := Option.bind_eq_some_iff.mp h
    obtain ⟨bs, hbs, h⟩ := Option.bind_eq_some_iff.mp h
    cases h
    simp [hb, ih hbs]

theorem Records.range_perm {l : GridLayout} {claims : List (Nat × Nat × Nat)}
    {cells : List (Nat × Nat)} (h : Records l claims)
    (hcells : l.owners l.covered.size = some cells) :
    (List.range l.covered.size).Perm (claims.map Prod.fst) := by
  have hmap := map_eq_of_mapM hcells
  have hlen : cells.length = l.covered.size := by
    have hl := congrArg List.length hmap
    simpa using hl.symm
  have hsub : List.range l.covered.size ⊆ claims.map Prod.fst := by
    intro i hi
    rw [List.mem_range, ← hlen] at hi
    have hget := congrArg (fun m => m[i]?) hmap
    simp only [List.getElem?_map, List.getElem?_range (hlen ▸ hi), Option.map_some,
      List.getElem?_eq_getElem hi] at hget
    exact List.mem_map_of_mem ((h.mem_iff _ _).mp (Option.some.inj hget))
  exact (List.nodup_range.subperm hsub).perm_of_length_le (by simp [h.size])

theorem Records.owners_perm {l : GridLayout} {claims : List (Nat × Nat × Nat)}
    {cells : List (Nat × Nat)} (h : Records l claims)
    (hcells : l.owners l.covered.size = some cells) : cells.Perm (claims.map Prod.snd) := by
  have hmap := map_eq_of_mapM hcells
  rw [h.size] at hmap
  have hlen : cells.length = claims.length := by
    have hl := congrArg List.length hmap
    simpa using hl.symm
  have hfst : ((List.range cells.length).zip cells).map Prod.fst = List.range cells.length :=
    List.map_fst_zip (by simp)
  have hsnd : ((List.range cells.length).zip cells).map Prod.snd = cells :=
    List.map_snd_zip (by simp)
  have hsub : (List.range cells.length).zip cells ⊆ claims := by
    intro e he
    obtain ⟨i, hi⟩ := List.mem_iff_getElem?.mp he
    obtain ⟨hfi, hsi⟩ := List.getElem?_zip_eq_some.mp hi
    have hget := congrArg (fun m => m[i]?) hmap
    simp only [List.getElem?_map, hsi, Option.map_some, ← hlen, hfi] at hget
    exact (h.mem_iff _ _).mp (Option.some.inj hget)
  have hnodup : ((List.range cells.length).zip cells).Nodup := by
    apply List.Nodup.of_map Prod.fst
    rw [hfst]
    exact List.nodup_range
  have hperm := (hnodup.subperm hsub).perm_of_length_le (by simp [hlen])
  have hresult := hperm.map Prod.snd
  rwa [hsnd] at hresult

/-- An accepted grid is covered by its children, and its cells are the owners in index order. -/
theorem exists_records {f : Frame} {children : List (Placing × Archetype)} {s : Shape}
    (hc : ∀ c ∈ children, c.2.Fits) (h : shape f children = .ok s) : ∃ l rows cells,
      Records l (claimsFrom f.columns 0 children) ∧
        (∀ c ∈ children, c.1.placement.origin.1 ≤ f.columns) ∧
        l.covered.size = f.columns * rows ∧ l.owners l.covered.size = some cells ∧
        s = ⟨.grid f.columns rows, cells.length, cells⟩ := by
  unfold shape at h
  split at h
  · cases h
  rename_i l hl
  obtain ⟨hclaims, hwithin⟩ := records_empty.addChildren children hc hl
  rw [List.nil_append] at hclaims
  generalize hrows : (if f.inferRows then l.usedRows else f.rows) = rows at *
  simp only [finish, hrows] at h
  split at h
  · cases h
  rename_i hsize
  have hsize : l.covered.size = f.columns * rows := by
    by_cases he : l.covered.size = f.columns * rows
    · exact he
    · exact absurd (Or.inr he) hsize
  split at h
  · cases h
  rename_i cells hcells
  rw [← hsize] at hcells
  cases h
  exact ⟨l, rows, cells, hclaims, hwithin, hsize, hcells, rfl⟩

/-- An accepted grid has the declared columns, and each slot of each child in just one cell. -/
theorem shape_fits {f : Frame} {children : List (Placing × Archetype)} {s : Shape}
    (hc : ∀ c ∈ children, c.2.Fits) (h : shape f children = .ok s) : s.Fits children := by
  obtain ⟨l, rows, cells, hclaims, _, hsize, hcells, rfl⟩ := exists_records hc h
  have hperm := hclaims.owners_perm hcells
  have howners := map_snd_claimsFrom f.columns 0 children
  rw [howners] at hperm
  refine ⟨?_, rfl, hperm⟩
  have hlen := congrArg List.length howners
  rw [List.length_map] at hlen
  rw [hperm.length_eq, ← hlen, ← hclaims.size, hsize]

end GridLayout

end Stowage
