import Stowage.Proofs.Archetype.Rows

/-!
# The layouts that are accepted

Children are claimed one after another, each with its cells. All claims go through just when the
children fit their places and no cell is named twice; and the grid is then full just when the cells
named are those of a full grid. In columns and rows this says that the children tile the grid.
-/

namespace Stowage

set_option autoImplicit false

/-- The child is of a kind and size that its place in a grid of the given width is for. -/
def Placement.Takes (columns : Nat) (a : Archetype) : Placement → Prop
  | .inOrder => False
  | .cell x _ => a.kind = .slot ∧ x < columns
  | .row _ => (a.kind = .ordered ∧ a.slotCount = columns) ∨ a.kind = .grid columns 1
  | .subGrid _ => ∃ rows, a.kind = .grid columns rows

def ArchetypeKind.height : ArchetypeKind → Nat
  | .grid _ rows => rows
  | _ => 1

def Archetype.height (a : Archetype) : Nat := a.kind.height

def Placement.Covers (columns : Nat) (a : Archetype) (x y k : Nat) : Placement → Prop
  | .inOrder => False
  | .cell x₀ y₀ => x = x₀ ∧ y = y₀ ∧ k = 0
  | .row y₀ => x < columns ∧ y = y₀ ∧ k = x
  | .subGrid y₀ => x < columns ∧ y₀ ≤ y ∧ y < y₀ + a.height ∧ k = (y - y₀) * columns + x

def Placement.bottom (p : Placement) (a : Archetype) : Nat := p.origin.2 + a.height

def lastRow (children : List (Placing × Archetype)) : Nat :=
  (children.map fun c => c.1.placement.bottom c.2).foldr max 0

/-- No cell has two children, and those of the grid, and no others, have one. -/
structure Tiling (columns rows : Nat) (children : List (Placing × Archetype)) : Prop where
  disjoint : ∀ {i j : Nat} {c d : Placing × Archetype} {x y k l : Nat},
    children[i]? = some c → children[j]? = some d → c.1.placement.Covers columns c.2 x y k →
      d.1.placement.Covers columns d.2 x y l → i = j
  exact : ∀ x y, (∃ c ∈ children, ∃ k, c.1.placement.Covers columns c.2 x y k) ↔
    x < columns ∧ y < rows

theorem lastRow_le {children : List (Placing × Archetype)} {n : Nat}
    (h : ∀ c ∈ children, c.1.placement.bottom c.2 ≤ n) : lastRow children ≤ n := by
  induction children with
  | nil => exact Nat.zero_le n
  | cons c rest ih =>
    have hrest := ih fun d hd => h d (List.mem_cons_of_mem _ hd)
    exact Nat.max_le.mpr ⟨h c List.mem_cons_self, hrest⟩

section Cells
variable {columns : Nat} {a : Archetype} {p : Placement}

theorem cell_unique {x y x' y' : Nat} (hx : x < columns) (hx' : x' < columns)
    (h : y * columns + x = y' * columns + x') : x = x' ∧ y = y' := by
  have hpos : 0 < columns := by omega
  have hmod := congrArg (· % columns) h
  have hdiv := congrArg (· / columns) h
  simp only [Nat.add_comm _ x, Nat.add_comm _ x', Nat.add_mul_mod_self_right,
    Nat.mod_eq_of_lt hx, Nat.mod_eq_of_lt hx'] at hmod
  simp only [Nat.add_comm _ x, Nat.add_comm _ x', Nat.add_mul_div_right _ _ hpos,
    Nat.div_eq_of_lt hx, Nat.div_eq_of_lt hx', Nat.zero_add] at hdiv
  exact ⟨hmod, hdiv⟩

theorem band_iff {x y y₀ rows k : Nat} : (x < columns ∧ y₀ ≤ y ∧ y < y₀ + rows ∧
      k = (y - y₀) * columns + x) ↔
    x < columns ∧ k < columns * rows ∧ y * columns + x = y₀ * columns + k := by
  constructor
  · rintro ⟨hx, hle, hlt, rfl⟩
    obtain ⟨d, rfl⟩ := Nat.exists_eq_add_of_le hle
    have hd : (d + 1) * columns ≤ rows * columns :=
      Nat.mul_le_mul_right columns (by omega)
    rw [Nat.add_sub_cancel_left, Nat.add_mul, Nat.mul_comm columns]
    rw [Nat.add_mul] at hd
    omega
  · rintro ⟨hx, hk, hcell⟩
    have hle : y₀ ≤ y := by
      by_contra hlt
      have hrows : (y + 1) * columns ≤ y₀ * columns := Nat.mul_le_mul_right columns (by omega)
      rw [Nat.add_mul] at hrows
      omega
    obtain ⟨d, rfl⟩ := Nat.exists_eq_add_of_le hle
    rw [Nat.add_mul] at hcell
    rw [Nat.add_sub_cancel_left]
    refine ⟨hx, hle, ?_, by omega⟩
    by_contra hge
    have hrows : rows * columns ≤ d * columns := Nat.mul_le_mul_right columns (by omega)
    rw [Nat.mul_comm columns] at hk
    omega

theorem Placement.Takes.slotCount_eq (hp : p.Takes columns a) (ha : a.Fits) :
    (∃ x y, p = .cell x y ∧ x < columns ∧ a.slotCount = 1) ∨
      ((∃ y, p = .row y ∨ p = .subGrid y) ∧ a.slotCount = columns * a.height) := by
  have hfits := ha.shape_fits
  unfold Shape.Fits at hfits
  unfold Archetype.height Archetype.kind Archetype.slotCount at *
  cases p with
  | inOrder => exact hp.elim
  | cell x y =>
    obtain ⟨hkind, hx⟩ := hp
    change a.shape.kind = _ at hkind
    rw [hkind] at hfits
    exact Or.inl ⟨x, y, rfl, hx, hfits.2⟩
  | row y =>
    refine Or.inr ⟨⟨y, Or.inl rfl⟩, ?_⟩
    rcases hp with ⟨hkind, hcount⟩ | hkind
    · change a.shape.kind = _ at hkind
      rw [hkind]
      exact hcount.trans (Nat.mul_one columns).symm
    · change a.shape.kind = _ at hkind
      rw [hkind] at hfits ⊢
      exact hfits.1
  | subGrid y =>
    refine Or.inr ⟨⟨y, Or.inr rfl⟩, ?_⟩
    obtain ⟨rows, hkind⟩ := hp
    change a.shape.kind = _ at hkind
    rw [hkind] at hfits ⊢
    exact hfits.1

theorem Placement.Takes.height_row {y : Nat} (hp : (Placement.row y).Takes columns a) :
    a.height = 1 := by
  unfold Archetype.height
  rcases hp with ⟨hkind, _⟩ | hkind <;> rw [hkind] <;> rfl

theorem Placement.Takes.covers_iff (hp : p.Takes columns a) (ha : a.Fits) {x y k : Nat} :
    p.Covers columns a x y k ↔
      x < columns ∧ k < a.slotCount ∧ y * columns + x = p.start columns + k := by
  rcases hp.slotCount_eq ha with ⟨x₀, y₀, rfl, hx₀, hone⟩ | ⟨⟨y₀, rfl | rfl⟩, hcount⟩
  · rw [hone]
    unfold Covers start origin
    constructor
    · rintro ⟨rfl, rfl, rfl⟩
      exact ⟨hx₀, Nat.one_pos, rfl⟩
    · rintro ⟨hx, hk, hcell⟩
      have hzero : k = 0 := by omega
      rw [hzero, Nat.add_zero] at hcell
      obtain ⟨rfl, rfl⟩ := cell_unique hx hx₀ hcell
      exact ⟨rfl, rfl, hzero⟩
  · have hrow : (Placement.row y₀).Covers columns a x y k ↔ x < columns ∧ y₀ ≤ y ∧
        y < y₀ + a.height ∧ k = (y - y₀) * columns + x := by
      rw [hp.height_row]
      constructor
      · rintro ⟨hx, rfl, rfl⟩
        simp [hx]
      · rintro ⟨hx, hle, hlt, rfl⟩
        obtain rfl : y = y₀ := by omega
        simp [Covers, hx]
    rw [hrow, band_iff, hcount]
    rfl
  · rw [hcount]
    exact band_iff

theorem Placement.Covers.origin_eq {x y : Nat} (h : p.Covers columns a x y 0) :
    p.origin = (x, y) := by
  cases p with
  | inOrder => exact h.elim
  | cell x₀ y₀ =>
    obtain ⟨rfl, rfl, _⟩ := h
    rfl
  | row y₀ =>
    obtain ⟨_, rfl, rfl⟩ := h
    rfl
  | subGrid y₀ =>
    obtain ⟨hx, hle, _, hk⟩ := h
    obtain ⟨hrows, hcolumn⟩ := Nat.add_eq_zero_iff.mp hk.symm
    have hrow : y - y₀ = 0 := (Nat.mul_eq_zero.mp hrows).resolve_right (by omega)
    obtain rfl : y = y₀ := by omega
    rw [hcolumn]
    rfl

theorem Placement.Takes.columns_pos (hp : p.Takes columns a) (ha : a.Fits) {k : Nat}
    (hk : k < a.slotCount) : 0 < columns := by
  rcases hp.slotCount_eq ha with ⟨x, y, _, hx, _⟩ | ⟨_, hcount⟩
  · omega
  · rw [hcount] at hk
    exact Nat.pos_of_mul_pos_right (Nat.zero_lt_of_lt hk)

end Cells

namespace GridLayout

variable {f : Frame} {l : GridLayout} {claims : List (Nat × Nat × Nat)}

section Accepted

def Frame.Allows (f : Frame) (last : Nat) : Prop :=
  last ≤ maxQuantity ∧ (f.inferRows = true ∨ last ≤ f.rows)

theorem Frame.endRow_eq_some_iff {top height last : Nat} :
    f.endRow top height = some last ↔ last = top + height ∧ f.Allows (top + height) := by
  unfold endRow
  split
  · rename_i hallows
    rw [Option.some.injEq]
    exact ⟨fun h => ⟨h.symm, hallows⟩, fun h => h.1.symm⟩
  · rename_i hallows
    exact iff_of_false (Option.some_ne_none last).symm fun h => hallows h.2

theorem ofChild_some {columns : Nat} {a : Archetype} {p : Placement} {area : Footprint}
    (h : Footprint.ofChild columns a.kind a.slotCount p = some area) :
    p.Takes columns a ∧ area.top = p.origin.2 ∧ area.height = a.height := by
  unfold Archetype.height
  cases p with
  | inOrder => cases h
  | cell x y =>
    simp only [Footprint.ofChild] at h
    split at h
    · rename_i hfits
      cases h
      rw [hfits.1]
      exact ⟨hfits, rfl, rfl⟩
    · cases h
  | row y =>
    simp only [Footprint.ofChild] at h
    split at h
    · rename_i hkind
      split at h
      · rename_i hcount
        cases h
        rw [hkind]
        exact ⟨Or.inl ⟨hkind, hcount⟩, rfl, rfl⟩
      · cases h
    · rename_i c r hkind
      split at h
      · rename_i hfits
        cases h
        obtain ⟨rfl, rfl⟩ := hfits
        rw [hkind]
        exact ⟨Or.inr hkind, rfl, rfl⟩
      · cases h
    · cases h
  | subGrid y =>
    simp only [Footprint.ofChild] at h
    split at h
    · rename_i c r hkind
      split at h
      · rename_i hfits
        cases h
        rw [hfits] at hkind
        rw [hkind]
        exact ⟨⟨r, hkind⟩, rfl, rfl⟩
      · cases h
    · cases h

theorem exists_ofChild {columns : Nat} {a : Archetype} {p : Placement} (h : p.Takes columns a) :
    ∃ area, Footprint.ofChild columns a.kind a.slotCount p = some area := by
  cases p with
  | inOrder => exact h.elim
  | cell x y => exact ⟨_, if_pos h⟩
  | row y =>
    rcases h with ⟨hkind, hcount⟩ | hkind
    · exact ⟨Footprint.band columns y 1, by simp [Footprint.ofChild, hkind, hcount]⟩
    · exact ⟨Footprint.band columns y 1, by simp [Footprint.ofChild, hkind]⟩
  | subGrid y =>
    obtain ⟨rows, hkind⟩ := h
    exact ⟨Footprint.band columns y rows, by simp [Footprint.ofChild, hkind]⟩

theorem Records.claim_isOk (h : Records l claims) (cell : Nat) (owner : Nat × Nat) :
    (∃ l', l.claim f cell owner = .ok l') ↔ cell ∉ claims.map Prod.fst := by
  have hcovered : l.covered.contains cell = true ↔ cell ∈ claims.map Prod.fst := by
    rw [Std.TreeMap.contains_eq_isSome_getElem?, Option.isSome_iff_exists]
    constructor
    · rintro ⟨owner, howner⟩
      exact List.mem_map_of_mem ((h.mem_iff cell owner).mp howner)
    · intro hmem
      obtain ⟨⟨c, owner⟩, hclaim, rfl⟩ := List.mem_map.mp hmem
      exact ⟨owner, (h.mem_iff _ owner).mpr hclaim⟩
  unfold GridLayout.claim
  rw [← hcovered]
  split
  · rename_i htaken
    exact iff_of_false nofun fun hfree => hfree htaken
  · rename_i hfree
    exact iff_of_true ⟨_, rfl⟩ hfree

/-- Cells are claimed just when none of them is taken and none named twice. -/
theorem Records.claimAll_isOk {child : Nat} {cells : List Nat} {offset : Nat}
    (h : Records l claims) : (∃ l', GridLayout.claimAll f child l offset cells = .ok l') ↔
      (claims.map Prod.fst ++ cells).Nodup := by
  induction cells generalizing l claims offset with
  | nil =>
    rw [List.append_nil]
    exact iff_of_true ⟨l, rfl⟩ h.nodup
  | cons cell rest ih =>
    have hsplit : (claims.map Prod.fst ++ cell :: rest).Nodup ↔
        cell ∉ claims.map Prod.fst ∧
          ((claims ++ [(cell, child, offset)]).map Prod.fst ++ rest).Nodup := by
      rw [List.map_append, List.append_assoc]
      constructor
      · intro hnodup
        refine ⟨?_, hnodup⟩
        intro hmem
        exact (List.nodup_append.mp hnodup).2.2 cell hmem cell List.mem_cons_self rfl
      · exact fun h => h.2
    rw [hsplit]
    simp only [GridLayout.claimAll]
    constructor
    · rintro ⟨l', hl'⟩
      split at hl'
      · cases hl'
      · rename_i l₁ hclaim
        exact ⟨(h.claim_isOk cell (child, offset)).mp ⟨l₁, hclaim⟩,
          (ih (h.claim hclaim)).mp ⟨l', hl'⟩⟩
    · rintro ⟨hfree, hrest⟩
      obtain ⟨l₁, hclaim⟩ := (h.claim_isOk (f := f) cell (child, offset)).mpr hfree
      rw [hclaim]
      exact (ih (h.claim hclaim)).mpr hrest

theorem usedRows_claimAll {child : Nat} {cells : List Nat} {offset : Nat} {l' : GridLayout}
    (h : claimAll f child l offset cells = .ok l') : l'.usedRows = l.usedRows := by
  induction cells generalizing l offset with
  | nil =>
    cases h
    rfl
  | cons cell rest ih =>
    simp only [GridLayout.claimAll] at h
    split at h
    · cases h
    · rename_i l₁ hclaim
      rw [ih h]
      unfold GridLayout.claim at hclaim
      split at hclaim <;> cases hclaim
      rfl

theorem usedRows_addChild {n : Nat} {p : Placing} {a : Archetype} {l' : GridLayout}
    (h : l.addChild f n p a = .ok l') :
    l'.usedRows = max l.usedRows (p.placement.bottom a) := by
  unfold GridLayout.addChild at h
  split at h
  · cases h
  split at h
  · cases h
  rename_i area harea
  split at h
  · cases h
  rename_i last hlast
  split at h
  · cases h
  rename_i l₁ hclaim
  cases h
  obtain ⟨_, htop, hheight⟩ := ofChild_some harea
  obtain ⟨rfl, _⟩ := Frame.endRow_eq_some_iff.mp hlast
  change max l₁.usedRows (area.top + area.height) = _
  rw [usedRows_claimAll hclaim, htop, hheight]
  rfl

theorem usedRows_addChildren {children : List (Placing × Archetype)} {n : Nat} {l' : GridLayout}
    (h : addChildren f l n children = .ok l') :
    l'.usedRows = max l.usedRows (lastRow children) := by
  induction children generalizing l n with
  | nil =>
    cases h
    exact (Nat.max_zero _).symm
  | cons c rest ih =>
    simp only [GridLayout.addChildren] at h
    split at h
    · cases h
    · rename_i l₁ hadd
      rw [ih h, usedRows_addChild hadd, Nat.max_assoc]
      rfl

theorem Records.addChild_isOk {n : Nat} {p : Placing} {a : Archetype} (h : Records l claims)
    (ha : a.Fits) : (∃ l', l.addChild f n p a = .ok l') ↔
      (p.placement.Takes f.columns a ∧ f.Allows (p.placement.bottom a)) ∧
        ((claims ++ claimsOf f.columns ((p, a), n)).map Prod.fst).Nodup := by
  have hkeys : ∀ {area}, Footprint.ofChild f.columns a.kind a.slotCount p.placement = some area →
      (claims ++ claimsOf f.columns ((p, a), n)).map Prod.fst =
        claims.map Prod.fst ++ area.cells := by
    intro area harea
    rw [(Footprint.cells_eq ha harea).1, List.map_append]
    simp [claimsOf, Function.comp_def]
  unfold GridLayout.addChild
  constructor
  · rintro ⟨l', hl'⟩
    split at hl'
    · cases hl'
    split at hl'
    · cases hl'
    rename_i area harea
    split at hl'
    · cases hl'
    rename_i last hlast
    split at hl'
    · cases hl'
    rename_i l₁ hclaim
    obtain ⟨htakes, htop, hheight⟩ := ofChild_some harea
    obtain ⟨_, hallows⟩ := Frame.endRow_eq_some_iff.mp hlast
    rw [htop, hheight] at hallows
    rw [hkeys harea]
    exact ⟨⟨htakes, hallows⟩, h.claimAll_isOk.mp ⟨l₁, hclaim⟩⟩
  · rintro ⟨⟨htakes, hallows⟩, hnodup⟩
    obtain ⟨area, harea⟩ := exists_ofChild htakes
    obtain ⟨_, htop, hheight⟩ := ofChild_some harea
    have hlast : f.endRow area.top area.height = some (p.placement.bottom a) := by
      rw [htop, hheight]
      exact Frame.endRow_eq_some_iff.mpr ⟨rfl, hallows⟩
    rw [hkeys harea] at hnodup
    obtain ⟨l₁, hclaim⟩ : ∃ l₁, GridLayout.claimAll f n l 0 area.cells = .ok l₁ :=
      h.claimAll_isOk.mpr hnodup
    have hplaced : p.placement ≠ .inOrder := by
      intro he
      rw [he] at htakes
      exact htakes
    rw [if_neg hplaced, harea]
    dsimp only
    rw [hlast]
    dsimp only
    rw [hclaim]
    exact ⟨_, rfl⟩

theorem Records.addChildren_isOk {children : List (Placing × Archetype)} {n : Nat}
    (h : Records l claims) (hc : ∀ c ∈ children, c.2.Fits) :
    (∃ l', GridLayout.addChildren f l n children = .ok l') ↔
      (∀ c ∈ children, c.1.placement.Takes f.columns c.2 ∧
        f.Allows (c.1.placement.bottom c.2)) ∧
      ((claims ++ claimsFrom f.columns n children).map Prod.fst).Nodup := by
  induction children generalizing l claims n with
  | nil =>
    refine iff_of_true ⟨l, rfl⟩ ⟨by simp, ?_⟩
    rw [show claimsFrom f.columns n [] = [] from rfl, List.append_nil]
    exact h.nodup
  | cons c rest ih =>
    obtain ⟨p, a⟩ := c
    have ha := hc (p, a) List.mem_cons_self
    have hrest := fun c hcr => hc c (List.mem_cons_of_mem (p, a) hcr)
    have hsplit : claims ++ claimsFrom f.columns n ((p, a) :: rest) =
        (claims ++ claimsOf f.columns ((p, a), n)) ++ claimsFrom f.columns (n + 1) rest := by
      simp [claimsFrom]
    rw [List.forall_mem_cons, hsplit]
    simp only [GridLayout.addChildren]
    constructor
    · rintro ⟨l', hl'⟩
      split at hl'
      · cases hl'
      · rename_i l₁ hadd
        obtain ⟨hfirst, _⟩ := (h.addChild_isOk ha).mp ⟨l₁, hadd⟩
        obtain ⟨hmore, hnodup⟩ := (ih (h.addChild ha hadd).1 hrest).mp ⟨l', hl'⟩
        exact ⟨⟨hfirst, hmore⟩, hnodup⟩
    · rintro ⟨⟨hfirst, hmore⟩, hnodup⟩
      have hprefix := hnodup
      rw [List.map_append] at hprefix
      obtain ⟨l₁, hadd⟩ := (h.addChild_isOk ha).mpr
        ⟨hfirst, (List.nodup_append.mp hprefix).1⟩
      rw [hadd]
      exact (ih (h.addChild ha hadd).1 hrest).mpr ⟨hmore, hnodup⟩

theorem exists_mapM {α β : Type} {look : α → Option β} {l : List α}
    (h : ∀ a ∈ l, ∃ b, look a = some b) : ∃ r, l.mapM look = some r := by
  induction l with
  | nil => exact ⟨[], rfl⟩
  | cons a rest ih =>
    obtain ⟨b, hb⟩ := h a List.mem_cons_self
    obtain ⟨bs, hbs⟩ := ih fun c hc => h c (List.mem_cons_of_mem _ hc)
    refine ⟨b :: bs, ?_⟩
    rw [List.mapM_cons, hb, hbs]
    rfl

def Frame.height (f : Frame) (l : GridLayout) : Nat := if f.inferRows then l.usedRows else f.rows

theorem finish_eq (f : Frame) (l : GridLayout) : l.finish f =
    if f.height l < l.usedRows ∨ l.covered.size ≠ f.columns * f.height l then
      .error (f.capacityMismatch (f.columns * f.height l) l.covered.size)
    else match l.owners (f.columns * f.height l) with
      | none => .error (f.capacityMismatch (f.columns * f.height l) l.covered.size)
      | some cells => .ok ⟨.grid f.columns (f.height l), cells.length, cells⟩ := rfl

theorem Records.finish_isOk (h : Records l claims) (hused : l.usedRows ≤ f.height l) :
    (∃ s, l.finish f = .ok s) ↔
      (claims.map Prod.fst).Perm (List.range (f.columns * f.height l)) := by
  have hlength : l.covered.size = (claims.map Prod.fst).length := by
    rw [List.length_map, h.size]
  rw [finish_eq]
  constructor
  · rintro ⟨s, hs⟩
    split at hs
    · cases hs
    rename_i hfull
    have hsize : l.covered.size = f.columns * f.height l :=
      not_not.mp fun hne => hfull (Or.inr hne)
    split at hs
    · cases hs
    rename_i cells hcells
    rw [← hsize] at hcells ⊢
    exact (h.range_perm hcells).symm
  · intro hperm
    have hsize : l.covered.size = f.columns * f.height l := by
      rw [hlength, hperm.length_eq, List.length_range]
    obtain ⟨cells, hcells⟩ : ∃ cells, l.owners (f.columns * f.height l) = some cells := by
      refine exists_mapM fun i hi => ?_
      obtain ⟨⟨cell, owner⟩, hclaim, rfl⟩ := List.mem_map.mp (hperm.mem_iff.mpr hi)
      exact ⟨owner, (h.mem_iff cell owner).mpr hclaim⟩
    rw [if_neg (by omega), hcells]
    exact ⟨_, rfl⟩

end Accepted

section Tiles
variable {columns : Nat} {children : List (Placing × Archetype)}

theorem mem_claimsFrom {cell i k : Nat} : (cell, i, k) ∈ claimsFrom columns 0 children ↔
    ∃ c, children[i]? = some c ∧ k < c.2.slotCount ∧
      cell = c.1.placement.start columns + k := by
  unfold claimsFrom claimsOf
  rw [List.mem_flatMap]
  constructor
  · rintro ⟨⟨c, n⟩, hc, hclaim⟩
    obtain ⟨j, hj, he⟩ := List.mem_map.mp hclaim
    cases he
    exact ⟨c, List.mk_mem_zipIdx_iff_getElem?.mp hc, List.mem_range.mp hj, rfl⟩
  · rintro ⟨c, hc, hk, rfl⟩
    exact ⟨(c, i), List.mk_mem_zipIdx_iff_getElem?.mpr hc,
      List.mem_map.mpr ⟨k, List.mem_range.mpr hk, rfl⟩⟩

theorem mem_claimsFrom_iff_covers (hc : ∀ c ∈ children, c.2.Fits)
    (htakes : ∀ c ∈ children, c.1.placement.Takes columns c.2) {x y i k : Nat}
    (hx : x < columns) : (y * columns + x, i, k) ∈ claimsFrom columns 0 children ↔
      ∃ c, children[i]? = some c ∧ c.1.placement.Covers columns c.2 x y k := by
  rw [mem_claimsFrom]
  refine exists_congr fun c => and_congr_right fun hchild => ?_
  have hmem := List.mem_iff_getElem?.mpr ⟨i, hchild⟩
  rw [(htakes c hmem).covers_iff (hc c hmem)]
  exact ⟨fun h => ⟨hx, h.1, h.2⟩, fun h => ⟨h.2.1, h.2.2⟩⟩

theorem mem_keys_iff_covers (hc : ∀ c ∈ children, c.2.Fits)
    (htakes : ∀ c ∈ children, c.1.placement.Takes columns c.2) {x y : Nat} (hx : x < columns) :
    y * columns + x ∈ (claimsFrom columns 0 children).map Prod.fst ↔
      ∃ c ∈ children, ∃ k, c.1.placement.Covers columns c.2 x y k := by
  constructor
  · intro hmem
    obtain ⟨⟨cell, i, k⟩, hclaim, hcell⟩ := List.mem_map.mp hmem
    change cell = _ at hcell
    rw [hcell] at hclaim
    obtain ⟨c, hchild, hcovers⟩ := (mem_claimsFrom_iff_covers hc htakes hx).mp hclaim
    exact ⟨c, List.mem_iff_getElem?.mpr ⟨i, hchild⟩, k, hcovers⟩
  · rintro ⟨c, hmem, k, hcovers⟩
    obtain ⟨i, hchild⟩ := List.mem_iff_getElem?.mp hmem
    exact List.mem_map_of_mem
      ((mem_claimsFrom_iff_covers hc htakes hx).mpr ⟨c, hchild, hcovers⟩)

theorem index_lt_iff {x y rows : Nat} (hx : x < columns) :
    y * columns + x < columns * rows ↔ y < rows := by
  rw [Nat.mul_comm columns]
  constructor
  · intro hlt
    by_contra hge
    have hrows := Nat.mul_le_mul_right columns (Nat.le_of_not_lt hge)
    omega
  · intro hlt
    have hrows := Nat.mul_le_mul_right columns (Nat.succ_le_of_lt hlt)
    rw [Nat.succ_mul] at hrows
    omega

theorem covers_of_mem_claimsOf {c : Placing × Archetype} {n cell : Nat} (hc : c.2.Fits)
    (htakes : c.1.placement.Takes columns c.2)
    (hcell : cell ∈ (claimsOf columns (c, n)).map Prod.fst) : 0 < columns ∧
      ∃ k, c.1.placement.Covers columns c.2 (cell % columns) (cell / columns) k := by
  obtain ⟨hle, hlt⟩ := mem_claimsOf.mp hcell
  dsimp only at hle hlt
  obtain ⟨k, rfl⟩ := Nat.exists_eq_add_of_le hle
  have hk : k < c.2.slotCount := by omega
  have hpos := htakes.columns_pos hc hk
  exact ⟨hpos, k, (htakes.covers_iff hc).mpr
    ⟨Nat.mod_lt _ hpos, hk, Nat.div_add_mod' _ columns⟩⟩

theorem nodup_keys (hdisjoint : ∀ {i j : Nat} {c d : Placing × Archetype} {x y k l : Nat},
    children[i]? = some c → children[j]? = some d → c.1.placement.Covers columns c.2 x y k →
      d.1.placement.Covers columns d.2 x y l → i = j) (hc : ∀ c ∈ children, c.2.Fits)
    (htakes : ∀ c ∈ children, c.1.placement.Takes columns c.2) :
    ((claimsFrom columns 0 children).map Prod.fst).Nodup := by
  unfold claimsFrom
  rw [List.map_flatMap, List.nodup_flatMap]
  refine ⟨fun c _ => (pairwise_claimsOf c).imp Nat.ne_of_lt, ?_⟩
  refine List.pairwise_iff_getElem.mpr ?_
  intro i j hi hj hij cell hfirst hsecond
  rw [List.getElem_zipIdx, Nat.zero_add] at hfirst hsecond
  have hchild := List.getElem?_eq_getElem (List.length_zipIdx ▸ hi)
  have hother := List.getElem?_eq_getElem (List.length_zipIdx ▸ hj)
  obtain ⟨_, k, hk⟩ := covers_of_mem_claimsOf (hc _ (List.getElem_mem _))
    (htakes _ (List.getElem_mem _)) hfirst
  obtain ⟨_, l, hl⟩ := covers_of_mem_claimsOf (hc _ (List.getElem_mem _))
    (htakes _ (List.getElem_mem _)) hsecond
  exact Nat.ne_of_lt hij (hdisjoint hchild hother hk hl)

/-- The cells claimed are those of a grid just when the children tile it. -/
theorem keys_perm_iff_tiling (hc : ∀ c ∈ children, c.2.Fits)
    (htakes : ∀ c ∈ children, c.1.placement.Takes columns c.2) {rows : Nat} :
    ((claimsFrom columns 0 children).map Prod.fst).Perm (List.range (columns * rows)) ↔
      Tiling columns rows children := by
  have hwithin : ∀ {c : Placing × Archetype} {x y k : Nat}, c ∈ children →
      c.1.placement.Covers columns c.2 x y k → x < columns :=
    fun hmem hcovers => (((htakes _ hmem).covers_iff (hc _ hmem)).mp hcovers).1
  constructor
  · intro hperm
    have hnodup := hperm.nodup_iff.mpr List.nodup_range
    refine ⟨?_, ?_⟩
    · intro i j c d x y k l hi hj hk hl
      have hx := hwithin (List.mem_iff_getElem?.mpr ⟨i, hi⟩) hk
      have hfirst := (mem_claimsFrom_iff_covers hc htakes hx).mpr ⟨c, hi, hk⟩
      have hsecond := (mem_claimsFrom_iff_covers hc htakes hx).mpr ⟨d, hj, hl⟩
      have hsame := List.inj_on_of_nodup_map hnodup hfirst hsecond rfl
      exact congrArg (fun claim : Nat × Nat × Nat => claim.2.1) hsame
    · intro x y
      constructor
      · rintro ⟨c, hmem, k, hcovers⟩
        have hx := hwithin hmem hcovers
        have hkey := (mem_keys_iff_covers hc htakes hx).mpr ⟨c, hmem, k, hcovers⟩
        exact ⟨hx, (index_lt_iff hx).mp (List.mem_range.mp (hperm.mem_iff.mp hkey))⟩
      · rintro ⟨hx, hy⟩
        exact (mem_keys_iff_covers hc htakes hx).mp
          (hperm.mem_iff.mpr (List.mem_range.mpr ((index_lt_iff hx).mpr hy)))
  · intro htiling
    refine (List.perm_ext_iff_of_nodup (nodup_keys htiling.disjoint hc htakes)
      List.nodup_range).mpr ?_
    intro cell
    rw [List.mem_range]
    have hcell : ∀ hpos : 0 < columns, cell ∈ (claimsFrom columns 0 children).map Prod.fst ↔
        cell < columns * rows := by
      intro hpos
      have hx := Nat.mod_lt cell hpos
      rw [← Nat.div_add_mod' cell columns, mem_keys_iff_covers hc htakes hx, htiling.exact,
        index_lt_iff hx]
      exact and_iff_right hx
    constructor
    · intro hmem
      obtain ⟨⟨_, i, k⟩, hclaim, _⟩ := List.mem_map.mp hmem
      obtain ⟨c, hchild, hk, _⟩ := mem_claimsFrom.mp hclaim
      have hthere := List.mem_iff_getElem?.mpr ⟨i, hchild⟩
      exact (hcell ((htakes c hthere).columns_pos (hc c hthere) hk)).mp hmem
    · intro hlt
      exact (hcell (Nat.pos_of_mul_pos_right (Nat.zero_lt_of_lt hlt))).mpr hlt

end Tiles

section Shape
variable {children : List (Placing × Archetype)} {s : Shape}

def Frame.rowsFor (f : Frame) (children : List (Placing × Archetype)) : Nat :=
  if f.inferRows then lastRow children else f.rows

theorem height_addChildren (h : addChildren f empty 0 children = .ok l) :
    f.height l = f.rowsFor children := by
  unfold Frame.height Frame.rowsFor
  rw [usedRows_addChildren h]
  simp [empty]

/-- A grid is accepted just when its children fit their places and tile it. -/
theorem shape_isOk (hc : ∀ c ∈ children, c.2.Fits) : (∃ s, shape f children = .ok s) ↔
    (∀ c ∈ children, c.1.placement.Takes f.columns c.2 ∧ f.Allows (c.1.placement.bottom c.2)) ∧
      Tiling f.columns (f.rowsFor children) children := by
  have hstart := records_empty.addChildren_isOk (f := f) (n := 0) hc
  rw [List.nil_append] at hstart
  have hfinish : ∀ {l}, addChildren f empty 0 children = .ok l →
      (∀ c ∈ children, c.1.placement.Takes f.columns c.2 ∧
        f.Allows (c.1.placement.bottom c.2)) →
      ((∃ s, l.finish f = .ok s) ↔ Tiling f.columns (f.rowsFor children) children) := by
    intro l hl hfit
    have hclaims := (records_empty.addChildren children hc hl).1
    have hused : l.usedRows ≤ f.height l := by
      rw [height_addChildren hl, usedRows_addChildren hl, Frame.rowsFor]
      split
      · exact Nat.max_le.mpr ⟨Nat.zero_le _, Nat.le_refl _⟩
      · rename_i hfixed
        exact Nat.max_le.mpr ⟨Nat.zero_le _, lastRow_le fun c hcm =>
          (hfit c hcm).2.2.resolve_left hfixed⟩
    rw [hclaims.finish_isOk hused, height_addChildren hl, List.nil_append]
    exact keys_perm_iff_tiling hc fun c hcm => (hfit c hcm).1
  unfold shape
  constructor
  · rintro ⟨s, hs⟩
    split at hs
    · cases hs
    · rename_i l hl
      have hfit := (hstart.mp ⟨l, hl⟩).1
      exact ⟨hfit, (hfinish hl hfit).mp ⟨s, hs⟩⟩
  · rintro ⟨hfit, htiling⟩
    have hnodup := nodup_keys htiling.disjoint hc fun c hcm => (hfit c hcm).1
    obtain ⟨l, hl⟩ := hstart.mpr ⟨hfit, hnodup⟩
    rw [hl]
    exact (hfinish hl hfit).mpr htiling

/-- The cell table of an accepted grid has for each cell the child and the slot that cover it. -/
theorem shape_cells (hc : ∀ c ∈ children, c.2.Fits) (h : shape f children = .ok s) :
    s.kind = .grid f.columns (f.rowsFor children) ∧
    s.cells.length = f.columns * f.rowsFor children ∧
    ∀ {x y i k : Nat}, x < f.columns → (s.cells[y * f.columns + x]? = some (i, k) ↔
      ∃ c, children[i]? = some c ∧ c.1.placement.Covers f.columns c.2 x y k) := by
  have htakes : ∀ c ∈ children, c.1.placement.Takes f.columns c.2 :=
    fun c hcm => (((shape_isOk hc).mp ⟨s, h⟩).1 c hcm).1
  unfold shape at h
  split at h
  · cases h
  rename_i l hl
  have hclaims := (records_empty.addChildren children hc hl).1
  rw [List.nil_append] at hclaims
  rw [finish_eq, height_addChildren hl] at h
  split at h
  · cases h
  rename_i hfull
  have hsize : l.covered.size = f.columns * f.rowsFor children :=
    not_not.mp fun hne => hfull (Or.inr hne)
  split at h
  · cases h
  rename_i cells hcells
  cases h
  have hmap := map_eq_of_mapM hcells
  rw [← hsize] at hcells
  have hrange := hclaims.range_perm hcells
  have hlength : cells.length = f.columns * f.rowsFor children := by
    have hl := congrArg List.length hmap
    simpa using hl.symm
  refine ⟨rfl, hlength, ?_⟩
  intro x y i k hx
  rw [← mem_claimsFrom_iff_covers hc htakes hx, ← hclaims.mem_iff]
  have hget := congrArg (fun m => m[y * f.columns + x]?) hmap
  by_cases hlt : y * f.columns + x < f.columns * f.rowsFor children
  · simp only [List.getElem?_map, List.getElem?_range hlt, Option.map_some,
      List.getElem?_eq_getElem (hlength ▸ hlt)] at hget
    rw [Option.some.inj hget, List.getElem?_eq_getElem (hlength ▸ hlt)]
  · refine iff_of_false ?_ ?_
    · intro hsome
      have hsome := (List.getElem?_eq_some_iff.mp hsome).1
      exact hlt (hlength ▸ hsome)
    · intro hsome
      have hmem := List.mem_map_of_mem (f := Prod.fst) ((hclaims.mem_iff _ _).mp hsome)
      rw [← hrange.mem_iff, List.mem_range, hsize] at hmem
      exact hlt hmem

end Shape

end GridLayout

end Stowage
