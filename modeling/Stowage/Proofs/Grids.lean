import Stowage.Proofs.Archetype.Tiling
import Stowage.Proofs.Forest.Instances

/-!
# Cells, slots and indices of grids

A grid that was made has one slot for each of its cells, counted row by row, and every child that
has slots has the first of them in its top left cell. Both stay so whatever else happens. So cells,
slots and indices stand for each other, and the cell that a grid tells of a child is the cell of the
first slot of that child.
-/

namespace Stowage

set_option autoImplicit false

namespace GridComposite
variable {g : GridComposite} {x y : Nat} {s : SlotId}

theorem slotIn_eq_some_iff :
    g.slotIn x y = some s ↔
      (x < g.columns ∧ y < g.rows) ∧ g.composite.slots[y * g.columns + x]? = some s := by
  unfold slotIn
  split
  · rename_i hinside
    exact (and_iff_right hinside).symm
  · rename_i houtside
    exact iff_of_false nofun fun h => houtside h.1

theorem index_lt (hx : x < g.columns) (hy : y < g.rows) :
    y * g.columns + x < g.columns * g.rows := (GridLayout.index_lt_iff hx).mpr hy

theorem isSome_slotIn (hfull : g.composite.slots.length = g.columns * g.rows) :
    (g.slotIn x y).isSome = true ↔ x < g.columns ∧ y < g.rows := by
  rw [Option.isSome_iff_exists]
  constructor
  · rintro ⟨s, hs⟩
    exact (slotIn_eq_some_iff.mp hs).1
  · rintro ⟨hx, hy⟩
    have hindex := index_lt hx hy
    rw [← hfull] at hindex
    exact ⟨_, slotIn_eq_some_iff.mpr ⟨⟨hx, hy⟩, List.getElem?_eq_getElem hindex⟩⟩

theorem slotIn_of_index (hfull : g.composite.slots.length = g.columns * g.rows) {i : Nat}
    (hi : g.composite.slots[i]? = some s) : g.slotIn (i % g.columns) (i / g.columns) = some s := by
  have hlt := (List.getElem?_eq_some_iff.mp hi).1
  rw [hfull] at hlt
  have hpos : 0 < g.columns := Nat.pos_of_mul_pos_right (Nat.zero_lt_of_lt hlt)
  refine slotIn_eq_some_iff.mpr ⟨⟨Nat.mod_lt _ hpos, Nat.div_lt_of_lt_mul hlt⟩, ?_⟩
  rw [Nat.div_add_mod']
  exact hi

theorem cellOf_eq_some_iff (hfull : g.composite.slots.length = g.columns * g.rows)
    (hindex : ∀ i, g.composite.slots.idxOf? s = some i ↔ g.composite.slots[i]? = some s) :
    g.cellOf s = some (x, y) ↔ g.slotIn x y = some s := by
  unfold cellOf
  rw [Option.map_eq_some_iff]
  constructor
  · rintro ⟨i, hi, hcell⟩
    cases hcell
    exact slotIn_of_index hfull ((hindex i).mp hi)
  · intro hs
    obtain ⟨⟨hx, hy⟩, hs⟩ := slotIn_eq_some_iff.mp hs
    have hpos : 0 < g.columns := Nat.zero_lt_of_lt hx
    refine ⟨y * g.columns + x, (hindex _).mpr hs, ?_⟩
    rw [Nat.add_comm, Nat.add_mul_mod_self_right, Nat.mod_eq_of_lt hx,
      Nat.add_mul_div_right _ _ hpos, Nat.div_eq_of_lt hx, Nat.zero_add]

theorem isSome_cellOf : (g.cellOf s).isSome = true ↔ s ∈ g.composite.slots := by
  unfold cellOf
  rw [Option.isSome_map, List.isSome_idxOf?]

end GridComposite

theorem Archetype.Made.cells_iff {a : Archetype} (ha : a.Made) {columns rows : Nat}
    (hkind : a.kind = .grid columns rows) {x y i k : Nat} (hx : x < columns) :
    a.shape.cells[y * columns + x]? = some (i, k) ↔
      ∃ c, a.children[i]? = some c ∧ c.1.placement.Covers columns c.2 x y k := by
  cases ha with
  | @frozen b id _ hb hf =>
    obtain ⟨kind, shape, hshape, _, rfl⟩ := Builder.freeze_ok hf
    change shape.kind = _ at hkind
    rcases Builder.shapeOf_cases hshape with ⟨_, _, rfl⟩ | ⟨_, rfl⟩ | ⟨width, height, _, hshape⟩
    · cases hkind
    · cases hkind
    · obtain ⟨hfinal, _, hcells⟩ := GridLayout.shape_cells hb.fits hshape
      rw [hkind] at hfinal
      cases hfinal
      exact hcells hx

theorem Archetype.Made.origin_eq {a : Archetype} (ha : a.Made) {columns rows : Nat}
    (hkind : a.kind = .grid columns rows) (hpos : 0 < columns) {i j : Nat}
    {c : Placing × Archetype} (hc : a.children[i]? = some c)
    (hcell : a.shape.cells[j]? = some (i, 0)) :
    c.1.placement.origin = (j % columns, j / columns) := by
  rw [← Nat.div_add_mod' j columns] at hcell
  obtain ⟨d, hd, hcovers⟩ := (ha.cells_iff hkind (Nat.mod_lt j hpos)).mp hcell
  rw [hc] at hd
  cases hd
  exact hcovers.origin_eq

namespace Forest

structure Charted (f : Forest) (g : GridComposite) : Prop where
  full : g.composite.slots.length = g.columns * g.rows
  starts : ∀ (i : Nat) (e : ChildEntry) (s : SlotId), g.composite.children[i]? = some e →
    f.slotAt e.node 0 = some s →
      ∃ cell : Nat × Nat, g.origins[i]? = some cell ∧ g.slotIn cell.1 cell.2 = some s

section Charted
variable {f g : Forest} {limit : Nat} {a : Archetype} {x y : NodeId} {seated : List Seated}
  {k : GridComposite}

theorem lists_of_grid? (hk : f.grid? x = some k) {e : ChildEntry}
    (he : e ∈ k.composite.children) : f.Lists x e.node :=
  ⟨k.composite, composite?_of_grid? hk, List.mem_map_of_mem he⟩

theorem Charted.congr (h : f.Charted k)
    (hslots : ∀ e ∈ k.composite.children, g.slots e.node = f.slots e.node) : g.Charted k := by
  refine ⟨h.full, ?_⟩
  intro i e s he hs
  refine h.starts i e s he ?_
  unfold slotAt at hs ⊢
  rw [← hslots e (List.mem_of_getElem? he)]
  exact hs

theorem Shows.getElem?_number (h : f.Shows limit a x seated) {s : Seated} (hs : s ∈ seated) :
    a.children[s.number]? = some s.seat.1 := by
  have hseat : s.seat ∈ a.seats := by
    rw [← h.seats]
    exact List.mem_map_of_mem hs
  exact Archetype.getElem?_of_mem_seats hseat

theorem Shows.exists_index (h : f.Shows limit a x seated) (ha : a.Made)
    (hsizes : ∀ s ∈ seated, f.capacity s.node = s.archetype.slotCount)
    (hkind : a.kind = .grid k.columns k.rows) (hk : f.composite? x = some k.composite)
    {s : Seated} (hs : s ∈ seated) {slot : SlotId} (hslot : f.slotAt s.node 0 = some slot) :
    ∃ j : Nat, k.composite.slots[j]? = some slot ∧ a.shape.cells[j]? = some (s.number, 0) := by
  have hlengths : ∀ t ∈ seated, (ownersOf t.seat).length = (f.slots t.node).length :=
    fun t ht => length_ownersOf (hsizes t ht)
  obtain ⟨owner, howner⟩ : ∃ owner, (ownersOf s.seat)[0]? = some owner := by
    have hlt := (List.getElem?_eq_some_iff.mp hslot).1
    change 0 < (f.slots s.node).length at hlt
    rw [← hlengths s hs] at hlt
    exact ⟨_, List.getElem?_eq_getElem hlt⟩
  obtain ⟨j, hj, hcell⟩ := exists_getElem?_flatMap_pair hlengths hs hslot howner
  rw [← h.slots_eq hk] at hj
  rw [← cells_eq_flatMap ha h.seats hkind, getElem?_ownersOf howner] at hcell
  exact ⟨j, hj, hcell⟩

theorem Shows.charted (h : f.Shows limit a x seated) (ha : a.Made)
    (hsizes : ∀ s ∈ seated, f.capacity s.node = s.archetype.slotCount)
    (hk : f.grid? x = some k) : f.Charted k := by
  obtain ⟨n, hn, hshows⟩ := h.node
  obtain ⟨m, hm, hcontent⟩ := grid?_eq_some_iff.mp hk
  rw [hn] at hm
  cases hm
  have hgrid := hshows.content
  rw [hcontent] at hgrid
  obtain ⟨hkind, hchildren, horigins⟩ := hgrid.of_grid
  have hcomposite := composite?_of_grid? hk
  have hfull := h.length_slots ha hkind hcomposite
  refine ⟨hfull, ?_⟩
  intro i e slot he hslot
  rw [hchildren, List.getElem?_map] at he
  obtain ⟨s, hs, rfl⟩ := Option.map_eq_some_iff.mp he
  have hmem := List.mem_of_getElem? hs
  obtain ⟨j, hj, hcell⟩ := h.exists_index ha hsizes hkind hcomposite hmem hslot
  have hpos : 0 < k.columns := by
    have hlt := (List.getElem?_eq_some_iff.mp hj).1
    rw [hfull] at hlt
    exact Nat.pos_of_mul_pos_right (Nat.zero_lt_of_lt hlt)
  refine ⟨s.origin, by rw [horigins, List.getElem?_map, hs]; rfl, ?_⟩
  have horigin : s.origin = (j % k.columns, j / k.columns) :=
    ha.origin_eq hkind hpos (h.getElem?_number hmem) hcell
  rw [horigin]
  exact GridComposite.slotIn_of_index hfull hj

theorem Realises.of_under (h : f.Realises limit a x) (ha : a.Made) {n : Nat} (hu : f.Under n x y) :
    ∃ b, b.Made ∧ f.Realises limit b y := by
  induction hu generalizing a with
  | refl x => exact ⟨a, ha, h⟩
  | down hlists _ ih =>
    obtain @⟨_, _, seated, here, _, below⟩ := h
    have hchild := (Sound.mem_children_iff here.container?).mpr hlists
    rw [here.children_eq] at hchild
    obtain ⟨s, hs, rfl⟩ := List.mem_map.mp hchild
    have hmem := List.mem_of_getElem? (here.getElem?_number hs)
    exact ih (below s hs) (ha.children_made _ hmem)

theorem Realises.charted (h : f.Realises limit a x) (ha : a.Made) (hk : f.grid? x = some k) :
    f.Charted k := by
  obtain @⟨_, _, seated, here, _, below⟩ := h
  exact here.charted ha (fun s hs => (below s hs).capacity) hk

end Charted

section Changes
variable {f g : Forest} {x : NodeId} {k : GridComposite}

theorem instantiate_cases {limit : Nat} {a : Archetype} (hf : f.Sound)
    (hg : (f.instantiate limit a).1.Sound) (ha : a.Made) {n : Node}
    (hn : (f.instantiate limit a).1.node? x = some n) :
    f.node? x = some n ∨ ∃ b, b.Made ∧ (f.instantiate limit a).1.Realises limit b x := by
  have hadds := instantiate_adds limit hf ha.fits
  have hreal := instantiate_realises limit hf ha
  by_cases hx : f.contains x = true
  · rw [hadds.kept x hx] at hn
    exact Or.inl hn
  · have htree := (hadds.new x).mpr ⟨contains_iff.mpr ⟨n, hn⟩, Bool.eq_false_iff.mpr hx⟩
    obtain ⟨m, hu⟩ := (hg.eq_or_mem_descendants_iff hreal.container?).mp (List.mem_cons.mp htree)
    exact Or.inr (hreal.of_under ha hu)

/-- A grid was there before, with children of the same slots, or has just been made from an
archetype. -/
theorem Change.grid_cases {limit : Nat} {new : List (NodeId × Draft)} (h : Change limit f new g)
    (hf : f.Sound) (hg : g.Sound) (hk : g.grid? x = some k) :
    (f.grid? x = some k ∧ ∀ e ∈ k.composite.children, g.slots e.node = f.slots e.node) ∨
      ∃ a, a.Made ∧ g.Realises limit a x := by
  have hold : (∀ y, f.contains y = true → SameContent f g y) → SameContent f g x →
      f.grid? x = some k ∧ ∀ e ∈ k.composite.children, g.slots e.node = f.slots e.node := by
    intro hsame hx
    refine ⟨hx.grid? hk, ?_⟩
    intro e he
    exact (hsame e.node (hf.contains_of_lists (lists_of_grid? (hx.grid? hk) he)).2).slots
  obtain ⟨n, hn, hcontent⟩ := grid?_eq_some_iff.mp hk
  cases h with
  | lasts h =>
    refine Or.inl ⟨(h.outline (contains_iff.mpr ⟨n, hn⟩)).grid? hk, ?_⟩
    intro e he
    exact (h.outline (hg.contains_of_lists (lists_of_grid? hk he)).2).slots
  | @grow a made =>
    rcases instantiate_cases hf hg made hn with hkept | hnew
    · exact Or.inl (hold (fun y hy => .of_node? ((instantiate_adds limit hf made.fits).kept y hy))
        (.of_node? (hn.trans hkept.symm)))
    · exact Or.inr hnew
  | join h =>
    have hsame := (compose_grown hf h).content
    obtain ⟨entries, hj, rfl⟩ := compose_planted hf h
    by_cases hx : x = f.nextId
    · have hordered := (sameContent_setRoot _ f.nextId x).grid? hk
      obtain ⟨m, hm, hgrid⟩ := grid?_eq_some_iff.mp hordered
      rw [node?_plant hf hj.free, if_pos hx] at hm
      cases hm
      cases hgrid
    · refine Or.inl (hold hsame ?_)
      exact (sameContent_plant hf hj.free hx).trans (sameContent_setRoot _ _ x)
  | @frame top bottom ht hb =>
    have hsame : ∀ y, f.contains y = true → SameContent f (f.addContainer limit top bottom).1 y :=
      fun y hy => .of_node? (node?_addContainer_of_live hf limit top bottom hy)
    refine Or.inl (hold hsame (.of_node? ?_))
    rw [node?_addContainer hf] at hn ⊢
    split at hn
    · cases hn
      cases hcontent
    · split at hn
      · cases hn
        cases hcontent
      · rename_i hcursor hframe
        rw [if_neg hcursor, if_neg hframe]

theorem Change.charted {limit : Nat} {new : List (NodeId × Draft)} (h : Change limit f new g)
    (hf : f.Sound) (hg : g.Sound) (hcharted : ∀ x k, f.grid? x = some k → f.Charted k)
    (hk : g.grid? x = some k) : g.Charted k := by
  rcases h.grid_cases hf hg hk with ⟨hold, hslots⟩ | ⟨a, ha, hreal⟩
  · exact (hcharted x k hold).congr hslots
  · exact hreal.charted ha hk

end Changes

end Forest

/-- Throughout a run all grids have their slots in rows, and their children where they start. -/
theorem Run.charted {past : List World} {w : World} (h : Run past w) :
    ∀ x k, w.state.forest.grid? x = some k → w.state.forest.Charted k := by
  refine h.forest_induction ?_ fun hchange hf hg hc x k hk => hchange.charted hf hg hc hk
  intro x k hk
  simp [Forest.grid?, Forest.node?_empty] at hk

namespace Forest

/-- Cells, slots and indices of a grid stand for each other, row by row, no index is too large to be
counted, and every child tells the cell that its first slot is in. -/
structure Coordinates (env : Environment) (f : Forest) (x : NodeId) (columns rows : Nat) :
    Prop where
  cells : ∀ column row, (f.slotInCell x column row).isSome = true ↔ column < columns ∧ row < rows
  slots : ∀ s, (f.cellOfSlot x s).isSome = true ↔ s ∈ f.slots x
  inverse : ∀ s column row,
    f.cellOfSlot x s = some (column, row) ↔ f.slotInCell x column row = some s
  index : ∀ s column row, f.slotInCell x column row = some s →
    f.indexOf x s = some (row * columns + column) ∧ row * columns + column ≤ maxQuantity
  told : ∀ c ∈ f.children x, ∀ s, f.slotAt c 0 = some s → ∃ column row,
    f.cellOfSlot x s = some (column, row) ∧
      f.property env c .slotPosition none = some (.position column row)

section Coordinates
variable {f : Forest} {x c : NodeId} {g : GridComposite} {env : Environment}

/-- A child of a grid tells the cell that the grid has for it, whatever the grid keeps for it. -/
theorem property_slotPosition (hd : f.Designed) (hc : f.parent c = some x)
    (hg : f.grid? x = some g) {v : PropertyValue} (hcell : childCell g c = some v) :
    f.property env c .slotPosition none = some v := by
  obtain ⟨n, hn⟩ := contains_iff.mp (contains_of_parent hc)
  have hown : n.properties.all .slotPosition = [] :=
    (Node.plain_of_designed (hd c n hn)).all_eq_nil rfl
  have htold : f.relativeProperty c n .slotPosition none = some v := by
    rw [parent_of_node? hn] at hc
    unfold relativeProperty
    simp only [hc, Option.bind_some, hg, hcell]
    rfl
  unfold property propertyFrom
  rw [hn, Option.bind_some]
  simp only [PropertyStore.get_of_all_nil hown none, htold]

theorem Charted.coordinates (h : f.Charted g) (hf : f.Sound) (hd : f.Designed)
    (hg : f.grid? x = some g) (hn : f.Numbered x) (hbound : g.columns * g.rows ≤ 2 ^ 32) :
    f.Coordinates env x g.columns g.rows := by
  have hk := composite?_of_grid? hg
  have hslots := slots_of_composite? hk
  have hcell : ∀ column row, f.slotInCell x column row = g.slotIn column row := by
    intro column row
    unfold slotInCell
    rw [hg, Option.bind_some]
  have hslot : ∀ s, f.cellOfSlot x s = g.cellOf s := by
    intro s
    unfold cellOfSlot
    rw [hg, Option.bind_some]
  have hinverse : ∀ s column row, g.cellOf s = some (column, row) ↔
      g.slotIn column row = some s := by
    intro s column row
    refine GridComposite.cellOf_eq_some_iff h.full fun i => ?_
    rw [← hslots]
    exact hn.inverse s i
  refine ⟨?_, ?_, ?_, ?_, ?_⟩
  · intro column row
    rw [hcell]
    exact GridComposite.isSome_slotIn h.full
  · intro s
    rw [hslot, hslots]
    exact GridComposite.isSome_cellOf
  · intro s column row
    rw [hcell, hslot]
    exact hinverse s column row
  · intro s column row hs
    rw [hcell] at hs
    obtain ⟨⟨hx, hy⟩, hs⟩ := GridComposite.slotIn_eq_some_iff.mp hs
    refine ⟨(hn.inverse s _).mpr ?_, ?_⟩
    · unfold slotAt
      rw [hslots]
      exact hs
    · have hlt := GridComposite.index_lt hx hy
      unfold maxQuantity
      omega
  · intro c hc s hs
    rw [children_of_composite? hk] at hc
    obtain ⟨e, he, rfl⟩ := List.mem_map.mp hc
    obtain ⟨i, hi⟩ := List.mem_iff_getElem?.mp he
    obtain ⟨⟨column, row⟩, horigin, hfirst⟩ := h.starts i e s hi hs
    have hposition := Composite.positionOf_of_getElem? (hf.nodup_children hk) hi
    refine ⟨column, row, ?_, ?_⟩
    · rw [hslot]
      exact (hinverse s column row).mpr hfirst
    · refine property_slotPosition hd (hf.parent_of_lists (lists_of_grid? hg he)) hg ?_
      unfold childCell
      rw [hposition, Option.bind_some, horigin]
      rfl

end Coordinates

end Forest

/-- In every state that is reached the cells, the slots and the indices of a grid stand for each
other, and each child that has slots tells the cell of the first of them, in whatever order the
children were placed. -/
theorem grid_coordinates_agree {past : List World} {w : World} (h : Run past w) {x : NodeId}
    {columns rows : Nat} (hsize : w.state.forest.gridSize x = some (columns, rows))
    (hbound : columns * rows ≤ 2 ^ 32) :
    w.state.forest.Coordinates w.state.env x columns rows := by
  obtain ⟨g, hg, hsize⟩ := Option.map_eq_some_iff.mp hsize
  cases hsize
  exact (h.charted x g hg).coordinates h.sound.forest h.designed hg
    (h.sound.forest.numbered h.containersFilled x) hbound

theorem grid_coordinates_agree_stacked :
    (World.reached Operation.stacked).2.state.forest.gridSize ⟨2, 0⟩ = some (1, 2) ∧
    1 * 2 ≤ 2 ^ 32 ∧
    (World.reached Operation.stacked).2.state.forest.slotInCell ⟨2, 0⟩ 0 1 = some ⟨0, 0⟩ ∧
    (World.reached Operation.stacked).2.state.forest.Coordinates
      (World.reached Operation.stacked).2.state.env ⟨2, 0⟩ 1 2 := by
  have hsize : (World.reached Operation.stacked).2.state.forest.gridSize ⟨2, 0⟩ = some (1, 2) := by
    decide +kernel
  exact ⟨hsize, by decide, by decide +kernel,
    grid_coordinates_agree (Run.reached Operation.stacked) hsize (by decide)⟩

end Stowage
