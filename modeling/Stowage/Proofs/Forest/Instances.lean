import Stowage.Proofs.Forest.Roots
import Stowage.Proofs.ShapeProperties

/-!
# Inventories as their archetypes describe them

Every child of an archetype has its seat, on a grid in the order of the cells that the children
start at. A node shows an archetype when it has all that the archetype tells of it, and one child in
every seat; an inventory realises an archetype when this is so all the way down. What is made from
an archetype realises it, and goes on to do so while other inventories are made.
-/

namespace Stowage

set_option autoImplicit false

/-- The children of an archetype with their numbers, in the order in which inventories have them. -/
def Archetype.seats (a : Archetype) : List ((Placing × Archetype) × Nat) :=
  match a.kind with
  | .grid _ _ => rowOrder a.children
  | _ => a.children.zipIdx

theorem Archetype.getElem?_of_mem_seats {a : Archetype} {c : (Placing × Archetype) × Nat}
    (h : c ∈ a.seats) : a.children[c.2]? = some c.1 := by
  have hmem : c ∈ a.children.zipIdx := by
    unfold seats at h
    split at h
    · exact (stableSort_perm _ _).mem_iff.mp h
    · exact h
  exact List.mk_mem_zipIdx_iff_getElem?.mp hmem

structure Seated where
  seat : (Placing × Archetype) × Nat
  node : NodeId

namespace Seated

def placing (s : Seated) : Placing := s.seat.1.1

def archetype (s : Seated) : Archetype := s.seat.1.2

def number (s : Seated) : Nat := s.seat.2

def entry (s : Seated) : ChildEntry := ⟨s.node, s.placing.priority, s.placing.relative⟩

def origin (s : Seated) : Nat × Nat := s.placing.placement.origin

end Seated

inductive Content.Shows (limit : Nat) (a : Archetype) (seated : List Seated) : Content → Prop where
  | slot (kind : a.kind = .slot) (alone : seated = []) : Content.Shows limit a seated
      (.slot (Slot.new (a.draft.filter.getD .any) (a.draft.maxStackSize.getD limit)))
  | ordered (kind : a.kind = .ordered) {k : Composite}
      (children : k.children = seated.map Seated.entry) : Content.Shows limit a seated (.ordered k)
  | grid {g : GridComposite} (kind : a.kind = .grid g.columns g.rows)
      (children : g.composite.children = seated.map Seated.entry)
      (origins : g.origins = seated.map Seated.origin)
      (inRows : seated.Pairwise fun s t => Forest.cellBefore s.origin t.origin = true) :
      Content.Shows limit a seated (.grid g)

structure Node.Shows (n : Node) (limit : Nat) (a : Archetype) (seated : List Seated) : Prop where
  archetype : n.archetype = a.id
  name : n.name = a.name
  properties : n.properties = a.properties
  shiftClick : n.shiftClick = a.draft.shiftClick
  content : n.content.Shows limit a seated

namespace Content.Shows
variable {limit : Nat} {a : Archetype} {seated : List Seated} {c : Content}

theorem container? (h : c.Shows limit a seated) : c.container? = none := by
  cases h <;> rfl

theorem alone (h : c.Shows limit a seated) (hkind : a.kind = .slot) : seated = [] := by
  cases h with
  | slot _ halone => exact halone
  | ordered hordered => cases hkind.symm.trans hordered
  | grid hgrid => cases hkind.symm.trans hgrid

theorem entries (h : c.Shows limit a seated) {k : Composite} (hk : c.composite? = some k) :
    k.children = seated.map Seated.entry := by
  cases h with
  | slot => cases hk
  | ordered _ hchildren =>
    cases hk
    exact hchildren
  | grid _ hchildren =>
    cases hk
    exact hchildren

theorem exists_grid (h : c.Shows limit a seated) {columns rows : Nat}
    (hkind : a.kind = .grid columns rows) :
    ∃ g, c = .grid g ∧ g.columns = columns ∧ g.rows = rows := by
  cases h with
  | slot hslot => cases hkind.symm.trans hslot
  | ordered hordered => cases hkind.symm.trans hordered
  | @grid g hgrid =>
    cases hkind.symm.trans hgrid
    exact ⟨g, rfl, rfl, rfl⟩

theorem of_grid {g : GridComposite} (h : (Content.grid g).Shows limit a seated) :
    a.kind = .grid g.columns g.rows ∧ g.composite.children = seated.map Seated.entry ∧
      g.origins = seated.map Seated.origin := by
  cases h with
  | grid hkind hchildren horigins => exact ⟨hkind, hchildren, horigins⟩

theorem slot_or_composite (h : c.Shows limit a seated) :
    (a.kind = .slot ∧
      c = .slot (Slot.new (a.draft.filter.getD .any) (a.draft.maxStackSize.getD limit))) ∨
    (a.kind ≠ .slot ∧ ∃ k, c.composite? = some k) := by
  cases h with
  | slot hkind => exact Or.inl ⟨hkind, rfl⟩
  | @ordered hkind k => exact Or.inr ⟨by simp [hkind], k, rfl⟩
  | @grid g hkind => exact Or.inr ⟨by simp [hkind], g.composite, rfl⟩

end Content.Shows

namespace Forest

/-- The node `x` is as the archetype describes it: one child sits in every seat, no slot is missing,
and the slots and the fill order are those of the children put together. -/
structure Shows (f : Forest) (limit : Nat) (a : Archetype) (x : NodeId) (seated : List Seated) :
    Prop where
  node : ∃ n, f.node? x = some n ∧ n.Shows limit a seated
  seats : seated.map Seated.seat = a.seats
  parents : ∀ s ∈ seated, f.parent s.node = some x
  capacity : f.capacity x = a.slotCount
  follows : ∀ k, f.composite? x = some k → k.Follows f a.draft.fillOrder

def FillsCells (f : Forest) (a : Archetype) (x : NodeId) (seated : List Seated) : Prop :=
  ∀ columns rows, a.kind = .grid columns rows → ∀ column < columns, ∀ row < rows,
    ∃ s ∈ seated, ∃ offset slot, a.shape.cells[row * columns + column]? = some (s.number, offset) ∧
      f.slotAt s.node offset = some slot ∧ f.slotInCell x column row = some slot

/-- The node `x` and all nodes below it are as the archetype describes them. -/
inductive Realises (f : Forest) (limit : Nat) : Archetype → NodeId → Prop where
  | node {a : Archetype} {x : NodeId} {seated : List Seated} (here : f.Shows limit a x seated)
      (cells : f.FillsCells a x seated)
      (below : ∀ s ∈ seated, Realises f limit s.archetype s.node) : Realises f limit a x

def Keeps (f g : Forest) : Prop :=
  ∀ x n, f.node? x = some n → ∃ parent root,
    g.node? x = some { n with parent := parent, root := root } ∧
      ∀ p, n.parent = some p → parent = some p

section Keeps
variable {f g : Forest} {x : NodeId}

theorem Raised.keeps (h : Raised f g) : f.Keeps g := by
  intro x n hn
  refine ⟨n.parent, n.root, ?_, fun _ hp => hp⟩
  rw [h.node? x (contains_iff.mpr ⟨n, hn⟩), hn]

theorem keeps_setRoot (f : Forest) (r : NodeId) : f.Keeps (f.setRoot r) := by
  intro x n hn
  rw [node?_setRoot, hn]
  split
  · exact ⟨n.parent, r, rfl, fun _ hp => hp⟩
  · exact ⟨n.parent, n.root, rfl, fun _ hp => hp⟩

theorem keeps_plant (hf : f.Sound) {node : NodeId → Node} {cs : List NodeId}
    (hfree : ∀ c ∈ cs, f.Free c) : f.Keeps (f.plant node cs) := by
  intro x n hn
  rw [node?_plant hf hfree, if_neg (ne_nextId hf.arena hn), hn]
  split
  · rename_i hx
    refine ⟨some f.nextId, n.root, rfl, ?_⟩
    intro p hp
    have hnone := (hfree x hx).parent
    simp [parent, hn, hp] at hnone
  · exact ⟨n.parent, n.root, rfl, fun _ hp => hp⟩

theorem Keeps.sameContent (h : f.Keeps g) (hx : f.contains x = true) : SameContent f g x := by
  obtain ⟨n, hn⟩ := contains_iff.mp hx
  obtain ⟨parent, root, hg, _⟩ := h x n hn
  unfold SameContent
  rw [hg, hn]
  rfl

theorem Keeps.parent (h : f.Keeps g) {p : NodeId} (hp : f.parent x = some p) :
    g.parent x = some p := by
  obtain ⟨n, hn, hparent⟩ := Option.bind_eq_some_iff.mp hp
  obtain ⟨parent, root, hg, hkept⟩ := h x n hn
  unfold Forest.parent
  rw [hg, Option.bind_some]
  exact hkept p hparent

end Keeps

namespace Shows
variable {f g : Forest} {limit : Nat} {a : Archetype} {x : NodeId} {seated : List Seated}

theorem live (h : f.Shows limit a x seated) : f.contains x = true := by
  obtain ⟨n, hn, _⟩ := h.node
  exact contains_iff.mpr ⟨n, hn⟩

theorem child_live (h : f.Shows limit a x seated) {s : Seated} (hs : s ∈ seated) :
    f.contains s.node = true := contains_of_parent (h.parents s hs)

theorem container? (h : f.Shows limit a x seated) : f.container? x = none := by
  obtain ⟨n, hn, hshows⟩ := h.node
  unfold Forest.container?
  rw [hn, Option.bind_some, hshows.content.container?]

theorem alone (h : f.Shows limit a x seated) (hkind : a.kind = .slot) : seated = [] := by
  obtain ⟨n, _, hshows⟩ := h.node
  exact hshows.content.alone hkind

theorem entries (h : f.Shows limit a x seated) {k : Composite} (hk : f.composite? x = some k) :
    k.children = seated.map Seated.entry := by
  obtain ⟨n, hn, hshows⟩ := h.node
  obtain ⟨m, hm, hk⟩ := composite?_eq_some_iff.mp hk
  rw [hn] at hm
  cases hm
  exact hshows.content.entries hk

theorem slot_or_composite (h : f.Shows limit a x seated) :
    (a.kind = .slot ∧ f.slots x = [x] ∧ f.fillOrder x = [x] ∧ f.children x = [] ∧
      f.slot x = some (Slot.new (a.draft.filter.getD .any) (a.draft.maxStackSize.getD limit))) ∨
    (a.kind ≠ .slot ∧ ∃ k, f.composite? x = some k) := by
  obtain ⟨n, hn, hshows⟩ := h.node
  rcases hshows.content.slot_or_composite with ⟨hkind, hslot⟩ | ⟨hkind, k, hk⟩
  · refine Or.inl ⟨hkind, ?_⟩
    unfold slots fillOrder children
    rw [hn, slot_eq_some_iff.mpr ⟨n, hn, hslot⟩]
    simp only [hslot, and_self]
  · exact Or.inr ⟨hkind, k, composite?_eq_some_iff.mpr ⟨n, hn, hk⟩⟩

theorem children_eq (h : f.Shows limit a x seated) : f.children x = seated.map Seated.node := by
  rcases h.slot_or_composite with ⟨hkind, _, _, hchildren, _⟩ | ⟨_, k, hk⟩
  · rw [hchildren, h.alone hkind, List.map_nil]
  · rw [children_of_composite? hk, h.entries hk, List.map_map]
    rfl

theorem slots_eq (h : f.Shows limit a x seated) {k : Composite} (hk : f.composite? x = some k) :
    k.slots = seated.flatMap fun s => f.slots s.node := by
  rw [(h.follows k hk).slots, h.entries hk, List.flatMap_map]
  rfl

theorem exists_grid (h : f.Shows limit a x seated) {columns rows : Nat}
    (hkind : a.kind = .grid columns rows) : ∃ g, f.grid? x = some g ∧ g.columns = columns ∧
      g.rows = rows ∧ f.composite? x = some g.composite := by
  obtain ⟨n, hn, hshows⟩ := h.node
  obtain ⟨g, hg, hcolumns, hrows⟩ := hshows.content.exists_grid hkind
  refine ⟨g, grid?_eq_some_iff.mpr ⟨n, hn, hg⟩, hcolumns, hrows, ?_⟩
  exact composite?_eq_some_iff.mpr ⟨n, hn, by rw [hg]; rfl⟩

theorem keeps (h : f.Shows limit a x seated) (hfg : f.Keeps g) : g.Shows limit a x seated := by
  have hx := hfg.sameContent h.live
  refine ⟨?_, h.seats, fun s hs => hfg.parent (h.parents s hs), ?_, ?_⟩
  · obtain ⟨n, hn, hshows⟩ := h.node
    obtain ⟨parent, root, hg, _⟩ := hfg x n hn
    exact ⟨_, hg, hshows.archetype, hshows.name, hshows.properties, hshows.shiftClick,
      hshows.content⟩
  · unfold Forest.capacity
    rw [hx.slots]
    exact h.capacity
  · intro k hk
    rw [hx.composite?] at hk
    refine (h.follows k hk).congr fun e he => ?_
    rw [h.entries hk] at he
    obtain ⟨s, hs, rfl⟩ := List.mem_map.mp he
    have hsame := hfg.sameContent (h.child_live hs)
    exact ⟨hsame.slots, hsame.fillOrder⟩

theorem fillsCells_keeps (h : f.Shows limit a x seated) (hcells : f.FillsCells a x seated)
    (hfg : f.Keeps g) : g.FillsCells a x seated := by
  intro columns rows hkind column hcolumn row hrow
  obtain ⟨s, hs, offset, slot, howner, hslot, hcell⟩ :=
    hcells columns rows hkind column hcolumn row hrow
  refine ⟨s, hs, offset, slot, howner, ?_, ?_⟩
  · unfold slotAt
    rw [(hfg.sameContent (h.child_live hs)).slots]
    exact hslot
  · obtain ⟨n, hn, _⟩ := h.node
    obtain ⟨parent, root, hg, _⟩ := hfg x n hn
    have hgrid : g.grid? x = f.grid? x := by
      unfold grid?
      rw [hg, hn]
      rfl
    unfold slotInCell
    rw [hgrid]
    exact hcell

end Shows

namespace Realises
variable {f g : Forest} {limit : Nat} {a : Archetype} {x : NodeId}

theorem keeps (h : f.Realises limit a x) (hfg : f.Keeps g) : g.Realises limit a x := by
  induction h with
  | node here cells _ ih => exact .node (here.keeps hfg) (here.fillsCells_keeps cells hfg) ih

theorem container? (h : f.Realises limit a x) : f.container? x = none := by
  cases h with
  | node here _ _ => exact here.container?

theorem capacity (h : f.Realises limit a x) : f.capacity x = a.slotCount := by
  cases h with
  | node here _ _ => exact here.capacity

theorem empty (h : f.Realises limit a x) {slot : SlotId} (hslot : slot ∈ f.slots x) :
    f.contents slot = none := by
  induction h with
  | @node a x seated here _ _ ih =>
    rcases here.slot_or_composite with ⟨_, hslots, _, _, hx⟩ | ⟨_, k, hk⟩
    · rw [hslots] at hslot
      rw [List.mem_singleton.mp hslot]
      unfold contents
      rw [hx]
      rfl
    · rw [slots_of_composite? hk, here.slots_eq hk] at hslot
      obtain ⟨s, hs, hslot⟩ := List.mem_flatMap.mp hslot
      exact ih s hs hslot

end Realises

section Pairs
variable {children : List (Placing × Archetype)} {pairs : List ((Placing × Archetype) × NodeId)}

def placed (c : (Placing × Archetype) × NodeId) : Placement × ChildEntry :=
  (c.1.1.placement, ⟨c.2, c.1.1.priority, c.1.1.relative⟩)

theorem growAll_placed (limit : Nat) (f : Forest) (children : List (Placing × Archetype)) :
    ∃ pairs : List ((Placing × Archetype) × NodeId),
      children = pairs.map Prod.fst ∧ (growAll limit f children).2 = pairs.map placed := by
  induction children generalizing f with
  | nil => exact ⟨[], rfl, rfl⟩
  | cons c rest ih =>
    obtain ⟨p, a⟩ := c
    obtain ⟨pairs, hrest, hentries⟩ := ih (grow limit f a).1
    refine ⟨((p, a), (grow limit f a).2) :: pairs, ?_, ?_⟩
    · rw [List.map_cons, ← hrest]
    · simp only [growAll, hentries, List.map_cons, placed]

def numbered (pairs : List ((Placing × Archetype) × NodeId)) : List Seated :=
  pairs.zipIdx.map fun c => ⟨(c.1.1, c.2), c.1.2⟩

def seatedOf (kind : ArchetypeKind) (pairs : List ((Placing × Archetype) × NodeId)) :
    List Seated :=
  match kind with
  | .grid _ _ => stableSort (fun a b => cellBefore a.origin b.origin) (numbered pairs)
  | _ => numbered pairs

theorem map_seat_numbered (pairs : List ((Placing × Archetype) × NodeId)) :
    (numbered pairs).map Seated.seat = (pairs.map Prod.fst).zipIdx := by
  unfold numbered
  rw [List.map_map, List.zipIdx_map]
  rfl

theorem map_placed_numbered (pairs : List ((Placing × Archetype) × NodeId)) :
    (numbered pairs).map (fun s => (s.placing.placement, s.entry)) = pairs.map placed := by
  have hfst : pairs.zipIdx.map Prod.fst = pairs := List.zipIdx_map_fst 0 pairs
  unfold numbered
  rw [List.map_map]
  conv_rhs => rw [← hfst, List.map_map]
  rfl

theorem map_seat_seatedOf (id : Option ArchetypeId) (draft : Draft) (shape : Shape)
    (pairs : List ((Placing × Archetype) × NodeId)) :
    (seatedOf shape.kind pairs).map Seated.seat =
      (Archetype.frozen id draft shape (pairs.map Prod.fst)).seats := by
  have hseats := map_seat_numbered pairs
  unfold seatedOf Archetype.seats Archetype.kind
  dsimp only [Archetype.shape, Archetype.children]
  cases shape.kind with
  | slot => exact hseats
  | ordered => exact hseats
  | grid columns rows =>
    unfold rowOrder
    rw [← hseats, ← map_stableSort]
    rfl

theorem mem_seatedOf {kind : ArchetypeKind} {s : Seated} (h : s ∈ seatedOf kind pairs) :
    (s.seat.1, s.node) ∈ pairs := by
  have hnumbered : s ∈ numbered pairs := by
    unfold seatedOf at h
    split at h
    · exact (stableSort_perm _ _).mem_iff.mp h
    · exact h
  obtain ⟨c, hc, rfl⟩ := List.mem_map.mp hnumbered
  exact List.fst_mem_of_mem_zipIdx hc

/-- What a description makes of its children shows it. -/
theorem contentOf_shows (f : Forest) (limit : Nat) (id : Option ArchetypeId) (draft : Draft)
    (shape : Shape) (pairs : List ((Placing × Archetype) × NodeId))
    (halone : shape.kind = .slot → pairs = []) :
    (f.contentOf limit draft shape (pairs.map placed)).Shows limit
      (.frozen id draft shape (pairs.map Prod.fst)) (seatedOf shape.kind pairs) := by
  have hnumbered := map_placed_numbered pairs
  unfold contentOf
  cases hkind : shape.kind with
  | slot =>
    refine .slot hkind ?_
    rw [halone hkind]
    rfl
  | ordered =>
    refine .ordered (show Archetype.kind (.frozen id draft shape _) = _ from hkind) ?_
    have hentries := congrArg (List.map Prod.snd) hnumbered
    rw [List.map_map] at hentries
    exact hentries.symm
  | grid columns rows =>
    have hsorted : (seatedOf (.grid columns rows) pairs).map
        (fun s => (s.placing.placement, s.entry)) =
        stableSort (fun a b => cellBefore a.1.origin b.1.origin) (pairs.map placed) := by
      rw [← hnumbered, ← map_stableSort]
      rfl
    refine .grid (show Archetype.kind (.frozen id draft shape _) = _ from hkind) ?_ ?_ ?_
    · have hentries := congrArg (List.map Prod.snd) hsorted
      rw [List.map_map] at hentries
      exact hentries.symm
    · have horigins := congrArg (List.map fun c => c.1.origin) hsorted
      rw [List.map_map] at horigins
      exact horigins.symm
    · refine pairwise_stableSort ?_ ?_ (numbered pairs)
      · intro s t
        exact cellBefore_total _ _
      · intro s t u
        exact cellBefore_trans

end Pairs

section Cells

theorem getElem?_flatMap_pair {α β γ : Type} {F : α → List β} {G : α → List γ} {l : List α}
    (h : ∀ a ∈ l, (G a).length = (F a).length) {i : Nat} {b : β}
    (hb : (l.flatMap F)[i]? = some b) : ∃ a ∈ l, ∃ (k : Nat) (c : γ),
      (F a)[k]? = some b ∧ (G a)[k]? = some c ∧
      (l.flatMap G)[i]? = some c := by
  induction l generalizing i with
  | nil => simp at hb
  | cons a rest ih =>
    have hlength := h a List.mem_cons_self
    rw [List.flatMap_cons] at hb ⊢
    by_cases hi : i < (F a).length
    · rw [List.getElem?_append_left hi] at hb
      rw [← hlength] at hi
      rw [List.getElem?_append_left hi]
      exact ⟨a, List.mem_cons_self, i, _, hb, List.getElem?_eq_getElem hi,
        List.getElem?_eq_getElem hi⟩
    · rw [List.getElem?_append_right (by omega)] at hb
      rw [List.getElem?_append_right (by omega), hlength]
      obtain ⟨d, hd, found⟩ := ih (fun c hc => h c (List.mem_cons_of_mem a hc)) hb
      exact ⟨d, List.mem_cons_of_mem a hd, found⟩

theorem exists_getElem?_flatMap_pair {α β γ : Type} {F : α → List β} {G : α → List γ}
    {l : List α} (h : ∀ a ∈ l, (G a).length = (F a).length) {a : α} (ha : a ∈ l) {k : Nat} {b : β}
    {c : γ} (hb : (F a)[k]? = some b) (hc : (G a)[k]? = some c) :
    ∃ i : Nat, (l.flatMap F)[i]? = some b ∧ (l.flatMap G)[i]? = some c := by
  obtain ⟨before, after, rfl⟩ := List.append_of_mem ha
  have hlength : (before.flatMap G).length = (before.flatMap F).length := by
    rw [List.length_flatMap, List.length_flatMap]
    congr 1
    exact List.map_congr_left fun d hd => h d (List.mem_append_left _ hd)
  have hread : ∀ {δ : Type} {H : α → List δ} {e : δ}, (H a)[k]? = some e →
      ((before ++ a :: after).flatMap H)[(before.flatMap H).length + k]? = some e := by
    intro δ H e he
    rw [List.flatMap_append, List.flatMap_cons, List.getElem?_append_right (Nat.le_add_right _ k),
      Nat.add_sub_cancel_left, List.getElem?_append_left (List.getElem?_eq_some_iff.mp he).1]
    exact he
  refine ⟨(before.flatMap F).length + k, hread hb, ?_⟩
  rw [← hlength]
  exact hread hc

variable {f : Forest} {limit : Nat} {a : Archetype} {x : NodeId} {seated : List Seated}

/-- The cells of a grid go through its seats. -/
theorem cells_eq_flatMap (ha : a.Made) (hseats : seated.map Seated.seat = a.seats)
    {columns rows : Nat} (hkind : a.kind = .grid columns rows) :
    a.shape.cells = seated.flatMap fun s => ownersOf s.seat := by
  have hrows : a.seats = rowOrder a.children := by
    unfold Archetype.seats
    rw [hkind]
  rw [ha.inRows columns rows hkind, ← hrows, ← hseats, List.flatMap_map]

theorem getElem?_ownersOf {c : (Placing × Archetype) × Nat} {k : Nat} {owner : Nat × Nat}
    (h : (ownersOf c)[k]? = some owner) : owner = (c.2, k) := by
  unfold ownersOf at h
  rw [List.getElem?_map] at h
  obtain ⟨i, hi, rfl⟩ := Option.map_eq_some_iff.mp h
  obtain ⟨_, hi⟩ := List.getElem?_eq_some_iff.mp hi
  rw [← hi, List.getElem_range]

theorem Shows.length_slots (h : f.Shows limit a x seated) (ha : a.Made) {columns rows : Nat}
    (hkind : a.kind = .grid columns rows) {k : Composite} (hk : f.composite? x = some k) :
    k.slots.length = columns * rows := by
  have hfits := ha.fits.shape_fits
  unfold Shape.Fits at hfits
  rw [show a.shape.kind = .grid columns rows from hkind] at hfits
  rw [← hfits.1, ← slots_of_composite? hk]
  exact h.capacity

theorem length_ownersOf {s : Seated} (h : f.capacity s.node = s.archetype.slotCount) :
    (ownersOf s.seat).length = (f.slots s.node).length := by
  unfold ownersOf
  rw [List.length_map, List.length_range]
  exact h.symm

theorem Shows.fillsCells (h : f.Shows limit a x seated) (ha : a.Made)
    (hsizes : ∀ s ∈ seated, f.capacity s.node = s.archetype.slotCount) :
    f.FillsCells a x seated := by
  intro columns rows hkind column hcolumn row hrow
  obtain ⟨g, hg, hcolumns, hrows, hk⟩ := h.exists_grid hkind
  have hlength := h.length_slots ha hkind hk
  have hindex : row * columns + column < g.composite.slots.length := by
    have hle := Nat.mul_le_mul_right columns (Nat.succ_le_of_lt hrow)
    rw [Nat.succ_mul] at hle
    rw [hlength, Nat.mul_comm columns]
    omega
  obtain ⟨slot, hslot⟩ : ∃ slot, g.composite.slots[row * columns + column]? = some slot :=
    ⟨_, List.getElem?_eq_getElem hindex⟩
  have hread := hslot
  rw [h.slots_eq hk] at hread
  have hlengths : ∀ s ∈ seated, (ownersOf s.seat).length = (f.slots s.node).length :=
    fun s hs => length_ownersOf (hsizes s hs)
  obtain ⟨s, hs, offset, owner, hoffset, howner, hcell⟩ := getElem?_flatMap_pair hlengths hread
  refine ⟨s, hs, offset, slot, ?_, hoffset, ?_⟩
  · rw [cells_eq_flatMap ha h.seats hkind, hcell, getElem?_ownersOf howner]
    rfl
  · unfold slotInCell GridComposite.slotIn
    rw [hg, Option.bind_some, hcolumns, hrows, if_pos ⟨hcolumn, hrow⟩]
    exact hslot

end Cells

section Grow

theorem Offspring.realises {f g : Forest} {limit : Nat} {id : Option ArchetypeId} {draft : Draft}
    {shape : Shape} {pairs : List ((Placing × Archetype) × NodeId)} {node : NodeId → Node}
    (h : Offspring f g (pairs.map Prod.fst) (pairs.map placed))
    (ha : (Archetype.frozen id draft shape (pairs.map Prod.fst)).Made)
    (hgrown : ∀ c ∈ pairs, g.Realises limit c.1.2 c.2)
    (hnode : (node g.nextId).Shows limit (.frozen id draft shape (pairs.map Prod.fst))
      (seatedOf shape.kind pairs))
    (hcontent : (node g.nextId).content = g.contentOf limit draft shape (pairs.map placed))
    (hroot : (node g.nextId).parent = none) :
    (g.plant node ((pairs.map placed).map fun e => e.2.node)).Realises limit
      (.frozen id draft shape (pairs.map Prod.fst)) g.nextId := by
  obtain ⟨hhere, horder⟩ : shape.Fits (pairs.map Prod.fst) ∧ draft.Ordered shape.slotCount := by
    cases ha.fits with
    | frozen below here order => exact ⟨here, order⟩
  have hg := h.raised.sound
  have hj := h.joins hhere limit horder
  have hplaced : (pairs.map placed).map Prod.fst =
      (pairs.map Prod.fst).map fun c => c.1.placement := by
    rw [List.map_map, List.map_map]
    rfl
  have hkeeps : g.Keeps (g.plant node ((pairs.map placed).map fun e => e.2.node)) :=
    keeps_plant hg hj.free
  have hbelow : ∀ s ∈ seatedOf shape.kind pairs,
      (g.plant node ((pairs.map placed).map fun e => e.2.node)).Realises limit s.archetype
        s.node := fun s hs => (hgrown _ (mem_seatedOf hs)).keeps hkeeps
  have hshows : (g.plant node ((pairs.map placed).map fun e => e.2.node)).Shows limit
      (.frozen id draft shape (pairs.map Prod.fst)) g.nextId (seatedOf shape.kind pairs) := by
    refine ⟨⟨node g.nextId, ?_, hnode⟩, map_seat_seatedOf id draft shape pairs, ?_,
      (h.plant hhere horder hcontent hroot).size, ?_⟩
    · rw [node?_plant hg hj.free, if_pos rfl]
    · intro s hs
      rw [parent_plant hg hj.free hroot, if_pos]
      exact List.mem_map.mpr ⟨_, List.mem_map_of_mem (mem_seatedOf hs), rfl⟩
    · intro k hk
      rw [composite?_plant hg hj.free hcontent, if_pos rfl] at hk
      refine (h.follows hplaced ha.inRows hk).congr fun e he => ?_
      have hlive := (hj.free _ ((hj.children hk).mem_iff.mp (List.mem_map_of_mem he))).live
      exact ⟨(hkeeps.sameContent hlive).slots, (hkeeps.sameContent hlive).fillOrder⟩
  exact .node hshows (hshows.fillsCells ha fun s hs => (hbelow s hs).capacity) hbelow

mutual

/-- What grows from an archetype realises it. -/
theorem grow_realises (limit : Nat) {f : Forest} (hf : f.Sound) : (a : Archetype) → a.Made →
    (grow limit f a).1.Realises limit a (grow limit f a).2
  | .frozen id draft shape children, ha => by
    have hoffspring := growAll_offspring limit hf children fun c hc => (ha.children_made c hc).fits
    have hgrown := growAll_realises limit hf children ha.children_made
    obtain ⟨pairs, hchildren, hentries⟩ := growAll_placed limit f children
    simp only [grow, insert_snd]
    rw [hentries] at hoffspring hgrown ⊢
    generalize (growAll limit f children).1 = g at hoffspring hgrown ⊢
    subst hchildren
    refine hoffspring.realises ha ?_ ?_ rfl rfl
    · intro c hc
      refine hgrown (c.1, placed c) ?_
      rw [List.zip_map']
      exact List.mem_map_of_mem hc
    · refine ⟨rfl, rfl, rfl, rfl, contentOf_shows g limit id draft shape pairs fun hkind => ?_⟩
      have hfits : shape.Fits (pairs.map Prod.fst) := ha.fits.shape_fits
      unfold Shape.Fits at hfits
      rw [hkind] at hfits
      exact List.map_eq_nil_iff.mp hfits.1

theorem growAll_realises (limit : Nat) {f : Forest} (hf : f.Sound) :
    (children : List (Placing × Archetype)) → (∀ c ∈ children, c.2.Made) →
      ∀ c ∈ children.zip (growAll limit f children).2,
        (growAll limit f children).1.Realises limit c.1.2 c.2.2.node
  | [], _ => by simp
  | (p, a) :: rest, hc => by
    have ha := hc (p, a) List.mem_cons_self
    have hrest : ∀ c ∈ rest, c.2.Made := fun c h => hc c (List.mem_cons_of_mem _ h)
    have hsound := (grow_sprouted limit hf a ha.fits).raised.sound
    have hraised := (growAll_offspring limit hsound rest fun c h => (hrest c h).fits).raised
    intro c hmem
    simp only [growAll, List.zip_cons_cons] at hmem ⊢
    rcases List.mem_cons.mp hmem with rfl | hmem
    · exact (grow_realises limit hf a ha).keeps hraised.keeps
    · exact growAll_realises limit hsound rest hrest c hmem

end

end Grow

structure Adds (f g : Forest) (r : NodeId) : Prop where
  kept : ∀ x, f.contains x = true → g.node? x = f.node? x
  new : ∀ x, x ∈ r :: g.descendants r ↔ g.contains x = true ∧ f.contains x = false
  top : g.parent r = none
  root : ∀ x ∈ r :: g.descendants r, g.root x = some r

section Instantiate
variable {f g : Forest} {r x : NodeId} {n size : Nat}

theorem Sprouted.fresh_below (h : Sprouted f g r size) (hf : f.Sound) (hu : g.Under n r x) :
    f.contains x = false := by
  induction n generalizing x with
  | zero =>
    rw [← hu.eq_of_zero]
    exact h.fresh
  | succ n ih =>
    obtain ⟨b, hb, hlists⟩ := hu.last
    by_contra hx
    have hx := Bool.of_not_eq_false hx
    have hparent : f.parent x = some b := by
      unfold parent
      rw [← h.raised.node? x hx]
      exact h.raised.sound.parent_of_lists hlists
    have hlive := hf.contains_parent hparent
    rw [ih hb] at hlive
    cases hlive

theorem mem_descendants_setRoot (hg : g.Sound) (hr : g.container? r = none) (x : NodeId) :
    x ∈ r :: (g.setRoot r).descendants r ↔ x ∈ r :: g.descendants r := by
  have hsame := sameOutline_setRoot g r
  have hr' : (g.setRoot r).container? r = none := by
    rw [(sameContent_setRoot g r r).container?, hr]
  rw [List.mem_cons, List.mem_cons, (hg.setRoot r).eq_or_mem_descendants_iff hr',
    hg.eq_or_mem_descendants_iff hr]
  exact exists_congr fun n => ⟨fun h => h.mono fun p c => (hsame.lists p c).mp,
    fun h => h.mono fun p c => (hsame.lists p c).mpr⟩

theorem instantiate_adds (limit : Nat) (hf : f.Sound) {a : Archetype} (ha : a.Fits) :
    f.Adds (f.instantiate limit a).1 (f.instantiate limit a).2 := by
  have hsprout := grow_sprouted limit hf a ha
  have hunder := grow_under limit hf a ha
  simp only [instantiate]
  generalize (grow limit f a).2 = r at *
  generalize (grow limit f a).1 = g at *
  have hg := hsprout.raised.sound
  have htree := mem_descendants_setRoot hg hsprout.free.container
  have hbelow : ∀ x, x ∈ r :: g.descendants r ↔ ∃ n, g.Under n r x := fun x => by
    rw [List.mem_cons, hg.eq_or_mem_descendants_iff hsprout.free.container]
  have hlive : ∀ x, x ∈ r :: g.descendants r → g.contains x = true := by
    intro x hx
    obtain ⟨n, hu⟩ := (hbelow x).mp hx
    cases n with
    | zero =>
      rw [← hu.eq_of_zero]
      exact hsprout.free.live
    | succ n =>
      obtain ⟨b, _, hlists⟩ := hu.last
      exact (hg.contains_of_lists hlists).2
  have hfresh : ∀ x, x ∈ r :: g.descendants r → f.contains x = false := by
    intro x hx
    obtain ⟨n, hu⟩ := (hbelow x).mp hx
    exact hsprout.fresh_below hf hu
  refine ⟨?_, ?_, ?_, ?_⟩
  · intro x hx
    have hout : x ∉ r :: g.descendants r := by
      intro hmem
      rw [hfresh x hmem] at hx
      cases hx
    rw [node?_setRoot, if_neg hout, hsprout.raised.node? x hx]
  · intro x
    rw [htree, contains_setRoot]
    constructor
    · exact fun hx => ⟨hlive x hx, hfresh x hx⟩
    · rintro ⟨hx, hnew⟩
      rcases hunder x hx with hold | hu
      · rw [hnew] at hold
        cases hold
      · exact (hbelow x).mpr hu
  · rw [parent_setRoot, hsprout.free.parent]
  · intro x hx
    rw [htree] at hx
    exact root_setRoot_of_mem (hlive x hx) hx

theorem instantiate_realises (limit : Nat) (hf : f.Sound) {a : Archetype} (ha : a.Made) :
    (f.instantiate limit a).1.Realises limit a (f.instantiate limit a).2 :=
  (grow_realises limit hf a ha).keeps (keeps_setRoot _ _)

end Instantiate

end Forest

end Stowage
