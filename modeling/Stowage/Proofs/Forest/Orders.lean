import Stowage.Proofs.Archetype.Rows
import Stowage.Proofs.Forest.Framing
import Stowage.Proofs.Forest.Growth

/-!
# Two orders of the slots below a node

The slots of a composite are those of its children one after another, on a grid as in a row. The
order to fill them is the one that was written down, or goes through the children by priority. What
was written down is not kept with the nodes, so the drafts that nodes were made from are listed
beside the forest.
-/

namespace Stowage

set_option autoImplicit false

/-- The slots of the composite are those of its children in a row; they are filled in the given
order, or else by the priorities of the children. -/
structure Composite.Follows (k : Composite) (f : Forest) (order : Option (List Nat)) : Prop where
  slots : k.slots = k.children.flatMap fun e => f.slots e.node
  fill : k.fillOrder = f.fillOrderOf k.children k.slots order

section Follows
variable {f g : Forest} {k : Composite} {order : Option (List Nat)}

theorem Forest.derivedFillOrder_congr {children : List ChildEntry}
    (h : ∀ e ∈ children, g.fillOrder e.node = f.fillOrder e.node) :
    g.derivedFillOrder children = f.derivedFillOrder children := by
  unfold derivedFillOrder
  refine List.flatMap_congr fun e he => h e ?_
  exact (stableSort_perm _ children).mem_iff.mp he

theorem Composite.Follows.congr (hk : k.Follows f order)
    (h : ∀ e ∈ k.children, g.slots e.node = f.slots e.node ∧
      g.fillOrder e.node = f.fillOrder e.node) : k.Follows g order := by
  constructor
  · rw [hk.slots]
    exact List.flatMap_congr fun e he => (h e he).1.symm
  · rw [hk.fill]
    cases order with
    | none => exact (Forest.derivedFillOrder_congr fun e he => (h e he).2).symm
    | some order => rfl

theorem Forest.rowComposite_follows (f : Forest) (children : List ChildEntry)
    (order : Option (List Nat)) : (f.rowComposite children order).Follows f order := ⟨rfl, rfl⟩

end Follows

namespace Forest

mutual

def drafts (limit : Nat) (f : Forest) : Archetype → List (NodeId × Draft)
  | .frozen _ draft _ children =>
    ((growAll limit f children).1.nextId, draft) :: draftsAll limit f children

def draftsAll (limit : Nat) (f : Forest) : List (Placing × Archetype) → List (NodeId × Draft)
  | [] => []
  | (_, a) :: rest => draftsAll limit (grow limit f a).1 rest ++ drafts limit f a

end

def writtenOrder (drafts : List (NodeId × Draft)) (x : NodeId) : Option (List Nat) :=
  (drafts.lookup x).bind Draft.fillOrder

theorem writtenOrder_filter (drafts : List (NodeId × Draft)) {live : NodeId → Bool} {x : NodeId}
    (hx : live x = true) :
    writtenOrder (drafts.filter fun d => live d.1) x = writtenOrder drafts x := by
  have hlookup : (drafts.filter fun d => live d.1).lookup x = drafts.lookup x := by
    induction drafts with
    | nil => rfl
    | cons d rest ih =>
      obtain ⟨y, draft⟩ := d
      by_cases hy : x = y
      · subst hy
        simp [hx]
      · have hne : (x == y) = false := beq_false_of_ne hy
        cases hlive : live y <;> simp [hlive, List.lookup_cons, hne, ih]
  unfold writtenOrder
  rw [hlookup]

structure Drafted (f : Forest) (drafts : List (NodeId × Draft)) : Prop where
  live : ∀ d ∈ drafts, f.contains d.1 = true
  follows : ∀ {x : NodeId} {k : Composite}, f.composite? x = some k →
    k.Follows f (writtenOrder drafts x)

section Grid
variable {f g : Forest} {children : List (Placing × Archetype)}
variable {entries : List (Placement × ChildEntry)}

theorem growAll_placements (limit : Nat) (f : Forest) (children : List (Placing × Archetype)) :
    (growAll limit f children).2.map Prod.fst = children.map fun c => c.1.placement := by
  induction children generalizing f with
  | nil => rfl
  | cons c rest ih =>
    obtain ⟨p, a⟩ := c
    simp only [growAll, List.map_cons, ih]

def entryOrder (entries : List (Placement × ChildEntry)) : List ((Placement × ChildEntry) × Nat) :=
  stableSort (fun a b => cellBefore a.1.1.origin b.1.1.origin) entries.zipIdx

theorem map_fst_entryOrder (entries : List (Placement × ChildEntry)) :
    (entryOrder entries).map Prod.fst =
      stableSort (fun a b => cellBefore a.1.origin b.1.origin) entries := by
  have hsort : (entryOrder entries).map Prod.fst =
      stableSort (fun a b => cellBefore a.1.origin b.1.origin) (entries.zipIdx.map Prod.fst) :=
    map_stableSort (fun a b : Placement × ChildEntry => cellBefore a.1.origin b.1.origin)
      Prod.fst entries.zipIdx
  rwa [List.zipIdx_map_fst] at hsort

theorem Offspring.map_rowOrder (h : Offspring f g children entries)
    (hplaced : entries.map Prod.fst = children.map fun c => c.1.placement) :
    (rowOrder children).map (fun c => (c.1.2.slotCount, c.2)) =
      (entryOrder entries).map fun e => ((g.slots e.1.2.node).length, e.2) := by
  have hpairs : children.map (fun c => (c.1.placement, c.2.slotCount)) =
      entries.map fun e => (e.1, (g.slots e.2.node).length) := by
    rw [← List.zip_map', ← List.zip_map', h.sizes, ← hplaced]
  have hnumbered := congrArg List.zipIdx hpairs
  rw [List.zipIdx_map, List.zipIdx_map] at hnumbered
  have hsorted := congrArg (stableSort fun a b : (Placement × Nat) × Nat =>
    cellBefore a.1.1.origin b.1.1.origin) hnumbered
  rw [← map_stableSort, ← map_stableSort] at hsorted
  have hresult := congrArg (List.map fun c : (Placement × Nat) × Nat => (c.1.2, c.2)) hsorted
  rw [List.map_map, List.map_map] at hresult
  exact hresult

theorem gridComposite_slots_eq (h : Offspring f g children entries)
    (hplaced : entries.map Prod.fst = children.map fun c => c.1.placement)
    {cells : List (Nat × Nat)} (hcells : cells = (rowOrder children).flatMap ownersOf)
    (columns rows : Nat) (order : Option (List Nat)) :
    (g.gridComposite entries columns rows cells order).composite.slots =
      (g.gridComposite entries columns rows cells order).composite.children.flatMap
        fun e => g.slots e.node := by
  have hread : ∀ e ∈ entryOrder entries,
      ((List.range (g.slots e.1.2.node).length).map fun k => (e.2, k)).filterMap
        (fun c => (entries.map fun c => g.slots c.2.node)[c.1]?.bind fun s => s[c.2]?) =
      g.slots e.1.2.node := by
    intro e he
    have hmem := List.mem_zipIdx_iff_getElem?.mp ((stableSort_perm _ _).mem_iff.mp he)
    simp only [List.filterMap_map, Function.comp_def, List.getElem?_map, hmem, Option.map_some,
      Option.bind_some, filterMap_range_getElem?]
  have howners : cells = (entryOrder entries).flatMap fun e =>
      (List.range (g.slots e.1.2.node).length).map fun k => (e.2, k) := by
    have hrows := congrArg (List.flatMap fun c : Nat × Nat =>
      (List.range c.1).map fun k => (c.2, k)) (h.map_rowOrder hplaced)
    rw [List.flatMap_map, List.flatMap_map] at hrows
    exact hcells.trans hrows
  simp only [gridComposite]
  rw [howners, List.filterMap_flatMap, List.flatMap_congr hread, ← map_fst_entryOrder,
    List.map_map, List.flatMap_map]
  rfl

end Grid

/-- What a description makes of grown children follows them. -/
theorem Offspring.follows {f g : Forest} {children : List (Placing × Archetype)}
    {entries : List (Placement × ChildEntry)} (h : Offspring f g children entries)
    (hplaced : entries.map Prod.fst = children.map fun c => c.1.placement) {shape : Shape}
    (hrows : shape.InRows children) {limit : Nat} {draft : Draft} {k : Composite}
    (hk : (g.contentOf limit draft shape entries).composite? = some k) :
    k.Follows g draft.fillOrder := by
  unfold contentOf at hk
  cases hkind : shape.kind with
  | slot =>
    rw [hkind] at hk
    cases hk
  | ordered =>
    rw [hkind] at hk
    cases hk
    exact g.rowComposite_follows _ _
  | grid columns rows =>
    rw [hkind] at hk
    cases hk
    exact ⟨gridComposite_slots_eq h hplaced (hrows columns rows hkind) columns rows _, rfl⟩

namespace Drafted
variable {f g : Forest} {ds ds' : List (NodeId × Draft)}

theorem empty : Forest.empty.Drafted [] := by
  refine ⟨by simp, ?_⟩
  intro x k hk
  simp [composite?, node?_empty] at hk

theorem lookup_of_dead (h : f.Drafted ds) {x : NodeId} (hx : f.contains x = false) :
    ds.lookup x = none := by
  rw [List.lookup_eq_none_iff]
  intro d hd
  have hlive := h.live d hd
  rw [bne_iff_ne]
  rintro rfl
  rw [hx] at hlive
  cases hlive

/-- Composites that stay follow their children as long as these keep their orders. -/
theorem transfer (h : f.Drafted ds) (hlive : ∀ d ∈ ds', g.contains d.1 = true)
    (hcomposite : ∀ x k, g.composite? x = some k → f.composite? x = some k)
    (hwritten : ∀ x, g.contains x = true → writtenOrder ds' x = writtenOrder ds x)
    (hchildren : ∀ x k, g.composite? x = some k → ∀ e ∈ k.children,
      g.slots e.node = f.slots e.node ∧ g.fillOrder e.node = f.fillOrder e.node) :
    g.Drafted ds' := by
  refine ⟨hlive, ?_⟩
  intro x k hk
  rw [hwritten x (contains_of_composite? hk)]
  exact (h.follows (hcomposite x k hk)).congr (hchildren x k hk)

theorem of_sameOutline (h : f.Drafted ds) (hfg : SameOutline f g) : g.Drafted ds := by
  refine h.transfer ?_ ?_ (fun _ _ => rfl) fun x k hk e he => ⟨hfg.slots _, hfg.fillOrder _⟩
  · intro d hd
    rw [hfg.contains]
    exact h.live d hd
  · intro x k hk
    rwa [hfg.composite?] at hk

theorem plant (h : f.Drafted ds) (hf : f.Sound) {node : NodeId → Node} {content : Content}
    {cs : List NodeId} (hj : f.Joins content cs) (hcontent : (node f.nextId).content = content)
    (new : List (NodeId × Draft)) (hnew : ∀ d ∈ new, d.1 = f.nextId)
    (hfollows : ∀ k, content.composite? = some k → k.Follows f (writtenOrder new f.nextId)) :
    (f.plant node cs).Drafted (new ++ ds) := by
  have hsame : ∀ x, f.contains x = true → SameContent f (f.plant node cs) x := by
    intro x hx
    obtain ⟨n, hn⟩ := contains_iff.mp hx
    exact sameContent_plant hf hj.free (ne_nextId hf.arena hn)
  have horders : ∀ {k : Composite}, (∀ e ∈ k.children, f.contains e.node = true) →
      ∀ e ∈ k.children, (f.plant node cs).slots e.node = f.slots e.node ∧
        (f.plant node cs).fillOrder e.node = f.fillOrder e.node :=
    fun hk e he => ⟨(hsame _ (hk e he)).slots, (hsame _ (hk e he)).fillOrder⟩
  refine ⟨?_, ?_⟩
  · intro d hd
    rcases List.mem_append.mp hd with hd | hd
    · rw [hnew d hd, contains_iff, node?_plant hf hj.free, if_pos rfl]
      exact ⟨_, rfl⟩
    · rw [(hsame _ (h.live d hd)).contains]
      exact h.live d hd
  · intro x k hk
    unfold writtenOrder
    rw [composite?_plant hf hj.free hcontent] at hk
    rw [List.lookup_append]
    split at hk
    · rename_i hx
      rw [hx, h.lookup_of_dead (contains_nextId hf.arena), Option.or_none]
      refine (hfollows k hk).congr (horders fun e he => ?_)
      exact (hj.free _ ((hj.children hk).mem_iff.mp (List.mem_map_of_mem he))).live
    · rename_i hx
      have hnone : new.lookup x = none := by
        rw [List.lookup_eq_none_iff]
        intro d hd
        rw [bne_iff_ne, hnew d hd]
        exact hx
      rw [hnone, Option.none_or]
      refine (h.follows hk).congr (horders fun e he => ?_)
      exact (hf.contains_of_lists ⟨k, hk, List.mem_map_of_mem he⟩).2

theorem addContainer (h : f.Drafted ds) (hf : f.Sound) (limit : Nat) (top bottom : NodeId) :
    (f.addContainer limit top bottom).1.Drafted ds := by
  have hsame : ∀ x, f.contains x = true → SameContent f (f.addContainer limit top bottom).1 x :=
    fun x hx => .of_node? (node?_addContainer_of_live hf limit top bottom hx)
  refine h.transfer ?_ ?_ (fun _ _ => rfl) ?_
  · intro d hd
    rw [(hsame _ (h.live d hd)).contains]
    exact h.live d hd
  · intro x k hk
    rwa [composite?_addContainer hf] at hk
  · intro x k hk e he
    rw [composite?_addContainer hf] at hk
    have hlive := (hf.contains_of_lists ⟨k, hk, List.mem_map_of_mem he⟩).2
    exact ⟨(hsame _ hlive).slots, (hsame _ hlive).fillOrder⟩

end Drafted

section Grow

mutual

theorem grow_drafted (limit : Nat) {f : Forest} (hf : f.Sound) {ds : List (NodeId × Draft)}
    (h : f.Drafted ds) : (a : Archetype) → a.Made →
      (grow limit f a).1.Drafted (drafts limit f a ++ ds)
  | .frozen id draft shape children, ha => by
    have hbelow := ha.children_made
    have hgrown := growAll_drafted limit hf h children hbelow
    have hfits : (∀ c ∈ children, c.2.Fits) ∧ shape.Fits children ∧
        draft.Ordered shape.slotCount := by
      cases ha.fits with
      | frozen below here order => exact ⟨below, here, order⟩
    obtain ⟨hbelow, hhere, horder⟩ := hfits
    have hoffspring := growAll_offspring limit hf children hbelow
    have hj := hoffspring.joins hhere limit horder
    simp only [grow, drafts, insert_snd, List.cons_append]
    refine hgrown.plant hoffspring.raised.sound hj rfl [(_, draft)] ?_ ?_
    · intro d hd
      rw [List.mem_singleton.mp hd]
    · intro k hk
      have hwritten : writtenOrder [((growAll limit f children).1.nextId, draft)]
          (growAll limit f children).1.nextId = draft.fillOrder := by simp [writtenOrder]
      rw [hwritten]
      exact hoffspring.follows (growAll_placements limit f children) ha.inRows hk

theorem growAll_drafted (limit : Nat) {f : Forest} (hf : f.Sound) {ds : List (NodeId × Draft)}
    (h : f.Drafted ds) : (children : List (Placing × Archetype)) → (∀ c ∈ children, c.2.Made) →
      (growAll limit f children).1.Drafted (draftsAll limit f children ++ ds)
  | [], _ => h
  | (p, a) :: rest, hc => by
    have ha := hc (p, a) List.mem_cons_self
    have hsound := (grow_sprouted limit hf a ha.fits).raised.sound
    simp only [growAll, draftsAll, List.append_assoc]
    exact growAll_drafted limit hsound (grow_drafted limit hf h a ha) rest
      fun c hcr => hc c (List.mem_cons_of_mem _ hcr)

end

theorem instantiate_drafted (limit : Nat) {f : Forest} (hf : f.Sound) {ds : List (NodeId × Draft)}
    (h : f.Drafted ds) {a : Archetype} (ha : a.Made) :
    (f.instantiate limit a).1.Drafted (drafts limit f a ++ ds) :=
  (grow_drafted limit hf h a ha).of_sameOutline (sameOutline_setRoot _ _)

theorem compose_drafted {f g : Forest} (hf : f.Sound) {ds : List (NodeId × Draft)}
    (h : f.Drafted ds) {children : List (NodeId × Int)} {id : NodeId}
    (hg : f.compose children = .ok (g, id)) : g.Drafted ds := by
  obtain ⟨entries, hj, rfl⟩ := compose_planted hf hg
  refine Drafted.of_sameOutline ?_ (sameOutline_setRoot _ _)
  refine h.plant hf hj rfl [] (by simp) ?_
  intro k hk
  cases hk
  exact f.rowComposite_follows _ _

end Grow

end Forest

end Stowage
