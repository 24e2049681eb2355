import Stowage.Proofs.Archetype.Layout
import Stowage.Proofs.Forest.Planting

/-!
# Growing and joining

An archetype whose shapes fit grows into a sound forest: the nodes that were there stay as they are,
and the new topmost node stands alone with as many slots as the archetype tells. Joining keeps all
contents and changes links of the joined nodes only.
-/

namespace Stowage.Forest

set_option autoImplicit false

structure Raised (f g : Forest) : Prop where
  sound : g.Sound
  arena : f.nodes.Extends g.nodes
  node? : ∀ x, f.contains x = true → g.node? x = f.node? x
  container? : ∀ x, g.container? x = f.container? x

structure Grown (f g : Forest) : Prop where
  sound : g.Sound
  arena : f.nodes.Extends g.nodes
  content : ∀ x, f.contains x = true → SameContent f g x
  container? : ∀ x, g.container? x = f.container? x

namespace Raised
variable {f g h : Forest}

theorem refl (hf : f.Sound) : Raised f f := ⟨hf, .refl _, fun _ _ => rfl, fun _ => rfl⟩

theorem contains (hfg : Raised f g) {x : NodeId} (hx : f.contains x = true) :
    g.contains x = true := by
  rw [(SameContent.of_node? (hfg.node? x hx)).contains]
  exact hx

theorem trans (hfg : Raised f g) (hgh : Raised g h) : Raised f h := by
  refine ⟨hgh.sound, hfg.arena.trans hgh.arena, ?_, ?_⟩
  · intro x hx
    rw [hgh.node? x (hfg.contains hx), hfg.node? x hx]
  · intro x
    rw [hgh.container?, hfg.container?]

theorem free (hfg : Raised f g) {c : NodeId} (hc : f.Free c) : g.Free c := by
  refine ⟨hfg.contains hc.live, ?_, ?_⟩
  · unfold parent
    rw [hfg.node? c hc.live]
    exact hc.parent
  · rw [hfg.container?]
    exact hc.container

theorem slots (hfg : Raised f g) {x : NodeId} (hx : f.contains x = true) :
    g.slots x = f.slots x := (SameContent.of_node? (hfg.node? x hx)).slots

end Raised

section SetRoot

theorem node?_setRoot (f : Forest) (r x : NodeId) :
    (f.setRoot r).node? x = if x ∈ r :: f.descendants r
      then (f.node? x).map fun n => { n with root := r } else f.node? x := by
  unfold setRoot
  generalize r :: f.descendants r = whole
  induction whole generalizing f with
  | nil => rw [List.foldl_nil, if_neg List.not_mem_nil]
  | cons c rest ih =>
    rw [List.foldl_cons, ih, node?_modify]
    by_cases hx : x = c
    · subst hx
      by_cases hrest : x ∈ rest
      · simp [hrest, Function.comp_def]
      · simp [hrest]
    · simp [hx]

theorem sameContent_setRoot (f : Forest) (r x : NodeId) : SameContent f (f.setRoot r) x := by
  unfold SameContent
  rw [node?_setRoot]
  split
  · rw [Option.map_map]
    rfl
  · rfl

theorem sameOutline_setRoot (f : Forest) (r : NodeId) : SameOutline f (f.setRoot r) := by
  intro x
  rw [node?_setRoot]
  split
  · rw [Option.map_map]
    rfl
  · rfl

theorem extends_setRoot (f : Forest) (r : NodeId) : f.nodes.Extends (f.setRoot r).nodes :=
  extends_foldl_modify _ id _ _

theorem Sound.setRoot {f : Forest} (hf : f.Sound) (r : NodeId) : (f.setRoot r).Sound :=
  hf.congr (sameOutline_setRoot f r) (sound_foldl_modify _ id _ hf.arena)

end SetRoot

section Cells

theorem filterMap_range_getElem? {α : Type} (l : List α) :
    (List.range l.length).filterMap (fun i => l[i]?) = l := by
  induction l with
  | nil => rfl
  | cons a rest ih =>
    rw [List.length_cons, List.range_succ_eq_map, List.filterMap_cons]
    simp only [List.getElem?_cons_zero, List.filterMap_map, Function.comp_def,
      List.getElem?_cons_succ, ih]

theorem filterMap_ownersFrom {α : Type} {children : List (Placing × Archetype)}
    {lists : List (List α)} (before : List (List α))
    (h : lists.map List.length = children.map fun c => c.2.slotCount) :
    (ownersFrom before.length children).filterMap
      (fun c => (before ++ lists)[c.1]?.bind fun s => s[c.2]?) = lists.flatten := by
  induction children generalizing lists before with
  | nil =>
    cases lists with
    | nil => rfl
    | cons l rest => cases h
  | cons c rest ih =>
    cases lists with
    | nil => cases h
    | cons l more =>
      obtain ⟨hlen, hmore⟩ := List.cons.inj h
      have hlen : l.length = c.2.slotCount := hlen
      have hstep := ih (before ++ [l]) hmore
      have hhead : (before ++ l :: more)[before.length]? = some l := by simp
      rw [List.append_assoc, List.singleton_append, List.length_append,
        List.length_singleton] at hstep
      simp only [ownersFrom, List.filterMap_append, List.filterMap_map, Function.comp_def, hhead,
        Option.bind_some, hstep, List.flatten_cons]
      rw [← hlen, filterMap_range_getElem?]

end Cells

/-- The topmost nodes that grew for some children: new, standing alone, and of the right sizes. -/
structure Offspring (f g : Forest) (children : List (Placing × Archetype))
    (entries : List (Placement × ChildEntry)) : Prop where
  raised : Raised f g
  nodup : (entries.map fun e => e.2.node).Nodup
  fresh : ∀ e ∈ entries, f.contains e.2.node = false
  free : ∀ e ∈ entries, g.Free e.2.node
  sizes : (entries.map fun e => (g.slots e.2.node).length) = children.map fun c => c.2.slotCount

section Content
variable {f g : Forest} {children : List (Placing × Archetype)}
variable {entries : List (Placement × ChildEntry)}

theorem gridComposite_slots_perm (h : Offspring f g children entries) {columns rows : Nat}
    {cells : List (Nat × Nat)} (hcells : cells.Perm (ownersFrom 0 children))
    (order : Option (List Nat)) :
    (g.gridComposite entries columns rows cells order).composite.slots.Perm
      (entries.flatMap fun e => g.slots e.2.node) := by
  have hsizes : (entries.map fun e => g.slots e.2.node).map List.length =
      children.map fun c => c.2.slotCount := by
    rw [List.map_map]
    exact h.sizes
  have hread := filterMap_ownersFrom [] hsizes
  rw [List.nil_append, List.length_nil] at hread
  rw [List.flatMap_def, ← hread]
  exact hcells.filterMap _

theorem gridComposite_children_perm (g : Forest) (entries : List (Placement × ChildEntry))
    (columns rows : Nat) (cells : List (Nat × Nat)) (order : Option (List Nat)) :
    (g.gridComposite entries columns rows cells order).composite.children.Perm
      (entries.map Prod.snd) := (stableSort_perm _ _).map Prod.snd

theorem Offspring.length_slots (h : Offspring f g children entries) {shape : Shape}
    (hshape : shape.Fits children) {limit : Nat} {draft : Draft} {k : Composite}
    (hk : (g.contentOf limit draft shape entries).composite? = some k) :
    k.slots.length = shape.slotCount := by
  have hsum : (entries.flatMap fun e => g.slots e.2.node).length =
      (children.map fun c => c.2.slotCount).sum := by
    rw [List.length_flatMap, h.sizes]
  unfold Shape.Fits at hshape
  unfold contentOf at hk
  cases hkind : shape.kind with
  | slot =>
    rw [hkind] at hk
    cases hk
  | ordered =>
    rw [hkind] at hk hshape
    cases hk
    rw [hshape, ← hsum]
    simp [rowComposite, List.flatMap_map]
  | grid columns rows =>
    rw [hkind] at hk hshape
    cases hk
    rw [(gridComposite_slots_perm h hshape.2.2 draft.fillOrder).length_eq, hsum, hshape.2.1,
      hshape.2.2.length_eq, length_ownersFrom]

theorem derivedFillOrder_perm (hg : g.Sound) {below : List ChildEntry}
    (hplain : ∀ e ∈ below, g.container? e.node = none) :
    (g.derivedFillOrder below).Perm (below.flatMap fun e => g.slots e.node) := by
  have hsorted := (stableSort_perm (fun a b : ChildEntry => decide (b.priority ≤ a.priority))
    below).flatMap_right fun e => g.fillOrder e.node
  exact hsorted.trans (.flatMap_left below fun e he => hg.fillOrder_perm (hplain e he))

theorem filterMap_getElem?_perm {slots : List SlotId} {order : List Nat}
    (horder : order.Perm (List.range slots.length)) :
    (order.filterMap fun i => slots[i]?).Perm slots := by
  have hread := horder.filterMap fun i => slots[i]?
  rwa [filterMap_range_getElem?] at hread

theorem Offspring.fill_perm (h : Offspring f g children entries) {shape : Shape}
    (hshape : shape.Fits children) {limit : Nat} {draft : Draft}
    (horder : draft.Ordered shape.slotCount) {k : Composite}
    (hk : (g.contentOf limit draft shape entries).composite? = some k)
    (hslots : k.slots.Perm (k.children.flatMap fun e => g.slots e.node))
    (hplain : ∀ e ∈ k.children, g.container? e.node = none) :
    k.fillOrder.Perm k.slots := by
  have hlen := h.length_slots hshape hk
  have hfill : k.fillOrder = g.fillOrderOf k.children k.slots draft.fillOrder := by
    unfold contentOf at hk
    cases hkind : shape.kind with
    | slot =>
      rw [hkind] at hk
      cases hk
    | ordered =>
      rw [hkind] at hk
      cases hk
      rfl
    | grid columns rows =>
      rw [hkind] at hk
      cases hk
      rfl
  rw [hfill]
  cases ho : draft.fillOrder with
  | none => exact (derivedFillOrder_perm h.raised.sound hplain).trans hslots.symm
  | some order =>
    have hall := horder order ho
    rw [← hlen] at hall
    exact filterMap_getElem?_perm hall

theorem Offspring.children_perm (h : Offspring f g children entries) {shape : Shape}
    (hshape : shape.Fits children) {limit : Nat} {draft : Draft} {k : Composite}
    (hk : (g.contentOf limit draft shape entries).composite? = some k) :
    (k.children.map ChildEntry.node).Perm (entries.map fun e => e.2.node) ∧
      k.slots.Perm (k.children.flatMap fun e => g.slots e.node) := by
  unfold Shape.Fits at hshape
  unfold contentOf at hk
  cases hkind : shape.kind with
  | slot =>
    rw [hkind] at hk
    cases hk
  | ordered =>
    rw [hkind] at hk
    cases hk
    exact ⟨by simp [rowComposite, Function.comp_def], .refl _⟩
  | grid columns rows =>
    rw [hkind] at hk hshape
    cases hk
    have hchildren := gridComposite_children_perm g entries columns rows shape.cells draft.fillOrder
    constructor
    · simpa [Function.comp_def] using hchildren.map ChildEntry.node
    · apply (gridComposite_slots_perm h hshape.2.2 draft.fillOrder).trans
      have hflat := (hchildren.flatMap_right fun e => g.slots e.node).symm
      rw [List.flatMap_map] at hflat
      exact hflat

/-- What a description makes of grown children can be planted above them. -/
theorem Offspring.joins (h : Offspring f g children entries) {shape : Shape}
    (hshape : shape.Fits children) (limit : Nat) {draft : Draft}
    (horder : draft.Ordered shape.slotCount) :
    g.Joins (g.contentOf limit draft shape entries) (entries.map fun e => e.2.node) where
  container := by
    unfold contentOf
    cases shape.kind <;> rfl
  leaf := by
    intro hnone
    unfold Shape.Fits at hshape
    unfold contentOf at hnone
    cases hk : shape.kind with
    | slot =>
      rw [hk] at hshape
      have hlen := congrArg List.length h.sizes
      rw [hshape.1] at hlen
      simpa using hlen
    | ordered =>
      rw [hk] at hnone
      cases hnone
    | grid columns rows =>
      rw [hk] at hnone
      cases hnone
  children := fun hk => (h.children_perm hshape hk).1
  slots := fun hk => (h.children_perm hshape hk).2
  fill := by
    intro k hk
    obtain ⟨hnodes, hslots⟩ := h.children_perm hshape hk
    refine h.fill_perm hshape horder hk hslots ?_
    intro e he
    obtain ⟨d, hd, hde⟩ := List.mem_map.mp (hnodes.mem_iff.mp (List.mem_map_of_mem he))
    rw [← hde]
    exact (h.free d hd).container
  nodup := h.nodup
  free := by
    intro c hc
    obtain ⟨e, he, rfl⟩ := List.mem_map.mp hc
    exact h.free e he

end Content

structure Sprouted (f g : Forest) (id : NodeId) (size : Nat) : Prop where
  raised : Raised f g
  fresh : f.contains id = false
  free : g.Free id
  size : (g.slots id).length = size

section Grow
variable {f g : Forest} {children : List (Placing × Archetype)}
variable {entries : List (Placement × ChildEntry)}

theorem contains_nextId {f : Forest} (hf : f.nodes.Sound) : f.contains f.nextId = false := by
  simp [contains, Arena.contains, nextId, hf.get?_nextId]

theorem Offspring.plant (h : Offspring f g children entries) {shape : Shape}
    (hshape : shape.Fits children) {limit : Nat} {draft : Draft}
    (horder : draft.Ordered shape.slotCount) {node : NodeId → Node}
    (hcontent : (node g.nextId).content = g.contentOf limit draft shape entries)
    (hroot : (node g.nextId).parent = none) :
    Sprouted f (g.plant node (entries.map fun e => e.2.node)) g.nextId shape.slotCount := by
  have hg := h.raised.sound
  have hj := h.joins hshape limit horder
  have hmem : g.nextId ∉ entries.map fun e => e.2.node := by
    intro hc
    have hlive := (hj.free _ hc).live
    rw [contains_nextId hg.arena] at hlive
    cases hlive
  have hnode := @node?_plant g node _ hg hj.free
  refine ⟨⟨hg.plant hj hcontent hroot, h.raised.arena.trans (extends_plant hg.arena), ?_, ?_⟩, ?_,
    ⟨?_, ?_, ?_⟩, ?_⟩
  · intro x hx
    have hlive := h.raised.contains hx
    have hnext : x ≠ g.nextId := by
      intro he
      rw [he, contains_nextId hg.arena] at hlive
      cases hlive
    have hold : x ∉ entries.map fun e => e.2.node := by
      intro hc
      obtain ⟨e, he, rfl⟩ := List.mem_map.mp hc
      rw [h.fresh e he] at hx
      cases hx
    rw [hnode, if_neg hnext, if_neg hold]
    exact h.raised.node? x hx
  · intro x
    rw [container?_plant hg hj hcontent, h.raised.container?]
  · cases hf : f.contains g.nextId with
    | false => rfl
    | true =>
      have hlive := h.raised.contains hf
      rw [contains_nextId hg.arena] at hlive
      cases hlive
  · rw [contains_iff, hnode, if_pos rfl]
    exact ⟨_, rfl⟩
  · rw [parent_plant hg hj.free hroot, if_neg hmem]
    simp [parent, node?_nextId hg.arena]
  · rw [container?_plant hg hj hcontent]
    simp [container?, node?_nextId hg.arena]
  · cases hk : (g.contentOf limit draft shape entries).composite? with
    | some k =>
      rw [slots_of_composite? (k := k)]
      · exact h.length_slots hshape hk
      · rw [composite?_plant hg hj.free hcontent, if_pos rfl]
        exact hk
    | none =>
      unfold contentOf at hk hcontent
      unfold Shape.Fits at hshape
      unfold slots
      rw [hnode, if_pos rfl]
      cases hkind : shape.kind with
      | slot =>
        rw [hkind] at hcontent hshape
        simp [hcontent, hshape.2]
      | ordered =>
        rw [hkind] at hk
        cases hk
      | grid columns rows =>
        rw [hkind] at hk
        cases hk

end Grow

mutual

/-- An archetype grows from the children upwards. -/
theorem grow_sprouted (limit : Nat) {f : Forest} (hf : f.Sound) :
    (a : Archetype) → a.Fits →
      Sprouted f (grow limit f a).1 (grow limit f a).2 a.slotCount
  | .frozen id draft shape children, ha => by
    have hfits : (∀ c ∈ children, c.2.Fits) ∧ shape.Fits children ∧
        draft.Ordered shape.slotCount := by
      cases ha with
      | frozen below here order => exact ⟨below, here, order⟩
    obtain ⟨hbelow, hhere, horder⟩ := hfits
    have h := growAll_offspring limit hf children hbelow
    simp only [grow, insert_snd]
    exact h.plant hhere horder rfl rfl

theorem growAll_offspring (limit : Nat) {f : Forest} (hf : f.Sound) :
    (children : List (Placing × Archetype)) → (∀ c ∈ children, c.2.Fits) →
      Offspring f (growAll limit f children).1 children (growAll limit f children).2
  | [], _ => by
    refine ⟨Raised.refl hf, List.nodup_nil, ?_, ?_, rfl⟩
    · intro e he
      cases he
    · intro e he
      cases he
  | (p, a) :: rest, hc => by
    have hfirst := grow_sprouted limit hf a (hc (p, a) List.mem_cons_self)
    have hrest := growAll_offspring limit hfirst.raised.sound rest
      fun c h => hc c (List.mem_cons_of_mem _ h)
    simp only [growAll]
    refine ⟨hfirst.raised.trans hrest.raised, ?_, ?_, ?_, ?_⟩
    · rw [List.map_cons, List.nodup_cons]
      refine ⟨?_, hrest.nodup⟩
      intro hmem
      obtain ⟨e, he, heq⟩ := List.mem_map.mp hmem
      have heq : e.2.node = (grow limit f a).2 := heq
      have hlive := hfirst.free.live
      rw [← heq, hrest.fresh e he] at hlive
      cases hlive
    · intro e he
      rcases List.mem_cons.mp he with he | he
      · rw [he]
        exact hfirst.fresh
      · cases hx : f.contains e.2.node with
        | false => rfl
        | true =>
          have hlive := hfirst.raised.contains hx
          rw [hrest.fresh e he] at hlive
          cases hlive
    · intro e he
      rcases List.mem_cons.mp he with he | he
      · rw [he]
        exact hrest.raised.free hfirst.free
      · exact hrest.free e he
    · rw [List.map_cons, List.map_cons, hrest.sizes, hrest.raised.slots hfirst.free.live,
        hfirst.size]

end

theorem instantiate_grown (limit : Nat) {f : Forest} (hf : f.Sound) {a : Archetype} (ha : a.Fits) :
    Grown f (f.instantiate limit a).1 := by
  have hraised := (grow_sprouted limit hf a ha).raised
  simp only [instantiate]
  refine ⟨hraised.sound.setRoot _, hraised.arena.trans (extends_setRoot _ _), ?_, ?_⟩
  · intro x hx
    exact (SameContent.of_node? (hraised.node? x hx)).trans (sameContent_setRoot _ _ x)
  · intro x
    rw [(sameContent_setRoot _ _ x).container?, hraised.container?]

section Compose
variable {f g : Forest}

theorem free_of_joinRefusal {earlier children : List NodeId}
    (h : f.joinRefusal earlier children = none) :
    children.Nodup ∧ ∀ c ∈ children, f.Free c ∧ c ∉ earlier := by
  induction children generalizing earlier with
  | nil => exact ⟨List.nodup_nil, by simp⟩
  | cons c rest ih =>
    simp only [joinRefusal] at h
    split at h
    · cases h
    rename_i hc
    obtain ⟨hnodup, hrest⟩ := ih h
    have hfree : f.Free c ∧ c ∉ earlier := by
      unfold childRefusal at hc
      split at hc
      · cases hc
      rename_i n hn
      split at hc
      · cases hc
      rename_i hgood
      rw [not_or, Option.not_isSome_iff_eq_none] at hgood
      refine ⟨⟨contains_iff.mpr ⟨n, hn⟩, ?_, ?_⟩, hgood.2⟩
      · simp [parent, hn, hgood.1]
      · unfold container?
        rw [hn]
        cases hk : n.content <;> simp_all [Content.container?]
    constructor
    · rw [List.nodup_cons]
      refine ⟨?_, hnodup⟩
      intro hmem
      apply (hrest c hmem).2
      simp
    · intro d hd
      rcases List.mem_cons.mp hd with hd | hd
      · rw [hd]
        exact hfree
      · obtain ⟨hdfree, hdnew⟩ := hrest d hd
        exact ⟨hdfree, fun hmem => hdnew (List.mem_append_left _ hmem)⟩

/-- Joining plants a row above its children and makes it the topmost node of theirs. -/
theorem compose_planted (hf : f.Sound) {children : List (NodeId × Int)} {id : NodeId}
    (h : f.compose children = .ok (g, id)) : ∃ entries : List ChildEntry,
      f.Joins (.ordered (f.rowComposite entries none)) (entries.map ChildEntry.node) ∧
        g = (f.plant (fun id => Node.plain id (.ordered (f.rowComposite entries none)))
          (entries.map ChildEntry.node)).setRoot f.nextId := by
  unfold compose at h
  split at h
  · cases h
  rename_i hjoin
  obtain ⟨hnodup, hfree⟩ := free_of_joinRefusal hjoin
  simp only [insert_snd] at h
  cases h
  generalize hentries : (children.map fun c => (⟨c.1, c.2, .empty⟩ : ChildEntry)) = entries
  have hnodes : children.map Prod.fst = entries.map ChildEntry.node := by
    rw [← hentries, List.map_map]
    rfl
  rw [hnodes] at hnodup hfree ⊢
  refine ⟨entries, ⟨rfl, ?_, ?_, ?_, ?_, hnodup, fun c hc => (hfree c hc).1⟩, rfl⟩
  · intro hc
    cases hc
  · intro k hk
    cases hk
    exact .refl _
  · intro k hk
    cases hk
    exact .refl _
  · intro k hk
    cases hk
    refine derivedFillOrder_perm hf ?_
    intro e he
    exact (hfree _ (List.mem_map_of_mem he)).1.container

theorem compose_grown (hf : f.Sound) {children : List (NodeId × Int)} {id : NodeId}
    (h : f.compose children = .ok (g, id)) : Grown f g := by
  obtain ⟨entries, hj, rfl⟩ := compose_planted hf h
  refine ⟨(hf.plant hj rfl rfl).setRoot _, (extends_plant hf.arena).trans (extends_setRoot _ _),
    ?_, ?_⟩
  · intro x hx
    obtain ⟨n, hn⟩ := contains_iff.mp hx
    exact (sameContent_plant hf hj.free (ne_nextId hf.arena hn)).trans (sameContent_setRoot _ _ x)
  · intro x
    exact (sameContent_setRoot _ _ x).container?.trans (container?_plant hf hj rfl x)

end Compose

end Stowage.Forest
