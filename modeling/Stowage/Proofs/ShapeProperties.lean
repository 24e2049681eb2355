import Stowage.Proofs.Forest.Designs
import Stowage.Proofs.SlotOrders

/-!
# Properties that follow from the shape

A node has no such property of its own, so only what its parent keeps for it can stand before what
follows from the shape. All of them are read off the shape just when the parent keeps none of them,
or the very values that the shape gives.
-/

namespace Stowage

set_option autoImplicit false

section Store
variable {s : PropertyStore} {kind : PropertyKind} {v : PropertyValue}

theorem PropertyStore.mem_all_of_lookup {key : String} (h : s.lookup kind key = some v) :
    v ∈ s.all kind := by
  obtain ⟨q, hq, rfl⟩ := Option.map_eq_some_iff.mp h
  have hkind := List.find?_some hq
  rw [decide_eq_true_eq] at hkind
  exact List.mem_map_of_mem
    (List.mem_filter.mpr ⟨List.mem_of_find?_eq_some hq, decide_eq_true hkind.1⟩)

theorem PropertyStore.get_of_all_nil (h : s.all kind = []) (key : Option String) :
    s.get kind key = none := by
  have hnone : ∀ key, s.lookup kind key = none := by
    intro key
    rw [Option.eq_none_iff_forall_ne_some]
    intro v hv
    have hmem := s.mem_all_of_lookup hv
    rw [h] at hmem
    cases hmem
  cases key with
  | none =>
    unfold get
    rw [hnone, h]
    rfl
  | some key => exact hnone key

theorem PropertyStore.get_of_all_singleton (h : s.all kind = [v]) : s.get kind none = some v := by
  unfold get
  cases hlookup : s.lookup kind defaultKey with
  | none =>
    rw [h]
    rfl
  | some u =>
    have hmem := s.mem_all_of_lookup hlookup
    rw [h, List.mem_singleton] at hmem
    rw [hmem]

end Store

namespace Forest

def keptFor (f : Forest) (x : NodeId) : PropertyStore :=
  ((f.node? x).bind fun n => f.relativeStore x n).getD .empty

structure SlotBelow (f : Forest) (p x : NodeId) : Prop where
  slot : (f.slot x).isSome = true
  parent : f.parent x = some p
  composite : (f.composite? p).isSome = true

structure OnGrid (f : Forest) (p x : NodeId) : Prop where
  parent : f.parent x = some p
  grid : (f.grid? p).isSome = true

def PlacedAt (f : Forest) (p x : NodeId) (cell : Nat × Nat) : Prop :=
  ∃ n a entries e, f.node? p = some n ∧ n.From a entries ∧ e ∈ entries ∧ e.2.node = x ∧
    e.1.origin = cell

/-- The properties of a node that follow from the shape are what the shape tells. -/
structure ShowsShape (env : Environment) (f : Forest) (x : NodeId) : Prop where
  capacity : f.property env x .capacity none = some (.int (f.capacity x))
  capacities : f.properties env x .capacity = [.int (f.capacity x)]
  index : ∀ p, f.SlotBelow p x → ∃ i : Nat, f.indexOf p x = some i ∧
    f.properties env x .slotIndex = [.int i]
  noIndex : (∀ p, ¬ f.SlotBelow p x) → f.properties env x .slotIndex = [] ∧
    ∀ key, f.property env x .slotIndex key = none
  position : ∀ p, f.OnGrid p x → ∃ cell, f.PlacedAt p x cell ∧
    f.properties env x .slotPosition = [.position cell.1 cell.2]
  noPosition : (∀ p, ¬ f.OnGrid p x) → f.properties env x .slotPosition = [] ∧
    ∀ key, f.property env x .slotPosition key = none

/-- The parent keeps nothing for the node that follows from the shape, or the value itself. -/
structure Unforced (f : Forest) (x : NodeId) : Prop where
  capacity : (f.keptFor x).all .capacity = [] ∨
    (f.keptFor x).all .capacity = [.int (f.capacity x)]
  index : (f.keptFor x).all .slotIndex = [] ∨ ∃ p, ∃ i : Nat, f.SlotBelow p x ∧
    f.indexOf p x = some i ∧ (f.keptFor x).all .slotIndex = [.int i]
  position : (f.keptFor x).all .slotPosition = [] ∨ ∃ p cell, f.OnGrid p x ∧
    f.PlacedAt p x cell ∧ (f.keptFor x).all .slotPosition = [.position cell.1 cell.2]

section Shape
variable {f : Forest} {x p : NodeId} {n : Node} {env : Environment}

def fromParent (f : Forest) (x : NodeId) (n : Node) : PropertyKind → Option PropertyValue
  | .slotIndex => match n.content with
    | .slot _ => f.slotIndex x n
    | _ => none
  | .slotPosition => (n.parent.bind f.grid?).bind fun g => childCell g x
  | _ => none

def fromShape (env : Environment) (f : Forest) (x : NodeId) (n : Node) (kind : PropertyKind) :
    Option PropertyValue :=
  match f.fromParent x n kind with
  | some v => some v
  | none => f.structuralProperty (titleOfNode env f) x n kind

theorem keptFor_of_node? (hn : f.node? x = some n) :
    f.keptFor x = (f.relativeStore x n).getD .empty := by
  unfold keptFor
  rw [hn]
  rfl

theorem all_keptFor (hn : f.node? x = some n) (kind : PropertyKind) :
    (f.keptFor x).all kind = ((f.relativeStore x n).map fun s => s.all kind).getD [] := by
  rw [keptFor_of_node? hn]
  cases f.relativeStore x n <;> rfl

theorem stored_of_kept_nil {kind : PropertyKind} (hn : f.node? x = some n)
    (hkept : (f.keptFor x).all kind = []) (key : Option String) :
    ((f.relativeStore x n).bind fun s => s.get kind key) = none := by
  rw [keptFor_of_node? hn] at hkept
  cases hs : f.relativeStore x n with
  | none => rfl
  | some s =>
    rw [hs] at hkept
    exact PropertyStore.get_of_all_nil hkept key

theorem relativeProperty_of_kept_nil {kind : PropertyKind} (hn : f.node? x = some n)
    (hkept : (f.keptFor x).all kind = []) (key : Option String) :
    f.relativeProperty x n kind key = if asksDefault key then f.fromParent x n kind else none := by
  unfold relativeProperty
  simp only [stored_of_kept_nil hn hkept key]
  split
  · unfold fromParent
    cases kind with
    | slotIndex => rfl
    | slotPosition => cases n.parent.bind f.grid? <;> rfl
    | title => rfl
    | capacity => rfl
    | equipmentSlot => rfl
    | armorSlot => rfl
    | custom name => rfl
  · rfl

theorem property_of_kept_nil {kind : PropertyKind} (hn : f.node? x = some n)
    (hplain : n.properties.Plain) (hkind : kind.isStructural = true)
    (hkept : (f.keptFor x).all kind = []) (key : Option String) :
    f.property env x kind key = if asksDefault key then f.fromShape env x n kind else none := by
  unfold property propertyFrom
  rw [hn, Option.bind_some]
  simp only [PropertyStore.get_of_all_nil (hplain.all_eq_nil hkind) key,
    relativeProperty_of_kept_nil hn hkept key]
  unfold fromShape
  cases asksDefault key <;> cases f.fromParent x n kind <;> rfl

theorem properties_eq {kind : PropertyKind} (hn : f.node? x = some n)
    (hplain : n.properties.Plain) (hkind : kind.isStructural = true) :
    f.properties env x kind = if (f.keptFor x).all kind = [] then
      (f.fromShape env x n kind).toList else (f.keptFor x).all kind := by
  have hstored : n.properties.all kind ++
      ((f.relativeStore x n).map fun s => s.all kind).getD [] = (f.keptFor x).all kind := by
    rw [hplain.all_eq_nil hkind, all_keptFor hn, List.nil_append]
  unfold properties
  rw [hn]
  simp only [hstored, List.isEmpty_iff]
  split
  · rename_i hkept
    rw [relativeProperty_of_kept_nil hn hkept none]
    unfold fromShape
    change (match f.fromParent x n kind with
      | some v => [v]
      | none => (f.structuralProperty (titleOfNode env f) x n kind).toList) = _
    cases f.fromParent x n kind <;> rfl
  · rfl

theorem property_capacity_of_kept {v : PropertyValue} (hn : f.node? x = some n)
    (hplain : n.properties.Plain) (hkept : (f.keptFor x).all .capacity = [v]) :
    f.property env x .capacity none = some v := by
  have hstored : f.relativeProperty x n .capacity none = some v := by
    rw [keptFor_of_node? hn] at hkept
    change ((f.relativeStore x n).bind fun s => s.get .capacity none) = some v
    cases hs : f.relativeStore x n with
    | none =>
      rw [hs] at hkept
      cases hkept
    | some s =>
      rw [hs] at hkept
      exact PropertyStore.get_of_all_singleton hkept
  have hown : n.properties.all .capacity = [] := hplain.all_eq_nil rfl
  unfold property propertyFrom
  rw [hn, Option.bind_some]
  simp only [PropertyStore.get_of_all_nil hown none, hstored]

/-- A property is what the shape tells, as long as the parent keeps nothing else. -/
theorem properties_eq_fromShape_iff {kind : PropertyKind} (hn : f.node? x = some n)
    (hplain : n.properties.Plain) (hkind : kind.isStructural = true) :
    f.properties env x kind = (f.fromShape env x n kind).toList ↔
      (f.keptFor x).all kind = [] ∨
        (f.keptFor x).all kind = (f.fromShape env x n kind).toList := by
  rw [properties_eq hn hplain hkind]
  split
  · rename_i hkept
    exact iff_of_true rfl (Or.inl hkept)
  · rename_i hkept
    exact (or_iff_right hkept).symm

theorem exists_indexOf (hf : f.Sound) (h : f.SlotBelow p x) : ∃ i, f.indexOf p x = some i := by
  obtain ⟨k, hk⟩ := Option.isSome_iff_exists.mp h.composite
  obtain ⟨s, hs⟩ := Option.isSome_iff_exists.mp h.slot
  obtain ⟨k', hk', hmem⟩ := hf.lists_of_parent h.parent (container?_of_composite? hk)
  rw [hk] at hk'
  cases hk'
  obtain ⟨e, he, rfl⟩ := List.mem_map.mp hmem
  have hslot : e.node ∈ k.slots := by
    refine (hf.slots_perm hk).mem_iff.mpr (List.mem_flatMap.mpr ⟨e, he, ?_⟩)
    rw [slots_of_slot hs]
    exact List.mem_singleton_self _
  unfold indexOf
  rw [slots_of_composite? hk]
  exact Option.isSome_iff_exists.mp (List.isSome_idxOf?.mpr hslot)

theorem fromShape_index (hn : f.node? x = some n) (h : f.SlotBelow p x) {i : Nat}
    (hi : f.indexOf p x = some i) : f.fromShape env x n .slotIndex = some (.int i) := by
  obtain ⟨k, hk⟩ := Option.isSome_iff_exists.mp h.composite
  obtain ⟨s, hs⟩ := Option.isSome_iff_exists.mp h.slot
  obtain ⟨m, hm, hcontent⟩ := slot_eq_some_iff.mp hs
  rw [hn] at hm
  cases hm
  have hparent := h.parent
  rw [parent_of_node? hn] at hparent
  unfold indexOf at hi
  rw [slots_of_composite? hk] at hi
  have htold : f.fromParent x n .slotIndex = some (.int i) := by
    unfold fromParent slotIndex
    rw [hcontent, hparent, Option.bind_some, hk, Option.bind_some, hi]
    rfl
  unfold fromShape
  rw [htold]

theorem fromShape_no_index (hn : f.node? x = some n) (h : ∀ p, ¬ f.SlotBelow p x) :
    f.fromShape env x n .slotIndex = none := by
  have htold : f.fromParent x n .slotIndex = none := by
    unfold fromParent
    cases hcontent : n.content with
    | slot s =>
      dsimp only
      unfold slotIndex
      cases hparent : n.parent with
      | none => rfl
      | some p =>
        rw [Option.bind_some]
        cases hk : f.composite? p with
        | none => rfl
        | some k =>
          refine absurd ⟨?_, ?_, ?_⟩ (h p)
          · rw [slot_eq_some_iff.mpr ⟨n, hn, hcontent⟩]
            rfl
          · rw [parent_of_node? hn, hparent]
          · rw [hk]
            rfl
    | ordered k => rfl
    | grid g => rfl
    | container c => rfl
  unfold fromShape
  rw [htold]
  rfl

theorem exists_placedAt (hf : f.Sound) (hd : f.Designed) (h : f.OnGrid p x) :
    ∃ cell, f.PlacedAt p x cell := by
  obtain ⟨g, hg⟩ := Option.isSome_iff_exists.mp h.grid
  obtain ⟨m, hm, hcontent⟩ := grid?_eq_some_iff.mp hg
  have hk := composite?_of_grid? hg
  obtain ⟨k', hk', hmem⟩ := hf.lists_of_parent h.parent (container?_of_composite? hk)
  rw [hk] at hk'
  cases hk'
  rcases hd p m hm with ⟨a, entries, hfrom⟩ | ⟨_, hno⟩
  · rw [hfrom.houses.children (by rw [hcontent]; rfl), List.map_map] at hmem
    obtain ⟨e, he, hx⟩ := List.mem_map.mp hmem
    exact ⟨_, m, a, entries, e, hm, hfrom, he, hx, rfl⟩
  · exact absurd hcontent (hno g)

theorem fromShape_position (hf : f.Sound) (hn : f.node? x = some n) (h : f.OnGrid p x)
    {cell : Nat × Nat} (hcell : f.PlacedAt p x cell) :
    f.fromShape env x n .slotPosition = some (.position cell.1 cell.2) := by
  obtain ⟨g, hg⟩ := Option.isSome_iff_exists.mp h.grid
  obtain ⟨m, a, entries, e, hm, hfrom, he, hx, rfl⟩ := hcell
  obtain ⟨m', hm', hcontent⟩ := grid?_eq_some_iff.mp hg
  rw [hm] at hm'
  cases hm'
  have hchildren : g.composite.children = entries.map Prod.snd :=
    hfrom.houses.children (by rw [hcontent]; rfl)
  have hnodup := hf.nodup_children (composite?_of_grid? hg)
  obtain ⟨i, hi⟩ := List.mem_iff_getElem?.mp he
  have hchild : g.composite.children[i]? = some e.2 := by
    rw [hchildren, List.getElem?_map, hi]
    rfl
  have hposition : g.composite.positionOf x = some i := by
    rw [← hx]
    exact Composite.positionOf_of_getElem? hnodup hchild
  have horigin : g.origins[i]? = some e.1.origin := by
    rw [hfrom.houses.origins hcontent, List.getElem?_map, hi]
    rfl
  have hparent := h.parent
  rw [parent_of_node? hn] at hparent
  have htold : f.fromParent x n .slotPosition =
      some (.position e.1.origin.1 e.1.origin.2) := by
    unfold fromParent childCell
    rw [hparent, Option.bind_some, hg, Option.bind_some, hposition, Option.bind_some, horigin]
    rfl
  unfold fromShape
  rw [htold]

theorem fromShape_no_position (hn : f.node? x = some n) (h : ∀ p, ¬ f.OnGrid p x) :
    f.fromShape env x n .slotPosition = none := by
  have htold : f.fromParent x n .slotPosition = none := by
    unfold fromParent
    cases hparent : n.parent with
    | none => rfl
    | some p =>
      rw [Option.bind_some]
      cases hg : f.grid? p with
      | none => rfl
      | some g =>
        refine absurd ⟨?_, ?_⟩ (h p)
        · rw [parent_of_node? hn, hparent]
        · rw [hg]
          rfl
  unfold fromShape
  rw [htold]
  rfl

/-- What the shape tells of a node shows just when the parent keeps nothing else for it. -/
theorem showsShape_iff (hf : f.Sound) (hd : f.Designed) (hx : f.contains x = true) :
    f.ShowsShape env x ↔ f.Unforced x := by
  obtain ⟨n, hn⟩ := contains_iff.mp hx
  have hplain := Node.plain_of_designed (hd x n hn)
  have hshown := @properties_eq_fromShape_iff f x n env
  have hcapacity := @hshown .capacity hn hplain rfl
  have hindex := @hshown .slotIndex hn hplain rfl
  have hposition := @hshown .slotPosition hn hplain rfl
  have hnone : ∀ {kind : PropertyKind}, kind.isStructural = true →
      (f.keptFor x).all kind = [] → f.fromShape env x n kind = none →
      f.properties env x kind = [] ∧ ∀ key, f.property env x kind key = none := by
    intro kind hkind hkept hshape
    refine ⟨?_, ?_⟩
    · rw [properties_eq hn hplain hkind, if_pos hkept, hshape]
      rfl
    · intro key
      rw [property_of_kept_nil hn hplain hkind hkept key, hshape, ite_self]
  constructor
  · intro h
    refine ⟨hcapacity.mp h.capacities, ?_, ?_⟩
    · by_cases hbelow : ∃ p, f.SlotBelow p x
      · obtain ⟨p, hp⟩ := hbelow
        obtain ⟨i, hi, hproperties⟩ := h.index p hp
        rw [fromShape_index hn hp hi] at hindex
        exact (hindex.mp hproperties).imp_right fun hall => ⟨p, i, hp, hi, hall⟩
      · have hno := not_exists.mp hbelow
        rw [fromShape_no_index hn hno] at hindex
        exact Or.inl ((hindex.mp (h.noIndex hno).1).elim id id)
    · by_cases hgrid : ∃ p, f.OnGrid p x
      · obtain ⟨p, hp⟩ := hgrid
        obtain ⟨cell, hcell, hproperties⟩ := h.position p hp
        rw [fromShape_position hf hn hp hcell] at hposition
        exact (hposition.mp hproperties).imp_right fun hall => ⟨p, cell, hp, hcell, hall⟩
      · have hno := not_exists.mp hgrid
        rw [fromShape_no_position hn hno] at hposition
        exact Or.inl ((hposition.mp (h.noPosition hno).1).elim id id)
  · intro h
    refine ⟨?_, hcapacity.mpr h.capacity, ?_, ?_, ?_, ?_⟩
    · rcases h.capacity with hkept | hkept
      · rw [property_of_kept_nil hn hplain rfl hkept none]
        rfl
      · exact property_capacity_of_kept hn hplain hkept
    · intro p hp
      obtain ⟨i, hi⟩ := exists_indexOf hf hp
      rw [fromShape_index hn hp hi] at hindex
      refine ⟨i, hi, hindex.mpr (h.index.imp_right ?_)⟩
      rintro ⟨q, j, hq, hj, hall⟩
      obtain rfl : q = p := Option.some.inj (hq.parent.symm.trans hp.parent)
      rw [hall, Option.some.inj (hj.symm.trans hi)]
      rfl
    · intro hno
      refine hnone rfl (h.index.resolve_right ?_) (fromShape_no_index hn hno)
      rintro ⟨q, j, hq, _⟩
      exact hno q hq
    · intro p hp
      obtain ⟨cell, hcell⟩ := exists_placedAt hf hd hp
      have hshape : f.fromShape env x n .slotPosition = _ := fromShape_position hf hn hp hcell
      rw [hshape] at hposition
      refine ⟨cell, hcell, hposition.mpr (h.position.imp_right ?_)⟩
      rintro ⟨q, other, hq, hother, hall⟩
      obtain rfl : q = p := Option.some.inj (hq.parent.symm.trans hp.parent)
      rw [fromShape_position hf hn hq hother] at hshape
      rw [hall, Option.some.inj hshape]
      rfl
    · intro hno
      refine hnone rfl (h.position.resolve_right ?_) (fromShape_no_position hn hno)
      rintro ⟨q, cell, hq, _⟩
      exact hno q hq

end Shape

end Forest

/-- Whatever happened before, a live node shows what follows from its shape just when its parent
keeps nothing of that for it, or the very values. -/
theorem shows_shape_iff_unforced {past : List World} {w : World} (h : Run past w) {x : NodeId}
    (hx : w.state.forest.contains x = true) :
    w.state.forest.ShowsShape w.state.env x ↔ w.state.forest.Unforced x :=
  Forest.showsShape_iff h.sound.forest h.designed hx

theorem shows_shape_iff_unforced_stacked :
    (World.reached Operation.stacked).2.state.forest.contains ⟨1, 0⟩ = true ∧
    (World.reached Operation.stacked).2.state.forest.ShowsShape
      (World.reached Operation.stacked).2.state.env ⟨1, 0⟩ := by
  have hlive : (World.reached Operation.stacked).2.state.forest.contains ⟨1, 0⟩ = true := by
    decide +kernel
  have hkept : ∀ kind, (kind = .capacity ∨ kind = .slotIndex ∨ kind = .slotPosition) →
      ((World.reached Operation.stacked).2.state.forest.keptFor ⟨1, 0⟩).all kind = [] := by
    rintro kind (rfl | rfl | rfl) <;> decide +kernel
  exact ⟨hlive, (shows_shape_iff_unforced (Run.reached Operation.stacked) hlive).mpr
    ⟨Or.inl (hkept _ (by simp)), Or.inl (hkept _ (by simp)), Or.inl (hkept _ (by simp))⟩⟩

section Forced

def Builder.forced : Builder := (Builder.ordered.add .anySlot 0).childProperty 0 .capacity (.int 7)

def Archetype.forced : Archetype :=
  .frozen none Builder.forced.draft ⟨.ordered, 1, []⟩ Builder.forced.children

theorem Archetype.forced_made : forced.Made :=
  .frozen (.childProperty _ _ _ (.place _ _ (.kind .ordered .unset) anySlot_made))
    (show Builder.forced.freeze none = .ok forced from rfl)

/-- The capacity of a slot can be overridden by its parent. -/
theorem capacity_overridden :
    ¬ ∀ (past : List World) (w : World) (x : NodeId), Run past w →
      w.state.forest.contains x = true →
        w.state.property x .capacity none = some (.int (w.state.forest.capacity x)) := by
  intro h
  have hcapacity := h _ _ ⟨0, 0⟩ (Run.reached [.instantiate .forced Archetype.forced_made])
    (by decide +kernel)
  revert hcapacity
  decide +kernel

end Forced

end Stowage
