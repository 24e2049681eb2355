import Stowage.Forest.Basic
import Stowage.Proofs.Arena

/-!
# Lookups and outlines

What a handle gives after a node is changed, removed or added. Most changes touch only the contents
of a slot or the viewers of a container. The outline of a node leaves those out, and whatever is
read from outlines alone survives such a change.
-/

namespace Stowage

set_option autoImplicit false

def Container.bare (c : Container) : Container := { c with viewers := [] }

theorem Container.of_bare_eq {c d : Container} (h : c.bare = d.bare) :
    c.top = d.top ∧ c.bottom = d.bottom ∧ c.cursor = d.cursor ∧ c.slots = d.slots := by
  simp only [bare, Container.mk.injEq] at h
  exact ⟨h.1, h.2.1, h.2.2.1, h.2.2.2.1⟩

section Children
variable {c : Container} {x : NodeId}

theorem Container.children_of_eq (h : c.top = c.bottom) : c.children = [c.top] := by
  simp [children, isResident, h]

theorem Container.children_of_ne (h : c.top ≠ c.bottom) : c.children = [c.top, c.bottom] := by
  simp [children, isResident, h]

theorem Container.mem_children_iff : x ∈ c.children ↔ x = c.top ∨ x = c.bottom := by
  by_cases h : c.top = c.bottom
  · rw [children_of_eq h, List.mem_singleton, ← h, or_self]
  · simp [children_of_ne h]

end Children

theorem Composite.positionOf_of_getElem? {k : Composite}
    (h : (k.children.map ChildEntry.node).Nodup) {i : Nat} {e : ChildEntry}
    (he : k.children[i]? = some e) : k.positionOf e.node = some i := by
  obtain ⟨hlt, hget⟩ := List.getElem?_eq_some_iff.mp he
  refine List.findIdx?_eq_some_iff_getElem.mpr ⟨hlt, by simp [hget], ?_⟩
  intro j hj hsame
  have hother := List.pairwise_iff_getElem.mp (List.pairwise_map.mp h) j i
    (Nat.lt_trans hj hlt) hlt hj
  rw [hget] at hother
  exact hother (of_decide_eq_true hsame)

def Content.bare : Content → Content
  | .slot s => .slot { s with contents := none }
  | .ordered c => .ordered c
  | .grid g => .grid g
  | .container c => .container c.bare

namespace Node

def bare (n : Node) : Node := { n with content := n.content.bare }

theorem of_bare_eq {n m : Node} (h : m.bare = n.bare) : m.content.bare = n.content.bare ∧
    m.parent = n.parent ∧ m.name = n.name ∧ m.properties = n.properties := by
  simp only [bare, Node.mk.injEq] at h
  exact ⟨h.1, h.2.1, h.2.2.2.1, h.2.2.2.2.2.1⟩

/-- The part of a node that ties it to others. -/
def outline (n : Node) : Option NodeId × Content := (n.parent, n.content.bare)

end Node

namespace Forest

def nextId (f : Forest) : NodeId := f.nodes.nextId

section Lookup
variable (f : Forest) (id x : NodeId)

theorem contains_iff {f : Forest} {id : NodeId} :
    f.contains id = true ↔ ∃ n, f.node? id = some n := Option.isSome_iff_exists

theorem node?_modify (change : Node → Node) :
    (f.modify id change).node? x = if x = id then (f.node? id).map change else f.node? x :=
  Arena.get?_modify _ _ _ _

theorem node?_remove : (f.remove id).node? x = if x = id then none else f.node? x :=
  Arena.get?_remove _ _ _

@[simp] theorem insert_snd (node : NodeId → Node) : (f.insert node).2 = f.nextId := by
  simp [insert, Arena.insertWith, nextId]

theorem node?_insert {f : Forest} (h : f.nodes.Sound) (node : NodeId → Node) (x : NodeId) :
    (f.insert node).1.node? x = if x = f.nextId then some (node f.nextId) else f.node? x :=
  h.get?_insert _ _

theorem node?_nextId {f : Forest} (h : f.nodes.Sound) : f.node? f.nextId = none := h.get?_nextId

theorem sound_insert {f : Forest} (h : f.nodes.Sound) (node : NodeId → Node) :
    (f.insert node).1.nodes.Sound := h.insert _

theorem extends_insert {f : Forest} (h : f.nodes.Sound) (node : NodeId → Node) :
    f.nodes.Extends (f.insert node).1.nodes := h.extends_insert _

theorem ne_nextId {f : Forest} (h : f.nodes.Sound) {x : NodeId} {n : Node}
    (hx : f.node? x = some n) : x ≠ f.nextId := by
  intro he
  rw [he, node?_nextId h] at hx
  cases hx

theorem node?_foldl_remove (ids : List NodeId) (f : Forest) (x : NodeId) :
    (ids.foldl Forest.remove f).node? x = if x ∈ ids then none else f.node? x := by
  induction ids generalizing f with
  | nil => simp
  | cons i rest ih =>
    rw [List.foldl_cons, ih, node?_remove]
    by_cases hx : x = i
    · simp [hx]
    · simp [hx]

theorem sound_foldl_remove (ids : List NodeId) {f : Forest} (h : f.nodes.Sound) :
    (ids.foldl Forest.remove f).nodes.Sound := by
  induction ids generalizing f with
  | nil => exact h
  | cons i rest ih => exact ih (h.remove i)

end Lookup

section Fields
variable {f : Forest} {x : NodeId} {n : Node}

theorem composite?_eq_some_iff {k : Composite} :
    f.composite? x = some k ↔ ∃ n, f.node? x = some n ∧ n.content.composite? = some k :=
  Option.bind_eq_some_iff

theorem container?_eq_some_iff {k : Container} :
    f.container? x = some k ↔ ∃ n, f.node? x = some n ∧ n.content = .container k := by
  unfold container?
  rw [Option.bind_eq_some_iff]
  constructor
  · rintro ⟨n, hn, hk⟩
    refine ⟨n, hn, ?_⟩
    cases hc : n.content <;> simp_all [Content.container?]
  · rintro ⟨n, hn, hk⟩
    exact ⟨n, hn, by simp [hk, Content.container?]⟩

theorem slot_eq_some_iff {s : Slot} :
    f.slot x = some s ↔ ∃ n, f.node? x = some n ∧ n.content = .slot s := by
  unfold slot
  rw [Option.bind_eq_some_iff]
  constructor
  · rintro ⟨n, hn, hs⟩
    refine ⟨n, hn, ?_⟩
    cases hc : n.content <;> simp_all [Content.slot?]
  · rintro ⟨n, hn, hs⟩
    exact ⟨n, hn, by simp [hs, Content.slot?]⟩

theorem grid?_eq_some_iff {g : GridComposite} :
    f.grid? x = some g ↔ ∃ n, f.node? x = some n ∧ n.content = .grid g := by
  unfold grid?
  rw [Option.bind_eq_some_iff]
  refine exists_congr fun n => and_congr_right fun _ => ?_
  cases n.content <;> simp

theorem contains_of_container? {k : Container} (h : f.container? x = some k) :
    f.contains x = true := by
  obtain ⟨n, hn, _⟩ := container?_eq_some_iff.mp h
  exact contains_iff.mpr ⟨n, hn⟩

theorem contains_of_slot {s : Slot} (h : f.slot x = some s) : f.contains x = true := by
  obtain ⟨n, hn, _⟩ := slot_eq_some_iff.mp h
  exact contains_iff.mpr ⟨n, hn⟩

theorem contains_of_composite? {k : Composite} (h : f.composite? x = some k) :
    f.contains x = true := by
  obtain ⟨n, hn, _⟩ := composite?_eq_some_iff.mp h
  exact contains_iff.mpr ⟨n, hn⟩

theorem parent_of_node? {n : Node} (h : f.node? x = some n) : f.parent x = n.parent := by
  unfold parent
  rw [h]
  rfl

theorem contains_of_parent {p : NodeId} (h : f.parent x = some p) : f.contains x = true := by
  obtain ⟨n, hn, _⟩ := Option.bind_eq_some_iff.mp h
  exact contains_iff.mpr ⟨n, hn⟩

theorem composite?_of_container? {k : Container} (h : f.container? x = some k) :
    f.composite? x = none := by
  obtain ⟨n, hn, hk⟩ := container?_eq_some_iff.mp h
  simp [composite?, hn, hk, Content.composite?]

theorem container?_of_composite? {k : Composite} (h : f.composite? x = some k) :
    f.container? x = none := by
  cases hc : f.container? x with
  | none => rfl
  | some c =>
    rw [composite?_of_container? hc] at h
    cases h

theorem composite?_of_grid? {g : GridComposite} (h : f.grid? x = some g) :
    f.composite? x = some g.composite := by
  obtain ⟨n, hn, hcontent⟩ := grid?_eq_some_iff.mp h
  exact composite?_eq_some_iff.mpr ⟨n, hn, by rw [hcontent]; rfl⟩

theorem kind_eq_container_iff :
    f.kind x = some .container ↔ ∃ k, f.container? x = some k := by
  unfold kind container?
  cases hn : f.node? x with
  | none => simp
  | some n => cases hc : n.content <;> simp [hc, Content.kind, Content.container?]

theorem fillOrder_of_composite? {k : Composite} (h : f.composite? x = some k) :
    f.fillOrder x = k.fillOrder := by
  obtain ⟨n, hn, hk⟩ := composite?_eq_some_iff.mp h
  unfold fillOrder
  rw [hn]
  cases hc : n.content <;> simp_all [Content.composite?]

theorem children_of_composite? {k : Composite} (h : f.composite? x = some k) :
    f.children x = k.children.map ChildEntry.node := by
  obtain ⟨n, hn, hk⟩ := composite?_eq_some_iff.mp h
  unfold children
  rw [hn]
  cases hc : n.content <;> simp_all [Content.composite?]

theorem children_of_container? {k : Container} (h : f.container? x = some k) :
    f.children x = k.children := by
  obtain ⟨n, hn, hk⟩ := container?_eq_some_iff.mp h
  unfold children
  simp only [hn, hk]

theorem slots_of_composite? {k : Composite} (h : f.composite? x = some k) :
    f.slots x = k.slots := by
  obtain ⟨n, hn, hk⟩ := composite?_eq_some_iff.mp h
  unfold slots
  rw [hn]
  cases hc : n.content <;> simp_all [Content.composite?]

theorem slots_of_slot {s : Slot} (h : f.slot x = some s) : f.slots x = [x] := by
  obtain ⟨n, hn, hs⟩ := slot_eq_some_iff.mp h
  unfold slots
  simp only [hn, hs]

end Fields

def Alike (f g : Forest) : Prop := ∀ x, (g.node? x).map Node.bare = (f.node? x).map Node.bare

def OutlineAt (f g : Forest) (x : NodeId) : Prop :=
  (g.node? x).map Node.outline = (f.node? x).map Node.outline

def SameOutline (f g : Forest) : Prop :=
  ∀ x, (g.node? x).map Node.outline = (f.node? x).map Node.outline

theorem OutlineAt.of_bare {f g : Forest} {x : NodeId}
    (h : (g.node? x).map Node.bare = (f.node? x).map Node.bare) : OutlineAt f g x := by
  have hx := congrArg (Option.map fun n : Node => (n.parent, n.content)) h
  unfold OutlineAt Node.outline
  simpa [Option.map_map, Function.comp_def, Node.bare] using hx

namespace Alike
variable {f g h : Forest}

theorem refl (f : Forest) : Alike f f := fun _ => rfl

theorem trans (hfg : Alike f g) (hgh : Alike g h) : Alike f h := fun x => (hgh x).trans (hfg x)

theorem sameOutline (hfg : Alike f g) : SameOutline f g := fun x => OutlineAt.of_bare (hfg x)

end Alike

namespace OutlineAt
variable {f g : Forest} {x : NodeId}

theorem contains (h : OutlineAt f g x) : g.contains x = f.contains x := by
  have hx := congrArg Option.isSome h
  simpa [Forest.contains, Arena.contains, node?] using hx

theorem parent (h : OutlineAt f g x) : g.parent x = f.parent x := by
  have hx := congrArg (fun o => o.bind Prod.fst) h
  simpa [Option.bind_map, Function.comp_def, Node.outline, Forest.parent] using hx

theorem content (h : OutlineAt f g x) :
    (g.node? x).map (fun n => n.content.bare) = (f.node? x).map fun n => n.content.bare := by
  have hx := congrArg (Option.map Prod.snd) h
  simpa [Option.map_map, Function.comp_def, Node.outline] using hx

theorem composite?_bare (c : Content) : c.bare.composite? = c.composite? := by
  cases c <;> rfl

theorem composite? (h : OutlineAt f g x) : g.composite? x = f.composite? x := by
  have hx := congrArg (fun o => o.bind Content.composite?) h.content
  simpa [Option.bind_map, Function.comp_def, composite?_bare, Forest.composite?] using hx

theorem container? (h : OutlineAt f g x) :
    (g.container? x).map Container.bare = (f.container? x).map Container.bare := by
  have hbare : ∀ c : Content, c.bare.container? = c.container?.map Container.bare := by
    intro c
    cases c <;> rfl
  have hx := congrArg (fun o => o.bind Content.container?) h.content
  simpa [Option.bind_map, Function.comp_def, hbare, Forest.container?, Option.map_bind] using hx

theorem grid?_of_bare {k : GridComposite}
    (h : (g.node? x).map (fun n => n.content.bare) = (f.node? x).map fun n => n.content.bare)
    (hk : g.grid? x = some k) : f.grid? x = some k := by
  obtain ⟨n, hn, hcontent⟩ := grid?_eq_some_iff.mp hk
  rw [hn, Option.map_some, hcontent] at h
  obtain ⟨m, hm, hbare⟩ := Option.map_eq_some_iff.mp h.symm
  refine grid?_eq_some_iff.mpr ⟨m, hm, ?_⟩
  cases hm : m.content <;> rw [hm] at hbare <;> cases hbare
  rfl

theorem grid? (h : OutlineAt f g x) {k : GridComposite} (hk : g.grid? x = some k) :
    f.grid? x = some k := grid?_of_bare h.content hk

theorem slot_isSome (h : OutlineAt f g x) : (g.slot x).isSome = (f.slot x).isSome := by
  have hbare : ∀ c : Content, c.bare.slot?.isSome = c.slot?.isSome := by
    intro c
    cases c <;> rfl
  have hx := congrArg (fun o => (o.bind fun c => c.slot?).isSome) h.content
  unfold Forest.slot
  cases hg : g.node? x <;> cases hf : f.node? x <;> simp_all

theorem slots (h : OutlineAt f g x) : g.slots x = f.slots x := by
  have hx := h.content
  unfold Forest.slots
  cases hg : g.node? x with
  | none => cases hf : f.node? x <;> simp_all
  | some n =>
    cases hf : f.node? x with
    | none => simp_all
    | some m =>
      rw [hg, hf, Option.map_some, Option.map_some, Option.some.injEq] at hx
      cases hn : n.content <;> cases hm : m.content <;>
        simp_all [Content.bare, Container.bare]

theorem fillOrder (h : OutlineAt f g x) : g.fillOrder x = f.fillOrder x := by
  have hx := h.content
  unfold Forest.fillOrder
  cases hg : g.node? x with
  | none => cases hf : f.node? x <;> simp_all
  | some n =>
    cases hf : f.node? x with
    | none => simp_all
    | some m =>
      rw [hg, hf, Option.map_some, Option.map_some, Option.some.injEq] at hx
      cases hn : n.content <;> cases hm : m.content <;>
        simp_all [Content.bare, Container.bare]

end OutlineAt

namespace SameOutline
variable {f g : Forest}

theorem symm (h : SameOutline f g) : SameOutline g f := fun x => (h x).symm

theorem contains (h : SameOutline f g) (x : NodeId) : g.contains x = f.contains x :=
  OutlineAt.contains (h x)

theorem parent (h : SameOutline f g) (x : NodeId) : g.parent x = f.parent x :=
  OutlineAt.parent (h x)

theorem content (h : SameOutline f g) (x : NodeId) :
    (g.node? x).map (fun n => n.content.bare) = (f.node? x).map fun n => n.content.bare :=
  OutlineAt.content (h x)

theorem composite? (h : SameOutline f g) (x : NodeId) : g.composite? x = f.composite? x :=
  OutlineAt.composite? (h x)

theorem container? (h : SameOutline f g) (x : NodeId) :
    (g.container? x).map Container.bare = (f.container? x).map Container.bare :=
  OutlineAt.container? (h x)

theorem slot_isSome (h : SameOutline f g) (x : NodeId) :
    (g.slot x).isSome = (f.slot x).isSome := OutlineAt.slot_isSome (h x)

theorem slots (h : SameOutline f g) (x : NodeId) : g.slots x = f.slots x := OutlineAt.slots (h x)

theorem fillOrder (h : SameOutline f g) (x : NodeId) : g.fillOrder x = f.fillOrder x :=
  OutlineAt.fillOrder (h x)

theorem exists_container? (h : SameOutline f g) {x : NodeId} {k : Container}
    (hk : g.container? x = some k) : ∃ k₀, f.container? x = some k₀ ∧ k₀.bare = k.bare := by
  have hx := h.container? x
  rw [hk, Option.map_some] at hx
  exact Option.map_eq_some_iff.mp hx.symm

end SameOutline

theorem alike_modify (f : Forest) (id : NodeId) (change : Node → Node)
    (h : ∀ n, (change n).bare = n.bare) : Alike f (f.modify id change) := by
  intro x
  rw [node?_modify]
  split
  · rename_i hx
    subst hx
    cases f.node? x <;> simp [h]
  · rfl

section Touching
variable (f : Forest)

theorem alike_setContents (id : SlotId) (t : Option Stack) : Alike f (f.setContents id t) := by
  apply alike_modify
  intro n
  cases hc : n.content <;> simp [Node.bare, hc, Content.bare]

theorem alike_modifyContainer (id : NodeId) (change : Container → Container)
    (h : ∀ c, (change c).bare = c.bare) : Alike f (f.modifyContainer id change) := by
  apply alike_modify
  intro n
  cases hc : n.content <;> simp [Node.bare, hc, Content.bare, h]

theorem container?_modifyContainer (id x : NodeId) (change : Container → Container) :
    (f.modifyContainer id change).container? x =
      if x = id then (f.container? id).map change else f.container? x := by
  unfold container? modifyContainer
  rw [node?_modify]
  split
  · cases f.node? id with
    | none => rfl
    | some n => cases hc : n.content <;> simp [hc, Content.container?]
  · rfl

theorem of_container?_modifyContainer {f : Forest} {id x : NodeId} {change : Container → Container}
    {d : Container} (hd : (f.modifyContainer id change).container? x = some d) :
    ∃ k, f.container? x = some k ∧ d = if x = id then change k else k := by
  rw [container?_modifyContainer] at hd
  split at hd
  · rename_i hx
    obtain ⟨k, hk, rfl⟩ := Option.map_eq_some_iff.mp hd
    exact ⟨k, by rw [hx]; exact hk, by rw [if_pos hx]⟩
  · rename_i hx
    exact ⟨d, hd, by rw [if_neg hx]⟩

theorem exists_container?_modifyContainer_iff {f : Forest} {id x : NodeId}
    {change : Container → Container} :
    (∃ d, (f.modifyContainer id change).container? x = some d) ↔
      ∃ k, f.container? x = some k := by
  rw [container?_modifyContainer]
  split
  · rename_i hx
    rw [hx]
    cases f.container? id <;> simp
  · rfl

theorem slot_modifyContainer (id x : NodeId) (change : Container → Container) :
    (f.modifyContainer id change).slot x = f.slot x := by
  unfold slot modifyContainer
  rw [node?_modify]
  split
  · rename_i hx
    subst hx
    cases f.node? x with
    | none => rfl
    | some n => cases hc : n.content <;> simp [hc, Content.slot?]
  · rfl

theorem contents_modifyContainer (id x : NodeId) (change : Container → Container) :
    (f.modifyContainer id change).contents x = f.contents x := by
  unfold contents
  rw [slot_modifyContainer]

theorem container?_setContents (id x : NodeId) (t : Option Stack) :
    (f.setContents id t).container? x = f.container? x := by
  unfold container? setContents
  rw [node?_modify]
  split
  · rename_i hx
    subst hx
    cases f.node? x with
    | none => rfl
    | some n => cases hc : n.content <;> simp [hc, Content.container?]
  · rfl

theorem slot_setContents (id x : NodeId) (t : Option Stack) :
    (f.setContents id t).slot x =
      if x = id then (f.slot id).map fun s => { s with contents := t } else f.slot x := by
  unfold slot setContents
  rw [node?_modify]
  split
  · cases f.node? id with
    | none => rfl
    | some n => cases hc : n.content <;> simp [hc, Content.slot?]
  · rfl

theorem contents_setContents {f : Forest} {id : SlotId} {s : Slot} (h : f.slot id = some s)
    (x : SlotId) (t : Option Stack) :
    (f.setContents id t).contents x = if x = id then t else f.contents x := by
  unfold contents
  rw [slot_setContents]
  split
  · simp [h]
  · rfl

end Touching

end Forest

end Stowage
