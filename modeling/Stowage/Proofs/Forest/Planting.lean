import Stowage.Forest.Growth
import Stowage.Proofs.Forest.Sound
import Mathlib.Algebra.Order.BigOperators.Group.List
import Mathlib.Algebra.Order.Ring.Nat

/-!
# Planting a node above others

A new node takes nodes that stand alone as its children. Contents stay what they were, and the only
links that change are those of the children to their new parent.
-/

namespace Stowage.Forest

set_option autoImplicit false

section SameContent
variable {f g : Forest} {x : NodeId}

def SameContent (f g : Forest) (x : NodeId) : Prop :=
  (g.node? x).map Node.content = (f.node? x).map Node.content

theorem SameContent.of_node? (h : g.node? x = f.node? x) : SameContent f g x := by
  unfold SameContent
  rw [h]

theorem SameContent.trans {e : Forest} (hef : SameContent e f x) (hfg : SameContent f g x) :
    SameContent e g x := Eq.trans hfg hef

theorem SameContent.contains (h : SameContent f g x) : g.contains x = f.contains x := by
  have hx := congrArg Option.isSome h
  simpa [Forest.contains, Arena.contains, node?] using hx

theorem SameContent.composite? (h : SameContent f g x) : g.composite? x = f.composite? x := by
  have hx := congrArg (fun o => o.bind Content.composite?) h
  simpa [Option.bind_map, Function.comp_def, Forest.composite?] using hx

theorem SameContent.container? (h : SameContent f g x) : g.container? x = f.container? x := by
  have hx := congrArg (fun o => o.bind Content.container?) h
  simpa [Option.bind_map, Function.comp_def, Forest.container?] using hx

theorem SameContent.grid? (h : SameContent f g x) {k : GridComposite}
    (hk : g.grid? x = some k) : f.grid? x = some k := by
  refine OutlineAt.grid?_of_bare ?_ hk
  have hbare := congrArg (Option.map Content.bare) h
  rw [Option.map_map, Option.map_map] at hbare
  exact hbare

theorem SameContent.slot (h : SameContent f g x) : g.slot x = f.slot x := by
  have hx := congrArg (fun o => o.bind Content.slot?) h
  simpa [Option.bind_map, Function.comp_def, Forest.slot] using hx

theorem SameContent.contents (h : SameContent f g x) : g.contents x = f.contents x := by
  unfold Forest.contents
  rw [h.slot]

theorem SameContent.slots (h : SameContent f g x) : g.slots x = f.slots x := by
  unfold SameContent at h
  unfold Forest.slots
  cases hg : g.node? x with
  | none => cases hf : f.node? x <;> simp_all
  | some n => cases hf : f.node? x <;> simp_all

theorem SameContent.fillOrder (h : SameContent f g x) : g.fillOrder x = f.fillOrder x := by
  unfold SameContent at h
  unfold Forest.fillOrder
  cases hg : g.node? x with
  | none => cases hf : f.node? x <;> simp_all
  | some n => cases hf : f.node? x <;> simp_all

end SameContent

theorem node?_adopt (p : NodeId) (cs : List NodeId) (f : Forest) (x : NodeId) :
    (f.adopt p cs).node? x =
      if x ∈ cs then (f.node? x).map fun n => { n with parent := some p } else f.node? x := by
  unfold adopt
  induction cs generalizing f with
  | nil => simp
  | cons c rest ih =>
    rw [List.foldl_cons, ih, node?_modify]
    by_cases hx : x = c
    · subst hx
      by_cases hr : x ∈ rest
      · simp [hr, Function.comp_def]
      · simp [hr]
    · simp [hx]

theorem sound_foldl_modify {α : Type} (l : List α) (id : α → NodeId) (change : Node → Node)
    {f : Forest} (h : f.nodes.Sound) :
    (l.foldl (fun acc a => acc.modify (id a) change) f).nodes.Sound := by
  induction l generalizing f with
  | nil => exact h
  | cons a rest ih => exact ih (h.modify (id a) change)

theorem extends_foldl_modify {α : Type} (l : List α) (id : α → NodeId) (change : Node → Node)
    (f : Forest) : f.nodes.Extends (l.foldl (fun acc a => acc.modify (id a) change) f).nodes := by
  induction l generalizing f with
  | nil => exact .refl _
  | cons a rest ih => exact (Arena.extends_modify _ _ _).trans (ih _)

structure Free (f : Forest) (c : NodeId) : Prop where
  live : f.contains c = true
  parent : f.parent c = none
  container : f.container? c = none

theorem Free.parent_ne {f : Forest} {c : NodeId} (h : f.Free c) (p : NodeId) :
    f.parent c ≠ some p := by
  rw [h.parent]
  exact Option.some_ne_none p |>.symm

structure Joins (f : Forest) (content : Content) (cs : List NodeId) : Prop where
  container : content.container? = none
  leaf : content.composite? = none → cs = []
  children : ∀ {k : Composite}, content.composite? = some k →
    (k.children.map ChildEntry.node).Perm cs
  slots : ∀ {k : Composite}, content.composite? = some k →
    k.slots.Perm (k.children.flatMap fun e => f.slots e.node)
  fill : ∀ {k : Composite}, content.composite? = some k → k.fillOrder.Perm k.slots
  nodup : cs.Nodup
  free : ∀ c ∈ cs, f.Free c

def plant (f : Forest) (node : NodeId → Node) (cs : List NodeId) : Forest :=
  (f.insert node).1.adopt f.nextId cs

section Plant
variable {f : Forest} {node : NodeId → Node} {content : Content} {cs : List NodeId}

theorem extends_plant (hf : f.nodes.Sound) : f.nodes.Extends (f.plant node cs).nodes :=
  (extends_insert hf node).trans (extends_foldl_modify cs id _ _)

theorem node?_plant (hf : f.Sound) (hfree : ∀ c ∈ cs, f.Free c) (x : NodeId) :
    (f.plant node cs).node? x =
      if x = f.nextId then some (node f.nextId)
      else if x ∈ cs then (f.node? x).map fun n => { n with parent := some f.nextId }
      else f.node? x := by
  unfold plant
  rw [node?_adopt, node?_insert hf.arena]
  by_cases hx : x = f.nextId
  · have hmem : f.nextId ∉ cs := by
      intro hc
      obtain ⟨n, hn⟩ := contains_iff.mp (hfree _ hc).live
      exact ne_nextId hf.arena hn rfl
    subst hx
    simp [hmem]
  · simp [hx]

theorem sameContent_plant (hf : f.Sound) (hfree : ∀ c ∈ cs, f.Free c) {x : NodeId}
    (hx : x ≠ f.nextId) : SameContent f (f.plant node cs) x := by
  unfold SameContent
  rw [node?_plant hf hfree, if_neg hx]
  split
  · simp [Option.map_map, Function.comp_def]
  · rfl

theorem parent_plant (hf : f.Sound) (hfree : ∀ c ∈ cs, f.Free c)
    (hroot : (node f.nextId).parent = none) (x : NodeId) :
    (f.plant node cs).parent x = if x ∈ cs then some f.nextId else f.parent x := by
  unfold parent
  rw [node?_plant hf hfree]
  by_cases hx : x = f.nextId
  · have hmem : x ∉ cs := by
      intro hc
      obtain ⟨n, hn⟩ := contains_iff.mp (hfree _ hc).live
      exact ne_nextId hf.arena hn hx
    subst hx
    rw [if_pos rfl, if_neg hmem, node?_nextId hf.arena]
    exact hroot
  · rw [if_neg hx]
    split
    · rename_i hc
      obtain ⟨n, hn⟩ := contains_iff.mp (hfree _ hc).live
      simp [hn]
    · rfl

theorem composite?_plant (hf : f.Sound) (hfree : ∀ c ∈ cs, f.Free c)
    (hcontent : (node f.nextId).content = content) (x : NodeId) :
    (f.plant node cs).composite? x =
      if x = f.nextId then content.composite? else f.composite? x := by
  split
  · rename_i hx
    unfold composite?
    rw [node?_plant hf hfree, if_pos hx, Option.bind_some, hcontent]
  · rename_i hx
    exact (sameContent_plant hf hfree hx).composite?

theorem container?_plant (hf : f.Sound) (hj : f.Joins content cs)
    (hcontent : (node f.nextId).content = content) (x : NodeId) :
    (f.plant node cs).container? x = f.container? x := by
  by_cases hx : x = f.nextId
  · have hnone : f.container? x = none := by
      unfold container?
      rw [hx, node?_nextId hf.arena]
      rfl
    rw [hnone]
    unfold container?
    rw [node?_plant hf hj.free, if_pos hx, Option.bind_some, hcontent]
    exact hj.container
  · exact (sameContent_plant hf hj.free hx).container?

theorem lists_plant (hf : f.Sound) (hj : f.Joins content cs)
    (hcontent : (node f.nextId).content = content) {p c : NodeId} :
    (f.plant node cs).Lists p c ↔ if p = f.nextId then c ∈ cs else f.Lists p c := by
  unfold Lists
  rw [composite?_plant hf hj.free hcontent]
  split
  · constructor
    · intro h
      obtain ⟨k, hk, hc⟩ := h
      exact (hj.children hk).mem_iff.mp hc
    · intro h
      cases hk : content.composite? with
      | none =>
        rw [hj.leaf hk] at h
        cases h
      | some k => exact ⟨k, rfl, (hj.children hk).mem_iff.mpr h⟩
  · exact Iff.rfl

theorem Sound.lists_ne_nextId (hf : f.Sound) {p c : NodeId} (h : f.Lists p c) :
    p ≠ f.nextId ∧ c ≠ f.nextId := by
  obtain ⟨hp, hc⟩ := hf.contains_of_lists h
  obtain ⟨n, hn⟩ := contains_iff.mp hp
  obtain ⟨m, hm⟩ := contains_iff.mp hc
  exact ⟨ne_nextId hf.arena hn, ne_nextId hf.arena hm⟩

/-- Planting keeps the forest sound: the new node ranks above the sum of its children. -/
theorem Sound.plant (hf : f.Sound) (hj : f.Joins content cs)
    (hcontent : (node f.nextId).content = content) (hroot : (node f.nextId).parent = none) :
    (f.plant node cs).Sound where
  arena := sound_foldl_modify cs id _ (sound_insert hf.arena node)
  parent_of_lists := by
    intro p c h
    rw [parent_plant hf hj.free hroot]
    rw [lists_plant hf hj hcontent] at h
    split at h
    · rename_i hp
      rw [if_pos h, hp]
    · have hparent := hf.parent_of_lists h
      rw [if_neg fun hc => (hj.free c hc).parent_ne p hparent]
      exact hparent
  cases_of_parent := by
    intro p c h
    rw [parent_plant hf hj.free hroot] at h
    split at h
    · rename_i hc
      cases h
      exact Or.inl ((lists_plant hf hj hcontent).mpr (by rwa [if_pos rfl]))
    · rcases hf.cases_of_parent h with hl | ⟨k, hk, hcursor⟩
      · refine Or.inl ((lists_plant hf hj hcontent).mpr ?_)
        rwa [if_neg (hf.lists_ne_nextId hl).1]
      · refine Or.inr ⟨k, ?_, hcursor⟩
        rwa [container?_plant hf hj hcontent]
  nodup_children := by
    intro p k hk
    rw [composite?_plant hf hj.free hcontent] at hk
    split at hk
    · exact (hj.children hk).nodup_iff.mpr hj.nodup
    · exact hf.nodup_children hk
  slots_perm := by
    intro p k hk
    have hsame : ∀ e ∈ k.children, (f.plant node cs).slots e.node = f.slots e.node := by
      intro e he
      apply SameContent.slots
      apply sameContent_plant hf hj.free
      rw [composite?_plant hf hj.free hcontent] at hk
      split at hk
      · have hc := (hj.children hk).mem_iff.mp (List.mem_map_of_mem he)
        obtain ⟨n, hn⟩ := contains_iff.mp (hj.free _ hc).live
        exact ne_nextId hf.arena hn
      · exact (hf.lists_ne_nextId ⟨k, hk, List.mem_map_of_mem he⟩).2
    rw [List.flatMap_congr hsame]
    rw [composite?_plant hf hj.free hcontent] at hk
    split at hk
    · exact hj.slots hk
    · exact hf.slots_perm hk
  fill_perm := by
    intro p k hk
    rw [composite?_plant hf hj.free hcontent] at hk
    split at hk
    · exact hj.fill hk
    · exact hf.fill_perm hk
  ranked := by
    obtain ⟨rank, hr⟩ := hf.ranked
    refine ⟨fun x => if x = f.nextId then (cs.map rank).sum + 1 else rank x, ?_⟩
    intro p c h
    rw [lists_plant hf hj hcontent] at h
    split at h
    · rename_i hp
      obtain ⟨n, hn⟩ := contains_iff.mp (hj.free c h).live
      have hle : rank c ≤ (cs.map rank).sum := List.le_sum_of_mem (List.mem_map_of_mem h)
      simp only [hp, if_true, if_neg (ne_nextId hf.arena hn)]
      omega
    · obtain ⟨hp, hc⟩ := hf.lists_ne_nextId h
      simp only [if_neg hp, if_neg hc]
      exact hr p c h
  parent_container := by
    intro p k hk
    rw [container?_plant hf hj hcontent] at hk
    have hp : p ∉ cs := by
      intro hp
      rw [(hj.free p hp).container] at hk
      cases hk
    rw [parent_plant hf hj.free hroot, if_neg hp]
    exact hf.parent_container hk
  parent_cursor := by
    intro p k hk
    rw [container?_plant hf hj hcontent] at hk
    have hparent := hf.parent_cursor hk
    rw [parent_plant hf hj.free hroot,
      if_neg fun hc => (hj.free _ hc).parent_ne p hparent]
    exact hparent
  slot_cursor := by
    intro p k hk
    rw [container?_plant hf hj hcontent] at hk
    obtain ⟨n, hn⟩ := contains_iff.mp (contains_of_parent (hf.parent_cursor hk))
    rw [(sameContent_plant hf hj.free (ne_nextId hf.arena hn)).slot]
    exact hf.slot_cursor hk
  nodup_bound := by
    intro p k hk
    rw [container?_plant hf hj hcontent] at hk
    exact hf.nodup_bound hk

end Plant

end Stowage.Forest
