import Stowage.Proofs.Changes
import Stowage.Proofs.Container.Cursor

/-!
# Parents, children and roots

Parents and children tell of each other in every state that is reached, containers stand on top, and
following parents leads to the root that each node keeps.
-/

namespace Stowage

set_option autoImplicit false

namespace Forest

/-- The parent of a node is live, and lists it once among its children or has it as its cursor. -/
structure Fathers (f : Forest) (p n : NodeId) : Prop where
  live : f.contains p = true
  once : (∃ k, f.composite? p = some k ∧ (k.children.map ChildEntry.node).count n = 1) ∨
    ∃ c, f.container? p = some c ∧ c.cursor = n

theorem Sound.fathers {f : Forest} (hf : f.Sound) {p n : NodeId} (h : f.parent n = some p) :
    f.Fathers p n := by
  refine ⟨hf.contains_parent h, ?_⟩
  rcases hf.cases_of_parent h with ⟨k, hk, hn⟩ | hcursor
  · exact Or.inl ⟨k, hk, List.count_eq_one_of_mem (hf.nodup_children hk) hn⟩
  · exact Or.inr hcursor

/-- A container has no parent, and is neither listed by a composite nor the cursor of another. -/
structure Tops (f : Forest) (id : NodeId) : Prop where
  parent : f.parent id = none
  unlisted : ∀ {p : NodeId} {k : Composite}, f.composite? p = some k →
    id ∉ k.children.map ChildEntry.node
  no_cursor : ∀ {p : NodeId} {c : Container}, f.container? p = some c → c.cursor ≠ id

theorem Sound.tops {f : Forest} (hf : f.Sound) {id : NodeId} {c : Container}
    (hc : f.container? id = some c) : f.Tops id := by
  have hparent := hf.parent_container hc
  refine ⟨hparent, ?_, ?_⟩
  · intro p k hk hmem
    have hp := hf.parent_of_lists ⟨k, hk, hmem⟩
    rw [hparent] at hp
    cases hp
  · rintro p k hk rfl
    rw [hf.parent_cursor hk] at hparent
    cases hparent

theorem mem_container_children {f : Forest} {p x : NodeId} {c : Container}
    (hc : f.container? p = some c) (hx : x ∈ f.children p) : x = c.top ∨ x = c.bottom := by
  rwa [children_of_container? hc, Container.mem_children_iff] at hx

end Forest

section Run
variable {past : List World} {w : World}

/-- No container is shown by another, unless the generations of its place have started again. -/
theorem Run.not_child_of_container (h : Run past w) {id p : NodeId} {c : Container}
    (hc : w.state.forest.container? id = some c) (hid : Unwrapped id past w) :
    id ∉ w.state.forest.children p := by
  intro hmem
  cases hp : w.state.forest.container? p with
  | none =>
    obtain ⟨k, hk, hlisted⟩ := (Forest.Sound.mem_children_iff hp).mp hmem
    exact (h.sound.forest.tops hc).unlisted hk hlisted
  | some d =>
    obtain ⟨_, u, hu, htop, hbottom⟩ := h.shown_origin hp
    have hplain : w.state.forest.container? id = none := by
      rcases Forest.mem_container_children hp hmem with hx | hx
      · exact h.plain_of_showable hid hu (hx ▸ htop)
      · exact h.plain_of_showable hid hu (hx ▸ hbottom)
    rw [hplain] at hc
    cases hc

/-- In every state that is reached, following parents leads from any live node to the root that it
keeps, without coming back; parents and children tell of each other, and no container is the child
of anything. -/
theorem ancestors_lead_to_root (h : Run past w) :
    (∀ n, w.state.forest.contains n = true → w.state.forest.Rises n) ∧
    (∀ n p, w.state.forest.parent n = some p → w.state.forest.Fathers p n) ∧
    (∀ p k, w.state.forest.composite? p = some k → ∀ e ∈ k.children,
      w.state.forest.contains e.node = true ∧ w.state.forest.parent e.node = some p) ∧
    ∀ id c, w.state.forest.container? id = some c → w.state.forest.Tops id ∧
      (Unwrapped id past w → ∀ p, id ∉ w.state.forest.children p) := by
  have hf := h.sound.forest
  refine ⟨fun n hn => h.rooted.rises hf hn, fun n p hp => hf.fathers hp, ?_, ?_⟩
  · intro p k hk e he
    have hl : w.state.forest.Lists p e.node := ⟨k, hk, List.mem_map_of_mem he⟩
    exact ⟨(hf.contains_of_lists hl).2, hf.parent_of_lists hl⟩
  · intro id c hc
    exact ⟨hf.tops hc, fun hid p => h.not_child_of_container hc hid⟩

def Operation.joined : List Operation := chest ++ [.compose [(⟨0, 0⟩, 5), (⟨1, 0⟩, 7)]]

theorem ancestors_lead_to_root_joined :
    (World.reached Operation.joined).2.state.forest.ancestors ⟨0, 0⟩ = [⟨0, 0⟩, ⟨4, 0⟩] ∧
    (World.reached Operation.joined).2.state.forest.Rises ⟨0, 0⟩ ∧
    (World.reached Operation.joined).2.state.forest.Fathers ⟨4, 0⟩ ⟨0, 0⟩ ∧
    (World.reached Operation.joined).2.state.forest.Fathers ⟨3, 0⟩ ⟨2, 0⟩ := by
  obtain ⟨hrises, hfathers, _, _⟩ := ancestors_lead_to_root (Run.reached Operation.joined)
  exact ⟨by decide +kernel, hrises _ (by decide +kernel), hfathers _ _ (by decide +kernel),
    hfathers _ _ (by decide +kernel)⟩

end Run

end Stowage
