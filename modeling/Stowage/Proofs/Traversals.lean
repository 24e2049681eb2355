import Stowage.Proofs.Forest.Walks
import Stowage.Proofs.SlotOrders

/-!
# Traversals

The walks through a tree come to their ends and agree with each other: downwards they find what is
within the node upwards, in the order in which composites have their children and slots.
-/

namespace Stowage

set_option autoImplicit false

namespace Forest

/-- The loops that go up from a node, down from it and through its tree all stop, and leave the
ancestors, the descendants and the root behind. -/
structure LoopsEnd (f : Forest) (n : NodeId) : Prop where
  up : Ends f.goUp ([], some n) (f.ancestors n, none)
  down : Ends f.goDown ([], f.children n) (f.descendants n, [])
  root : Ends (spreadRoot n) (f, [n]) (f.setRoot n, [])

/-- Just the nodes within a node are below it, and each is followed by all that is below it. -/
structure DepthFirst (f : Forest) (n : NodeId) : Prop where
  within : ∀ d, d ∈ f.descendants n ↔ d ≠ n ∧ f.contains d = true ∧ f.isWithin n d = true
  nodup : (f.descendants n).Nodup
  before : ∀ d ∈ f.descendants n, d :: f.descendants d <:+: f.descendants n

theorem Sound.loopsEnd {f : Forest} (hf : f.Sound) {n : NodeId} (hn : f.contains n = true)
    (hplain : f.container? n = none) : f.LoopsEnd n :=
  ⟨hf.goUp_ends hn, hf.goDown_ends hplain, hf.spreadRoot_ends hplain⟩

theorem Sound.depthFirst {f : Forest} (hf : f.Sound) {n : NodeId}
    (hplain : f.container? n = none) : f.DepthFirst n := by
  refine ⟨fun d => hf.mem_descendants_iff_isWithin hplain, ?_, ?_⟩
  · exact (List.nodup_cons.mp (hf.nodup_tree hplain)).2
  · exact fun d hd => hf.tree_isInfix_descendants hplain hd

end Forest

section Run
variable {past : List World} {w : World}

theorem Run.slots_row (h : Run past w) {x : NodeId} {k : Composite}
    (hk : w.state.forest.composite? x = some k) :
    w.state.forest.slots x = (w.state.forest.children x).flatMap w.state.forest.slots := by
  obtain ⟨drafts, hdrafts⟩ := h.exists_drafts
  exact (hdrafts.drafted.ordered hk).row

theorem Run.filter_descendants (h : Run past w) {n : NodeId} {k : Composite}
    (hk : w.state.forest.composite? n = some k)
    (hplain : w.state.forest.container? n = none) :
    (w.state.forest.descendants n).filter (fun d => (w.state.forest.slot d).isSome) =
      w.state.forest.slots n := by
  have hno : ¬ (w.state.forest.slot n).isSome = true := by
    rw [Forest.slot_of_composite? hk]
    exact Bool.false_ne_true
  have htree := h.sound.forest.filter_tree h.slots_row hplain
  rwa [Forest.tree, List.filter_cons_of_neg (by exact hno)] at htree

/-- In every state that is reached the walks from a node that is no container end. Below the node
they find, each once and before what is below it, the other nodes that are within it, and the slots
among them in index order; the first child and the nodes after it are its children. -/
theorem walks_agree (h : Run past w) {n : NodeId} (hn : w.state.forest.contains n = true)
    (hplain : w.state.forest.container? n = none) :
    w.state.forest.LoopsEnd n ∧ w.state.forest.DepthFirst n ∧
    ((w.state.forest.composite? n).isSome = true →
      (w.state.forest.descendants n).filter (fun d => (w.state.forest.slot d).isSome) =
        w.state.forest.slots n) ∧
    ∀ i, w.state.forest.stepFromFirst n i = (w.state.forest.children n)[i]? := by
  have hf := h.sound.forest
  refine ⟨hf.loopsEnd hn hplain, hf.depthFirst hplain, ?_, fun i => hf.stepFromFirst_eq hplain i⟩
  intro hcomposite
  obtain ⟨k, hk⟩ := Option.isSome_iff_exists.mp hcomposite
  exact h.filter_descendants hk hplain

theorem walks_agree_stacked :
    (World.reached Operation.stacked).2.state.forest.descendants ⟨4, 0⟩ =
      [⟨2, 0⟩, ⟨1, 0⟩, ⟨0, 0⟩, ⟨3, 0⟩] ∧
    (World.reached Operation.stacked).2.state.forest.LoopsEnd ⟨4, 0⟩ ∧
    (World.reached Operation.stacked).2.state.forest.DepthFirst ⟨4, 0⟩ ∧
    (World.reached Operation.stacked).2.state.forest.stepFromFirst ⟨4, 0⟩ 1 = some ⟨3, 0⟩ ∧
    (World.reached Operation.stacked).2.state.forest.stepFromFirst ⟨4, 0⟩ 2 = none := by
  obtain ⟨hloops, hfirst, _, hsteps⟩ := walks_agree (n := ⟨4, 0⟩) (Run.reached Operation.stacked)
    (by decide +kernel) (Option.isNone_iff_eq_none.mp (by decide +kernel))
  exact ⟨by decide +kernel, hloops, hfirst, (hsteps 1).trans (by decide +kernel),
    (hsteps 2).trans (by decide +kernel)⟩

end Run

end Stowage
