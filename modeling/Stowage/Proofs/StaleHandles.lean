import Stowage.Proofs.Lifetimes

/-!
# Stale handles

A node that was removed stays away, also when its place is taken again. Nothing is found behind its
handle. What would put something in or take something out hands everything back, what would build on
the node is refused, and clearing it is taken for a success.
-/

namespace Stowage

set_option autoImplicit false

structure State.NothingAt (s : State) (x : NodeId) : Prop where
  kind : s.kind x = none
  parent : s.forest.parent x = none
  root : s.forest.root x = none
  children : s.forest.children x = []
  ancestors : s.forest.ancestors x = []
  descendants : s.forest.descendants x = []
  slots : s.forest.slots x = []
  fillOrder : s.forest.fillOrder x = []
  slotAt : ∀ index, s.forest.slotAt x index = none
  indexOf : ∀ slot, s.forest.indexOf x slot = none
  property : ∀ kind key, s.property x kind key = none
  properties : ∀ kind, s.properties x kind = []
  peek : ∀ limit, s.peek x limit = none
  search : ∀ queries, s.search x queries = .empty
  searchSlots : ∀ p, s.searchSlots x p = .empty
  searchNodes : ∀ p, s.searchNodes x p = .empty
  view : View.ofNode s.forest x = .empty

def World.warned (w : World) (operation : String) (x : NodeId) : World :=
  w.give [.logged (.warn s!"Inventory {operation} on stale node {x.describe}")]

/-- Operations on contents change nothing. All but clearing fail and hand back what was given. -/
structure World.HandsBack (w : World) (x : NodeId) : Prop where
  poll : ∀ limit, Step.poll x limit w = (.ok (none, .failure none), w.warned "poll" x)
  offer : ∀ stack, Step.offer x stack w = (.ok (.failure (some stack)), w.warned "offer" x)
  offerTo : ∀ stack, Step.offerTo x stack w = (.ok ⟨[], some stack⟩, w.warned "offer" x)
  set : ∀ stack, Step.set x stack w = (.ok (.failure stack), w.warned "set" x)
  setAt : ∀ index stack, Step.setAt x index stack w = (.ok (.failure stack), w)
  clear : Step.clear x w = (.ok .noOp, w)

/-- Operations on the node as such are refused and change nothing. Of several arguments the first
bad one is named. -/
structure World.Refuses (w : World) (x : NodeId) : Prop where
  compose : ∀ before after, Step.compose (before ++ x :: after) w =
    (.ok (.error ((w.state.forest.joinRefusal [] before).getD (.unknownNode x))), w)
  composePrioritized : ∀ before priority after,
    Step.composePrioritized (before ++ (x, priority) :: after) w =
      (.ok (.error ((w.state.forest.joinRefusal [] (before.map Prod.fst)).getD (.unknownNode x))),
        w)
  createTop : ∀ bottom, Step.createContainer x bottom w = (.ok (.error (.unknownNode x)), w)
  createBottom : ∀ top, Step.createContainer top x w =
    (.ok (.error ((w.state.forest.showRefusal top).getD (.unknownNode x))), w)
  openContainer : ∀ v, Step.openContainer x v w = (.ok (.error (.unknownNode x)), w)
  remove : Step.remove x w = (.ok (.error (.unknownNode x)), w)
  onSlotChange : ∀ react, Step.onSlotChange x react w = (.ok (.error (.unknownNode x)), w)
  onView : ∀ react, Step.onView x react w = (.ok (.error (.unknownNode x)), w)
  onClose : ∀ react, Step.onClose x react w = (.ok (.error (.unknownNode x)), w)

section Forest
variable {f : Forest} {x : NodeId}

theorem Forest.node?_of_dead (hx : f.contains x = false) : f.node? x = none := by
  unfold contains Arena.contains at hx
  simpa [node?] using hx

theorem Forest.children_of_dead (hx : f.contains x = false) : f.children x = [] := by
  unfold children
  rw [node?_of_dead hx]

theorem Forest.slots_of_dead (hx : f.contains x = false) : f.slots x = [] := by
  unfold slots
  rw [node?_of_dead hx]

theorem Forest.fillOrder_of_dead (hx : f.contains x = false) : f.fillOrder x = [] := by
  unfold fillOrder
  rw [node?_of_dead hx]

theorem Forest.ancestors_of_dead (hx : f.contains x = false) : f.ancestors x = [] := by
  unfold ancestors
  cases f.reach with
  | zero => rfl
  | succ n =>
    unfold ancestorsUpTo
    rw [node?_of_dead hx]

theorem Forest.descendants_of_dead (hx : f.contains x = false) : f.descendants x = [] := by
  unfold descendants
  cases f.reach with
  | zero => rfl
  | succ n =>
    unfold descendantsUpTo
    rw [children_of_dead hx]
    rfl

theorem Forest.outermost_of_dead (hx : f.contains x = false) (p : NodeId → Bool) :
    f.outermost p x = [] := by
  unfold outermost
  cases f.reach with
  | zero => rfl
  | succ n =>
    unfold outermostUpTo
    rw [children_of_dead hx]
    rfl

theorem Forest.propertyFrom_of_dead (hx : f.contains x = false) (title : Node → String)
    (kind : PropertyKind) (key : Option String) : f.propertyFrom title x kind key = none := by
  unfold propertyFrom
  rw [node?_of_dead hx]
  rfl

theorem Forest.joinRefusal_of_bad {r : Refusal} (hx : ∀ earlier, f.childRefusal earlier x = some r)
    (before after earlier : List NodeId) :
    f.joinRefusal earlier (before ++ x :: after) =
      some ((f.joinRefusal earlier before).getD r) := by
  induction before generalizing earlier with
  | nil =>
    rw [List.nil_append]
    unfold joinRefusal
    rw [hx]
    rfl
  | cons c rest ih =>
    rw [List.cons_append]
    unfold joinRefusal
    cases f.childRefusal earlier c with
    | some r => rfl
    | none => exact ih _

theorem Forest.compose_of_dead (hx : f.contains x = false) (before after : List (NodeId × Int))
    (priority : Int) : f.compose (before ++ (x, priority) :: after) =
      .error ((f.joinRefusal [] (before.map Prod.fst)).getD (.unknownNode x)) := by
  have hbad : ∀ earlier, f.childRefusal earlier x = some (.unknownNode x) := by
    intro earlier
    unfold childRefusal
    rw [node?_of_dead hx]
  unfold compose
  rw [List.map_append, List.map_cons, joinRefusal_of_bad hbad]

theorem Forest.showRefusal_of_dead (hx : f.contains x = false) :
    f.showRefusal x = some (.unknownNode x) := by
  unfold showRefusal kind
  rw [node?_of_dead hx]
  rfl

end Forest

section State
variable {s : State} {x : NodeId}

theorem State.containerAt_of_dead (hx : s.forest.contains x = false) :
    s.containerAt x = .error (.unknownNode x) := by
  unfold containerAt
  rw [Forest.node?_of_dead hx]

theorem State.searchSlots_of_dead (hx : s.forest.contains x = false) (p : SlotId → Slot → Bool) :
    s.searchSlots x p = .empty := by
  unfold searchSlots
  rw [Forest.fillOrder_of_dead hx]
  rfl

theorem State.searchNodes_of_dead (hx : s.forest.contains x = false) (p : NodeId → Bool) :
    s.searchNodes x p = .empty := by
  unfold searchNodes
  rw [Forest.outermost_of_dead hx]
  rfl

theorem State.search_of_dead (hx : s.forest.contains x = false) (queries : List Query) :
    s.search x queries = .empty := by
  unfold search
  split
  · rfl
  · split
    · exact searchSlots_of_dead hx _
    · exact searchNodes_of_dead hx _

theorem State.nothingAt_of_dead (hx : s.forest.contains x = false) : s.NothingAt x where
  kind := by
    unfold State.kind Forest.kind
    rw [Forest.node?_of_dead hx]
    rfl
  parent := by
    unfold Forest.parent
    rw [Forest.node?_of_dead hx]
    rfl
  root := by
    unfold Forest.root
    rw [Forest.node?_of_dead hx]
    rfl
  children := Forest.children_of_dead hx
  ancestors := Forest.ancestors_of_dead hx
  descendants := Forest.descendants_of_dead hx
  slots := Forest.slots_of_dead hx
  fillOrder := Forest.fillOrder_of_dead hx
  slotAt := by
    intro index
    unfold Forest.slotAt
    rw [Forest.slots_of_dead hx]
    rfl
  indexOf := by
    intro slot
    unfold Forest.indexOf
    rw [Forest.slots_of_dead hx]
    rfl
  property := Forest.propertyFrom_of_dead hx _
  properties := by
    intro kind
    unfold State.properties Forest.properties
    rw [Forest.node?_of_dead hx]
  peek := by
    intro limit
    unfold State.peek
    rw [Forest.fillOrder_of_dead hx]
    rfl
  search := State.search_of_dead hx
  searchSlots := State.searchSlots_of_dead hx
  searchNodes := State.searchNodes_of_dead hx
  view := by
    unfold View.ofNode
    rw [Forest.fillOrder_of_dead hx]
    rfl

end State

section World
variable {w : World} {x : NodeId}

theorem Step.unlessStale_of_dead {α : Type} (hx : w.state.forest.contains x = false)
    (operation : String) (refused : α) (act : Step α) :
    unlessStale operation x refused act w = (.ok refused, w.warned operation x) := by
  unfold unlessStale
  rw [state_bind, hx]
  rfl

theorem Step.offerTo_of_dead (hx : w.state.forest.contains x = false) (stack : Stack) :
    offerTo x stack w = (.ok ⟨[], some stack⟩, w.warned "offer" x) :=
  unlessStale_of_dead hx _ _ _

theorem World.handsBack_of_dead (hx : w.state.forest.contains x = false) : w.HandsBack x where
  poll := fun _ => Step.unlessStale_of_dead hx _ _ _
  offer := by
    intro stack
    exact Step.bind_of_ok (Step.offerTo_of_dead hx stack) _
  offerTo := Step.offerTo_of_dead hx
  set := fun _ => Step.unlessStale_of_dead hx _ _ _
  setAt := by
    intro index stack
    unfold Step.setAt
    rw [Step.state_bind, Forest.slots_of_dead hx]
    rfl
  clear := by
    unfold Step.clear
    rw [Step.state_bind, Forest.slots_of_dead hx]
    rfl

theorem Step.composePrioritized_of_dead (hx : w.state.forest.contains x = false)
    (before after : List (NodeId × Int)) (priority : Int) :
    composePrioritized (before ++ (x, priority) :: after) w =
      (.ok (.error ((w.state.forest.joinRefusal [] (before.map Prod.fst)).getD (.unknownNode x))),
        w) := by
  unfold composePrioritized
  rw [state_bind, Forest.compose_of_dead hx]
  rfl

theorem World.refuses_of_dead (hx : w.state.forest.contains x = false) : w.Refuses x where
  compose := by
    intro before after
    unfold Step.compose
    rw [List.map_append, List.map_cons, Step.composePrioritized_of_dead hx, List.map_map]
    simp [Function.comp_def]
  composePrioritized := fun _ _ _ => Step.composePrioritized_of_dead hx _ _ _
  createTop := by
    intro bottom
    unfold Step.createContainer
    rw [Step.state_bind, Forest.showRefusal_of_dead hx]
    rfl
  createBottom := by
    intro top
    unfold Step.createContainer
    rw [Step.state_bind, Forest.showRefusal_of_dead hx]
    cases w.state.forest.showRefusal top <;> rfl
  openContainer := by
    intro v
    unfold Step.openContainer
    rw [Step.state_bind, State.containerAt_of_dead hx]
    rfl
  remove := by
    unfold Step.remove
    rw [Step.state_bind, Forest.node?_of_dead hx]
    rfl
  onSlotChange := by
    intro react
    unfold Step.onSlotChange
    rw [Step.state_bind, hx]
    rfl
  onView := by
    intro react
    unfold Step.onView
    rw [Step.state_bind, State.containerAt_of_dead hx]
    rfl
  onClose := by
    intro react
    unfold Step.onClose
    rw [Step.state_bind, State.containerAt_of_dead hx]
    rfl

end World

section Removed
variable {past : List World} {w : World} {x : NodeId}

/-- A handle that was stale at some time after it was live is stale for good. -/
theorem Run.stays_dead (h : Run past w) (hu : Unwrapped x past w) {earlier later : World}
    (horder : List.Sublist [later, earlier] (w :: past))
    (hlive : earlier.state.forest.contains x = true)
    (hdead : later.state.forest.contains x = false) : w.state.forest.contains x = false := by
  induction h with
  | start env transport diagnostics =>
    have hlength := horder.length_le
    simp at hlength
  | @step past w op before ih =>
    cases horder with
    | cons_cons _ hrest => exact hdead
    | cons _ hold =>
      have hmem : earlier ∈ w :: past := hold.subset (by simp)
      by_contra hagain
      have hbefore := before.live_before hu hmem hlive (Bool.of_not_eq_false hagain)
      rw [ih hu.earlier hold] at hbefore
      cases hbefore

/-- In every world of a run, nothing can be done with or learned from a handle that is not live, and
a handle that went stale is never live again before the generations of its place are used up. -/
theorem stale_handles_inert (h : Run past w) :
    (∀ x earlier later, List.Sublist [later, earlier] (w :: past) →
      earlier.state.forest.contains x = true → later.state.forest.contains x = false →
        Unwrapped x past w → w.state.forest.contains x = false) ∧
    ∀ x, w.state.forest.contains x = false → w.state.NothingAt x ∧ w.HandsBack x ∧ w.Refuses x :=
  ⟨fun _ _ _ horder hlive hdead hu => h.stays_dead hu horder hlive hdead,
    fun _ hx => ⟨State.nothingAt_of_dead hx, World.handsBack_of_dead hx, World.refuses_of_dead hx⟩⟩

end Removed

def Operation.replaced : List Operation :=
  [.instantiate .anySlot Archetype.anySlot_made, .remove ⟨0, 0⟩,
    .instantiate .anySlot Archetype.anySlot_made]

theorem stale_handles_inert_replaced :
    (World.reached Operation.replaced).2.state.forest.contains ⟨0, 1⟩ = true ∧
    (World.reached Operation.replaced).2.state.forest.contains ⟨0, 0⟩ = false ∧
    (World.reached Operation.replaced).2.state.NothingAt ⟨0, 0⟩ := by
  have hdead : (World.reached Operation.replaced).2.state.forest.contains ⟨0, 0⟩ = false := by
    decide +kernel
  exact ⟨by decide +kernel, hdead,
    ((stale_handles_inert (Run.reached Operation.replaced)).2 _ hdead).1⟩

/-- Clearing a stale handle does not fail. -/
theorem stale_clear_succeeds :
    ¬ ∀ (past : List World) (w : World) (x : NodeId), Run past w →
      w.state.forest.contains x = false →
        ∀ t w', Step.clear x w = (.ok t, w') → t.outcome = .failure := by
  intro h
  have hdead : (World.reached Operation.replaced).2.state.forest.contains ⟨0, 0⟩ = false := by
    decide +kernel
  cases h _ _ ⟨0, 0⟩ (Run.reached Operation.replaced) hdead _ _
    (World.handsBack_of_dead hdead).clear

end Stowage
