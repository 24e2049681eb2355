import Stowage.Proofs.State
import Stowage.Proofs.Step
import Mathlib.Logic.Relation

/-!
# What an operation can do

The single moves of which every operation is made up: contents are put into a slot, a viewer is told
of it, a viewer leaves, a container is dropped, and something is given out to listeners and the log.
Only operations that add or take away whole inventories, and the arrival of a viewer, are kept
apart. Sound states stay sound through all of them.
-/

namespace Stowage

set_option autoImplicit false

open Relation

namespace World

def put (w : World) (slot : SlotId) (t : Option Stack) : World :=
  { w with state := { w.state with forest := w.state.forest.setContents slot t } }

def tell (w : World) (id : NodeId) (v : ViewerId) (slot : SlotId) (wire : Int) (t : Option Stack) :
    World where
  state :=
    { w.state with forest := w.state.forest.modifyContainer id fun c => c.learn v slot t }
  trace := w.trace ++ w.state.transport.carry (.delta v wire t)

def leave (w : World) (v : ViewerId) (id : NodeId) : World where
  state := w.state.leave v id
  trace := w.trace ++ w.state.transport.carry (.release v)

def drop (w : World) (id : NodeId) (cursor : SlotId) : World :=
  { w with state := w.state.drop id cursor }

def greeting (v : ViewerId) (view : ClientView) (snapshot : Snapshot) : List Message :=
  (view.rows.map fun r => .bind v r.wire r.slot) ++ [.fullState v snapshot]

def enter (w : World) (v : ViewerId) (id : NodeId) (c : Container) : World where
  state := w.state.enter v id (w.state.freshView c)
  trace := w.trace ++
    (greeting v (w.state.freshView c) (w.state.snapshotOfView c (w.state.freshView c))).flatMap
      w.state.transport.carry

/-- Nothing but calls of listeners and lines of the log, about one kind of event. -/
def Quiet (w w' : World) : Prop := ∃ k es, w' = w.give es ∧ ∀ e ∈ es, e.Of k

end World

/-- Viewers are told what `slot` holds now, with calls of listeners in between. -/
inductive Tell (slot : SlotId) (t : Option Stack) : World → World → Prop where
  | give (w : World) {es : List Emission} (h : ∀ e ∈ es, e.Of .slotChange) :
      Tell slot t w (w.give es)
  | tell (w : World) {id : NodeId} {c : Container} {v : ViewerId} {view : ClientView} {wire : Int}
      (hc : w.state.forest.container? id = some c) (hv : (v, view) ∈ c.viewers)
      (hw : c.wireIndex slot = some wire) (hk : view.knows slot t = false) :
      Tell slot t w (w.tell id v slot wire t)

inductive Touch : World → World → Prop where
  | put (w : World) {slot : SlotId} {s : Slot} (t : Option Stack)
      (h : w.state.forest.slot slot = some s) : Touch w (w.put slot t)
  | tell {w w' : World} {slot : SlotId} {t : Option Stack} (h : Tell slot t w w') : Touch w w'

inductive Move : World → World → Prop where
  | touch {w w' : World} (h : Touch w w') : Move w w'
  | announce (w : World) {k : EventKind} {es : List Emission} (h : ∀ e ∈ es, e.Of k) :
      Move w (w.give es)
  | leave (w : World) {v : ViewerId} {id : NodeId} {c : Container}
      (hc : w.state.forest.container? id = some c) (hv : v ∈ c.viewers.map Prod.fst) :
      Move w (w.leave v id)
  | drop (w : World) {id : NodeId} {c : Container}
      (hc : w.state.forest.container? id = some c) (hv : c.viewers = []) :
      Move w (w.drop id c.cursor)

abbrev Tells (slot : SlotId) (t : Option Stack) : World → World → Prop := ReflTransGen (Tell slot t)

abbrev Touches : World → World → Prop := ReflTransGen Touch

abbrev Moves : World → World → Prop := ReflTransGen Move

structure State.Kept (s t : State) : Prop where
  env : t.env = s.env
  transport : t.transport = s.transport
  containers : t.containers = s.containers
  sessions : t.sessions = s.sessions
  alike : Forest.Alike s.forest t.forest
  arena : s.forest.nodes.Sound → t.forest.nodes.Sound
  frame : ∀ id, (t.forest.container? id).map Container.frame =
    (s.forest.container? id).map Container.frame

namespace State.Kept
variable {s t u : State}

theorem refl (s : State) : Kept s s := ⟨rfl, rfl, rfl, rfl, .refl _, id, fun _ => rfl⟩

theorem trans (hst : Kept s t) (htu : Kept t u) : Kept s u where
  env := htu.env.trans hst.env
  transport := htu.transport.trans hst.transport
  containers := htu.containers.trans hst.containers
  sessions := htu.sessions.trans hst.sessions
  alike := hst.alike.trans htu.alike
  arena := fun h => htu.arena (hst.arena h)
  frame := fun id => (htu.frame id).trans (hst.frame id)

theorem sound (hst : Kept s t) (h : s.Sound) : t.Sound :=
  h.congr (h.forest.congr hst.alike.sameOutline (hst.arena h.forest.arena)) hst.containers
    hst.sessions hst.frame

theorem contains (hst : Kept s t) (x : NodeId) : t.forest.contains x = s.forest.contains x :=
  hst.alike.sameOutline.contains x

theorem openContainer (hst : Kept s t) (v : ViewerId) : t.openContainer v = s.openContainer v := by
  unfold State.openContainer
  rw [hst.sessions]

theorem exists_container? (hst : Kept s t) {id : NodeId} {c : Container}
    (hc : t.forest.container? id = some c) :
    ∃ d, s.forest.container? id = some d ∧ d.frame = c.frame := by
  have hid := hst.frame id
  rw [hc] at hid
  exact Option.map_eq_some_iff.mp hid.symm

theorem exists_container?' (hst : Kept s t) {id : NodeId} {c : Container}
    (hc : s.forest.container? id = some c) :
    ∃ d, t.forest.container? id = some d ∧ d.frame = c.frame := by
  have hid := hst.frame id
  rw [hc] at hid
  exact Option.map_eq_some_iff.mp hid

end State.Kept

section Touching
variable {w w' : World} {slot : SlotId} {t : Option Stack}

theorem World.kept_put (w : World) (slot : SlotId) (t : Option Stack) :
    w.state.Kept (w.put slot t).state where
  env := rfl
  transport := rfl
  containers := rfl
  sessions := rfl
  alike := w.state.forest.alike_setContents slot t
  arena := fun h => h.modify _ _
  frame := fun id => congrArg _ (w.state.forest.container?_setContents slot id t)

theorem World.container?_tell (w : World) (id x : NodeId) (v : ViewerId) (slot : SlotId)
    (wire : Int) (t : Option Stack) :
    (w.tell id v slot wire t).state.forest.container? x =
      if x = id then (w.state.forest.container? id).map fun c => c.learn v slot t
      else w.state.forest.container? x := w.state.forest.container?_modifyContainer id x _

theorem World.kept_tell (w : World) (id : NodeId) (v : ViewerId) (slot : SlotId) (wire : Int)
    (t : Option Stack) : w.state.Kept (w.tell id v slot wire t).state where
  env := rfl
  transport := rfl
  containers := rfl
  sessions := rfl
  alike := w.state.forest.alike_modifyContainer id _ fun _ => rfl
  arena := fun h => h.modify _ _
  frame := by
    intro x
    rw [World.container?_tell]
    split
    · rename_i hx
      rw [hx, Option.map_map]
      congr 1
      funext c
      exact c.frame_learn v slot t
    · rfl

theorem Tell.kept (h : Tell slot t w w') : w.state.Kept w'.state := by
  cases h with
  | give _ => exact .refl _
  | tell hc hv hw hk => exact w.kept_tell _ _ _ _ _

theorem Touch.kept (h : Touch w w') : w.state.Kept w'.state := by
  cases h with
  | put t hs => exact w.kept_put _ _
  | tell h => exact h.kept

theorem Touches.kept (h : Touches w w') : w.state.Kept w'.state := by
  induction h with
  | refl => exact .refl _
  | tail _ hstep ih => exact ih.trans hstep.kept

theorem Tells.touches (h : Tells slot t w w') : Touches w w' :=
  ReflTransGen.mono (fun _ _ h => .tell h) _ _ h

theorem Tell.slot_eq (h : Tell slot t w w') (x : SlotId) :
    w'.state.forest.slot x = w.state.forest.slot x := by
  cases h with
  | give _ => rfl
  | tell hc hv hw hk => exact w.state.forest.slot_modifyContainer _ _ _

theorem Tells.slot_eq (h : Tells slot t w w') (x : SlotId) :
    w'.state.forest.slot x = w.state.forest.slot x := by
  induction h with
  | refl => rfl
  | tail _ hstep ih => rw [hstep.slot_eq, ih]

theorem Tells.contents_eq (h : Tells slot t w w') (x : SlotId) :
    w'.state.contents x = w.state.contents x := by
  unfold State.contents Forest.contents
  rw [h.slot_eq]

end Touching

section Views
variable {w : World} {u v : ViewerId} {id y : NodeId} {c d : Container} {view : ClientView}

theorem World.contains_leave (w : World) (u : ViewerId) (id x : NodeId) :
    (w.leave u id).state.forest.contains x = w.state.forest.contains x :=
  (w.state.forest.alike_modifyContainer id (fun k => k.detach u)
    fun _ => rfl).sameOutline.contains x

theorem World.slot_leave (w : World) (u : ViewerId) (id : NodeId) (x : SlotId) :
    (w.leave u id).state.forest.slot x = w.state.forest.slot x :=
  w.state.forest.slot_modifyContainer id x _

theorem World.contents_leave (w : World) (u : ViewerId) (id : NodeId) (x : SlotId) :
    (w.leave u id).state.contents x = w.state.contents x :=
  w.state.forest.contents_modifyContainer id x _

theorem World.view_leave (hd : (w.leave u id).state.forest.container? y = some d)
    (hv : (v, view) ∈ d.viewers) :
    ∃ k, w.state.forest.container? y = some k ∧ (v, view) ∈ k.viewers := by
  obtain ⟨k, hk, rfl⟩ := Forest.of_container?_modifyContainer hd
  refine ⟨k, hk, ?_⟩
  split at hv
  · exact (Container.mem_detach_iff.mp hv).1
  · exact hv

theorem World.view_tell (hw : w.state.Sound) {old : ClientView} {slot : SlotId} {wire : Int}
    {t : Option Stack} (hc : w.state.forest.container? id = some c) (hu : (u, old) ∈ c.viewers)
    (hd : (w.tell id u slot wire t).state.forest.container? y = some d)
    (hv : (v, view) ∈ d.viewers) :
    (v = u ∧ view = old.learn slot t) ∨
      v ≠ u ∧ ∃ k, w.state.forest.container? y = some k ∧ (v, view) ∈ k.viewers := by
  obtain ⟨k, hk, rfl⟩ := Forest.of_container?_modifyContainer hd
  split at hv
  · rename_i hy
    rw [hy, hc] at hk
    cases hk
    obtain ⟨q, hq, hqv⟩ := Container.mem_learn_iff.mp hv
    cases hqv
    by_cases hqu : q.1 = u
    · have hqold : q = (u, old) := List.inj_on_of_nodup_map (hw.ordered hc).nodup hq hu hqu
      rw [if_pos hqu, hqold]
      exact Or.inl ⟨rfl, rfl⟩
    · rw [if_neg hqu]
      exact Or.inr ⟨hqu, c, by rw [hy]; exact hc, hq⟩
  · rename_i hy
    refine Or.inr ⟨?_, k, hk, hv⟩
    intro hvu
    rw [hvu] at hv
    have hku : u ∈ k.viewers.map Prod.fst := List.mem_map_of_mem hv
    have hcu : u ∈ c.viewers.map Prod.fst := List.mem_map_of_mem hu
    exact hy (hw.container_unique hk hku hc hcu)

theorem World.contains_enter (w : World) (u : ViewerId) (id : NodeId) (c : Container) (x : NodeId) :
    (w.enter u id c).state.forest.contains x = w.state.forest.contains x :=
  (w.state.forest.alike_modifyContainer id (fun k => k.attach u (w.state.freshView c))
    fun _ => rfl).sameOutline.contains x

theorem World.slot_enter (w : World) (u : ViewerId) (id : NodeId) (c : Container) (x : SlotId) :
    (w.enter u id c).state.forest.slot x = w.state.forest.slot x :=
  w.state.forest.slot_modifyContainer id x _

theorem World.contents_enter (w : World) (u : ViewerId) (id : NodeId) (c : Container) (x : SlotId) :
    (w.enter u id c).state.contents x = w.state.contents x :=
  w.state.forest.contents_modifyContainer id x _

theorem World.container?_enter (hc : w.state.forest.container? id = some c) :
    (w.enter u id c).state.forest.container? id = some (c.attach u (w.state.freshView c)) := by
  change (w.state.enter u id _).forest.container? id = _
  rw [State.container?_enter, if_pos rfl, hc, Option.map_some]

theorem World.view_enter (hw : w.state.Sound) (hu : w.state.openContainer u = none)
    (hd : (w.enter u id c).state.forest.container? y = some d) (hv : (v, view) ∈ d.viewers) :
    (v = u ∧ view = w.state.freshView c) ∨
      v ≠ u ∧ ∃ k, w.state.forest.container? y = some k ∧ (v, view) ∈ k.viewers := by
  have hfree : ∀ {x k}, w.state.forest.container? x = some k → u ∉ k.viewers.map Prod.fst :=
    hw.not_viewer_of_none hu
  have hold : ∀ {k}, w.state.forest.container? y = some k → (v, view) ∈ k.viewers → v ≠ u := by
    intro k hk hmem he
    rw [he] at hmem
    exact hfree hk (List.mem_map_of_mem hmem)
  obtain ⟨k, hk, rfl⟩ := Forest.of_container?_modifyContainer hd
  split at hv
  · rcases (Container.mem_attach_iff (hfree hk)).mp hv with hmem | hnew
    · exact Or.inr ⟨hold hk hmem, k, hk, hmem⟩
    · cases hnew
      exact Or.inl ⟨rfl, rfl⟩
  · exact Or.inr ⟨hold hk hv, k, hk, hv⟩

end Views

section Moving
variable {w w' : World}

theorem Touches.moves (h : Touches w w') : Moves w w' :=
  ReflTransGen.mono (fun _ _ h => .touch h) _ _ h

theorem Move.sound (h : Move w w') (hw : w.state.Sound) : w'.state.Sound := by
  cases h with
  | touch h => exact h.kept.sound hw
  | announce h => exact hw
  | leave hc hv => exact hw.leave hc hv
  | drop hc hv => exact hw.drop hc

theorem Moves.sound (h : Moves w w') (hw : w.state.Sound) : w'.state.Sound := by
  induction h with
  | refl => exact hw
  | tail _ hstep ih => exact hstep.sound ih

theorem Move.transport (h : Move w w') : w'.state.transport = w.state.transport := by
  cases h with
  | touch h => exact h.kept.transport
  | announce h => rfl
  | leave hc hv => rfl
  | drop hc hv => rfl

theorem Moves.transport (h : Moves w w') : w'.state.transport = w.state.transport := by
  induction h with
  | refl => rfl
  | tail _ hstep ih => exact hstep.transport.trans ih

theorem Move.env (h : Move w w') : w'.state.env = w.state.env := by
  cases h with
  | touch h => exact h.kept.env
  | announce h => rfl
  | leave hc hv => rfl
  | drop hc hv => rfl

theorem Moves.env (h : Moves w w') : w'.state.env = w.state.env := by
  induction h with
  | refl => rfl
  | tail _ hstep ih => exact hstep.env.trans ih

theorem World.Quiet.state_eq (h : World.Quiet w w') : w'.state = w.state := by
  obtain ⟨k, es, rfl, _⟩ := h
  rfl

theorem World.Quiet.refl (w : World) : World.Quiet w w :=
  ⟨.view, [], w.give_nil.symm, by simp⟩

end Moving

end Stowage
