import Stowage.Proofs.Commits
import Stowage.Proofs.Forest.Orders
import Stowage.Proofs.Forest.Roots
import Stowage.Proofs.Operation

/-!
# What becomes of the nodes

Which nodes an operation makes, and from what. All other operations leave the nodes that stay as
they are, but for what slots hold and who looks into containers.
-/

namespace Stowage

set_option autoImplicit false

open Relation

namespace Forest

def Lasts (f g : Forest) : Prop :=
  ∀ x, g.contains x = true → (g.node? x).map Node.bare = (f.node? x).map Node.bare

namespace Lasts
variable {f g h : Forest} {x : NodeId}

theorem refl (f : Forest) : Lasts f f := fun _ _ => rfl

theorem of_alike (hfg : Alike f g) : Lasts f g := fun x _ => hfg x

theorem removed (f : Forest) (ids : List NodeId) : Lasts f (ids.foldl Forest.remove f) := by
  intro x hx
  rw [node?_removed_of_not_mem (contains_removed_iff.mp hx).2]

theorem outline (hfg : Lasts f g) (hx : g.contains x = true) : OutlineAt f g x :=
  .of_bare (hfg x hx)

theorem contains (hfg : Lasts f g) (hx : g.contains x = true) : f.contains x = true := by
  rw [← (hfg.outline hx).contains]
  exact hx

theorem trans (hfg : Lasts f g) (hgh : Lasts g h) : Lasts f h :=
  fun x hx => (hgh x hx).trans (hfg x (hgh.contains hx))

theorem root (hfg : Lasts f g) (hx : g.contains x = true) : g.root x = f.root x := by
  have hroot := congrArg (Option.map Node.root) (hfg x hx)
  simpa [Option.map_map, Function.comp_def, Node.bare, Forest.root] using hroot

theorem rooted (hfg : Lasts f g) (hg : g.Sound) (h : f.Rooted) : g.Rooted :=
  h.of_lasts hg fun _ hx => ⟨hfg.contains hx, (hfg.outline hx).parent, hfg.root hx⟩

theorem drafted (hfg : Lasts f g) (hg : g.Sound) {ds : List (NodeId × Draft)} (h : f.Drafted ds) :
    g.Drafted (ds.filter fun d => g.contains d.1) := by
  refine h.transfer ?_ ?_ ?_ ?_
  · intro d hd
    exact (List.mem_filter.mp hd).2
  · intro x k hk
    rwa [(hfg.outline (contains_of_composite? hk)).composite?] at hk
  · intro x hx
    exact writtenOrder_filter ds hx
  · intro x k hk e he
    have hlive := (hg.contains_of_lists ⟨k, hk, List.mem_map_of_mem he⟩).2
    exact ⟨(hfg.outline hlive).slots, (hfg.outline hlive).fillOrder⟩

end Lasts

/-- What one operation does to the nodes. The list has the nodes that are made from drafts. -/
inductive Change (limit : Nat) (f : Forest) : List (NodeId × Draft) → Forest → Prop where
  | lasts {g : Forest} (h : Lasts f g) : Change limit f [] g
  | grow {a : Archetype} (made : a.Made) :
      Change limit f (f.drafts limit a) (f.instantiate limit a).1
  | join {children : List (NodeId × Int)} {g : Forest} {id : NodeId}
      (h : f.compose children = .ok (g, id)) : Change limit f [] g
  | frame {top bottom : NodeId} (ht : f.Showable top) (hb : f.Showable bottom) :
      Change limit f [] (f.addContainer limit top bottom).1

namespace Change
variable {limit : Nat} {f g : Forest} {new : List (NodeId × Draft)}

theorem rooted (h : Change limit f new g) (hf : f.Sound) (hg : g.Sound) (hr : f.Rooted) :
    g.Rooted := by
  cases h with
  | lasts h => exact h.rooted hg hr
  | grow made => exact instantiate_rooted limit hf hr made.fits
  | join h => exact compose_rooted hf hr h
  | frame ht hb => exact addContainer_rooted hf hr limit _ _

end Change

end Forest

def Operation.drafts (w : World) : Operation → List (NodeId × Draft)
  | .instantiate a _ => w.state.forest.drafts w.state.env.settings.defaultMaxStackSize a
  | .instantiateId r id _ =>
    (r.get? id).elim [] (w.state.forest.drafts w.state.env.settings.defaultMaxStackSize)
  | _ => []

section Moves
variable {w w' : World}

theorem Move.lasts (h : Move w w') : Forest.Lasts w.state.forest w'.state.forest := by
  cases h with
  | touch h => exact .of_alike h.kept.alike
  | announce h => exact .refl _
  | @leave v id c hc hv =>
    exact .of_alike (w.state.forest.alike_modifyContainer id (fun k => k.detach v) fun _ => rfl)
  | @drop id c hc hv => exact .removed w.state.forest [c.cursor, id]

theorem Moves.lasts (h : Moves w w') : Forest.Lasts w.state.forest w'.state.forest := by
  induction h with
  | refl => exact .refl _
  | tail _ hstep ih => exact ih.trans hstep.lasts

theorem World.lasts_enter (w : World) (v : ViewerId) (id : NodeId) (c : Container) :
    Forest.Lasts w.state.forest (w.enter v id c).state.forest :=
  .of_alike (w.state.forest.alike_modifyContainer id (fun k => k.attach v (w.state.freshView c))
    fun _ => rfl)

end Moves

namespace Step

variable {α β : Type}

def Lasts (m : Step α) (w : World) : Prop := Forest.Lasts w.state.forest (m w).2.state.forest

section
variable {w : World}

theorem Lasts.of_forest_eq {m : Step α} (h : (m w).2.state.forest = w.state.forest) :
    m.Lasts w := by
  unfold Lasts
  rw [h]
  exact .refl _

theorem Tidy.lasts {m : Step α} (hm : m.Tidy) (hw : w.state.Sound) : m.Lasts w :=
  (hm w hw).1.moves.lasts

theorem lasts_openContainer (hw : w.state.Sound) (id : NodeId) (v : ViewerId) :
    (openContainer id v).Lasts w := by
  unfold Lasts openContainer
  rw [state_bind]
  cases w.state.containerAt id with
  | error r => exact .refl _
  | ok _ =>
    dsimp only
    split
    · exact .refl _
    · have hclose := (orderly_close hw v).1.lasts
      rcases h : close v w with ⟨r, u⟩
      rw [h] at hclose
      cases r with
      | error e =>
        rw [bind_of_error h]
        exact hclose
      | ok closed =>
        rw [bind_of_ok h, state_bind]
        cases u.state.containerAt id with
        | error r => exact hclose
        | ok c =>
          refine hclose.trans ?_
          rw [(quiet_attach v id c u (Except.ok ())).state_eq]
          exact u.lasts_enter v id c

theorem lasts_remove (hw : w.state.Sound) (node : NodeId) : (remove node).Lasts w := by
  unfold Lasts remove
  rw [state_bind]
  cases hn : w.state.forest.node? node with
  | none => exact .refl _
  | some n =>
    dsimp only
    split
    · exact .refl _
    · have htree : (removeTree node).Lasts w := by
        unfold Lasts removeTree
        rw [state_bind]
        cases w.state.showing (w.state.forest.descendants node ++ [node]) with
        | some id => exact .refl _
        | none => exact .removed _ _
      cases hc : n.content with
      | container c =>
        dsimp only [removeContainer]
        split
        · rename_i hempty
          have hc := Forest.container?_eq_some_iff.mpr ⟨n, hn, hc⟩
          rw [map_snd]
          exact (orderly_discard hw hc (List.isEmpty_iff.mp hempty)).1.lasts
        · exact .refl _
      | slot s => exact htree
      | ordered k => exact htree
      | grid g => exact htree

theorem lasts_onSlotChange (node : NodeId) (react : List Emission → SlotChange → Reaction) :
    (onSlotChange node react).Lasts w := by
  refine .of_forest_eq ?_
  unfold onSlotChange
  rw [state_bind]
  split <;> rfl

theorem lasts_onView (container : NodeId) (react : List Emission → ViewEvent → Reaction) :
    (onView container react).Lasts w := by
  refine .of_forest_eq ?_
  unfold onView
  rw [state_bind]
  cases w.state.containerAt container <;> rfl

theorem lasts_onClose (container : NodeId) (react : List Emission → CloseEvent → Reaction) :
    (onClose container react).Lasts w := by
  refine .of_forest_eq ?_
  unfold onClose
  rw [state_bind]
  cases w.state.containerAt container <;> rfl

def Changes (m : Step α) (w : World) (new : List (NodeId × Draft)) : Prop :=
  Forest.Change w.state.env.settings.defaultMaxStackSize w.state.forest new (m w).2.state.forest

theorem Lasts.changes {m : Step α} (h : m.Lasts w) : m.Changes w [] := .lasts h

theorem Changes.ignored {m : Step α} {new : List (NodeId × Draft)} (h : m.Changes w new) :
    m.ignored.Changes w new := by
  unfold Changes Step.ignored at *
  rwa [map_snd]

theorem changes_instantiate {a : Archetype} (made : a.Made) : (instantiate a).Changes w
    (w.state.forest.drafts w.state.env.settings.defaultMaxStackSize a) := .grow made

theorem changes_instantiateId {r : Registry} {id : ArchetypeId}
    (made : ∀ a, r.get? id = some a → a.Made) : (instantiateId r id).Changes w
      ((r.get? id).elim [] (w.state.forest.drafts w.state.env.settings.defaultMaxStackSize)) := by
  unfold Changes instantiateId
  cases hr : r.get? id with
  | none => exact .lasts (.refl _)
  | some a =>
    dsimp only [Option.elim]
    rw [map_snd]
    exact changes_instantiate (made a hr)

theorem changes_compose (children : List (NodeId × Int)) :
    (composePrioritized children).Changes w [] := by
  unfold Changes composePrioritized
  rw [state_bind]
  cases hg : w.state.forest.compose children with
  | error r => exact .lasts (.refl _)
  | ok g => exact .join hg

theorem changes_createContainer (top bottom : NodeId) :
    (createContainer top bottom).Changes w [] := by
  unfold Changes createContainer
  rw [state_bind]
  dsimp only
  cases hnone : (w.state.forest.showRefusal top <|> w.state.forest.showRefusal bottom) with
  | some r => exact .lasts (.refl _)
  | none =>
    have hboth : w.state.forest.showRefusal top = none ∧
        w.state.forest.showRefusal bottom = none := by simpa using hnone
    exact .frame (Forest.showable_of_showRefusal hboth.1) (Forest.showable_of_showRefusal hboth.2)

end

end Step

section Operation
variable {past : List World} {w : World}

/-- Four operations make nodes; all others leave the nodes that stay as they are. -/
theorem Operation.changes (op : Operation) (hw : w.state.Sound) :
    op.run.Changes w (op.drafts w) := by
  cases op with
  | instantiate a made => exact (Step.changes_instantiate made).ignored
  | instantiateId r id made => exact (Step.changes_instantiateId made).ignored
  | compose children => exact (Step.changes_compose children).ignored
  | createContainer top bottom => exact (Step.changes_createContainer top bottom).ignored
  | openContainer container v => exact (Step.lasts_openContainer hw container v).changes.ignored
  | close v =>
    have hlasts : (Step.close v).Lasts w := (Step.orderly_close hw v).1.lasts
    exact hlasts.changes.ignored
  | remove node => exact (Step.lasts_remove hw node).changes.ignored
  | offer node stack => exact ((Step.tidy_offer node stack).lasts hw).changes.ignored
  | offerTo node stack => exact ((Step.tidy_offerTo node stack).lasts hw).changes.ignored
  | poll node limit => exact ((Step.tidy_poll node limit).lasts hw).changes.ignored
  | set slot stack => exact ((Step.tidy_set slot stack).lasts hw).changes.ignored
  | setAt node index stack => exact ((Step.tidy_setAt node index stack).lasts hw).changes.ignored
  | clear node => exact ((Step.tidy_clear node).lasts hw).changes.ignored
  | revert t => exact ((Step.tidy_revert t).lasts hw).changes.ignored
  | shiftClick custom container slot =>
    exact ((Step.tidy_shiftClick custom container slot).lasts hw).changes.ignored
  | offerInView view stack => exact ((Step.tidy_viewOffer view stack).lasts hw).changes.ignored
  | offerToView view stack =>
    exact ((Step.tidy_offerIn view.slots stack).lasts hw).changes.ignored
  | pollInView view limit => exact ((Step.tidy_pollIn view.slots limit).lasts hw).changes.ignored
  | setInView view index stack =>
    exact ((Step.tidy_setIn view.slots index stack).lasts hw).changes.ignored
  | onSlotChange node react => exact (Step.lasts_onSlotChange node react).changes.ignored
  | onView container react => exact (Step.lasts_onView container react).changes.ignored
  | onClose container react => exact (Step.lasts_onClose container react).changes.ignored
  | removeListener l => exact .lasts (.refl _)
  | setTransport t => exact .lasts (.refl _)
  | setDiagnostics d => exact .lasts (.refl _)

/-- What every change keeps holds of the forests of a run. -/
theorem Run.forest_induction {P : Forest → Prop} (empty : P .empty)
    (change : ∀ {limit : Nat} {f g : Forest} {new : List (NodeId × Draft)},
      Forest.Change limit f new g → f.Sound → g.Sound → P f → P g)
    (h : Run past w) : P w.state.forest := by
  induction h with
  | start env transport diagnostics => exact empty
  | step op before ih =>
    exact change (op.changes before.sound) before.sound.forest (before.step op).sound.forest ih

theorem Run.rooted (h : Run past w) : w.state.forest.Rooted := by
  refine h.forest_induction ?_ fun hchange hf hg => hchange.rooted hf hg
  intro x hx
  simp [Forest.contains_iff, Forest.node?_empty] at hx

end Operation

end Stowage
