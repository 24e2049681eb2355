import Stowage.Proofs.Ancestry
import Stowage.Proofs.Instances

/-!
# Shapes are fixed

A node is made once and stays what it is. All that changes while it lives is what it holds, who
looks into it, and where it hangs; and what hangs below another node hangs there for good.
-/

namespace Stowage

set_option autoImplicit false

structure Container.BindsAlike (c d : Container) : Prop where
  top : d.top = c.top
  bottom : d.bottom = c.bottom
  cursor : d.cursor = c.cursor
  slots : d.slots = c.slots
  fillOrder : d.fillOrder = c.fillOrder
  wireIndex : ∀ slot, d.wireIndex slot = c.wireIndex slot
  slotAtWire : ∀ wire, d.slotAtWire wire = c.slotAtWire wire

theorem Container.bindsAlike_of_bare_eq {c d : Container} (h : d.bare = c.bare) :
    c.BindsAlike d := by
  obtain ⟨htop, hbottom, hcursor, hslots⟩ := of_bare_eq h
  refine ⟨htop, hbottom, hcursor, hslots, ?_, ?_, ?_⟩
  · simp only [bare, Container.mk.injEq] at h
    exact h.2.2.2.2.1
  · intro slot
    unfold wireIndex
    rw [hcursor, hslots]
  · intro wire
    unfold slotAtWire
    rw [hcursor, hslots]

/-- The later node differs in what it holds, in who looks into it, and in where it hangs. It does
not leave its parent. -/
structure Node.Becomes (n m : Node) : Prop where
  content : m.content.bare = n.content.bare
  name : m.name = n.name
  archetype : m.archetype = n.archetype
  properties : m.properties = n.properties
  shiftClick : m.shiftClick = n.shiftClick
  parent : ∀ p, n.parent = some p → m.parent = some p

namespace Node.Becomes
variable {n m k : Node}

theorem refl (n : Node) : n.Becomes n := ⟨rfl, rfl, rfl, rfl, rfl, fun _ hp => hp⟩

theorem trans (hnm : n.Becomes m) (hmk : m.Becomes k) : n.Becomes k where
  content := hmk.content.trans hnm.content
  name := hmk.name.trans hnm.name
  archetype := hmk.archetype.trans hnm.archetype
  properties := hmk.properties.trans hnm.properties
  shiftClick := hmk.shiftClick.trans hnm.shiftClick
  parent := fun p hp => hmk.parent p (hnm.parent p hp)

theorem of_bare_eq (h : m.bare = n.bare) : n.Becomes m := by
  simp only [Node.bare, Node.mk.injEq] at h
  obtain ⟨hcontent, hparent, _, hname, harchetype, hproperties, hshift⟩ := h
  exact ⟨hcontent, hname, harchetype, hproperties, hshift, fun p hp => hparent.trans hp⟩

end Node.Becomes

namespace Forest
variable {f g h : Forest} {x : NodeId}

def Remains (f g : Forest) (x : NodeId) : Prop :=
  ∃ n m, f.node? x = some n ∧ g.node? x = some m ∧ n.Becomes m

namespace Remains

theorem of_node? (hx : f.contains x = true) (hsame : g.node? x = f.node? x) : f.Remains g x := by
  obtain ⟨n, hn⟩ := contains_iff.mp hx
  exact ⟨n, n, hn, hsame.trans hn, .refl n⟩

theorem refl (hx : f.contains x = true) : f.Remains f x := of_node? hx rfl

theorem trans (hfg : f.Remains g x) (hgh : g.Remains h x) : f.Remains h x := by
  obtain ⟨n, m, hn, hm, hnm⟩ := hfg
  obtain ⟨m', k, hm', hk, hmk⟩ := hgh
  rw [hm] at hm'
  cases hm'
  exact ⟨n, k, hn, hk, hnm.trans hmk⟩

theorem of_lasts (hfg : Lasts f g) (hx : g.contains x = true) : f.Remains g x := by
  obtain ⟨m, hm⟩ := contains_iff.mp hx
  have hbare := hfg x hx
  rw [hm] at hbare
  obtain ⟨n, hn, hnm⟩ := Option.map_eq_some_iff.mp hbare.symm
  exact ⟨n, m, hn, hm, .of_bare_eq hnm.symm⟩

theorem keeps (hfg : f.Remains g x) (hgh : g.Keeps h) : f.Remains h x := by
  obtain ⟨n, m, hn, hm, hnm⟩ := hfg
  obtain ⟨parent, root, hh, hparent⟩ := hgh x m hm
  exact ⟨n, _, hn, hh, hnm.trans ⟨rfl, rfl, rfl, rfl, rfl, hparent⟩⟩

theorem bareContent (hfg : f.Remains g x) : g.bareContent x = f.bareContent x := by
  obtain ⟨n, m, hn, hm, hnm⟩ := hfg
  unfold Forest.bareContent
  rw [hn, hm, Option.map_some, Option.map_some, hnm.content]

end Remains

/-- No operation makes another node of one that stays. -/
theorem Change.remains {limit : Nat} {new : List (NodeId × Draft)} (hchange : Change limit f new g)
    (hf : f.Sound) (hx : f.contains x = true) (hgx : g.contains x = true) : f.Remains g x := by
  cases hchange with
  | lasts hlasts => exact .of_lasts hlasts hgx
  | grow made => exact .of_node? hx ((instantiate_adds limit hf made.fits).kept x hx)
  | join hcompose =>
    obtain ⟨entries, hj, rfl⟩ := compose_planted hf hcompose
    exact ((Remains.refl hx).keeps (keeps_plant hf hj.free)).keeps (keeps_setRoot _ _)
  | frame ht hb => exact .of_node? hx (node?_addContainer_of_live hf limit _ _ hx)

theorem kind_of_bareContent (hsame : g.bareContent x = f.bareContent x) :
    g.kind x = f.kind x ∧ g.gridSize x = f.gridSize x := by
  unfold bareContent at hsame
  unfold kind gridSize grid?
  cases hf : f.node? x with
  | none => simp_all
  | some n =>
    cases hg : g.node? x with
    | none => simp_all
    | some m =>
      rw [hg, hf, Option.map_some, Option.map_some, Option.some.injEq] at hsame
      cases hn : n.content <;> cases hm : m.content <;>
        simp_all [Content.bare, Content.kind]

theorem exists_container?_of_bareContent (hsame : g.bareContent x = f.bareContent x)
    {c : Container} (hc : f.container? x = some c) :
    ∃ d, g.container? x = some d ∧ d.bare = c.bare := by
  obtain ⟨n, hn, hcontent⟩ := container?_eq_some_iff.mp hc
  unfold bareContent at hsame
  rw [hn, Option.map_some, hcontent] at hsame
  obtain ⟨m, hm, hbare⟩ := Option.map_eq_some_iff.mp hsame
  cases hd : m.content with
  | container d =>
    rw [hd] at hbare
    exact ⟨d, container?_eq_some_iff.mpr ⟨m, hm, hd⟩, Content.container.inj hbare⟩
  | slot s => rw [hd] at hbare; cases hbare
  | ordered k => rw [hd] at hbare; cases hbare
  | grid k => rw [hd] at hbare; cases hbare

/-- What never changes about a node while it lives. -/
structure SameShape (f g : Forest) (x : NodeId) : Prop where
  content : g.bareContent x = f.bareContent x
  kind : g.kind x = f.kind x
  archetype : g.archetype x = f.archetype x
  name : g.name x = f.name x
  ownProperties : (g.node? x).map Node.properties = (f.node? x).map Node.properties
  shiftClick : (g.node? x).map Node.shiftClick = (f.node? x).map Node.shiftClick
  children : g.children x = f.children x
  slots : g.slots x = f.slots x
  indexOf : ∀ slot, g.indexOf x slot = f.indexOf x slot
  fillOrder : g.fillOrder x = f.fillOrder x
  gridSize : g.gridSize x = f.gridSize x
  container : ∀ c, f.container? x = some c → ∃ d, g.container? x = some d ∧ c.BindsAlike d
  parent : ∀ p, f.parent x = some p → g.parent x = some p

theorem Remains.sameShape (hfg : f.Remains g x) : f.SameShape g x := by
  have hbare := hfg.bareContent
  obtain ⟨hkind, hsize⟩ := kind_of_bareContent hbare
  obtain ⟨hchildren, hslots, hfill⟩ := orders_of_bareContent hbare
  obtain ⟨n, m, hn, hm, hnm⟩ := hfg
  refine ⟨hbare, hkind, ?_, ?_, ?_, ?_, hchildren, hslots, ?_, hfill, hsize, ?_, ?_⟩
  · simp only [archetype, hn, hm, Option.bind_some, hnm.archetype]
  · simp only [name, hn, hm, Option.bind_some, hnm.name]
  · simp only [hn, hm, Option.map_some, hnm.properties]
  · simp only [hn, hm, Option.map_some, hnm.shiftClick]
  · intro slot
    unfold indexOf
    rw [hslots]
  · intro c hc
    obtain ⟨d, hd, hdc⟩ := exists_container?_of_bareContent hbare hc
    exact ⟨d, hd, Container.bindsAlike_of_bare_eq hdc⟩
  · intro p hp
    simp only [parent, hn, hm, Option.bind_some] at hp ⊢
    exact hnm.parent p hp

end Forest

/-- The node has been live ever since the world `u`. The run is read from its last world back. -/
def LivesSince (run : List World) (u : World) (x : NodeId) : Prop :=
  ∃ later before, run = later ++ u :: before ∧
    ∀ t ∈ u :: later, t.state.forest.contains x = true

section Run
variable {past : List World} {u w w' : World} {x : NodeId}

theorem LivesSince.live (h : LivesSince (w :: past) u x) : w.state.forest.contains x = true := by
  obtain ⟨later, before, hrun, hlive⟩ := h
  cases later with
  | nil =>
    cases hrun
    exact hlive _ List.mem_cons_self
  | cons t later =>
    cases hrun
    exact hlive _ (List.mem_cons_of_mem _ List.mem_cons_self)

theorem LivesSince.cases (h : LivesSince (w' :: w :: past) u x) :
    u = w' ∨ LivesSince (w :: past) u x := by
  obtain ⟨later, before, hrun, hlive⟩ := h
  cases later with
  | nil =>
    cases hrun
    exact Or.inl rfl
  | cons t later =>
    refine Or.inr ⟨later, before, (List.cons.inj hrun).2, fun t ht => hlive t ?_⟩
    rcases List.mem_cons.mp ht with rfl | ht
    · exact List.mem_cons_self
    · exact List.mem_cons_of_mem _ (List.mem_cons_of_mem _ ht)

theorem Run.remains (h : Run past w) (hlives : LivesSince (w :: past) u x) :
    u.state.forest.Remains w.state.forest x := by
  induction h with
  | start env transport diagnostics =>
    have hlive := hlives.live
    simp [State.new, Forest.contains_iff, Forest.node?_empty] at hlive
  | @step past w op before ih =>
    have hlive := hlives.live
    rcases hlives.cases with rfl | hearlier
    · exact .refl hlive
    · exact (ih hearlier).trans
        ((op.changes before.sound).remains before.sound.forest hearlier.live hlive)

/-- Whatever is done meanwhile, a node that stays live keeps its shape, and a container its
bindings. A parent that it has once it keeps as well. -/
theorem shapes_are_fixed (h : Run past w) (hlives : LivesSince (w :: past) u x) :
    u.state.forest.SameShape w.state.forest x := (h.remains hlives).sameShape

theorem livesSince_joined {x : NodeId}
    (hchest : (World.reached Operation.chest).2.state.forest.contains x = true)
    (hjoined : (World.reached Operation.joined).2.state.forest.contains x = true) :
    LivesSince ((World.reached Operation.joined).2 :: (World.reached Operation.joined).1)
      (World.reached Operation.chest).2 x := by
  refine ⟨[(World.reached Operation.joined).2], (World.reached Operation.chest).1, rfl, ?_⟩
  intro t ht
  rcases List.mem_cons.mp ht with rfl | ht
  · exact hchest
  · rw [List.mem_singleton.mp ht]
    exact hjoined

theorem shapes_are_fixed_joined :
    (World.reached Operation.chest).2.state.forest.parent ⟨0, 0⟩ = none ∧
    (World.reached Operation.joined).2.state.forest.parent ⟨0, 0⟩ = some ⟨4, 0⟩ ∧
    (World.reached Operation.chest).2.state.forest.SameShape
      (World.reached Operation.joined).2.state.forest ⟨0, 0⟩ ∧
    (World.reached Operation.chest).2.state.forest.SameShape
      (World.reached Operation.joined).2.state.forest ⟨3, 0⟩ := by
  have hrun := Run.reached Operation.joined
  refine ⟨by decide +kernel, by decide +kernel, ?_, ?_⟩
  · exact shapes_are_fixed hrun (livesSince_joined (by decide +kernel) (by decide +kernel))
  · exact shapes_are_fixed hrun (livesSince_joined (by decide +kernel) (by decide +kernel))

end Run

end Stowage
