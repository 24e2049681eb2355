import Stowage.Proofs.Container.Cursor
import Stowage.Proofs.Forest.Ways

/-!
# Instances of archetypes

In every world of a run an archetype can be made into an inventory that is as the archetype
describes it, all of it new, and nothing else changes. Inventories made at different times from one
archetype have no node in common and the same slots at the same places.
-/

namespace Stowage

set_option autoImplicit false

namespace Forest

section Lasting
variable {f g : Forest} {x y : NodeId}

theorem orders_of_bareContent (h : g.bareContent x = f.bareContent x) :
    g.children x = f.children x ∧ g.slots x = f.slots x ∧ g.fillOrder x = f.fillOrder x := by
  unfold bareContent at h
  unfold children slots fillOrder
  cases hf : f.node? x with
  | none => simp_all
  | some n =>
    cases hg : g.node? x with
    | none => simp_all
    | some m =>
      rw [hg, hf, Option.map_some, Option.map_some, Option.some.injEq] at h
      cases hn : n.content <;> cases hm : m.content <;>
        simp_all [Content.bare, Container.bare, Container.children, Container.isResident]

theorem descend_of_bareContent (hf : f.Sound) (hg : g.Sound) (hx : f.container? x = none)
    (hlive : g.contains x = true) (hsame : ∀ n z, f.Under n x z → g.contains z = true →
      g.bareContent z = f.bareContent z) {way : List Nat} (h : f.descend x way = some y) :
    g.descend x way = some y := by
  induction way generalizing x with
  | nil => exact h
  | cons i way ih =>
    obtain ⟨c, hc, h⟩ := exists_child_of_descend h
    have hlists := (Sound.mem_children_iff hx).mp (List.mem_of_getElem? hc)
    have hbare := hsame 0 x (.refl x) hlive
    have hplain : g.container? x = none := by
      rw [← Option.not_isSome_iff_eq_none, container?_eq_bareContent, hbare,
        ← container?_eq_bareContent, hx]
      simp
    rw [← (orders_of_bareContent hbare).1] at hc
    rw [descend_cons hc]
    refine ih (hf.container?_of_lists hlists) ?_ ?_ h
    · exact (hg.contains_of_lists ((Sound.mem_children_iff hplain).mp (List.mem_of_getElem? hc))).2
    · exact fun n z hu => hsame (n + 1) z (.down hlists hu)

/-- Places stay the same for as long as the inventory lives. -/
theorem SamePlaces.later {e : Forest} {a : Archetype} {x' : NodeId}
    (h : SamePlaces a f x e x') (hf : f.Sound) (hg : g.Sound) (hx : f.container? x = none)
    (hlive : g.contains x = true) (hsame : ∀ n z, f.Under n x z → g.contains z = true →
      g.bareContent z = f.bareContent z) : SamePlaces a g x e x' := by
  obtain ⟨_, hslots, hfill⟩ := orders_of_bareContent (hsame 0 x (.refl x) hlive)
  intro way b hb
  obtain ⟨y, y', hy, hy', horders⟩ := h way b hb
  refine ⟨y, y', descend_of_bareContent hf hg hx hlive hsame hy, hy', ?_⟩
  unfold indexOf at *
  rwa [hslots, hfill]

end Lasting

end Forest

/-- The archetype `a` was made into the inventory `r`: its nodes are new, they are as the archetype
describes them with all slots empty, and nothing else has changed. -/
structure World.Instantiates (w : World) (a : Archetype) (r : NodeId) (w' : World) : Prop where
  result : Step.instantiate a w = (.ok r, w')
  state : w'.state = { w.state with forest := w'.state.forest }
  adds : w.state.forest.Adds w'.state.forest r
  realises : w'.state.forest.Realises w.state.env.settings.defaultMaxStackSize a r
  empty : ∀ slot ∈ w'.state.forest.slots r, w'.state.forest.contents slot = none

/-- The inventory `q` of an earlier world `u` and the inventory `r` made in `w` share no node and
have the same slots at the same places, when they were made and while both are there. A handle of a
node that is gone may come again once the generations of its place are used up. -/
structure World.Independent (past : List World) (w : World) (a : Archetype) (u : World) (q : NodeId)
    (w' : World) (r : NodeId) : Prop where
  places : Forest.SamePlaces a u.state.forest q w'.state.forest r
  apart : ∀ x ∈ q :: u.state.forest.descendants q,
    w.state.forest.contains x = true ∨ Unwrapped x (w :: past) w' →
      x ∉ r :: w'.state.forest.descendants r
  lasting : (∀ x ∈ q :: u.state.forest.descendants q, Unwrapped x (w :: past) w') →
    w'.state.forest.contains q = true → Forest.SamePlaces a w'.state.forest q w'.state.forest r

section Run
variable {past : List World} {w : World}

theorem Run.instantiates (h : Run past w) {a : Archetype} (ha : a.Made) {r : NodeId} {w' : World}
    (hresult : Step.instantiate a w = (.ok r, w')) : w.Instantiates a r w' := by
  have hf := h.sound.forest
  have hreal := Forest.instantiate_realises w.state.env.settings.defaultMaxStackSize hf ha
  have hadds := Forest.instantiate_adds w.state.env.settings.defaultMaxStackSize hf ha.fits
  cases hresult
  exact ⟨rfl, rfl, hadds, hreal, fun _ hslot => hreal.empty hslot⟩

theorem World.Instantiates.run {a : Archetype} (ha : a.Made) {r : NodeId} {w' : World}
    (h : w.Instantiates a r w') : ((Operation.instantiate a ha).run w).2 = w' := by
  change (Step.ignored (Step.instantiate a) w).2 = w'
  unfold Step.ignored
  rw [Step.bind_of_ok h.result]
  rfl

theorem Run.independent (h : Run past w) {a : Archetype} (ha : a.Made) {r : NodeId} {w' : World}
    (hr : w.Instantiates a r w') {u v : World} (hu : u ∈ w :: past) {q : NodeId}
    (hq : v.Instantiates a q u) : World.Independent past w a u q w' r := by
  obtain ⟨before, hbefore⟩ := h.earlier hu
  have hrun := hr.run ha
  have hnext : Run (w :: past) w' := by
    rw [← hrun]
    exact h.step _
  have hf := hbefore.sound.forest
  have hg := hnext.sound.forest
  have hplain := hq.realises.container?
  have htree : ∀ x, x ∈ q :: u.state.forest.descendants q ↔ ∃ n, u.state.forest.Under n q x := by
    intro x
    rw [List.mem_cons, hf.eq_or_mem_descendants_iff hplain]
  have hplaces := hq.realises.samePlaces hf hg hr.realises
  refine ⟨hplaces, ?_, ?_⟩
  · intro x hx hkept hmem
    obtain ⟨hlive, hnew⟩ := (hr.adds.new x).mp hmem
    have hold := ((hq.adds.new x).mp hx).1
    rcases hkept with hkept | hunwrapped
    · rw [hnew] at hkept
      cases hkept
    · rw [← hrun] at hunwrapped hlive
      rw [h.live_before hunwrapped hu hold hlive] at hnew
      cases hnew
  · intro hunwrapped hlive
    refine hplaces.later hf hg hplain hlive fun n z hz hzlive => ?_
    have hmem := (htree z).mpr ⟨n, hz⟩
    exact hnext.bareContent (hunwrapped z hmem) (List.mem_cons_of_mem _ hu)
      ((hq.adds.new z).mp hmem).1 hzlive

/-- An archetype can be made into an inventory at any time, and what was made from it before is
independent of that. -/
theorem instances_realise_archetypes (h : Run past w) {a : Archetype} (ha : a.Made) :
    ∃ r w', w.Instantiates a r w' ∧ ∀ u ∈ w :: past, ∀ (v : World) q, v.Instantiates a q u →
      World.Independent past w a u q w' r := by
  have hr := h.instantiates ha rfl
  exact ⟨_, _, hr, fun u hu v q hq => h.independent ha hr hu hq⟩

end Run

theorem instances_realise_archetypes_turned :
    ∃ w', (World.reached [.instantiate .turned Archetype.turned_made]).2.Instantiates
        .turned ⟨5, 0⟩ w' ∧
      w'.state.forest.slots ⟨2, 0⟩ = [⟨1, 0⟩, ⟨0, 0⟩] ∧
      w'.state.forest.slots ⟨5, 0⟩ = [⟨4, 0⟩, ⟨3, 0⟩] ∧
      World.Independent (World.reached [.instantiate .turned Archetype.turned_made]).1
        (World.reached [.instantiate .turned Archetype.turned_made]).2 .turned
        (World.reached [.instantiate .turned Archetype.turned_made]).2 ⟨2, 0⟩ w' ⟨5, 0⟩ := by
  obtain ⟨r, w', hr, hbefore⟩ := instances_realise_archetypes
    (Run.reached [.instantiate .turned Archetype.turned_made]) Archetype.turned_made
  have hfirst : World.blank.Instantiates .turned ⟨2, 0⟩
      (World.reached [.instantiate .turned Archetype.turned_made]).2 :=
    (Run.start default .live .absent).instantiates Archetype.turned_made rfl
  obtain rfl : (Step.instantiate .turned _).2 = w' := congrArg Prod.snd hr.result
  obtain rfl : ⟨5, 0⟩ = r := by
    have hid := congrArg Prod.fst hr.result
    exact Except.ok.inj hid
  exact ⟨_, hr, by decide +kernel, by decide +kernel, hbefore _ List.mem_cons_self _ _ hfirst⟩

end Stowage
