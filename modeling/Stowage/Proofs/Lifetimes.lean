import Stowage.Proofs.Operation

/-!
# How long a handle lives

A place of the arena is used again under the next generation, and generations start again after a
fixed number of removals. As long as no place was vacated that often, a handle that went stale stays
stale. A handle that is live at two times was then live in between, and stands for one node.
-/

namespace Stowage

set_option autoImplicit false

open Relation

section Fading
variable {w w' : World} {slot : SlotId} {t : Option Stack}

theorem Tell.fades (h : Tell slot t w w') : w.state.forest.nodes.Fades w'.state.forest.nodes := by
  cases h with
  | give _ => exact .refl _
  | tell hc hv hw hk => exact Arena.fades_modify _ _ _

theorem Touch.fades (h : Touch w w') : w.state.forest.nodes.Fades w'.state.forest.nodes := by
  cases h with
  | put t hs => exact Arena.fades_modify _ _ _
  | tell h => exact h.fades

theorem Move.fades (h : Move w w') : w.state.forest.nodes.Fades w'.state.forest.nodes := by
  cases h with
  | touch h => exact h.fades
  | announce h => exact .refl _
  | leave hc hv => exact Arena.fades_modify _ _ _
  | drop hc hv => exact (Arena.fades_remove _ _).trans (Arena.fades_remove _ _)

theorem Moves.fades (h : Moves w w') : w.state.forest.nodes.Fades w'.state.forest.nodes := by
  induction h with
  | refl => exact .refl _
  | tail _ hstep ih => exact ih.trans hstep.fades

theorem Forest.fades_foldl_remove (ids : List NodeId) (f : Forest) :
    f.nodes.Fades (ids.foldl Forest.remove f).nodes := by
  induction ids generalizing f with
  | nil => exact .refl _
  | cons id rest ih => exact (Arena.fades_remove _ _).trans (ih _)

def Forest.bareContent (f : Forest) (x : NodeId) : Option Content :=
  (f.node? x).map fun n => n.content.bare

theorem Move.bareContent (h : Move w w') {x : NodeId} (hx : w'.state.forest.contains x = true) :
    w'.state.forest.bareContent x = w.state.forest.bareContent x := by
  cases h with
  | touch h => exact h.kept.alike.sameOutline.content x
  | announce h => rfl
  | @leave v id c hc hv =>
    exact (w.state.forest.alike_modifyContainer id (fun k => k.detach v)
      fun _ => rfl).sameOutline.content x
  | @drop id c hc hv =>
    change (w.state.drop id c.cursor).forest.contains x = true at hx
    change (w.state.drop id c.cursor).forest.bareContent x = _
    rw [State.forest_drop] at *
    unfold Forest.bareContent
    rw [Forest.node?_removed_of_not_mem (Forest.contains_removed_iff.mp hx).2]

theorem Moves.bareContent (h : Moves w w') {x : NodeId} (hx : w'.state.forest.contains x = true) :
    w'.state.forest.bareContent x = w.state.forest.bareContent x := by
  induction h with
  | refl => rfl
  | tail _ hstep ih => exact (hstep.bareContent hx).trans (ih (hstep.fades.contains hx))

end Fading

section Advance
variable {calm : Prop} {w w' : World}

/-- No operation vacates a place twice, or fills one that it vacated. -/
theorem Advance.places (h : Advance calm w w') (i : Nat) :
    w.state.forest.nodes.Stays w'.state.forest.nodes i ∨
      w.state.forest.nodes.Vacated w'.state.forest.nodes i := by
  cases h with
  | moves h _ => exact h.fades.places i
  | listen l => exact Or.inl (.refl _ i)
  | rewire t d => exact Or.inl (.refl _ i)
  | grow hg hq =>
    rw [hq.state_eq]
    exact Or.inl (hg.arena i)
  | frame ht hb hg hq =>
    rw [hq.state_eq]
    exact Or.inl (hg.arena i)
  | raze hr hn hfree hq =>
    rw [hq.state_eq]
    exact (Forest.fades_foldl_remove _ _).places i
  | @enter u w' v id c hm _ _ hv hq =>
    rw [hq.state_eq]
    have henter : u.state.forest.nodes.Fades (u.enter v id c).state.forest.nodes :=
      Arena.fades_modify _ _ _
    exact (hm.fades.trans henter).places i

theorem Forest.SameContent.bareContent {f g : Forest} {x : NodeId} (h : SameContent f g x) :
    g.bareContent x = f.bareContent x := by
  have hx := congrArg (Option.map Content.bare) h
  simpa [Option.map_map, Function.comp_def, Forest.bareContent] using hx

theorem Advance.bareContent (h : Advance calm w w') {x : NodeId}
    (hx : w.state.forest.contains x = true) (hx' : w'.state.forest.contains x = true) :
    w'.state.forest.bareContent x = w.state.forest.bareContent x := by
  cases h with
  | moves h _ => exact h.bareContent hx'
  | listen l => rfl
  | rewire t d => rfl
  | grow hg hq =>
    rw [hq.state_eq]
    exact (hg.content x hx).bareContent
  | frame ht hb hg hq =>
    rw [hq.state_eq]
    exact (hg.content x hx).bareContent
  | @raze r _ hr hn hfree hq =>
    rw [hq.state_eq] at *
    change Forest.contains (List.foldl Forest.remove w.state.forest _) x = true at hx'
    change Forest.bareContent (List.foldl Forest.remove w.state.forest _) x = _
    unfold Forest.bareContent
    rw [Forest.node?_removed_of_not_mem (Forest.contains_removed_iff.mp hx').2]
  | @enter u w' v id c hm _ _ hv hq =>
    rw [hq.state_eq] at *
    rw [World.contains_enter] at hx'
    have henter : (u.enter v id c).state.forest.bareContent x = u.state.forest.bareContent x :=
      (u.state.forest.alike_modifyContainer id (fun k => k.attach v (u.state.freshView c))
        fun _ => rfl).sameOutline.content x
    rw [henter]
    exact hm.bareContent hx'

end Advance

/-- How often a place was vacated in the course of the worlds, the newest of which comes first. -/
def turnovers (i : Nat) : List World → Nat
  | later :: earlier :: rest =>
    turnovers i (earlier :: rest) +
      if later.state.forest.nodes.generationAt i = earlier.state.forest.nodes.generationAt i then 0
      else 1
  | _ => 0

/-- The place of `x` was not vacated so often that its generations started again. -/
def Unwrapped (x : NodeId) (past : List World) (w : World) : Prop :=
  turnovers x.index (w :: past) < generations

section Unwrapped
variable {past : List World} {w w' : World} {i : Nat} {x : NodeId}

theorem turnovers_le (i : Nat) (w' w : World) (past : List World) :
    turnovers i (w :: past) ≤ turnovers i (w' :: w :: past) := Nat.le_add_right _ _

theorem Unwrapped.earlier (h : Unwrapped x (w :: past) w') : Unwrapped x past w :=
  Nat.lt_of_le_of_lt (turnovers_le x.index w' w past) h

theorem turnovers_le_length (i : Nat) (w : World) (past : List World) :
    turnovers i (w :: past) ≤ past.length := by
  induction past generalizing w with
  | nil => exact Nat.le_refl _
  | cons u rest ih =>
    have hrest := ih u
    simp only [turnovers, List.length_cons]
    split <;> omega

/-- A run of fewer operations than there are generations is not long enough for it. -/
theorem unwrapped_of_length (h : past.length < generations) : Unwrapped x past w :=
  Nat.lt_of_le_of_lt (turnovers_le_length x.index w past) h

theorem turnovers_of_stays
    (h : w.state.forest.nodes.Stays w'.state.forest.nodes i) :
    turnovers i (w' :: w :: past) = turnovers i (w :: past) := by
  simp [turnovers, h.generation]

theorem turnovers_of_vacated
    (h : w.state.forest.nodes.Vacated w'.state.forest.nodes i)
    (hlt : w.state.forest.nodes.generationAt i < generations) :
    turnovers i (w' :: w :: past) = turnovers i (w :: past) + 1 := by
  have hne : w'.state.forest.nodes.generationAt i ≠ w.state.forest.nodes.generationAt i := by
    have hself := Nat.mod_eq_of_lt hlt
    rw [h.generation]
    unfold generations at *
    omega
  simp [turnovers, hne]

/-- The generation of a place is the number of its turnovers. -/
theorem Run.generationAt_eq (h : Run past w) (i : Nat) :
    w.state.forest.nodes.generationAt i = turnovers i (w :: past) % generations := by
  induction h with
  | start env transport diagnostics => exact Arena.generationAt_empty i
  | @step past w op before ih =>
    have hlt : w.state.forest.nodes.generationAt i < generations := by
      rw [ih]
      exact Nat.mod_lt _ (by decide)
    rcases (op.advances before.sound).places i with hstays | hvacated
    · rw [turnovers_of_stays hstays, hstays.generation, ih]
    · rw [turnovers_of_vacated hvacated hlt, hvacated.generation, ih, Nat.mod_add_mod]

theorem Run.generation_eq (h : Run past w) (hu : Unwrapped x past w)
    (hx : w.state.forest.contains x = true) : x.generation = turnovers x.index (w :: past) := by
  have hgen := h.generationAt_eq x.index
  rw [Nat.mod_eq_of_lt hu, Arena.generationAt_of_contains hx] at hgen
  exact hgen

theorem Run.generation_lt (h : Run past w) (hu : Unwrapped x past w) {u : World}
    (hmem : u ∈ w :: past) (hx : u.state.forest.contains x = true)
    (hdead : w.state.forest.contains x = false) : x.generation < turnovers x.index (w :: past) := by
  induction h with
  | start env transport diagnostics =>
    rw [List.mem_singleton.mp hmem, hdead] at hx
    cases hx
  | @step past w op before ih =>
    have hle := turnovers_le x.index (op.run w).2 w past
    rcases List.mem_cons.mp hmem with hnew | hold
    · rw [hnew, hdead] at hx
      cases hx
    · cases hlive : w.state.forest.contains x with
      | false =>
        have hlt := ih hu.earlier hold hlive
        omega
      | true =>
        have hgen := before.generation_eq hu.earlier hlive
        rcases (op.advances before.sound).places x.index with hstays | hvacated
        · have hlives := hstays.contains rfl hlive
          unfold Forest.contains at hdead
          rw [hdead] at hlives
          cases hlives
        · have hlt : w.state.forest.nodes.generationAt x.index < generations := by
            rw [before.generationAt_eq]
            exact Nat.mod_lt _ (by decide)
          rw [turnovers_of_vacated hvacated hlt]
          omega

theorem Run.live_before {op : Operation} (before : Run past w)
    (hu : Unwrapped x (w :: past) (op.run w).2) {u : World} (hmem : u ∈ w :: past)
    (hx : u.state.forest.contains x = true) (hx' : (op.run w).2.state.forest.contains x = true) :
    w.state.forest.contains x = true := by
  by_contra hdead
  have hlt := before.generation_lt hu.earlier hmem hx (Bool.eq_false_iff.mpr hdead)
  have hgen := (before.step op).generation_eq hu hx'
  have hle := turnovers_le x.index (op.run w).2 w past
  omega

/-- What is live at two times is one node. -/
theorem Run.bareContent (h : Run past w) (hu : Unwrapped x past w) {u : World}
    (hmem : u ∈ w :: past) (hx : u.state.forest.contains x = true)
    (hx' : w.state.forest.contains x = true) :
    w.state.forest.bareContent x = u.state.forest.bareContent x := by
  induction h with
  | start env transport diagnostics => rw [List.mem_singleton.mp hmem]
  | @step past w op before ih =>
    rcases List.mem_cons.mp hmem with hnew | hold
    · rw [hnew]
    · have hlive := before.live_before hu hold hx hx'
      rw [(op.advances before.sound).bareContent hlive hx']
      exact ih hu.earlier hold hlive

end Unwrapped

section SameSlot
variable {f g : Forest} {x : SlotId} {slot : Slot}

theorem Forest.slot?_bareContent (f : Forest) (x : SlotId) :
    (f.bareContent x).bind Content.slot? = (f.slot x).map fun s => { s with contents := none } := by
  unfold bareContent Forest.slot
  cases f.node? x with
  | none => rfl
  | some n => cases hn : n.content <;> simp [hn, Content.bare, Content.slot?]

theorem Forest.slot_of_bareContent (h : g.bareContent x = f.bareContent x)
    (hslot : g.slot x = some slot) : ∃ old, f.slot x = some old ∧
      slot.filter = old.filter ∧ slot.maxStackSize = old.maxStackSize := by
  have hemptied := g.slot?_bareContent x
  rw [h, f.slot?_bareContent, hslot] at hemptied
  obtain ⟨old, hold, hsame⟩ := Option.map_eq_some_iff.mp hemptied
  simp only [Slot.mk.injEq] at hsame
  exact ⟨old, hold, hsame.2.1.symm, hsame.2.2.symm⟩

end SameSlot

end Stowage
