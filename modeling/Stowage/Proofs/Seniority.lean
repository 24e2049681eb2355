import Stowage.Proofs.Operation

/-!
# Oldest first

Containers stand in the order of their creation and listeners in that of their registration, in
every state that is reached. How old a container is, is read from the run: the number of worlds for
which it has been there.
-/

namespace Stowage

set_option autoImplicit false

/-- For how many worlds on end, the newest of which comes first, there has been such a container. -/
def containerAge (id : NodeId) (worlds : List World) : Nat :=
  (worlds.takeWhile fun w => id ∈ w.state.containers).length

section Age
variable {past : List World} {w : World} {id : NodeId}

theorem containerAge_of_mem (h : id ∈ w.state.containers) :
    containerAge id (w :: past) = containerAge id past + 1 := by
  simp [containerAge, h]

theorem containerAge_of_not_mem (h : id ∉ w.state.containers) :
    containerAge id (w :: past) = 0 := by
  simp [containerAge, h]

end Age

theorem Move.containers {w w' : World} (h : Move w w') :
    w'.state.containers.Sublist w.state.containers := by
  cases h with
  | touch h =>
    rw [h.kept.containers]
  | announce _ => exact .refl _
  | leave _ _ => exact .refl _
  | drop _ _ => exact List.filter_sublist

theorem Moves.containers {w w' : World} (h : Moves w w') :
    w'.state.containers.Sublist w.state.containers := by
  induction h with
  | refl => exact .refl _
  | tail _ hstep ih => exact hstep.containers.trans ih

section Advance
variable {calm : Prop} {w w' : World}

theorem Advance.containers (h : Advance calm w w') (hw : w.state.Sound) :
    w'.state.containers.Sublist w.state.containers ∨
      ∃ id, id ∉ w.state.containers ∧ w'.state.containers = w.state.containers ++ [id] := by
  cases h with
  | moves h _ => exact Or.inl h.containers
  | listen l hl => exact Or.inl (.refl _)
  | rewire t d => exact Or.inl (.refl _)
  | grow hg hq =>
    rw [hq.state_eq]
    exact Or.inl (.refl _)
  | @frame g id top bottom _ ht hb hg hq =>
    rw [hq.state_eq]
    refine Or.inr ⟨id, ?_, rfl⟩
    intro hmem
    obtain ⟨c, hc⟩ := (hw.mem_containers id).mp hmem
    have hlive := Forest.contains_of_container? hc
    rw [hg.fresh] at hlive
    cases hlive
  | raze hr hn hfree hq =>
    rw [hq.state_eq]
    exact Or.inl (.refl _)
  | enter hm _ hc hv hq =>
    rw [hq.state_eq]
    exact Or.inl hm.containers

theorem Advance.listeners (h : Advance calm w w') :
    w.state.listeners.Turn w'.state.listeners := by
  cases h with
  | moves h _ => exact .thin h.listeners
  | listen l hl => exact hl
  | rewire t d => exact .thin (.refl _)
  | grow hg hq =>
    rw [hq.state_eq]
    exact .thin (.refl _)
  | frame ht hb hg hq =>
    rw [hq.state_eq]
    exact .thin (.refl _)
  | raze hr hn hfree hq =>
    rw [hq.state_eq]
    exact .thin (Listeners.thinned_forgetAll _ _)
  | enter hm _ hc hv hq =>
    rw [hq.state_eq]
    exact .thin hm.listeners

end Advance

section Run
variable {past : List World} {w : World}

theorem Run.numbered (h : Run past w) : w.state.listeners.Numbered := by
  induction h with
  | start env transport diagnostics => exact Listeners.numbered_empty
  | step op before ih => exact ih.turn (op.advances before.sound).listeners

/-- Every container has been there for longer than those behind it. -/
theorem Run.oldest_first (h : Run past w) :
    w.state.containers.Pairwise fun a b =>
      containerAge b (w :: past) < containerAge a (w :: past) := by
  induction h with
  | start env transport diagnostics => exact .nil
  | @step past w op before ih =>
    have hstay : w.state.containers.Pairwise fun a b =>
        containerAge b (w :: past) + 1 < containerAge a (w :: past) + 1 :=
      ih.imp fun hab => Nat.succ_lt_succ hab
    rcases (op.advances before.sound).containers before.sound with hsub | ⟨id, hnew, happend⟩
    · refine (hstay.sublist hsub).imp_of_mem ?_
      intro a b ha hb hab
      rwa [containerAge_of_mem ha, containerAge_of_mem hb]
    · have hmem : ∀ a ∈ w.state.containers, a ∈ (op.run w).2.state.containers := by
        intro a ha
        rw [happend]
        exact List.mem_append_left _ ha
      have hid : id ∈ (op.run w).2.state.containers := by
        rw [happend]
        exact List.mem_append_right _ List.mem_cons_self
      rw [happend]
      refine List.pairwise_append.mpr ⟨?_, List.pairwise_singleton _ _, ?_⟩
      · refine hstay.imp_of_mem ?_
        intro a b ha hb hab
        rwa [containerAge_of_mem (hmem a ha), containerAge_of_mem (hmem b hb)]
      · intro a ha b hb
        rw [List.mem_singleton.mp hb, containerAge_of_mem hid, containerAge_of_not_mem hnew,
          containerAge_of_mem (hmem a ha), containerAge_of_mem ha]
        omega

end Run

end Stowage
