import Stowage.Proofs.Contents
import Stowage.Proofs.Units

/-!
# What commits leave in the slots

A commit puts contents into one slot and changes no other, whatever listeners do meanwhile. A list
of commits may end early when a panic escapes; every slot then holds what it held before or what the
list has for it.
-/

namespace Stowage

set_option autoImplicit false

/-- The change that a commit makes. A slot that is stale or holds just that is left alone. -/
def State.changeOf (s : State) (put : SlotId × Option Stack) : Option Change :=
  (s.forest.slot put.1).bind fun slot =>
    if slot.contents = put.2 then none else some ⟨put.1, slot.contents, put.2⟩

theorem State.changeOf_eq_some {s : State} {put : SlotId × Option Stack} {c : Change}
    (h : s.changeOf put = some c) : put = (c.slot, c.after) ∧ c.before ≠ c.after ∧
      ∃ slot, s.forest.slot c.slot = some slot ∧ slot.contents = c.before := by
  obtain ⟨slot, hslot, h⟩ := Option.bind_eq_some_iff.mp h
  split at h
  · cases h
  · rename_i hnew
    cases h
    exact ⟨rfl, hnew, slot, hslot, rfl⟩

theorem State.changeOf_congr {s t : State} {put : SlotId × Option Stack}
    (h : t.forest.slot put.1 = s.forest.slot put.1) : t.changeOf put = s.changeOf put := by
  unfold changeOf
  rw [h]

namespace Step

variable {α β : Type}

theorem map_snd (m : Step α) (answer : α → β) (w : World) :
    ((m >>= fun a => pure (answer a)) w).2 = (m w).2 := by
  rcases bind_snd m (fun a => pure (answer a)) w with h | ⟨a, _, h⟩
  · exact h
  · exact h

section Commit
variable {w w' : World} {x : SlotId} {after : Option Stack}

theorem sound_commit (hw : w.state.Sound) (x : SlotId) (after : Option Stack) :
    (commit x after w).2.state.Sound := (tidy_commit x after w hw).1.kept.sound hw

theorem slot_commit (hw : w.state.Sound) (x : SlotId) (after : Option Stack) (y : SlotId) :
    (commit x after w).2.state.forest.slot y = (w.state.forest.setContents x after).slot y := by
  unfold commit
  rw [state_bind, Forest.slot_setContents]
  cases hs : w.state.forest.slot x with
  | none =>
    change w.state.forest.slot y = _
    split
    · rename_i hy
      rw [hy, hs]
      rfl
    · rfl
  | some s =>
    dsimp only
    split
    · rename_i hsame
      change w.state.forest.slot y = _
      split
      · rename_i hy
        rw [hy, hs, ← hsame]
        rfl
      · rfl
    · obtain ⟨htells, _⟩ := replaceContents_told s.contents after hw hs
      rw [map_snd, htells.slot_eq, World.put, Forest.slot_setContents, hs]

theorem units_commit (hw : w.state.Sound) {s : Slot} (hx : w.state.forest.slot x = some s)
    (after : Option Stack) (k : ItemClass) :
    (commit x after w).2.state.units k + k.unitsIn s.contents =
      w.state.units k + k.unitsIn after := State.units_put k hx (slot_commit hw x after)

/-- A commit that ends with a value finds nothing to change and does nothing, or replaces what the
slot holds and reports that. -/
theorem commit_cases {first : Option Change} (h : commit x after w = (.ok first, w')) :
    (w.state.changeOf (x, after) = none ∧ first = none ∧ w' = w) ∨
      ∃ s, w.state.forest.slot x = some s ∧ s.contents ≠ after ∧
        first = some ⟨x, s.contents, after⟩ ∧
        replaceContents x s.contents after w = (.ok ⟨x, s.contents, after⟩, w') := by
  unfold commit at h
  rw [state_bind] at h
  unfold State.changeOf
  cases hs : w.state.forest.slot x with
  | none =>
    rw [hs] at h
    cases h
    exact Or.inl ⟨rfl, rfl, rfl⟩
  | some s =>
    rw [hs] at h
    dsimp only [Option.bind] at h ⊢
    split at h
    · rename_i hsame
      cases h
      exact Or.inl ⟨if_pos hsame, rfl, rfl⟩
    · rename_i hnew
      obtain ⟨change, u, hreplace, h⟩ := bind_eq_ok h
      cases h
      have hchange : change = ⟨x, s.contents, after⟩ := by
        unfold replaceContents updateForest at hreplace
        rw [update_bind] at hreplace
        obtain ⟨_, _, _, hreplace⟩ := bind_eq_ok hreplace
        obtain ⟨_, _, _, hreplace⟩ := bind_eq_ok hreplace
        cases hreplace
        rfl
      rw [hchange] at hreplace ⊢
      exact Or.inr ⟨s, rfl, hnew, rfl, hreplace⟩

theorem commit_ok {first : Option Change} (h : commit x after w = (.ok first, w')) :
    first = w.state.changeOf (x, after) := by
  rcases commit_cases h with ⟨hnone, hfirst, _⟩ | ⟨s, hs, hnew, hfirst, _⟩
  · rw [hnone, hfirst]
  · rw [hfirst, State.changeOf, hs, Option.bind_some, if_neg hnew]

theorem commit_none (h : commit x after w = (.ok none, w')) : w' = w := by
  rcases commit_cases h with ⟨_, _, hsame⟩ | ⟨_, _, _, hfirst, _⟩
  · exact hsame
  · cases hfirst

end Commit

section CommitAll
variable {w w' : World} {changes : List (SlotId × Option Stack)}

theorem commitAll_cons (x : SlotId) (after : Option Stack) (rest : List (SlotId × Option Stack)) :
    commitAll ((x, after) :: rest) = (commit x after >>= fun first =>
      commitAll rest >>= fun others => pure (first.toList ++ others)) := rfl

theorem commitAll_none (h : commitAll changes w = (.ok [], w')) : w' = w := by
  induction changes generalizing w with
  | nil =>
    cases h
    rfl
  | cons put rest ih =>
    obtain ⟨x, after⟩ := put
    rw [commitAll_cons] at h
    obtain ⟨first, u, hfirst, h⟩ := bind_eq_ok h
    obtain ⟨others, u', hothers, h⟩ := bind_eq_ok h
    obtain ⟨hnone, hcs⟩ := List.append_eq_nil_iff.mp (Except.ok.inj (congrArg Prod.fst h))
    obtain rfl := Option.toList_eq_nil_iff.mp hnone
    obtain rfl := hcs
    obtain rfl : u' = w' := congrArg Prod.snd h
    rw [ih hothers, commit_none hfirst]

theorem commitAll_snd (x : SlotId) (after : Option Stack) (rest : List (SlotId × Option Stack))
    (w : World) :
    (commitAll ((x, after) :: rest) w).2 = (commit x after w).2 ∨
      (commitAll ((x, after) :: rest) w).2 = (commitAll rest (commit x after w).2).2 := by
  rw [commitAll_cons]
  rcases bind_snd (commit x after) _ w with h | ⟨first, _, h⟩
  · exact Or.inl h
  · refine Or.inr (h.trans ?_)
    rw [map_snd]

theorem commitAll_cons_ok (hw : w.state.Sound) {x : SlotId} {after : Option Stack}
    {rest : List (SlotId × Option Stack)} {cs : List Change}
    (h : commitAll ((x, after) :: rest) w = (.ok cs, w')) :
    ∃ u others, commitAll rest u = (.ok others, w') ∧
      cs = (w.state.changeOf (x, after)).toList ++ others ∧ u.state.Sound ∧
      u = (commit x after w).2 ∧ ∀ y, y ≠ x → u.state.forest.slot y = w.state.forest.slot y := by
  rw [commitAll_cons] at h
  obtain ⟨first, u, hfirst, h⟩ := bind_eq_ok h
  obtain ⟨others, u', hothers, h⟩ := bind_eq_ok h
  cases h
  have hu : u = (commit x after w).2 := by rw [hfirst]
  refine ⟨u, others, hothers, by rw [commit_ok hfirst], hu ▸ sound_commit hw x after, hu, ?_⟩
  intro y hy
  rw [hu, slot_commit hw, Forest.slot_setContents, if_neg hy]

theorem slot_commitAll_of_not_mem (hw : w.state.Sound) {r : Except Escape (List Change)}
    (h : commitAll changes w = (r, w')) {y : SlotId} (hy : y ∉ changes.map Prod.fst) :
    w'.state.forest.slot y = w.state.forest.slot y := by
  have hlast : w' = (commitAll changes w).2 := by rw [h]
  rw [hlast]
  clear h hlast
  induction changes generalizing w with
  | nil => rfl
  | cons change rest ih =>
    obtain ⟨x, after⟩ := change
    simp only [List.map_cons, List.mem_cons, not_or] at hy
    have hfirst : (commit x after w).2.state.forest.slot y = w.state.forest.slot y := by
      rw [slot_commit hw, Forest.slot_setContents, if_neg hy.1]
    rcases commitAll_snd x after rest w with h | h
    · rw [h, hfirst]
    · rw [h, ih (sound_commit hw x after) hy.2, hfirst]

/-- A slot keeps its filter and limit, and holds what it held or what the list has for it. -/
theorem slot_commitAll (hw : w.state.Sound) {y : SlotId} {s' : Slot}
    (h : (commitAll changes w).2.state.forest.slot y = some s') :
    ∃ s, w.state.forest.slot y = some s ∧ s' = { s with contents := s'.contents } ∧
      (s'.contents = s.contents ∨ (y, s'.contents) ∈ changes) := by
  induction changes generalizing w with
  | nil => exact ⟨s', h, rfl, Or.inl rfl⟩
  | cons change rest ih =>
    obtain ⟨x, after⟩ := change
    have hfirst : ∀ {s₁}, (commit x after w).2.state.forest.slot y = some s₁ →
        ∃ s, w.state.forest.slot y = some s ∧ s₁ = { s with contents := s₁.contents } ∧
          (s₁.contents = s.contents ∨ (y, s₁.contents) = (x, after)) := by
      intro s₁ hs₁
      rw [slot_commit hw, Forest.slot_setContents] at hs₁
      split at hs₁
      · rename_i hy
        obtain ⟨s, hs, rfl⟩ := Option.map_eq_some_iff.mp hs₁
        exact ⟨s, by rw [hy, hs], rfl, Or.inr (by rw [hy])⟩
      · exact ⟨s₁, hs₁, rfl, Or.inl rfl⟩
    rcases commitAll_snd x after rest w with hsnd | hsnd
    · rw [hsnd] at h
      obtain ⟨s, hs, hsame, hcase⟩ := hfirst h
      exact ⟨s, hs, hsame, hcase.imp_right fun he => by rw [he]; exact List.mem_cons_self⟩
    · rw [hsnd] at h
      obtain ⟨s₁, hs₁, hsame₁, hcase₁⟩ := ih (sound_commit hw x after) h
      obtain ⟨s, hs, hsame, hcase⟩ := hfirst hs₁
      refine ⟨s, hs, by rw [hsame₁, hsame], ?_⟩
      rcases hcase₁ with he | hmem
      · rw [he]
        exact hcase.imp_right fun he => by rw [he]; exact List.mem_cons_self
      · exact Or.inr (List.mem_cons_of_mem _ hmem)

theorem commitAll_changes (hw : w.state.Sound) {cs : List Change}
    (h : commitAll changes w = (.ok cs, w')) {c : Change} (hc : c ∈ cs) :
    ∃ s, w.state.forest.slot c.slot = some s ∧
      (c.before = s.contents ∨ (c.slot, c.before) ∈ changes) := by
  induction changes generalizing w cs with
  | nil =>
    cases h
    cases hc
  | cons change rest ih =>
    obtain ⟨x, after⟩ := change
    obtain ⟨u, others, hothers, rfl, hsound, hu, _⟩ := commitAll_cons_ok hw h
    rcases List.mem_append.mp hc with hc | hc
    · obtain ⟨_, _, s, hs, hbefore⟩ := State.changeOf_eq_some (Option.mem_toList.mp hc)
      exact ⟨s, hs, Or.inl hbefore.symm⟩
    · obtain ⟨s₁, hs₁, hcase₁⟩ := ih hsound hothers hc
      rw [hu, slot_commit hw, Forest.slot_setContents] at hs₁
      split at hs₁
      · rename_i hx
        obtain ⟨s, hs, rfl⟩ := Option.map_eq_some_iff.mp hs₁
        refine ⟨s, by rw [hx, hs], Or.inr ?_⟩
        rcases hcase₁ with he | hmem
        · rw [he, hx]
          exact List.mem_cons_self
        · exact List.mem_cons_of_mem _ hmem
      · exact ⟨s₁, hs₁, hcase₁.imp_right fun hmem => List.mem_cons_of_mem _ hmem⟩

/-- Commits to distinct slots take out what these held and put in what the list has for them. -/
theorem units_commitAll (hw : w.state.Sound) (hnodup : (changes.map Prod.fst).Nodup)
    (hlive : ∀ c ∈ changes, (w.state.forest.slot c.1).isSome = true) {cs : List Change}
    (h : commitAll changes w = (.ok cs, w')) (k : ItemClass) :
    w'.state.units k + (changes.map fun c => k.unitsIn (w.state.contents c.1)).sum =
      w.state.units k + (changes.map fun c => k.unitsIn c.2).sum := by
  induction changes generalizing w cs with
  | nil =>
    cases h
    rfl
  | cons change rest ih =>
    obtain ⟨x, after⟩ := change
    obtain ⟨hx, hnodup⟩ := List.nodup_cons.mp hnodup
    obtain ⟨s, hs⟩ := Option.isSome_iff_exists.mp (hlive (x, after) List.mem_cons_self)
    obtain ⟨u, others, hothers, _, hsound, hu, hframe⟩ := commitAll_cons_ok hw h
    have hkept : ∀ c ∈ rest, u.state.forest.slot c.1 = w.state.forest.slot c.1 :=
      fun c hc => hframe c.1 fun he => hx (List.mem_map.mpr ⟨c, hc, he⟩)
    have hunits := units_commit hw hs after k
    have hrest := ih hsound hnodup
      (fun c hc => by rw [hkept c hc]; exact hlive c (List.mem_cons_of_mem _ hc)) hothers
    have hsame : (rest.map fun c => k.unitsIn (u.state.contents c.1)) =
        rest.map fun c => k.unitsIn (w.state.contents c.1) :=
      List.map_congr_left fun c hc => by rw [State.contents_of_slot_eq (hkept c hc)]
    rw [← hu] at hunits
    rw [hsame] at hrest
    simp only [List.map_cons, List.sum_cons, State.contents_of_slot hs]
    omega

theorem commitAll_ok (hw : w.state.Sound) (hnodup : (changes.map Prod.fst).Nodup)
    {cs : List Change} (h : commitAll changes w = (.ok cs, w')) :
    cs = changes.filterMap w.state.changeOf ∧ ∀ x after, (x, after) ∈ changes →
      w'.state.forest.slot x = (w.state.forest.setContents x after).slot x := by
  induction changes generalizing w cs with
  | nil =>
    cases h
    exact ⟨rfl, by simp⟩
  | cons change rest ih =>
    obtain ⟨x, after⟩ := change
    obtain ⟨hx, hnodup⟩ := List.nodup_cons.mp hnodup
    obtain ⟨u, others, hothers, rfl, hsound, hu, hframe⟩ := commitAll_cons_ok hw h
    have hkept : ∀ c ∈ rest, u.state.forest.slot c.1 = w.state.forest.slot c.1 :=
      fun c hc => hframe c.1 fun he => hx (List.mem_map.mpr ⟨c, hc, he⟩)
    obtain ⟨hreport, hleft⟩ := ih hsound hnodup hothers
    refine ⟨?_, ?_⟩
    · rw [hreport, List.filterMap_congr fun c hc => State.changeOf_congr (hkept c hc),
        List.filterMap_cons]
      cases w.state.changeOf (x, after) <;> rfl
    · intro y b hy
      rcases List.mem_cons.mp hy with hy | hy
      · cases hy
        rw [slot_commitAll_of_not_mem hsound hothers hx, hu, slot_commit hw]
      · rw [hleft y b hy, Forest.slot_setContents, Forest.slot_setContents, hkept (y, b) hy]

theorem commitAll_new (hw : w.state.Sound) (hnodup : (changes.map Prod.fst).Nodup)
    (hnew : ∀ c ∈ changes, ∃ s, w.state.forest.slot c.1 = some s ∧ s.contents ≠ c.2)
    {cs : List Change} (h : commitAll changes w = (.ok cs, w')) :
    (cs = changes.map fun c => ⟨c.1, w.state.contents c.1, c.2⟩) ∧
      ∀ c ∈ changes, w'.state.contents c.1 = c.2 := by
  obtain ⟨hreport, hleft⟩ := commitAll_ok hw hnodup h
  refine ⟨?_, fun c hc => ?_⟩
  · rw [hreport, ← List.filterMap_eq_map]
    refine List.filterMap_congr fun c hc => ?_
    obtain ⟨s, hs, hother⟩ := hnew c hc
    unfold State.changeOf
    rw [hs, Option.bind_some, if_neg hother, Function.comp_apply, State.contents_of_slot hs]
  · obtain ⟨s, hs, _⟩ := hnew c hc
    have hslot := hleft c.1 c.2 hc
    rw [Forest.slot_setContents, if_pos rfl, hs] at hslot
    exact State.contents_of_slot hslot

end CommitAll

end Step

end Stowage
