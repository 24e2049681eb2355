import Stowage.Proofs.Diffs
import Stowage.Proofs.Isolation

/-!
# Reverting what was reported

Reverting puts back what the report has from before, into slots that are distinct. Filters and
limits are not asked, and a slot that holds that already need not be changed; so every slot holds
again what it held, and what the revert reports leads forth again. A row of operations is taken back
from its end.
-/

namespace Stowage

set_option autoImplicit false

/-- Every slot holds the same in both states, and no slot is in one of them only. -/
def State.SameSlots (s t : State) : Prop := ∀ x, t.forest.slot x = s.forest.slot x

namespace Step
variable {α : Type}

def revertAll (ts : List Transaction) : Step Unit := each (fun t => (revert t).ignored) ts

/-- The step comes to its end while listeners are isolated, and at its end all slots are as they
were in the state. -/
structure Restores (m : Step α) (w : World) (s : State) : Prop where
  returns : w.state.env.settings.isolateListenerPanics = true → ∃ a w', m w = (.ok a, w')
  restored : ∀ a w', m w = (.ok a, w') → s.SameSlots w'.state

theorem Returns.restores {m : Step α} (h : m.Returns) {w : World} {s : State}
    (hrestored : ∀ a w', m w = (.ok a, w') → s.SameSlots w'.state) : m.Restores w s := by
  refine ⟨?_, hrestored⟩
  intro hisolated
  obtain ⟨a, w', hm, _⟩ := h w hisolated
  exact ⟨a, w', hm⟩

theorem returns_revert (t : Transaction) : (revert t).Returns :=
  .bind (returns_commitAll _) fun _ => .of_pure _

theorem returns_revertAll (ts : List Transaction) : (revertAll ts).Returns :=
  .each (fun t => .bind (returns_revert t) fun _ => .of_pure ()) ts

section Revert
variable {s t : State} {w w' : World} {r r' : Transaction}

/-- Wherever slots are as a report leaves them, reverting it puts back what was there before. -/
theorem revert_ok (hw : w.state.Sound) (hdiff : s.Diff t r.changes) (hsame : t.SameSlots w.state)
    (h : revert r w = (.ok r', w')) :
    s.SameSlots w'.state ∧ w.state.Diff w'.state r'.changes := by
  obtain ⟨cs, u, hcommits, h⟩ := bind_eq_ok h
  cases h
  change commitAll r.backward w = (.ok cs, w') at hcommits
  have hnodup : (r.backward.map Prod.fst).Nodup := by
    rw [r.backward_fst]
    exact List.nodup_reverse.mpr hdiff.nodup
  refine ⟨?_, commitAll_diff hw hnodup hcommits⟩
  intro x
  by_cases hx : x ∈ r.touched
  · obtain ⟨c, hc, rfl⟩ := List.mem_map.mp hx
    have hput : (c.slot, c.before) ∈ r.backward :=
      List.mem_map.mpr ⟨c, List.mem_reverse.mpr hc, rfl⟩
    obtain ⟨_, slot, hslot, hbefore, hafter⟩ := hdiff.listed c hc
    rw [(commitAll_ok hw hnodup hcommits).2 _ _ hput, Forest.slot_setContents, if_pos rfl, hsame,
      hafter, hslot, ← hbefore]
    rfl
  · have hkept : x ∉ r.backward.map Prod.fst := by
      rw [r.backward_fst]
      exact fun hmem => hx (List.mem_reverse.mp hmem)
    rw [slot_commitAll_of_not_mem hw hcommits hkept, hsame, hdiff.others x hx]

theorem revert_restores (hw : w.state.Sound) (hdiff : s.Diff t r.changes)
    (hsame : t.SameSlots w.state) : (revert r).Restores w s :=
  (returns_revert r).restores fun _ _ h => (revert_ok hw hdiff hsame h).1

theorem sound_revert (hw : w.state.Sound) (h : revert r w = (.ok r', w')) : w'.state.Sound := by
  have hkept := (tidy_revert r w hw).1.kept.sound hw
  rw [h] at hkept
  exact hkept

end Revert

end Step

/-- Operations on contents one after the other, with what was reported of them, the last report
first. -/
inductive Deeds (w : World) : List Transaction → World → Prop where
  | nothing : Deeds w [] w
  | act {done : List Transaction} {u u' : World} {t : Transaction} (op : Operation)
      (before : Deeds w done u) (distinct : op.Distinct)
      (answer : op.answer u = (.ok (some t), u')) : Deeds w (t :: done) u'

section Deeds
variable {past : List World} {done : List Transaction} {w u : World}

theorem Deeds.run (h : Deeds w done u) (hw : Run past w) : ∃ past', Run past' u := by
  induction h with
  | nothing => exact ⟨past, hw⟩
  | act op _ _ answer ih =>
    obtain ⟨past', hu⟩ := ih
    have hstep := hu.step op
    rw [← op.answer_snd, answer] at hstep
    exact ⟨_, hstep⟩

/-- Wherever slots are as the deeds leave them, taking these back from the end leads to the
start. -/
theorem Deeds.restores (h : Deeds w done u) (hw : Run past w) {v : World} (hv : v.state.Sound)
    (hsame : u.state.SameSlots v.state) : (Step.revertAll done).Restores v w.state := by
  refine (Step.returns_revertAll done).restores ?_
  intro a v' hall
  induction h generalizing v with
  | nothing =>
    cases hall
    exact hsame
  | act op before distinct answer ih =>
    obtain ⟨past', hu⟩ := before.run hw
    have hdiff := hu.diff distinct answer
    obtain ⟨_, v₁, hfirst, hrest⟩ := Step.bind_eq_ok hall
    obtain ⟨r', v₂, hrevert, hpure⟩ := Step.bind_eq_ok hfirst
    cases hpure
    exact ih (Step.sound_revert hv hrevert) (Step.revert_ok hv hdiff hsame hrevert).1 hrest

/-- Whatever happened before, reverting the report of an operation on contents restores all slots,
reverting the report of that restores what the operation left, and a row of operations is undone by
reverting their reports in reverse order. -/
theorem reverts_undo (h : Run past w) :
    (∀ (op : Operation) (r : Transaction) (u : World), op.Distinct →
      op.answer w = (.ok (some r), u) → (Step.revert r).Restores u w.state ∧
        ∀ r' v, Step.revert r u = (.ok r', v) → (Step.revert r').Restores v u.state) ∧
    ∀ done u, Deeds w done u → (Step.revertAll done).Restores u w.state := by
  refine ⟨?_, ?_⟩
  · intro op r u hop answer
    have hdiff := h.diff hop answer
    obtain ⟨past', hu⟩ := (Deeds.nothing.act op hop answer).run h
    refine ⟨Step.revert_restores hu.sound hdiff fun _ => rfl, ?_⟩
    intro r' v hrevert
    obtain ⟨_, hback⟩ := Step.revert_ok hu.sound hdiff (fun _ => rfl) hrevert
    exact Step.revert_restores (Step.sound_revert hu.sound hrevert) hback fun _ => rfl
  · intro done u hdeeds
    obtain ⟨past', hu⟩ := hdeeds.run h
    exact hdeeds.restores h hu.sound fun _ => rfl

end Deeds

theorem reverts_undo_stacked : ∃ r₁ r₂ u₁ u₂ v,
    (Operation.offer ⟨4, 0⟩ (.new ⟨"minecraft:apple"⟩ 100)).answer
      (World.reached Operation.stacked).2 = (.ok (some r₁), u₁) ∧
    (Operation.clear ⟨4, 0⟩).answer u₁ = (.ok (some r₂), u₂) ∧
    r₂.touched = [⟨1, 0⟩, ⟨3, 0⟩] ∧ Step.revertAll [r₂, r₁] u₂ = (.ok (), v) ∧
    (World.reached Operation.stacked).2.state.SameSlots v.state := by
  have hthere : ((Operation.offer ⟨4, 0⟩ (.new ⟨"minecraft:apple"⟩ 100)).reported
      (World.reached Operation.stacked).2).isSome = true := by decide +kernel
  obtain ⟨r₁, hr₁⟩ := Option.isSome_iff_exists.mp hthere
  have hfirst := Operation.answer_of_reported hr₁
  have hthere : ((Operation.clear ⟨4, 0⟩).reported
      ((Operation.offer ⟨4, 0⟩ (.new ⟨"minecraft:apple"⟩ 100)).run
        (World.reached Operation.stacked).2).2).any
      (fun t => t.touched = [⟨1, 0⟩, ⟨3, 0⟩]) = true := by decide +kernel
  obtain ⟨r₂, hr₂, htouched⟩ := (Option.any_eq_true _ _).mp hthere
  have hsecond := Operation.answer_of_reported hr₂
  have hdeeds := (Deeds.nothing.act (.offer ⟨4, 0⟩ _) trivial hfirst).act
    (.clear ⟨4, 0⟩) trivial hsecond
  have hrestores := (reverts_undo (Run.reached Operation.stacked)).2 _ _ hdeeds
  obtain ⟨_, v, hall⟩ := hrestores.returns (by decide +kernel)
  exact ⟨r₁, r₂, _, _, v, hfirst, hsecond, of_decide_eq_true htouched, hall,
    hrestores.restored _ v hall⟩

end Stowage
