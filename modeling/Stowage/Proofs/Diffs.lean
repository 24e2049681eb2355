import Stowage.Proofs.Answers
import Stowage.Proofs.Offers
import Stowage.Proofs.SlotOrders
import Stowage.Proofs.Views

/-!
# Reports are exact

What an operation on contents reports is the difference that it made: each slot once, with what it
held before and what it holds now, and no slot left out. Operations over nodes and views go through
slots that are distinct. A transaction that is reverted names each slot once if it was itself
reported for such an operation. One that a caller put together need not; its revert reports all
steps, and names a slot as often.
-/

namespace Stowage

set_option autoImplicit false

/-- The changes are the difference between two states: every slot that is not listed is the same. -/
structure State.Diff (s t : State) (changes : List Change) : Prop where
  nodup : (changes.map Change.slot).Nodup
  listed : ∀ c ∈ changes, c.before ≠ c.after ∧ ∃ slot, s.forest.slot c.slot = some slot ∧
    slot.contents = c.before ∧ t.forest.slot c.slot = some { slot with contents := c.after }
  others : ∀ x, x ∉ changes.map Change.slot → t.forest.slot x = s.forest.slot x

theorem State.Diff.contents_after {s t : State} {cs : List Change} {c : Change} (h : s.Diff t cs)
    (hc : c ∈ cs) : t.contents c.slot = c.after := by
  obtain ⟨_, slot, _, _, hslot⟩ := h.listed c hc
  rw [contents_of_slot hslot]

namespace Step
variable {α : Type} {w w' : World} {puts : List (SlotId × Option Stack)}

theorem commitAll_diff (hw : w.state.Sound) (hnodup : (puts.map Prod.fst).Nodup)
    {cs : List Change} (h : commitAll puts w = (.ok cs, w')) : w.state.Diff w'.state cs := by
  obtain ⟨rfl, hleft⟩ := commitAll_ok hw hnodup h
  refine ⟨?_, ?_, ?_⟩
  · rw [List.Nodup, List.pairwise_map] at hnodup ⊢
    refine List.pairwise_filterMap.mpr (hnodup.imp ?_)
    rintro put other hne c hc d hd he
    rw [(State.changeOf_eq_some hc).1, (State.changeOf_eq_some hd).1] at hne
    exact hne he
  · intro c hc
    obtain ⟨put, hput, hc⟩ := List.mem_filterMap.mp hc
    obtain ⟨rfl, hne, slot, hslot, hbefore⟩ := State.changeOf_eq_some hc
    refine ⟨hne, slot, hslot, hbefore, ?_⟩
    rw [hleft _ _ hput, Forest.slot_setContents, if_pos rfl, hslot]
    rfl
  · intro x hx
    by_cases hmem : x ∈ puts.map Prod.fst
    · obtain ⟨⟨y, after⟩, hput, rfl⟩ := List.mem_map.mp hmem
      have hnone : w.state.changeOf (y, after) = none := by
        refine Option.eq_none_iff_forall_not_mem.mpr fun c hc => hx ?_
        have hslot := (State.changeOf_eq_some hc).1
        exact List.mem_map.mpr
          ⟨c, List.mem_filterMap.mpr ⟨_, hput, hc⟩, (congrArg Prod.fst hslot).symm⟩
      rw [hleft y after hput, Forest.slot_setContents, if_pos rfl]
      unfold State.changeOf at hnone
      cases hs : w.state.forest.slot y with
      | none => rfl
      | some slot =>
        rw [hs] at hnone
        dsimp only [Option.bind] at hnone
        split at hnone
        · rename_i hsame
          rw [Option.map_some, ← hsame]
        · cases hnone
    · exact slot_commitAll_of_not_mem hw h hmem

/-- A step reports the difference that it makes, if it puts something into distinct slots. -/
theorem Commits.diff {report : α → List Change} {m : Step α} (h : Commits puts report m w)
    (hw : w.state.Sound) (hnodup : (puts.map Prod.fst).Nodup) {a : α} (hm : m w = (.ok a, w')) :
    w.state.Diff w'.state (report a) := by
  obtain ⟨part, hpart, u, hu, hrun⟩ := h
  rw [hm] at hrun
  rw [← hu.state_eq] at hw ⊢
  exact commitAll_diff hw (hnodup.sublist (hpart.map Prod.fst)) hrun

end Step

namespace State
variable {s : State} {order : List SlotId}

theorem planPollFrom_sublist (s : State) (order : List SlotId) (taken : Option Stack)
    (budget : Option Nat) :
    List.Sublist ((s.planPollFrom order taken budget).2.map Prod.fst) order := by
  induction order generalizing taken budget with
  | nil => exact .refl _
  | cons id rest ih =>
    unfold planPollFrom
    split
    · exact List.nil_sublist _
    · split
      · split
        · exact (ih _ _).cons_cons id
        · exact (ih _ _).cons id
      · exact (ih _ _).cons id

theorem nodup_pollPuts (horder : order.Nodup) (limit : Option Nat) :
    ((s.pollPuts order limit).map Prod.fst).Nodup := by
  have hsublist := s.planPollFrom_sublist order none limit
  unfold pollPuts planPoll
  rcases hfrom : s.planPollFrom order none limit with ⟨taken, leaves⟩
  rw [hfrom] at hsublist
  cases taken with
  | none => exact List.nodup_nil
  | some t => exact horder.sublist hsublist

theorem nodup_setPuts (s : State) (slot : SlotId) (stack : Option Stack) :
    ((s.setPuts slot stack).map Prod.fst).Nodup := by
  unfold setPuts
  cases (s.forest.slot slot).bind fun target => Step.planReplace s.env.rules target stack with
  | none => exact List.nodup_nil
  | some plan => exact List.nodup_singleton _

theorem nodup_setPutsIn (s : State) (order : List SlotId) (index : Nat) (stack : Option Stack) :
    ((s.setPutsIn order index stack).map Prod.fst).Nodup := by
  unfold setPutsIn
  cases order[index]? with
  | none => exact List.nodup_nil
  | some slot => exact s.nodup_setPuts slot stack

theorem nodup_clearPuts {node : NodeId} (h : (s.forest.slots node).Nodup) :
    ((s.clearPuts node).map Prod.fst).Nodup := by
  unfold clearPuts
  rw [List.map_map]
  change ((s.forest.slots node).map id).Nodup
  rwa [List.map_id]

theorem nodup_shiftPuts (s : State) (custom : CustomTargets) (container : NodeId) (slot : SlotId) :
    ((s.shiftPuts custom container slot).map Prod.fst).Nodup := by
  unfold shiftPuts
  cases s.containerAt container with
  | error r => exact List.nodup_nil
  | ok c =>
    dsimp only [Except.toOption, Option.bind]
    cases s.movable c slot with
    | none => exact List.nodup_nil
    | some stack =>
      refine List.nodup_cons.mpr ⟨?_, nodup_offerPuts (View.nodup_new _ _) stack⟩
      rw [offerPuts_fst]
      exact fun h => View.not_mem_without _ slot (s.planOffer_puts_subset _ stack h)

end State

theorem Transaction.backward_fst (t : Transaction) :
    t.backward.map Prod.fst = t.touched.reverse := by
  unfold backward touched
  rw [List.map_map, List.map_reverse]
  rfl

def Operation.Distinct : Operation → Prop
  | .revert t => t.touched.Nodup
  | .offerInView view _ | .offerToView view _ | .pollInView view _ | .setInView view _ _ =>
    view.Made
  | _ => True

theorem Operation.nodup_puts {op : Operation} {s : State} (hs : ∀ x, s.forest.Numbered x)
    (hop : op.Distinct) {puts : List (SlotId × Option Stack)} (h : op.puts s = some puts) :
    (puts.map Prod.fst).Nodup := by
  have hfill : ∀ x, (s.forest.fillOrder x).Nodup := fun x =>
    (hs x).filled.nodup_iff.mpr (hs x).nodup
  cases op <;> cases h
  case offer node stack => exact State.nodup_offerPuts (hfill node) stack
  case offerTo node stack => exact State.nodup_offerPuts (hfill node) stack
  case poll node limit => exact State.nodup_pollPuts (hfill node) limit
  case set slot stack => exact s.nodup_setPuts slot stack
  case setAt node index stack => exact s.nodup_setPutsIn _ index stack
  case clear node => exact State.nodup_clearPuts (hs node).nodup
  case revert t =>
    rw [t.backward_fst]
    exact List.nodup_reverse.mpr hop
  case shiftClick custom container slot => exact s.nodup_shiftPuts custom container slot
  case offerInView view stack => exact State.nodup_offerPuts (View.Made.nodup hop) stack
  case offerToView view stack => exact State.nodup_offerPuts (View.Made.nodup hop) stack
  case pollInView view limit => exact State.nodup_pollPuts (View.Made.nodup hop) limit
  case setInView view index stack => exact s.nodup_setPutsIn _ index stack

/-- What a caller may ask for who puts no transactions together. -/
def Operation.Faithful (results : List Transaction) : Operation → Prop
  | .revert t => t ∈ results
  | op => op.Distinct

/-- A run with the transactions that were reported to faithful callers. What is reported to others,
and what nobody keeps, is not listed. -/
inductive ReportedRun : List World → List Transaction → World → Prop where
  | start (env : Environment) (transport : Transport) (diagnostics : DiagnosticsOutlet) :
      ReportedRun [] [] ⟨.new env transport diagnostics, []⟩
  | step {past : List World} {results : List Transaction} {w : World} (op : Operation)
      (before : ReportedRun past results w) (faithful : op.Faithful results) :
      ReportedRun (w :: past) ((op.reported w).toList ++ results) (op.run w).2
  | stray {past : List World} {results : List Transaction} {w : World} (op : Operation)
      (before : ReportedRun past results w) : ReportedRun (w :: past) results (op.run w).2

section Run
variable {past : List World} {results : List Transaction} {w w' : World} {op : Operation}
  {t : Transaction}

theorem Run.diff (h : Run past w) (hop : op.Distinct) (hanswer : op.answer w = (.ok (some t), w')) :
    w.state.Diff w'.state t.changes := by
  obtain ⟨puts, hputs⟩ := Operation.puts_of_answer hanswer
  have hnumbered := h.sound.forest.numbered h.containersFilled
  exact (Operation.commits hputs).diff h.sound (Operation.nodup_puts hnumbered hop hputs) hanswer

theorem Operation.Faithful.distinct (h : op.Faithful results)
    (hresults : ∀ t ∈ results, t.touched.Nodup) : op.Distinct := by
  cases op
  case revert t => exact hresults t h
  all_goals exact h

theorem ReportedRun.run (h : ReportedRun past results w) : Run past w := by
  induction h with
  | start env transport diagnostics => exact .start env transport diagnostics
  | step op _ _ ih => exact .step op ih
  | stray op _ ih => exact .step op ih

/-- What was reported names every slot once, also when it reports a revert of such a report. -/
theorem ReportedRun.nodup (h : ReportedRun past results w) : ∀ t ∈ results, t.touched.Nodup := by
  induction h with
  | start env transport diagnostics =>
    intro t ht
    cases ht
  | step op before faithful ih =>
    intro t ht
    rcases List.mem_append.mp ht with ht | ht
    · have hanswer := Operation.answer_of_reported (Option.mem_toList.mp ht)
      exact (before.run.diff (faithful.distinct ih) hanswer).nodup
    · exact ih t ht
  | stray op _ ih => exact ih

/-- Whatever happened before, the report of an operation on contents is the difference that it
makes, also when it reverts a report: what was reported to faithful callers names no slot twice. -/
theorem reports_are_diffs (h : Run past w) :
    (∀ (op : Operation) (t : Transaction) (w' : World), op.Distinct →
      op.answer w = (.ok (some t), w') → w.state.Diff w'.state t.changes) ∧
    ∀ results, ReportedRun past results w → ∀ op : Operation, op.Faithful results →
      op.Distinct := by
  refine ⟨?_, ?_⟩
  · intro op t w' hop hanswer
    exact h.diff hop hanswer
  · intro results hreported op faithful
    exact faithful.distinct hreported.nodup

end Run

theorem reports_are_diffs_stacked : ∃ t w',
    (Operation.offer ⟨4, 0⟩ (.new ⟨"minecraft:apple"⟩ 100)).answer
      (World.reached Operation.stacked).2 = (.ok (some t), w') ∧
    t.touched = [⟨3, 0⟩, ⟨1, 0⟩] ∧
    (World.reached Operation.stacked).2.state.Diff w'.state t.changes := by
  have hthere : ((Operation.offer ⟨4, 0⟩ (.new ⟨"minecraft:apple"⟩ 100)).reported
      (World.reached Operation.stacked).2).any (fun t => t.touched = [⟨3, 0⟩, ⟨1, 0⟩]) = true := by
    decide +kernel
  obtain ⟨t, ht, htouched⟩ := (Option.any_eq_true _ _).mp hthere
  have hanswer := Operation.answer_of_reported ht
  exact ⟨t, _, hanswer, of_decide_eq_true htouched,
    (reports_are_diffs (Run.reached Operation.stacked)).1 (.offer ⟨4, 0⟩ _) t _ trivial hanswer⟩

section Retaken

def Transaction.twice : Transaction :=
  .ofChanges [⟨⟨0, 0⟩, some (.single ⟨"minecraft:dirt"⟩), none⟩,
    ⟨⟨0, 0⟩, some (.new ⟨"minecraft:apple"⟩ 5), none⟩] none

def Operation.retaken : List Operation := [.instantiate .anySlot Archetype.anySlot_made]

/-- The report of reverting what a caller put together can name a slot twice, and then so does the
report of reverting that report. -/
theorem revert_of_report_not_diff :
    ¬ ∀ (past : List World) (w w' : World) (op : Operation) (r t : Transaction), Run past w →
      op.reported w = some r → (Operation.revert r).answer (op.run w).2 = (.ok (some t), w') →
        (op.run w).2.state.Diff w'.state t.changes := by
  intro h
  have hrun := Run.reached Operation.retaken
  have hthere : ((Operation.revert .twice).reported (World.reached Operation.retaken).2).any
      (fun r => ((Operation.revert r).reported
        ((Operation.revert .twice).run (World.reached Operation.retaken).2).2).any
          fun t => t.touched = [⟨0, 0⟩, ⟨0, 0⟩]) = true := by decide +kernel
  obtain ⟨r, hr, hthere⟩ := (Option.any_eq_true _ _).mp hthere
  obtain ⟨t, ht, htouched⟩ := (Option.any_eq_true _ _).mp hthere
  have hnodup := (h _ _ _ _ r t hrun hr (Operation.answer_of_reported ht)).nodup
  change t.touched.Nodup at hnodup
  rw [of_decide_eq_true htouched] at hnodup
  exact (List.nodup_cons.mp hnodup).1 List.mem_cons_self

end Retaken

end Stowage
