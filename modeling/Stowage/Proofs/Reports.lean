import Stowage.Container.ShiftClick
import Stowage.Proofs.Admission
import Stowage.Proofs.Commits
import Stowage.Proofs.Events

/-!
# What operations on contents write and report

Every operation on contents is one list of commits, made up from the state that it starts in, and
its report is what these commits did. While slots are legal the lists have only what the slots
admit; so the slots stay legal, and what is reported of their former contents is admitted too.
-/

namespace Stowage

set_option autoImplicit false

namespace Step

variable {α β : Type}

/-- The step commits some of the changes in the list, in their order, and answers with what was
changed. A step that does nothing commits none of them; before it commits anything it may log. -/
def Commits (puts : List (SlotId × Option Stack)) (report : α → List Change) (m : Step α)
    (w : World) : Prop :=
  ∃ part, List.Sublist part puts ∧ ∃ u, w.Mutters u ∧
    commitAll part u = ((m w).1.map report, (m w).2)

def Writes (fits : SlotId × Option Stack → Prop) (report : α → List Change) (m : Step α)
    (w : World) : Prop :=
  ∃ puts, (∀ put ∈ puts, fits put) ∧ Commits puts report m w

namespace Commits
variable {puts : List (SlotId × Option Stack)} {report : α → List Change} {m : Step α} {w : World}

theorem of_commitAll (puts : List (SlotId × Option Stack)) {answer : List Change → α}
    (hanswer : ∀ cs, report (answer cs) = cs) (w : World) :
    Commits puts report (commitAll puts >>= fun cs => pure (answer cs)) w := by
  refine ⟨puts, .refl _, w, .refl w, ?_⟩
  rcases hm : commitAll puts w with ⟨r, u⟩
  cases r with
  | error e =>
    rw [bind_of_error hm]
    rfl
  | ok cs =>
    rw [bind_of_ok hm]
    change (Except.ok cs, u) = (.ok (report (answer cs)), u)
    rw [hanswer]

theorem idle {a : α} {u : World} (h : m w = (.ok a, u)) (hu : w.Mutters u)
    (ha : report a = []) : Commits puts report m w := by
  refine ⟨[], List.nil_sublist _, u, hu, ?_⟩
  rw [h]
  change (Except.ok [], u) = (.ok (report a), u)
  rw [ha]

theorem of_pure {a : α} (ha : report a = []) (w : World) :
    Commits puts report (pure a : Step α) w := idle rfl (.refl w) ha

theorem map (h : Commits puts report m w) {answer : α → β} {report' : β → List Change}
    (hanswer : ∀ a, report' (answer a) = report a) :
    Commits puts report' (m >>= fun a => pure (answer a)) w := by
  obtain ⟨part, hpart, u, hu, hrun⟩ := h
  refine ⟨part, hpart, u, hu, hrun.trans ?_⟩
  rcases hm : m w with ⟨r, w'⟩
  cases r with
  | error e =>
    rw [bind_of_error hm]
    rfl
  | ok a =>
    rw [bind_of_ok hm]
    change (Except.ok (report a), w') = (.ok (report' (answer a)), w')
    rw [hanswer]

theorem state_bind {next : State → Step α} (h : Commits puts report (next w.state) w) :
    Commits puts report (state >>= next) w := h

theorem unlessStale {operation : String} {node : NodeId} {refused : α}
    (h : Commits puts report m w) (hrefused : report refused = []) :
    Commits puts report (unlessStale operation node refused m) w := by
  refine .state_bind ?_
  split
  · exact h
  · exact idle rfl ⟨_, rfl, rfl⟩ hrefused

end Commits

end Step

namespace State

def pollPuts (s : State) (order : List SlotId) (limit : Option Nat) :
    List (SlotId × Option Stack) :=
  ((s.planPoll order limit).map PollPlan.leaves).getD []

def setPuts (s : State) (slot : SlotId) (stack : Option Stack) : List (SlotId × Option Stack) :=
  (((s.forest.slot slot).bind fun target => Step.planReplace s.env.rules target stack).map
    fun plan => (slot, plan.after)).toList

def setPutsIn (s : State) (order : List SlotId) (index : Nat) (stack : Option Stack) :
    List (SlotId × Option Stack) :=
  (order[index]?.map fun slot => s.setPuts slot stack).getD []

def clearPuts (s : State) (node : NodeId) : List (SlotId × Option Stack) :=
  (s.forest.slots node).map fun slot => (slot, none)

def shiftTarget (s : State) (custom : CustomTargets) (container : NodeId) (slot : SlotId)
    (c : Container) : List SlotId :=
  ((s.target custom container slot (s.behaviorOf c)).without [slot]).slots

def shiftPuts (s : State) (custom : CustomTargets) (container : NodeId) (slot : SlotId) :
    List (SlotId × Option Stack) :=
  (((s.containerAt container).toOption.bind fun c => (s.movable c slot).map fun stack =>
    (slot, (s.planOffer (s.shiftTarget custom container slot c) stack).remaining) ::
      s.offerPuts (s.shiftTarget custom container slot c) stack)).getD []

end State

def Transaction.backward (t : Transaction) : List (SlotId × Option Stack) :=
  t.changes.reverse.map fun c => (c.slot, c.before)

namespace Step

section Commits

theorem commits_offerIn (order : List SlotId) (stack : Stack) (w : World) :
    Commits (w.state.offerPuts order stack) Offered.changes (offerIn order stack) w :=
  .of_commitAll (w.state.offerPuts order stack) (fun _ => rfl) w

theorem commits_offerTo (node : NodeId) (stack : Stack) (w : World) :
    Commits (w.state.offerPuts (w.state.forest.fillOrder node) stack) Offered.changes
      (offerTo node stack) w := .unlessStale (commits_offerIn _ stack w) rfl

theorem commits_offer (node : NodeId) (stack : Stack) (w : World) :
    Commits (w.state.offerPuts (w.state.forest.fillOrder node) stack) Transaction.changes
      (offer node stack) w := (commits_offerTo node stack w).map fun _ => rfl

theorem commits_viewOffer (v : View) (stack : Stack) (w : World) :
    Commits (w.state.offerPuts v.slots stack) Transaction.changes (v.offer stack) w :=
  (commits_offerIn v.slots stack w).map fun _ => rfl

theorem commits_pollIn (order : List SlotId) (limit : Option Nat) (w : World) :
    Commits (w.state.pollPuts order limit) (fun r => r.2.changes) (pollIn order limit) w := by
  refine .state_bind ?_
  unfold State.pollPuts
  cases w.state.planPoll order limit with
  | none => exact .of_pure rfl w
  | some plan => exact .of_commitAll plan.leaves (fun _ => rfl) w

theorem commits_poll (node : NodeId) (limit : Option Nat) (w : World) :
    Commits (w.state.pollPuts (w.state.forest.fillOrder node) limit) (fun r => r.2.changes)
      (poll node limit) w := .unlessStale (commits_pollIn _ limit w) rfl

theorem commits_set (slot : SlotId) (stack : Option Stack) (w : World) :
    Commits (w.state.setPuts slot stack) Transaction.changes (set slot stack) w := by
  refine .unlessStale (.state_bind ?_) rfl
  unfold State.setPuts
  cases (w.state.forest.slot slot).bind fun target =>
      planReplace w.state.env.rules target stack with
  | none => exact .of_pure rfl w
  | some plan => exact .of_commitAll [(slot, plan.after)] (fun _ => rfl) w

theorem commits_setIn (order : List SlotId) (index : Nat) (stack : Option Stack) (w : World) :
    Commits (w.state.setPutsIn order index stack) Transaction.changes (setIn order index stack)
      w := by
  unfold setIn State.setPutsIn
  cases order[index]? with
  | none => exact .of_pure rfl w
  | some slot => exact commits_set slot stack w

theorem commits_setAt (node : NodeId) (index : Nat) (stack : Option Stack) (w : World) :
    Commits (w.state.setPutsIn (w.state.forest.slots node) index stack) Transaction.changes
      (setAt node index stack) w := commits_setIn _ index stack w

theorem commits_clear (node : NodeId) (w : World) :
    Commits (w.state.clearPuts node) Transaction.changes (clear node) w :=
  .of_commitAll (w.state.clearPuts node) (fun _ => rfl) w

theorem commits_revert (t : Transaction) (w : World) :
    Commits t.backward Transaction.changes (revert t) w :=
  .of_commitAll t.backward (fun _ => rfl) w

theorem commits_shiftClick (custom : CustomTargets) (container : NodeId) (slot : SlotId)
    (w : World) : Commits (w.state.shiftPuts custom container slot)
      (fun r => (r.toOption.map Transaction.changes).getD [])
      (shiftClick custom container slot) w := by
  refine .state_bind ?_
  unfold State.shiftPuts
  cases w.state.containerAt container with
  | error r => exact .of_pure rfl w
  | ok c =>
    dsimp only [Except.toOption, Option.bind]
    cases w.state.movable c slot with
    | none => exact .of_pure rfl w
    | some stack =>
      dsimp only [Option.map, Option.getD]
      split
      · exact .of_pure rfl w
      · exact .of_commitAll ((slot, _) :: w.state.offerPuts _ stack) (fun _ => rfl) w

end Commits

end Step

namespace State
variable {own : SlotId → Prop} {s : State}

theorem offerPuts_takes (s : State) (order : List SlotId) (stack : Stack) :
    ∀ put ∈ s.offerPuts order stack, s.Takes own put := by
  intro put hput
  obtain ⟨p, hp, rfl⟩ := List.mem_map.mp hput
  exact s.planOffer_admits order stack p hp

theorem pollPuts_takes (h : s.Legal own) (order : List SlotId) (limit : Option Nat) :
    ∀ put ∈ s.pollPuts order limit, s.Takes own put := by
  unfold pollPuts
  cases hplan : s.planPoll order limit with
  | none => simp
  | some plan => exact planPoll_takes h order limit hplan

theorem setPuts_takes (s : State) (slot : SlotId) (stack : Option Stack) :
    ∀ put ∈ s.setPuts slot stack, s.Takes own put := by
  intro put hput
  obtain ⟨plan, hplan, rfl⟩ := Option.map_eq_some_iff.mp (Option.mem_toList.mp hput)
  obtain ⟨target, htarget, hplan⟩ := Option.bind_eq_some_iff.mp hplan
  intro live a hlive ha
  change s.forest.slot slot = some live at hlive
  rw [htarget] at hlive
  cases hlive
  cases stack with
  | none =>
    cases hplan
    cases ha
  | some t => exact Slot.planSet_admits hplan ha

theorem setPutsIn_takes (s : State) (order : List SlotId) (index : Nat) (stack : Option Stack) :
    ∀ put ∈ s.setPutsIn order index stack, s.Takes own put := by
  unfold setPutsIn
  cases order[index]? with
  | none => simp
  | some slot => exact s.setPuts_takes slot stack

theorem clearPuts_takes (s : State) (node : NodeId) :
    ∀ put ∈ s.clearPuts node, s.Takes own put := by
  intro put hput
  obtain ⟨x, _, rfl⟩ := List.mem_map.mp hput
  exact s.takes_none x

theorem shiftPuts_takes (h : s.Legal own) (custom : CustomTargets) (container : NodeId)
    (slot : SlotId) : ∀ put ∈ s.shiftPuts custom container slot, s.Takes own put := by
  unfold shiftPuts
  cases s.containerAt container with
  | error r => simp [Except.toOption]
  | ok c =>
    dsimp only [Except.toOption, Option.bind]
    cases hmovable : s.movable c slot with
    | none => simp
    | some stack =>
      dsimp only [Option.map, Option.getD]
      intro put hput
      rcases List.mem_cons.mp hput with hput | hput
      · rw [hput]
        intro live rest hlive hrest
        change s.forest.slot slot = some live at hlive
        have hheld : live.contents = some stack := by
          unfold movable at hmovable
          split at hmovable
          · rw [← contents_of_slot hlive]
            exact hmovable
          · cases hmovable
        have hadmits : live.Admits (own slot) s.env.rules stack := (h _ _ hlive).held hheld
        exact hadmits.part (s.planOffer_remaining _ hadmits.positive hrest)
      · exact s.offerPuts_takes _ stack put hput

end State

namespace Step

variable {α : Type}

section Legal
variable {own : SlotId → Prop} {w w' : World} {report : α → List Change} {m : Step α}

theorem legal_commit (hw : w.state.Sound) (hl : w.state.Legal own) {x : SlotId}
    {after : Option Stack} (h : w.state.Takes own (x, after)) :
    (commit x after w).2.state.Legal own := by
  intro y slot hslot
  rw [(tidy_commit x after w hw).1.kept.env]
  rw [slot_commit hw, Forest.slot_setContents] at hslot
  split at hslot
  · rename_i hy
    subst hy
    obtain ⟨live, hlive, rfl⟩ := Option.map_eq_some_iff.mp hslot
    exact (hl _ _ hlive).put fun t ht => h live t hlive ht
  · exact hl _ _ hslot

theorem legal_commitAll (hw : w.state.Sound) (hl : w.state.Legal own)
    {puts : List (SlotId × Option Stack)} (h : ∀ put ∈ puts, w.state.Takes own put) :
    (commitAll puts w).2.state.Legal own := by
  intro y slot hslot
  rw [(tidy_commitAll puts w hw).1.kept.env]
  obtain ⟨live, hlive, hsame, hcase⟩ := slot_commitAll hw hslot
  rw [hsame]
  refine (hl _ _ hlive).put ?_
  intro t ht
  rcases hcase with hold | hlisted
  · exact (hl _ _ hlive).held (hold ▸ ht)
  · exact h _ hlisted live t hlive ht

theorem Writes.legal (h : Writes (w.state.Takes own) report m w) (hw : w.state.Sound)
    (hl : w.state.Legal own) : (m w).2.state.Legal own := by
  obtain ⟨puts, hputs, part, hpart, u, hu, hrun⟩ := h
  rw [← hu.state_eq] at hw hl hputs
  have hlegal := legal_commitAll hw hl fun put hput => hputs put (hpart.subset hput)
  rw [hrun] at hlegal
  exact hlegal

theorem Writes.reported (h : Writes (w.state.Takes own) report m w) (hw : w.state.Sound)
    (hl : w.state.Legal own) {a : α} (hm : m w = (.ok a, w')) {c : Change} (hc : c ∈ report a)
    {t : Stack} (ht : c.before = some t) :
    ∃ slot, w.state.forest.slot c.slot = some slot ∧
      slot.Admits (own c.slot) w.state.env.rules t := by
  obtain ⟨puts, hputs, part, hpart, u, hu, hrun⟩ := h
  rw [← hu.state_eq] at hw hl hputs ⊢
  rw [hm] at hrun
  obtain ⟨slot, hslot, hcase⟩ := commitAll_changes hw hrun hc
  refine ⟨slot, hslot, ?_⟩
  rcases hcase with hheld | hlisted
  · exact (hl _ _ hslot).held (hheld ▸ ht)
  · exact hputs _ (hpart.subset hlisted) slot t hslot ht

end Legal

end Step

end Stowage
