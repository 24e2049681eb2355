import Stowage.Proofs.Answers
import Stowage.Proofs.FixedShapes
import Stowage.Proofs.Legality
import Stowage.Proofs.Lifetimes

/-!
# Slots stay legal throughout a run

A caller is honest who reverts only what was reported to it. What a report says of the former
contents of a slot was admitted there, and a slot that is still live has its filter and limit still;
so reverting writes nothing that the slot does not admit, and all slots stay legal. A slot that was
made later under the handle of one that went is another slot: reports of the one are no reports of
the other, and a report goes astray when it is reverted on a slot that it is not of.
-/

namespace Stowage

set_option autoImplicit false

/-- What a caller may ask for. Limits are quantities, and only what was reported is reverted. -/
def Operation.Honest (results : List (List World × Transaction)) : Operation → Prop
  | .instantiate a _ => a.InRange
  | .instantiateId r id _ => ∀ a, r.get? id = some a → a.InRange
  | .revert t => ∃ origin, (origin, t) ∈ results
  | _ => True

/-- The slot has been live ever since a report of the transaction was asked for. -/
def Reports (run : List World) (results : List (List World × Transaction)) (t : Transaction)
    (x : SlotId) : Prop :=
  ∃ origin later, (origin, t) ∈ results ∧ run = later ++ origin ∧
    ∀ u ∈ later, u.state.forest.contains x = true

/-- The operation reverts on the slot what was not reported of it, but of an earlier one whose
handle it has. -/
def Operation.Astray (past : List World) (results : List (List World × Transaction)) (w : World)
    (x : SlotId) : Operation → Prop
  | .revert t => w.state.forest.contains x = true ∧ (∃ c ∈ t.changes, c.slot = x) ∧
      ¬ Reports (w :: past) results t x
  | _ => False

/-- A run of an honest caller, together with all that was reported so far and with the slots on
which a report went astray. Each report is kept with the run up to the world in which it was asked
for. -/
inductive HonestRun :
    List World → List (List World × Transaction) → (SlotId → Prop) → World → Prop where
  | start (env : Environment) (transport : Transport) (diagnostics : DiagnosticsOutlet)
      (limit : env.settings.defaultMaxStackSize ≤ maxQuantity) :
      HonestRun [] [] (fun _ => False) ⟨.new env transport diagnostics, []⟩
  | step {past : List World} {results : List (List World × Transaction)} {strays : SlotId → Prop}
      {w : World} (op : Operation) (before : HonestRun past results strays w)
      (honest : op.Honest results) :
      HonestRun (w :: past) ((op.reported w).toList.map (w :: past, ·) ++ results)
        (fun x => strays x ∨ op.Astray past results w x) (op.run w).2

section Honest
variable {past : List World} {results : List (List World × Transaction)} {strays : SlotId → Prop}
    {w : World} {origin : List World} {t : Transaction} {x : SlotId}

theorem HonestRun.run (h : HonestRun past results strays w) : Run past w := by
  induction h with
  | start env transport diagnostics _ => exact .start env transport diagnostics
  | step op _ _ ih => exact .step op ih

theorem HonestRun.limit (h : HonestRun past results strays w) :
    w.state.env.settings.defaultMaxStackSize ≤ maxQuantity := by
  induction h with
  | start env transport diagnostics limit => exact limit
  | step op before _ ih =>
    rw [(op.advances before.run.sound).env]
    exact ih

end Honest

section Operation
variable {past : List World} {results : List (List World × Transaction)}
    {own strays : SlotId → Prop} {w : World}

theorem Operation.silent {α : Type} {op : Operation} {m : Step α}
    (hanswer : op.answer = (op.run >>= fun _ => pure none)) (hrun : op.run = m.ignored)
    (hl : (m w).2.state.Legal own) :
    op.reported w = none ∧ (op.run w).2.state.Legal own := by
  constructor
  · unfold reported
    rw [hanswer]
    rcases hm : op.run w with ⟨r, u⟩
    cases r with
    | error e => rw [Step.bind_of_error hm]
    | ok a =>
      rw [Step.bind_of_ok hm]
      rfl
  · rw [hrun, Step.ignored, Step.map_snd]
    exact hl

/-- An operation writes what the slots take and reports it, or leaves legal slots behind and has
nothing to report. -/
theorem Operation.writes (op : Operation) (hw : w.state.Sound) (hl : w.state.Legal own)
    (hlimit : w.state.env.settings.defaultMaxStackSize ≤ maxQuantity) (honest : op.Honest results)
    (hreverts : ∀ t, op = .revert t → ∀ c ∈ t.changes, w.state.Takes own (c.slot, c.before)) :
    Step.Writes (w.state.Takes own) Transaction.changesOf op.answer w ∨
      op.reported w = none ∧ (op.run w).2.state.Legal own := by
  cases op with
  | instantiate a made =>
    exact Or.inr (Operation.silent rfl rfl (Step.legal_instantiate hw hl hlimit made honest))
  | instantiateId r id made =>
    exact Or.inr (Operation.silent rfl rfl (Step.legal_instantiateId hw hl hlimit made honest))
  | compose children => exact Or.inr (Operation.silent rfl rfl (Step.legal_compose hw hl children))
  | createContainer top bottom =>
    exact Or.inr (Operation.silent rfl rfl (Step.legal_createContainer hw hl hlimit top bottom))
  | openContainer container v =>
    exact Or.inr (Operation.silent rfl rfl (Step.legal_openContainer hw hl container v))
  | close v => exact Or.inr (Operation.silent rfl rfl (Step.lawful_close hw hl v).legal)
  | remove node => exact Or.inr (Operation.silent rfl rfl (Step.legal_remove hw hl node))
  | offer node stack =>
    exact Or.inl ⟨_, w.state.offerPuts_takes _ stack, Operation.commits rfl⟩
  | offerTo node stack =>
    exact Or.inl ⟨_, w.state.offerPuts_takes _ stack, Operation.commits rfl⟩
  | poll node limit => exact Or.inl ⟨_, State.pollPuts_takes hl _ limit, Operation.commits rfl⟩
  | set slot stack => exact Or.inl ⟨_, w.state.setPuts_takes slot stack, Operation.commits rfl⟩
  | setAt node index stack =>
    exact Or.inl ⟨_, w.state.setPutsIn_takes _ index stack, Operation.commits rfl⟩
  | clear node => exact Or.inl ⟨_, w.state.clearPuts_takes node, Operation.commits rfl⟩
  | revert t =>
    refine Or.inl ⟨_, ?_, Operation.commits rfl⟩
    intro put hput
    obtain ⟨c, hc, rfl⟩ := List.mem_map.mp hput
    exact hreverts t rfl c (List.mem_reverse.mp hc)
  | shiftClick custom container slot =>
    exact Or.inl ⟨_, State.shiftPuts_takes hl custom container slot, Operation.commits rfl⟩
  | offerInView view stack =>
    exact Or.inl ⟨_, w.state.offerPuts_takes _ stack, Operation.commits rfl⟩
  | offerToView view stack =>
    exact Or.inl ⟨_, w.state.offerPuts_takes _ stack, Operation.commits rfl⟩
  | pollInView view limit =>
    exact Or.inl ⟨_, State.pollPuts_takes hl _ limit, Operation.commits rfl⟩
  | setInView view index stack =>
    exact Or.inl ⟨_, w.state.setPutsIn_takes _ index stack, Operation.commits rfl⟩
  | onSlotChange node react =>
    exact Or.inr (Operation.silent rfl rfl (Step.legal_onSlotChange hl node react))
  | onView container react =>
    exact Or.inr (Operation.silent rfl rfl (Step.legal_onView hl container react))
  | onClose container react =>
    exact Or.inr (Operation.silent rfl rfl (Step.legal_onClose hl container react))
  | removeListener l =>
    exact Or.inr (@Operation.silent _ w _ _ (Step.removeListener l) rfl rfl hl)
  | setTransport t =>
    exact Or.inr (@Operation.silent _ w _ _ (Step.setTransport t) rfl rfl hl)
  | setDiagnostics d =>
    exact Or.inr (@Operation.silent _ w _ _ (Step.setDiagnostics d) rfl rfl hl)

def Vouched (results : List (List World × Transaction)) (own : SlotId → Prop) : Prop :=
  ∀ origin t, (origin, t) ∈ results → ∀ c ∈ t.changes, ∀ b, c.before = some b →
    ∃ u before slot, origin = u :: before ∧ u.state.forest.slot c.slot = some slot ∧
      slot.Admits (own c.slot) u.state.env.rules b

theorem Vouched.admits (hv : Vouched results own) (h : HonestRun past results strays w)
    {t : Transaction} {c : Change} (hc : c ∈ t.changes)
    (hreports : Reports (w :: past) results t c.slot) {slot : Slot} {b : Stack}
    (hslot : w.state.forest.slot c.slot = some slot) (hb : c.before = some b) :
    slot.Admits (own c.slot) w.state.env.rules b := by
  obtain ⟨origin, later, hr, hrun, hlive⟩ := hreports
  obtain ⟨u, before, old, rfl, hold, hadmits⟩ := hv origin t hr c hc b hb
  have hmem : u ∈ w :: past := by
    rw [hrun]
    exact List.mem_append_right later List.mem_cons_self
  have hlives : LivesSince (w :: past) u c.slot := by
    refine ⟨later, before, hrun, fun v hv => ?_⟩
    rcases List.mem_cons.mp hv with rfl | hv
    · exact Forest.contains_of_slot hold
    · exact hlive v hv
  obtain ⟨same, hagain, hfilter, hlimit⟩ :=
    Forest.slot_of_bareContent (h.run.remains hlives).bareContent hslot
  rw [hold] at hagain
  cases hagain
  rw [h.run.env hmem] at hadmits
  exact hadmits.congr hfilter hlimit

/-- What is reverted has some units, and goes into slots that admit it or goes astray. -/
theorem Vouched.takes (hv : Vouched results own) (h : HonestRun past results strays w)
    {t : Transaction} (honest : (Operation.revert t).Honest results)
    (hown : ∀ x, own x → ¬ (Operation.revert t).Astray past results w x) :
    ∀ c ∈ t.changes, w.state.Takes own (c.slot, c.before) := by
  intro c hc slot b hslot hb
  obtain ⟨origin, hr⟩ := honest
  obtain ⟨u, before, old, _, _, hadmits⟩ := hv origin t hr c hc b hb
  have hsame : own c.slot → slot.Admits (own c.slot) w.state.env.rules b := by
    intro hx
    refine hv.admits h hc ?_ hslot hb
    by_contra hreports
    exact hown _ hx ⟨Forest.contains_of_slot hslot, ⟨c, hc, rfl⟩, hreports⟩
  exact ⟨hadmits.positive, fun hx => (hsame hx).within hx, fun hx => (hsame hx).accepted hx⟩

theorem Vouched.mono (hv : Vouched results own) {p : SlotId → Prop} (hp : ∀ x, p x → own x) :
    Vouched results p := by
  intro origin t hr c hc b hb
  obtain ⟨u, before, slot, horigin, hslot, hadmits⟩ := hv origin t hr c hc b hb
  exact ⟨u, before, slot, horigin, hslot, hadmits.mono (hp _)⟩

theorem HonestRun.legal (h : HonestRun past results strays w) :
    w.state.Legal (fun x => ¬ strays x) ∧ Vouched results fun x => ¬ strays x := by
  induction h with
  | start env transport diagnostics _ =>
    refine ⟨?_, ?_⟩
    · intro x slot hslot
      simp [State.new, Forest.slot, Forest.node?_empty] at hslot
    · intro origin t hr
      cases hr
  | @step past results strays w op before honest ih =>
    have hw := before.run.sound
    have hown : ∀ x, ¬ (strays x ∨ op.Astray past results w x) → ¬ strays x :=
      fun x hx => (not_or.mp hx).1
    have hl := ih.1.mono hown
    have hv := ih.2.mono hown
    have hreverts : ∀ t, op = .revert t → ∀ c ∈ t.changes,
        w.state.Takes (fun x => ¬ (strays x ∨ op.Astray past results w x)) (c.slot, c.before) := by
      rintro t rfl
      exact hv.takes before honest fun x hx => (not_or.mp hx).2
    rcases op.writes hw hl before.limit honest hreverts with hwrites | ⟨hnone, hlegal⟩
    · refine ⟨?_, ?_⟩
      · have hlegal := hwrites.legal hw hl
        rwa [op.answer_snd] at hlegal
      · intro origin t hr c hc b hb
        rcases List.mem_append.mp hr with hnew | hold
        · obtain ⟨_, hreported, heq⟩ := List.mem_map.mp hnew
          cases heq
          have hanswer := Operation.answer_of_reported (Option.mem_toList.mp hreported)
          obtain ⟨slot, hslot, hadmits⟩ := hwrites.reported hw hl hanswer hc hb
          exact ⟨w, past, slot, rfl, hslot, hadmits⟩
        · exact hv origin t hold c hc b hb
    · refine ⟨hlegal, ?_⟩
      intro origin t hr
      rw [hnone] at hr
      exact hv origin t hr

end Operation

section Undone

end Undone

end Stowage
