import Stowage.Proofs.Operation
import Stowage.Proofs.Reports

/-!
# Operations that answer with a transaction

What such an operation puts into slots is made up from the state that it starts in, and its answer
reports what was changed by that.
-/

namespace Stowage

set_option autoImplicit false

/-- What an operation reports, if its answer is a transaction. -/
def Operation.answer : Operation → Step (Option Transaction)
  | .offer node stack => Step.offer node stack >>= fun t => pure (some t)
  | .offerTo node stack => Step.offerTo node stack >>= fun o => pure (some o.toTransaction)
  | .poll node limit => Step.poll node limit >>= fun r => pure (some r.2)
  | .set slot stack => Step.set slot stack >>= fun t => pure (some t)
  | .setAt node index stack => Step.setAt node index stack >>= fun t => pure (some t)
  | .clear node => Step.clear node >>= fun t => pure (some t)
  | .revert t => Step.revert t >>= fun t => pure (some t)
  | .shiftClick custom container slot =>
    Step.shiftClick custom container slot >>= fun r => pure r.toOption
  | .offerInView view stack => view.offer stack >>= fun t => pure (some t)
  | .offerToView view stack => view.offerTo stack >>= fun o => pure (some o.toTransaction)
  | .pollInView view limit => view.poll limit >>= fun r => pure (some r.2)
  | .setInView view index stack => view.setAt index stack >>= fun t => pure (some t)
  | op => op.run >>= fun _ => pure none

def Operation.reported (op : Operation) (w : World) : Option Transaction :=
  match (op.answer w).1 with
  | .ok t => t
  | .error _ => none

theorem Operation.answer_snd (op : Operation) (w : World) : (op.answer w).2 = (op.run w).2 := by
  cases op <;>
    first
    | exact Step.map_snd (Operation.run _) _ w
    | exact (Step.map_snd _ _ w).trans (Step.map_snd _ _ w).symm

theorem Operation.answer_of_reported {op : Operation} {w : World} {t : Transaction}
    (h : op.reported w = some t) : op.answer w = (.ok (some t), (op.run w).2) := by
  rw [← op.answer_snd]
  unfold reported at h
  rcases hanswer : op.answer w with ⟨r, u⟩
  rw [hanswer] at h
  cases r with
  | error e => cases h
  | ok a =>
    dsimp only at h
    rw [h]

def Transaction.changesOf (t : Option Transaction) : List Change :=
  (t.map Transaction.changes).getD []

def Operation.puts (s : State) : Operation → Option (List (SlotId × Option Stack))
  | .offer node stack | .offerTo node stack =>
    some (s.offerPuts (s.forest.fillOrder node) stack)
  | .poll node limit => some (s.pollPuts (s.forest.fillOrder node) limit)
  | .set slot stack => some (s.setPuts slot stack)
  | .setAt node index stack => some (s.setPutsIn (s.forest.slots node) index stack)
  | .clear node => some (s.clearPuts node)
  | .revert t => some t.backward
  | .shiftClick custom container slot => some (s.shiftPuts custom container slot)
  | .offerInView view stack | .offerToView view stack => some (s.offerPuts view.slots stack)
  | .pollInView view limit => some (s.pollPuts view.slots limit)
  | .setInView view index stack => some (s.setPutsIn view.slots index stack)
  | _ => none

theorem Operation.commits {op : Operation} {w : World} {puts : List (SlotId × Option Stack)}
    (h : op.puts w.state = some puts) :
    Step.Commits puts Transaction.changesOf op.answer w := by
  cases op <;> cases h
  case offer node stack => exact (Step.commits_offer node stack w).map fun _ => rfl
  case offerTo node stack => exact (Step.commits_offerTo node stack w).map fun _ => rfl
  case poll node limit => exact (Step.commits_poll node limit w).map fun _ => rfl
  case set slot stack => exact (Step.commits_set slot stack w).map fun _ => rfl
  case setAt node index stack => exact (Step.commits_setAt node index stack w).map fun _ => rfl
  case clear node => exact (Step.commits_clear node w).map fun _ => rfl
  case revert t => exact (Step.commits_revert t w).map fun _ => rfl
  case shiftClick custom container slot =>
    exact (Step.commits_shiftClick custom container slot w).map fun _ => rfl
  case offerInView view stack => exact (Step.commits_viewOffer view stack w).map fun _ => rfl
  case offerToView view stack =>
    exact (Step.commits_offerIn view.slots stack w).map fun _ => rfl
  case pollInView view limit => exact (Step.commits_pollIn view.slots limit w).map fun _ => rfl
  case setInView view index stack =>
    exact (Step.commits_setIn view.slots index stack w).map fun _ => rfl

theorem Operation.answer_of_puts_none {op : Operation} {s : State} (h : op.puts s = none) :
    op.answer = (op.run >>= fun _ => pure none) := by
  cases op <;> first | rfl | cases h

theorem Operation.puts_of_answer {op : Operation} {w w' : World} {t : Transaction}
    (h : op.answer w = (.ok (some t), w')) : ∃ puts, op.puts w.state = some puts := by
  cases hputs : op.puts w.state with
  | some puts => exact ⟨puts, rfl⟩
  | none =>
    rw [Operation.answer_of_puts_none hputs] at h
    obtain ⟨_, _, _, h⟩ := Step.bind_eq_ok h
    cases h

end Stowage
