import Stowage.Stack
import Stowage.NodeId

/-!
# Transactions

The report of a change: which slots changed, in the order in which they did, and what was handed
back.
-/

namespace Stowage

set_option autoImplicit false

/-- A slot is named by its node. -/
abbrev SlotId := NodeId

inductive Outcome where
  | success
  | partialSuccess
  | failure
deriving DecidableEq, Repr, Inhabited

def Outcome.name : Outcome → String
  | success => "Success"
  | partialSuccess => "PartialSuccess"
  | failure => "Failure"

def Outcome.all : List Outcome := [.success, .partialSuccess, .failure]

structure Change where
  slot : SlotId
  before : Option Stack
  after : Option Stack
deriving DecidableEq, Repr, Inhabited

structure Transaction where
  outcome : Outcome
  changes : List Change
  rejected : Option Stack
deriving DecidableEq, Repr, Inhabited

namespace Transaction

/-- Nothing changed, and the stack is handed back whole. -/
def failure (rejected : Option Stack) : Transaction := ⟨.failure, [], rejected⟩

def noOp : Transaction := ⟨.success, [], none⟩

/-- One change without a remainder is a success, several changes or a remainder make it partial, and
a remainder alone is a failure. -/
def outcomeOf : List Change → Option Stack → Outcome
  | [], none | [_], none => .success
  | [], some _ => .failure
  | _, _ => .partialSuccess

def ofChanges (changes : List Change) (rejected : Option Stack) : Transaction :=
  ⟨outcomeOf changes rejected, changes, rejected⟩

def isFailure (t : Transaction) : Bool := t.outcome == .failure

/-- The whole request was carried out, in one step or in many. -/
def isComplete (t : Transaction) : Bool := t.outcome != .failure && t.rejected.isNone

def touched (t : Transaction) : List SlotId := t.changes.map Change.slot

end Transaction

end Stowage
