import Stowage.View

/-!
# Shift-click

The stack in a slot of a container is moved to target slots which a behavior picks. The behavior is
that of the container's top inventory. What does not fit stays where it was.
-/

namespace Stowage

set_option autoImplicit false

/-- How behaviors that are not known here pick their target, by name, container and slot. -/
abbrev CustomTargets := String → State → NodeId → SlotId → View

namespace State

/-- From the top to the bottom inventory and back; in a resident container, away from the slots of
the parent. -/
def standardTarget (s : State) (container : NodeId) (slot : SlotId) : View :=
  match s.forest.container? container with
  | none => .empty
  | some c =>
    if c.isResident then
      let group := (s.forest.parent slot).getD slot
      (View.ofNode s.forest container).without
        (if group = c.top then [slot] else s.forest.slots group)
    else View.ofNode s.forest (if s.forest.isWithin c.top slot then c.bottom else c.top)

/-- The equipment slots that are typed for what the slot holds, in the order of the archetypes. -/
def equipmentTarget (s : State) (equipment : List ArchetypeId) (container : NodeId)
    (slot : SlotId) : View :=
  match (s.contents slot).bind fun t => s.env.rules.equipment t.kind with
  | none => .empty
  | some e =>
    let candidates := equipment.flatMap fun a => (s.search container [.archetype a]).slots
    .ofSlots (candidates.filter fun id => (s.equipmentTypes id).any fun t => t.includes e)

/-- What is moved out of the main inventory goes to fitting equipment slots first. -/
def playerTarget (s : State) (main : ArchetypeId) (equipment : List ArchetypeId)
    (container : NodeId) (slot : SlotId) : View :=
  let fallback := s.standardTarget container slot
  if (s.search container [.archetype main]).containsSlot slot then
    (s.equipmentTarget equipment container slot).union fallback
  else fallback

def target (s : State) (custom : CustomTargets) (container : NodeId) (slot : SlotId) :
    ShiftClick → View
  | .standard => s.standardTarget container slot
  | .player main equipment => s.playerTarget main equipment container slot
  | .custom name => custom name s container slot

/-- The behavior of a container is the one of its top inventory. -/
def behaviorOf (s : State) (c : Container) : ShiftClick :=
  ((s.forest.node? c.top).bind Node.shiftClick).getD .standard

end State

/-- What a shift-click moves: the contents of a bound slot other than the cursor. -/
def State.movable (s : State) (c : Container) (slot : SlotId) : Option Stack :=
  if c.binds slot && slot != c.cursor then s.contents slot else none

namespace Step

/-- Moves the stack in a slot of a container to the target. It fails when the slot is not bound, is
the cursor or is empty, or when no target takes any unit. -/
def shiftClick (custom : CustomTargets) (container : NodeId) (slot : SlotId) :
    Step (Except Refusal Transaction) := do
  let s ← state
  match s.containerAt container with
  | .error r => return .error r
  | .ok c => match s.movable c slot with
    | none => return .ok (.failure none)
    | some stack =>
      let target := (s.target custom container slot (s.behaviorOf c)).without [slot]
      let plan := s.planOffer target.slots stack
      if plan.puts.isEmpty then return .ok (.failure none)
      else do
        let changes ← commitAll
          ((slot, plan.remaining) :: plan.puts.map fun (id, after) => (id, some after))
        return .ok (.ofChanges changes none)

end Step

end Stowage
