import Stowage.Archetype.Basic
import Stowage.NodeId

/-!
# Refusals

The causes for which an archetype is not frozen and an operation is not carried out, with the
message of each.
-/

namespace Stowage

set_option autoImplicit false

/-- A part of a description that its kind of inventory does not support. -/
inductive BuilderFault where
  | structuralProperty (kind : PropertyKind)
  | slotOptions
  | slotChildren
  | gridPlacement
  | orderedPlacement
  | anonymous
  | containerChild (container : NodeId)
  | containerViewed (container : NodeId)
deriving DecidableEq, Repr, Inhabited

def BuilderFault.message : BuilderFault → String
  | structuralProperty k => s!"{k.describe} cannot be set as a property"
  | slotOptions => "filters and stack limits only apply to slots"
  | slotChildren => "slots cannot have children"
  | gridPlacement => "grid placements used on an ordered builder"
  | orderedPlacement => "ordered placement used on a grid builder"
  | anonymous => "anonymous archetypes cannot be registered"
  | containerChild c => s!"container {c.describe} cannot be a child"
  | containerViewed c => s!"container {c.describe} cannot be viewed by another container"

inductive Refusal where
  | capacityMismatch (builder archetype : String) (declared found : Nat)
  | childPosition (builder archetype : String) (position children : Nat)
  | prioritySetMismatch (archetype : String) (expected found : Nat)
  | missingFactory (archetype : String)
  | positionOccupied (archetype : String) (x y : Nat)
  | shapeMismatch (archetype child : String) (columns : Nat)
  | invalidBuilder (archetype : String) (fault : BuilderFault)
  | alreadyOwned (node : NodeId)
  | duplicateArchetype (id : ArchetypeId)
  | unknownArchetype (id : ArchetypeId)
  | unknownNode (node : NodeId)
  | notAContainer (node : NodeId)
  | inUse (node container : NodeId)
deriving DecidableEq, Repr, Inhabited

def Refusal.message : Refusal → String
  | capacityMismatch b a d f =>
    s!"Capacity mismatch in {b} builder for archetype {a}: declared {d} slots, found {f}"
  | childPosition b a p n =>
    s!"Child position {p} in {b} builder for archetype {a} is past its {n} children"
  | prioritySetMismatch a e f =>
    s!"Priority order of archetype {a} covers {f} slots, expected a permutation of {e}"
  | missingFactory a => s!"No inventory factory selected for archetype {a}"
  | positionOccupied a x y => s!"Position ({x}, {y}) of archetype {a} is already occupied"
  | shapeMismatch a c n => s!"Archetype {c} does not fit a {n} column grid in {a}"
  | invalidBuilder a f => s!"Archetype {a}: {f.message}"
  | alreadyOwned n => s!"Node {n.describe} is already owned by another inventory"
  | duplicateArchetype i => s!"Archetype already registered: {i.describe}"
  | unknownArchetype i => s!"Archetype not found: {i.describe}"
  | unknownNode n => s!"Unknown or stale node: {n.describe}"
  | notAContainer n => s!"Node {n.describe} is not a container"
  | inUse n c => s!"Node {n.describe} is still referenced by container {c.describe}"

end Stowage
