import Stowage.Refusal
import Stowage.Record

/-!
# Registered archetypes

A registry keeps archetypes under their identifiers; an identifier is given away once.
-/

namespace Stowage

set_option autoImplicit false

structure Registry where
  entries : List (ArchetypeId × Archetype)
deriving Inhabited

namespace Registry

def empty : Registry := ⟨[]⟩

def get? (r : Registry) (id : ArchetypeId) : Option Archetype := r.entries.lookup id

def contains (r : Registry) (id : ArchetypeId) : Bool := (r.get? id).isSome

def size (r : Registry) : Nat := r.entries.length

def ids (r : Registry) : List ArchetypeId := r.entries.map Prod.fst

def register (r : Registry) (a : Archetype) : Except Refusal (Registry × LogRecord) :=
  match a.id with
  | none => .error (.invalidBuilder a.displayId .anonymous)
  | some id =>
    if r.contains id then .error (.duplicateArchetype id)
    else .ok (⟨r.entries ++ [(id, a)]⟩, .debug s!"Registered inventory archetype {id.describe}")

/-- Adds archetypes one after another until one is refused; those before it stay registered. -/
def registerEach (r : Registry) : List Archetype → Registry × List LogRecord × Option Refusal
  | [] => (r, [], none)
  | a :: rest => match r.register a with
    | .error e => (r, [], some e)
    | .ok (r', note) =>
      let (last, notes, refusal) := registerEach r' rest
      (last, note :: notes, refusal)

end Registry

end Stowage
