import Stowage.NodeId

/-!
# Generational storage

An arena keeps values under handles. The place of a removed value is used again under the next
generation, so that no handle is ever issued for two values. Vacated places are used last in,
first out.
-/

namespace Stowage

set_option autoImplicit false

/-- Generations count up to this number and then start again. -/
def generations : Nat := 4294967296

structure Arena.Place (α : Type) where
  generation : Nat
  value : Option α

structure Arena (α : Type) where
  places : Array (Arena.Place α)
  /-- The places without a value, the one vacated last in front. -/
  vacant : List Nat
  size : Nat

namespace Arena

variable {α : Type}

def empty : Arena α := ⟨#[], [], 0⟩

instance : Inhabited (Arena α) := ⟨empty⟩

def generationAt (a : Arena α) (i : Nat) : Nat :=
  match a.places[i]? with
  | none => 0
  | some p => p.generation

/-- The handle that the next insertion issues. The number of places is taken for an index as it is,
so an arena is meant to have no more places than 32 bits can tell apart. -/
def nextId (a : Arena α) : NodeId :=
  match a.vacant with
  | [] => ⟨a.places.size, 0⟩
  | i :: _ => ⟨i, a.generationAt i⟩

def insert (a : Arena α) (v : α) : Arena α × NodeId :=
  match a.vacant with
  | [] => (⟨a.places.push ⟨0, some v⟩, [], a.size + 1⟩, a.nextId)
  | i :: rest =>
    (⟨a.places.modify i fun p => { p with value := some v }, rest, a.size + 1⟩, a.nextId)

def insertWith (a : Arena α) (v : NodeId → α) : Arena α × NodeId := a.insert (v a.nextId)

def get? (a : Arena α) (id : NodeId) : Option α :=
  match a.places[id.index]? with
  | none => none
  | some p => if p.generation = id.generation then p.value else none

def contains (a : Arena α) (id : NodeId) : Bool := (a.get? id).isSome

/-- Drops the value under `id`; a stale handle changes nothing. -/
def remove (a : Arena α) (id : NodeId) : Arena α :=
  if a.contains id then
    ⟨a.places.modify id.index fun p => ⟨(p.generation + 1) % generations, none⟩,
      id.index :: a.vacant, a.size - 1⟩
  else a

/-- Drops the value under `id` and gives it out. -/
def take (a : Arena α) (id : NodeId) : Arena α × Option α := (a.remove id, a.get? id)

/-- Changes the value under `id`; a stale handle changes nothing. -/
def modify (a : Arena α) (id : NodeId) (change : α → α) : Arena α :=
  if a.contains id then
    { a with places := a.places.modify id.index fun p => { p with value := p.value.map change } }
  else a

end Arena

end Stowage
