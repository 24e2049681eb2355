import Stowage.Proofs.Archetype.Made

/-!
# What the calls of a builder record

A description is begun anew, as rows or from an archetype, and written by calls. Of the calls that
say the same thing the last one counts, children stand in the order in which they were put, and of
the wrong calls the first one is remembered.
-/

namespace Stowage

set_option autoImplicit false

namespace Builder

inductive Start where
  | unset
  | rows (columns : Nat)
  | ofArchetype (a : Archetype)

def Start.builder : Start → Builder
  | .unset => .unset
  | .rows columns => .rows columns
  | .ofArchetype a => .ofArchetype a

def Start.Made : Start → Prop
  | .ofArchetype a => a.Made
  | _ => True

inductive Call where
  | kind (k : ArchetypeKind)
  | name (key : String)
  | property (kind : PropertyKind) (value : PropertyValue)
  | propertyKeyed (kind : PropertyKind) (key : String) (value : PropertyValue)
  | filter (f : Filter)
  | maxStackSize (n : Nat)
  | equipment (e : Equipment)
  | capacity (n : Nat)
  | add (a : Archetype) (priority : Int)
  | addFirst (a : Archetype) (priority : Int)
  | insert (position : Nat) (a : Archetype) (priority : Int)
  | cell (x y : Nat) (a : Archetype)
  | row (y : Nat) (a : Archetype) (priority : Int)
  | subGrid (y : Nat) (a : Archetype) (priority : Int)
  | childProperty (position : Nat) (kind : PropertyKind) (value : PropertyValue)
  | fillOrder (order : List Nat)
  | shiftClick (behavior : ShiftClick)

namespace Call

def apply (b : Builder) : Call → Builder
  | .kind k => b.kind k
  | .name key => b.name key
  | .property k value => b.property k value
  | .propertyKeyed k key value => b.propertyKeyed k key value
  | .filter f => b.filter f
  | .maxStackSize n => b.maxStackSize n
  | .equipment e => b.equipment e
  | .capacity n => b.capacity n
  | .add a priority => b.add a priority
  | .addFirst a priority => b.addFirst a priority
  | .insert position a priority => b.insert position a priority
  | .cell x y a => b.cell x y a
  | .row y a priority => b.row y a priority
  | .subGrid y a priority => b.subGrid y a priority
  | .childProperty position k value => b.childProperty position k value
  | .fillOrder order => b.fillOrder order
  | .shiftClick behavior => b.shiftClick behavior

def Made : Call → Prop
  | .add a _ | .addFirst a _ | .insert _ a _ | .cell _ _ a | .row _ a _ | .subGrid _ a _ => a.Made
  | _ => True

def kind? : Call → Option ArchetypeKind
  | .kind k => some k
  | _ => none

def filter? : Call → Option Filter
  | .filter f => some f
  | .equipment e => some (.equipment e)
  | _ => none

def limit? : Call → Option Nat
  | .maxStackSize n => some (max n 1)
  | _ => none

def capacity? : Call → Option Nat
  | .capacity n => some n
  | _ => none

def order? : Call → Option (List Nat)
  | .fillOrder order => some order
  | _ => none

/-- What is wrong with the call after this many children were put. -/
def misuse? (placed : Nat) : Call → Option Misuse
  | .property k _ | .propertyKeyed k _ _ =>
    if k.isStructural then some (.structuralProperty k) else none
  | .insert position _ _ =>
    if placed < position then some (.childPosition position placed) else none
  | .childProperty position _ _ =>
    if placed ≤ position then some (.childPosition position placed) else none
  | _ => none

def arrange (placed : List (Placement × Int × Archetype)) :
    Call → List (Placement × Int × Archetype)
  | .add a priority => placed ++ [(.inOrder, priority, a)]
  | .addFirst a priority => (.inOrder, priority, a) :: placed
  | .insert position a priority => placed.insertIdx position (.inOrder, priority, a)
  | .cell x y a => placed ++ [(.cell x y, defaultPriority, a)]
  | .row y a priority => placed ++ [(.row y, priority, a)]
  | .subGrid y a priority => placed ++ [(.subGrid y, priority, a)]
  | _ => placed

end Call

def written (start : Start) (calls : List Call) : Builder := calls.foldl Call.apply start.builder

def pieces (b : Builder) : List (Placement × Int × Archetype) :=
  b.children.map fun c => (c.1.placement, c.1.priority, c.2)

def firstMisuse (placed : List (Placement × Int × Archetype)) : List Call → Option Misuse
  | [] => none
  | c :: rest => (c.misuse? placed.length).or (firstMisuse (c.arrange placed) rest)

/-- What the calls said, as far as freezing asks for it. -/
structure Records (start : Builder) (calls : List Call) (b : Builder) : Prop where
  kind : b.draft.kind = (calls.filterMap Call.kind?).getLast?.or start.draft.kind
  inferRows : b.draft.inferRows = start.draft.inferRows
  filter : b.draft.filter = (calls.filterMap Call.filter?).getLast?.or start.draft.filter
  maxStackSize : b.draft.maxStackSize =
    (calls.filterMap Call.limit?).getLast?.or start.draft.maxStackSize
  capacity : b.draft.declaredCapacity =
    (calls.filterMap Call.capacity?).getLast?.or start.draft.declaredCapacity
  fillOrder : b.draft.fillOrder = (calls.filterMap Call.order?).getLast?.or start.draft.fillOrder
  misuse : b.draft.misuse = start.draft.misuse.or (firstMisuse start.pieces calls)
  children : b.pieces = calls.foldl Call.arrange start.pieces

structure Call.Records (c : Call) (b d : Builder) : Prop where
  kind : d.draft.kind = c.kind?.or b.draft.kind
  inferRows : d.draft.inferRows = b.draft.inferRows
  filter : d.draft.filter = c.filter?.or b.draft.filter
  maxStackSize : d.draft.maxStackSize = c.limit?.or b.draft.maxStackSize
  capacity : d.draft.declaredCapacity = c.capacity?.or b.draft.declaredCapacity
  fillOrder : d.draft.fillOrder = c.order?.or b.draft.fillOrder
  misuse : d.draft.misuse = b.draft.misuse.or (c.misuse? b.pieces.length)
  children : d.pieces = c.arrange b.pieces

section Step
variable (b : Builder) (m : Misuse)

end Step

theorem Start.Made.written {start : Start} (h : start.Made) : start.builder.Written := by
  cases start with
  | unset => exact .unset
  | rows columns => exact .rows columns
  | ofArchetype a => exact .ofArchetype h

theorem Written.apply {b : Builder} (h : b.Written) {c : Call} (hc : c.Made) :
    (c.apply b).Written := by
  cases c with
  | kind k => exact .kind k h
  | name key => exact .name key h
  | property k value => exact .propertyKeyed k defaultKey value h
  | propertyKeyed k key value => exact .propertyKeyed k key value h
  | filter f => exact .filter f h
  | maxStackSize n => exact .maxStackSize n h
  | equipment e => exact .filter _ (.propertyKeyed _ _ _ h)
  | capacity n => exact .capacity n h
  | add a priority => exact .place _ _ h hc
  | addFirst a priority => exact .insert 0 _ h hc
  | insert position a priority => exact .insert position _ h hc
  | cell x y a => exact .place _ _ h hc
  | row y a priority => exact .place _ _ h hc
  | subGrid y a priority => exact .place _ _ h hc
  | childProperty position k value => exact .childProperty position k value h
  | fillOrder order => exact .fillOrder order h
  | shiftClick behavior => exact .shiftClick behavior h

end Builder

end Stowage
