import Stowage.Written.Items
import Stowage.Settings
import Stowage.Node

/-!
# Written forms of archetype names, container states and settings
-/

namespace Stowage

set_option autoImplicit false

open Written

def maxViewer : Nat := 18446744073709551615

/-- The least and the greatest wire index. -/
def minWire : Int := -2147483648

def maxWire : Int := 2147483647

namespace ArchetypeId

instance : Written ArchetypeId where
  write a := .record [("namespace", write a.group), ("id", write a.id)]
  read d := do
    let fields ← d.fieldsOf ["namespace", "id"] 2
    return ⟨← field fields "namespace", ← field fields "id"⟩

end ArchetypeId

namespace ArchetypeKind

def readGrid (d : Datum) : Option ArchetypeKind := do
  let fields ← d.named
  return grid (← (fields "columns").bind (readNat maxQuantity))
    (← (fields "rows").bind (readNat maxQuantity))

instance : Written ArchetypeKind where
  write
    | grid c r => .record [("Grid", .record [("columns", writeNat c), ("rows", writeNat r)])]
    | k => .text k.describe
  read
    | .record [("Grid", d)] => readGrid d
    | d => readChoice [slot, ordered] describe d

end ArchetypeKind

instance : Written NodeKind where
  write k := .text k.name
  read := readChoice NodeKind.all NodeKind.name

instance : Written Outcome where
  write o := .text o.name
  read := readChoice Outcome.all Outcome.name

instance : Written ViewerId where
  write v := writeNat v.number
  read d := (readNat maxViewer d).map ViewerId.mk

namespace WireSlot

instance : Written WireSlot where
  write w := .record [("index", .int w.index), ("contents", write w.contents)]
  read d := do
    let fields ← d.fieldsOf ["index", "contents"] 2
    return ⟨← (fields "index").bind (readInt minWire maxWire),
      ← fieldOr fields "contents" none read⟩

end WireSlot

namespace Snapshot

def fieldNames : List String := ["title", "archetype", "slots", "cursor"]

instance : Written Snapshot where
  write s := .record
    [("title", write s.title), ("archetype", write s.archetype), ("slots", write s.slots),
      ("cursor", write s.cursor)]
  read d := do
    let fields ← d.fieldsOf fieldNames 4
    return ⟨← field fields "title", ← fieldOr fields "archetype" none read, ← field fields "slots",
      ← fieldOr fields "cursor" none read⟩

end Snapshot

namespace Settings

def fieldNames : List String :=
  ["default_max_stack_size", "default_name", "isolate_listener_panics", "discard_idle_containers",
    "return_cursor_on_discard"]

/-- A field that is left out stands for the standard setting. -/
instance : Written Settings where
  write s := .record
    [("default_max_stack_size", writeNat s.defaultMaxStackSize),
      ("default_name", write s.defaultName),
      ("isolate_listener_panics", write s.isolateListenerPanics),
      ("discard_idle_containers", write s.discardIdleContainers),
      ("return_cursor_on_discard", write s.returnCursorOnDiscard)]
  read d := do
    let fields ← d.fieldsOf fieldNames 0
    return {
      defaultMaxStackSize := ← fieldOr fields "default_max_stack_size" standard.defaultMaxStackSize
        (readNat maxQuantity)
      defaultName := ← fieldOr fields "default_name" standard.defaultName read
      isolateListenerPanics := ← fieldOr fields "isolate_listener_panics"
        standard.isolateListenerPanics read
      discardIdleContainers := ← fieldOr fields "discard_idle_containers"
        standard.discardIdleContainers read
      returnCursorOnDiscard := ← fieldOr fields "return_cursor_on_discard"
        standard.returnCursorOnDiscard read }

end Settings

end Stowage
