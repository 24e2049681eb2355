import Stowage.Equipment
import Stowage.Text.Quoted

/-!
# Properties

Values that describe an inventory, by kind and key. A store lists its entries in key order, so that
all values of a kind come in key order too, and the default key, which is empty, comes first.
-/

namespace Stowage

set_option autoImplicit false

inductive PropertyKind where
  | title
  | capacity
  | slotIndex
  | slotPosition
  | equipmentSlot
  | armorSlot
  | custom (name : String)
deriving DecidableEq, Repr, Inhabited

inductive PropertyValue where
  | int (n : Int)
  | bool (b : Bool)
  | text (s : String)
  | position (x y : Nat)
  | equipment (e : Equipment)
deriving DecidableEq, Repr, Inhabited

namespace PropertyKind

/-- Structural properties follow from the shape and cannot be set. -/
def isStructural : PropertyKind → Bool
  | capacity | slotIndex | slotPosition => true
  | _ => false

def describe : PropertyKind → String
  | title => "Title"
  | capacity => "Capacity"
  | slotIndex => "SlotIndex"
  | slotPosition => "SlotPosition"
  | equipmentSlot => "EquipmentSlot"
  | armorSlot => "ArmorSlot"
  | custom n => s!"Custom({Text.quoted n})"

end PropertyKind

namespace PropertyValue

def int? : PropertyValue → Option Int
  | int n => some n
  | _ => none

def bool? : PropertyValue → Option Bool
  | bool b => some b
  | _ => none

def text? : PropertyValue → Option String
  | text s => some s
  | _ => none

def position? : PropertyValue → Option (Nat × Nat)
  | position x y => some (x, y)
  | _ => none

def equipment? : PropertyValue → Option Equipment
  | equipment e => some e
  | _ => none

def describe : PropertyValue → String
  | int n => s!"Int({n})"
  | bool b => s!"Bool({b})"
  | text s => s!"Text({Text.quoted s})"
  | position x y => s!"Position \x7b x: {x}, y: {y} \x7d"
  | equipment e => s!"Equipment({e.name})"

end PropertyValue

def defaultKey : String := ""

structure Property where
  kind : PropertyKind
  key : String
  value : PropertyValue
deriving DecidableEq, Repr, Inhabited

/-- Puts `p` before the first entry with a greater key, in place of an entry of its kind and key. -/
def Property.insertInto (p : Property) : List Property → List Property
  | [] => [p]
  | q :: rest =>
    if q.kind = p.kind ∧ q.key = p.key then p :: rest
    else if p.key < q.key then p :: q :: rest
    else q :: p.insertInto rest

structure PropertyStore where
  entries : List Property
deriving DecidableEq, Repr, Inhabited

namespace PropertyStore

def empty : PropertyStore := ⟨[]⟩

def insertKeyed (s : PropertyStore) (kind : PropertyKind) (key : String) (value : PropertyValue) :
    PropertyStore :=
  ⟨Property.insertInto ⟨kind, key, value⟩ s.entries⟩

def insert (s : PropertyStore) (kind : PropertyKind) (value : PropertyValue) : PropertyStore :=
  s.insertKeyed kind defaultKey value

def all (s : PropertyStore) (kind : PropertyKind) : List PropertyValue :=
  (s.entries.filter fun p => p.kind = kind).map Property.value

def lookup (s : PropertyStore) (kind : PropertyKind) (key : String) : Option PropertyValue :=
  (s.entries.find? fun p => p.kind = kind ∧ p.key = key).map Property.value

/-- Without a key the value of the default key counts, or else that of the least key. -/
def get (s : PropertyStore) (kind : PropertyKind) : Option String → Option PropertyValue
  | some key => s.lookup kind key
  | none => match s.lookup kind defaultKey with
    | some v => some v
    | none => (s.all kind).head?

def contains (s : PropertyStore) (kind : PropertyKind) : Bool :=
  s.entries.any fun p => p.kind = kind

def isEmpty (s : PropertyStore) : Bool := s.entries.isEmpty

/-- The entries of both stores, those of `t` where both have one. -/
def overlay (s t : PropertyStore) : PropertyStore :=
  t.entries.foldl (fun acc p => acc.insertKeyed p.kind p.key p.value) s

/-- Two stores agree when they have the same entries. -/
def agrees (s t : PropertyStore) : Bool := s.entries.isPerm t.entries

end PropertyStore

end Stowage
