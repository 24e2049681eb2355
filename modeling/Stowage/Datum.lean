/-!
# Self-describing data

The written form of a value: numbers, texts, lists and records that carry their own shape.
`named` and `fieldsOf` are the two ways in which fields are read.
-/

namespace Stowage

set_option autoImplicit false

/-- A value whose shape is read off the value itself. A number written with a point or an exponent
is `real`: no written form of this library uses one, so its amount is not kept. -/
inductive Datum where
  | null
  | bool (b : Bool)
  | int (n : Int)
  | real
  | text (s : String)
  | list (items : List Datum)
  | record (fields : List (String × Datum))
deriving Repr, Inhabited

namespace Datum

/-- How the fields of a record are looked up. -/
def named : Datum → Option (String → Option Datum)
  | record fields => some fun name => fields.lookup name
  | _ => none

/-- How the fields called `names` are looked up: by name in a record, and by position in a list of
at least `least` values and no more than there are names. Nothing else has fields. -/
def fieldsOf (names : List String) (least : Nat) : Datum → Option (String → Option Datum)
  | list items =>
    if least ≤ items.length ∧ items.length ≤ names.length then
      some fun name => (names.zip items).lookup name
    else none
  | d => d.named

end Datum

end Stowage
