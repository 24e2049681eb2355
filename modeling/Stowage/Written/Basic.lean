import Stowage.Datum

/-!
# Written forms

`Written α` gives the written form of values of `α` and reads it back. Numbers keep to a range, a
choice without data is a text, a choice with data is a record of one field, and fields that no one
asks for are passed over. The fields of a value may also be listed in their order, but those of a
choice are always named.
-/

namespace Stowage

set_option autoImplicit false

class Written (α : Type) where
  write : α → Datum
  read : Datum → Option α

open Written

namespace Written

def readInt (low high : Int) : Datum → Option Int
  | .int n => if low ≤ n ∧ n ≤ high then some n else none
  | _ => none

def readNat (high : Nat) (d : Datum) : Option Nat := (readInt 0 high d).map Int.toNat

def writeNat (n : Nat) : Datum := .int n

/-- One of the choices that carry no data, by its name or by a record of its name and null. -/
def readChoice {α : Type} (all : List α) (name : α → String) : Datum → Option α
  | .text s | .record [(s, .null)] => all.find? fun a => name a = s
  | _ => none

instance : Written String where
  write := .text
  read
    | .text s => some s
    | _ => none

instance : Written Bool where
  write := .bool
  read
    | .bool b => some b
    | _ => none

instance : Written UInt8 where
  write b := writeNat b.toNat
  read d := (readNat 255 d).map UInt8.ofNat

instance {α : Type} [Written α] : Written (List α) where
  write as := .list (as.map write)
  read
    | .list ds => ds.mapM read
    | _ => none

instance {α : Type} [Written α] : Written (Option α) where
  write
    | none => .null
    | some a => write a
  read
    | .null => some none
    | d => (read d).map some

def field {α : Type} [Written α] (fields : String → Option Datum) (name : String) : Option α :=
  (fields name).bind read

/-- A field that may be missing; what stands for it then is given. -/
def fieldOr {α : Type} (fields : String → Option Datum) (name : String) (missing : α)
    (reader : Datum → Option α) : Option α :=
  match fields name with
  | none => some missing
  | some d => reader d

end Written

end Stowage
