import Stowage.Filter

/-!
# Settings

The choices an inventory service is run with, and what it knows from outside: item rules and texts.
-/

namespace Stowage

set_option autoImplicit false

structure Settings where
  /-- The limit of a slot whose archetype sets none. -/
  defaultMaxStackSize : Nat
  defaultName : String
  isolateListenerPanics : Bool
  /-- A container of two inventories goes when its last viewer closes it. -/
  discardIdleContainers : Bool
  /-- What the cursor of a discarded container holds is offered to the bottom inventory. -/
  returnCursorOnDiscard : Bool
deriving DecidableEq, Repr

namespace Settings

def standard : Settings where
  defaultMaxStackSize := 64
  defaultName := "inventory.name"
  isolateListenerPanics := true
  discardIdleContainers := true
  returnCursorOnDiscard := true

instance : Inhabited Settings := ⟨standard⟩

/-- A limit of zero is raised to one. -/
def withMaxStackSize (s : Settings) (n : Nat) : Settings :=
  { s with defaultMaxStackSize := max n 1 }

def keepIdleContainers (s : Settings) : Settings := { s with discardIdleContainers := false }

end Settings

/-- All that is given from outside and does not change. -/
structure Environment where
  settings : Settings
  rules : ItemRules
  phrase : String → String
deriving Inhabited

end Stowage
