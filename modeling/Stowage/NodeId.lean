/-!
# Node handles

A handle names a place of the node store together with the generation of its occupant, so a handle
kept after the occupant left is recognised as stale.
-/

namespace Stowage

set_option autoImplicit false

structure NodeId where
  index : Nat
  generation : Nat
deriving DecidableEq, Repr, Inhabited

namespace NodeId

def describe (id : NodeId) : String := s!"{id.index}v{id.generation}"

end NodeId

end Stowage
