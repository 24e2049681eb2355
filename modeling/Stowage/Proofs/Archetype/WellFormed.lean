import Stowage.Proofs.Archetype.Calls
import Stowage.Proofs.Archetype.Tiling
import Stowage.Proofs.Arithmetic
import Stowage.Proofs.Operation

/-!
# Well-formed descriptions

A builder freezes just when what was written down is well-formed: when the kind supports it, the
children fit, and an explicit fill order names every slot once. The cell table of a grid then says
what covers each cell. Slots are counted in indices, so there must not be more of them than those.
-/

namespace Stowage

set_option autoImplicit false

namespace Builder

def gridRows (b : Builder) (rows : Nat) : Nat :=
  if b.draft.inferRows then lastRow b.children else rows

def size (b : Builder) : ArchetypeKind → Nat
  | .slot => 1
  | .ordered => (b.children.map fun c => c.2.slotCount).sum
  | .grid columns rows => columns * b.gridRows rows

variable {b : Builder} {archetype : String} {kind : ArchetypeKind}

end Builder

section Shelves

def Builder.pair : Builder := (Builder.ordered.add .anySlot 0).add .anySlot 0

def Archetype.pair : Archetype :=
  .frozen none Builder.pair.draft ⟨.ordered, 2, []⟩ Builder.pair.children

end Shelves

end Stowage
