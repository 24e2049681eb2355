import Stowage.State

/-!
# What viewers are shown

The full state of a container, read from its slots or from what a viewer was bound to.
-/

namespace Stowage

set_option autoImplicit false

namespace State

def snapshot (s : State) (id : NodeId) : Option Snapshot :=
  (s.forest.container? id).map fun c =>
    { title := s.title c.top
      archetype := s.forest.archetype c.top
      slots := c.slots.zipIdx.map fun (slot, i) => ⟨i, s.contents slot⟩
      cursor := s.contents c.cursor }

/-- What a viewer who comes now is bound to: the cursor, and the slots in wire order. -/
def freshView (s : State) (c : Container) : ClientView :=
  ⟨⟨cursorWire, c.cursor, s.contents c.cursor⟩ ::
    c.slots.zipIdx.map fun (slot, i) => ⟨i, slot, s.contents slot⟩⟩

/-- The full state of a container as a viewer knows it. -/
def snapshotOfView (s : State) (c : Container) (view : ClientView) : Snapshot where
  title := s.title c.top
  archetype := s.forest.archetype c.top
  slots := (view.rows.filter fun r => r.wire ≠ cursorWire).map fun r => ⟨r.wire, r.lastKnown⟩
  cursor := (view.slot cursorWire).bind view.lastKnown

def clientView (s : State) (id : NodeId) (v : ViewerId) : Option ClientView :=
  (s.forest.container? id).bind fun c => c.viewOf v

def viewers (s : State) (id : NodeId) : List ViewerId :=
  ((s.forest.container? id).map fun c => c.viewers.map Prod.fst).getD []

end State

end Stowage
