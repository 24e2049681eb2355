import Stowage.Proofs.Operation

/-!
# Messages to one viewer

What the transport was handed for a viewer, move by move. Only being told, leaving and entering send
anything, and only to the viewer concerned.
-/

namespace Stowage

set_option autoImplicit false

def messagesTo (v : ViewerId) (trace : List Emission) : List Message :=
  (trace.filterMap Emission.message?).filter fun m => m.viewer = v

section
variable {v u : ViewerId} {w w' : World}

theorem messagesTo_append (v : ViewerId) (a b : List Emission) :
    messagesTo v (a ++ b) = messagesTo v a ++ messagesTo v b := by
  simp [messagesTo]

theorem messagesTo_eq_nil {es : List Emission} (h : ∀ e ∈ es, e.message? = none) :
    messagesTo v es = [] := by
  unfold messagesTo
  rw [List.filterMap_eq_nil_iff.mpr h]
  rfl

theorem messagesTo_of {k : EventKind} {es : List Emission} (h : ∀ e ∈ es, e.Of k) :
    messagesTo v es = [] := messagesTo_eq_nil fun e he => (h e he).message?

theorem messagesTo_give {k : EventKind} {es : List Emission} (h : ∀ e ∈ es, e.Of k) :
    messagesTo v (w.give es).trace = messagesTo v w.trace := by
  change messagesTo v (w.trace ++ es) = _
  rw [messagesTo_append, messagesTo_of h, List.append_nil]

theorem messagesTo_quiet (h : World.Quiet w w') :
    messagesTo v w'.trace = messagesTo v w.trace := by
  obtain ⟨k, es, rfl, hof⟩ := h
  exact messagesTo_give hof

theorem messagesTo_carry (m : Message) :
    messagesTo v (Transport.live.carry m) = if m.viewer = v then [m] else [] := by
  simp [messagesTo, Transport.carry, Emission.message?, List.filter_cons]

theorem messagesTo_carryAll (ms : List Message) :
    messagesTo v (ms.flatMap Transport.live.carry) = ms.filter fun m => m.viewer = v := by
  induction ms with
  | nil => rfl
  | cons m rest ih =>
    rw [List.flatMap_cons, messagesTo_append, ih, messagesTo_carry, List.filter_cons]
    by_cases hm : m.viewer = v <;> simp [hm]

theorem messagesTo_tell (hlive : w.state.transport = .live) {id : NodeId} {slot : SlotId}
    {wire : Int} {t : Option Stack} :
    messagesTo v (w.tell id u slot wire t).trace =
      messagesTo v w.trace ++ if u = v then [.delta u wire t] else [] := by
  change messagesTo v (w.trace ++ w.state.transport.carry (.delta u wire t)) = _
  rw [hlive, messagesTo_append, messagesTo_carry]
  rfl

theorem messagesTo_leave (hlive : w.state.transport = .live) {id : NodeId} :
    messagesTo v (w.leave u id).trace =
      messagesTo v w.trace ++ if u = v then [.release u] else [] := by
  change messagesTo v (w.trace ++ w.state.transport.carry (.release u)) = _
  rw [hlive, messagesTo_append, messagesTo_carry]
  rfl

theorem viewer_greeting {view : ClientView} {s : Snapshot} :
    ∀ m ∈ World.greeting u view s, m.viewer = u := by
  intro m hm
  rcases List.mem_append.mp hm with hm | hm
  · obtain ⟨r, _, rfl⟩ := List.mem_map.mp hm
    rfl
  · rw [List.mem_singleton.mp hm]
    rfl

theorem messagesTo_enter (hlive : w.state.transport = .live) {id : NodeId} {c : Container} :
    messagesTo v (w.enter u id c).trace =
      messagesTo v w.trace ++ if u = v then
        World.greeting u (w.state.freshView c) (w.state.snapshotOfView c (w.state.freshView c))
      else [] := by
  unfold World.enter
  rw [hlive, messagesTo_append, messagesTo_carryAll]
  split
  · rename_i hu
    rw [List.filter_eq_self.mpr]
    intro m hm
    rw [viewer_greeting m hm]
    exact decide_eq_true hu
  · rename_i hu
    rw [List.filter_eq_nil_iff.mpr]
    intro m hm
    rw [viewer_greeting m hm]
    simpa using hu

end

end Stowage
