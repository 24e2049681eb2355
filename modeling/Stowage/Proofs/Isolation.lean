import Stowage.Proofs.Container.Sessions

/-!
# Steps that come to their end

Only a panic that is not isolated cuts a step short. While listeners are isolated, changing contents
and closing go through to their end, whatever the listeners do.
-/

namespace Stowage.Step

set_option autoImplicit false

variable {α β : Type}

/-- While listeners are isolated the step ends with a value, and they stay isolated. -/
def Returns (m : Step α) : Prop :=
  ∀ w, w.state.env.settings.isolateListenerPanics = true →
    ∃ a w', m w = (.ok a, w') ∧ w'.state.env = w.state.env

namespace Returns

theorem of_pure (a : α) : (pure a : Step α).Returns := fun w _ => ⟨a, w, rfl, rfl⟩

theorem of_emit (es : List Emission) : (emit es).Returns := fun w _ => ⟨(), w.give es, rfl, rfl⟩

theorem of_update {change : State → State} (h : ∀ s, (change s).env = s.env) :
    (update change).Returns := fun w _ => ⟨(), _, rfl, h w.state⟩

theorem bind {m : Step α} {next : α → Step β} (hm : m.Returns) (hn : ∀ a, (next a).Returns) :
    (m >>= next).Returns := by
  intro w hw
  obtain ⟨a, u, hu, henv⟩ := hm w hw
  rw [bind_of_ok hu]
  obtain ⟨b, w', hw', henv'⟩ := hn a u (by rw [henv]; exact hw)
  exact ⟨b, w', hw', henv'.trans henv⟩

theorem state_bind {next : State → Step β}
    (hn : ∀ s, s.env.settings.isolateListenerPanics = true → (next s).Returns) :
    (state >>= next).Returns := fun w hw => hn w.state hw w hw

theorem trace_bind {next : List Emission → Step β} (hn : ∀ es, (next es).Returns) :
    (trace >>= next).Returns := fun w hw => hn w.trace w hw

theorem each {act : α → Step Unit} (h : ∀ a, (act a).Returns) (l : List α) :
    (each act l).Returns := by
  induction l with
  | nil => exact of_pure ()
  | cons a rest ih => exact bind (h a) fun _ => ih

end Returns

theorem returns_log (r : LogRecord) : (log r).Returns := .of_emit _

theorem returns_send (m : Message) : (send m).Returns := .state_bind fun _ _ => .of_emit _

theorem returns_reportFailure (l : Listener) (e : Event) (kind : FailureKind) (message : String) :
    (reportFailure l e kind message).Returns :=
  .bind (returns_log _) fun _ => .state_bind fun _ _ => .of_emit _

theorem returns_handle (l : Listener) (e : Event) (r : Reaction) : (handle l e r).Returns := by
  cases r with
  | ok => exact .of_pure ()
  | error m => exact returns_reportFailure l e .error m
  | panic text =>
    apply Returns.state_bind
    intro s hs
    rw [if_pos hs]
    exact returns_reportFailure l e .panic _

theorem returns_notify (e : Event) : (notify e).Returns := by
  apply Returns.state_bind
  intro s _
  apply Returns.each
  intro l
  exact .trace_bind fun _ => .bind (.of_emit _) fun _ => returns_handle l e _

theorem returns_notifySlotChange (slot : SlotId) (before after : Option Stack) :
    (notifySlotChange slot before after).Returns :=
  .state_bind fun _ _ => .each (fun _ => returns_notify _) _

theorem returns_tellViewer (id : NodeId) (wire : Int) (slot : SlotId) (contents : Option Stack)
    (v : ViewerId) (view : ClientView) : (tellViewer id wire slot contents v view).Returns := by
  unfold tellViewer
  split
  · exact .of_pure ()
  · exact .bind (.of_update fun _ => rfl) fun _ => .bind (returns_log _) fun _ => returns_send _

theorem returns_tellViewers (slot : SlotId) : (tellViewers slot).Returns := by
  apply Returns.state_bind
  intro s _
  apply Returns.each
  intro id
  apply Returns.state_bind
  intro t _
  split
  · exact .of_pure ()
  · split
    · exact .of_pure ()
    · exact .each (fun _ => returns_tellViewer id _ slot _ _ _) _

theorem returns_commit (slot : SlotId) (after : Option Stack) : (commit slot after).Returns := by
  apply Returns.state_bind
  intro s _
  split
  · exact .of_pure none
  · split
    · exact .of_pure none
    · refine .bind ?_ fun _ => .of_pure _
      exact .bind (.of_update fun _ => rfl) fun _ => .bind (returns_notifySlotChange _ _ _) fun _ =>
        .bind (returns_tellViewers slot) fun _ => .of_pure _

theorem returns_commitAll (changes : List (SlotId × Option Stack)) :
    (commitAll changes).Returns := by
  induction changes with
  | nil => exact .of_pure []
  | cons change rest ih =>
    exact .bind (returns_commit change.1 change.2) fun _ => .bind ih fun _ => .of_pure _

theorem returns_offerTo (node : NodeId) (stack : Stack) : (offerTo node stack).Returns := by
  apply Returns.state_bind
  intro s _
  split
  · exact .state_bind fun _ _ => .state_bind fun _ _ => .bind (returns_commitAll _) fun _ =>
      .of_pure _
  · exact .bind (returns_log _) fun _ => .of_pure _

theorem returns_returnCursor (c : Container) : (returnCursor c).Returns := by
  apply Returns.state_bind
  intro s _
  split
  · exact .of_pure none
  · split
    · exact .bind (returns_commit _ _) fun _ => .bind (returns_offerTo _ _) fun _ => .of_pure _
    · exact .of_pure _

theorem returns_discard (id : NodeId) : (discard id).Returns := by
  apply Returns.state_bind
  intro s _
  split
  · exact .of_pure none
  · exact .bind (returns_returnCursor _) fun _ => .bind (.of_update fun _ => rfl) fun _ =>
      .bind (returns_log _) fun _ => .of_pure _

theorem returns_close (v : ViewerId) : (close v).Returns := by
  apply Returns.state_bind
  intro s _
  split
  · exact .of_pure none
  · refine .bind (.of_update fun _ => rfl) fun _ => ?_
    apply Returns.state_bind
    intro t _
    split
    · exact .of_pure none
    · refine .bind ?_ fun _ => .of_pure _
      refine .bind (.of_update fun _ => rfl) fun _ => .bind (returns_send _) fun _ =>
        .bind (returns_log _) fun _ => .bind (returns_notify _) fun _ => .state_bind fun _ _ =>
        .bind (returns_notify _) fun _ => ?_
      dsimp only
      split
      · exact .bind (returns_discard _) fun _ => .of_pure _
      · exact .bind (.of_pure none) fun _ => .of_pure _

end Stowage.Step
