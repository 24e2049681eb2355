import Stowage.Proofs.Enlistments

/-!
# Who is called

Whoever is called during an operation was registered beforehand, for such events of just that node.
This holds of all that is put together from reading and changing the state and telling events, also
if a panic cuts it short.
-/

namespace Stowage

set_option autoImplicit false

/-- Since `w` only such listeners were called as hung on the node of the event, in `w` already or
with a number that was given out since. -/
structure World.Heeds (w u : World) : Prop where
  numbered : u.state.listeners.Numbered
  issued : w.state.listeners.issued ≤ u.state.listeners.issued
  places : ∀ p ∈ u.state.listeners.places,
    p ∈ w.state.listeners.places ∨ w.state.listeners.issued < p.1.number
  calls : ∃ es, u.trace = w.trace ++ es ∧ ∀ c ∈ Step.heard es,
    c.1.number ≤ u.state.listeners.issued ∧
      ((c.1, c.2.node, c.2.kind) ∈ w.state.listeners.places ∨
        w.state.listeners.issued < c.1.number)

section Calls
variable {w u w' : World}

theorem Step.heard_append (es fs : List Emission) :
    Step.heard (es ++ fs) = Step.heard es ++ Step.heard fs := List.filterMap_append

theorem Listeners.Turn.issued {l m : Listeners} (h : l.Turn m) : l.issued ≤ m.issued := by
  cases h with
  | register node hears react => exact Nat.le_succ _
  | thin h => exact Nat.le_of_eq h.issued.symm

theorem Listeners.Turn.places {l m : Listeners} (h : l.Turn m) {p} (hp : p ∈ m.places) :
    p ∈ l.places ∨ l.issued < p.1.number := by
  obtain ⟨r, hr, rfl⟩ := List.mem_map.mp hp
  cases h with
  | register node hears react =>
    rcases List.mem_append.mp hr with hold | hnew
    · exact Or.inl (List.mem_map_of_mem hold)
    · rw [List.mem_singleton.mp hnew]
      exact Or.inr (Nat.lt_succ_self _)
  | thin h => exact Or.inl (List.mem_map_of_mem (h.registered.subset hr))

namespace World.Heeds

theorem of_turn (hn : w.state.listeners.Numbered)
    (hturn : w.state.listeners.Turn u.state.listeners) {es : List Emission}
    (htrace : u.trace = w.trace ++ es) (hnone : Step.heard es = []) : w.Heeds u where
  numbered := hn.turn hturn
  issued := hturn.issued
  places := fun _ hp => hturn.places hp
  calls := ⟨es, htrace, by simp [hnone]⟩

theorem refl (hn : w.state.listeners.Numbered) : w.Heeds w :=
  of_turn hn (.thin (.refl _)) (List.append_nil _).symm rfl

theorem trans (hwu : w.Heeds u) (huw : u.Heeds w') : w.Heeds w' where
  numbered := huw.numbered
  issued := Nat.le_trans hwu.issued huw.issued
  places := by
    intro p hp
    rcases huw.places p hp with hmid | hnew
    · exact hwu.places p hmid
    · exact Or.inr (Nat.lt_of_le_of_lt hwu.issued hnew)
  calls := by
    obtain ⟨es, hes, hfirst⟩ := hwu.calls
    obtain ⟨fs, hfs, hsecond⟩ := huw.calls
    refine ⟨es ++ fs, by rw [hfs, hes, List.append_assoc], ?_⟩
    intro c hc
    rw [Step.heard_append] at hc
    rcases List.mem_append.mp hc with hc | hc
    · obtain ⟨hle, hplace⟩ := hfirst c hc
      exact ⟨Nat.le_trans hle huw.issued, hplace⟩
    · obtain ⟨hle, hmid | hnew⟩ := hsecond c hc
      · exact ⟨hle, hwu.places _ hmid⟩
      · exact ⟨hle, Or.inr (Nat.lt_of_le_of_lt hwu.issued hnew)⟩

end World.Heeds

namespace Step

variable {α β : Type}

def Silent (m : Step α) : Prop := Inert (fun x => x.heard? = none) m

theorem silent_log (r : LogRecord) : Silent (log r) := by
  refine Inert.of_emit ?_
  simp [Emission.heard?]

theorem silent_reportFailure (l : Listener) (e : Event) (kind : FailureKind) (message : String) :
    Silent (reportFailure l e kind message) := by
  refine Inert.bind (silent_log _) fun _ => Inert.state_bind fun s => Inert.of_emit ?_
  cases s.diagnostics <;> simp [DiagnosticsOutlet.carry, Emission.heard?]

theorem silent_handle (l : Listener) (e : Event) (r : Reaction) : Silent (handle l e r) := by
  cases r with
  | ok => exact Inert.of_pure ()
  | error m => exact silent_reportFailure l e .error m
  | panic text =>
    refine Inert.state_bind fun s => ?_
    split
    · exact silent_reportFailure l e .panic _
    · exact Inert.of_escape _

/-- Telling an event calls those who hear it and no one else, whether it comes to its end or not. -/
theorem calls_notify (e : Event) (w : World) : ∃ es, (notify e w).2 = w.give es ∧
    ∀ c ∈ heard es, c.2 = e ∧ ∃ l ∈ w.state.listeners.hearing e, c.1 = l.id := by
  have hinert : Inert (fun x => ∀ c, x.heard? = some c →
      c.2 = e ∧ ∃ l ∈ w.state.listeners.hearing e, c.1 = l.id)
      (each (call e) (w.state.listeners.hearing e)) := by
    refine Inert.each fun l hl =>
      Inert.trace_bind fun t => Inert.bind (Inert.of_emit ?_) fun _ => ?_
    · intro x hx c hc
      rw [List.mem_singleton.mp hx] at hc
      cases hc
      exact ⟨rfl, l, hl, rfl⟩
    · refine (silent_handle l e _).mono fun x hx c hc => ?_
      rw [hx] at hc
      cases hc
  obtain ⟨es, hes, hcalls⟩ := hinert w
  refine ⟨es, hes, fun c hc => ?_⟩
  obtain ⟨x, hx, hxc⟩ := List.mem_filterMap.mp hc
  exact hcalls x hx c hxc

theorem heeds_notify (hn : w.state.listeners.Numbered) (e : Event) :
    w.Heeds (notify e w).2 := by
  obtain ⟨es, hes, hcalls⟩ := calls_notify e w
  rw [hes]
  refine ⟨hn, Nat.le_refl _, fun _ hp => Or.inl hp, es, rfl, fun c hc => ?_⟩
  obtain ⟨hevent, l, hl, hid⟩ := hcalls c hc
  obtain ⟨hl, hhears⟩ := List.mem_filter.mp hl
  have hhears := of_decide_eq_true hhears
  refine ⟨?_, Or.inl (List.mem_map.mpr ⟨l, hl, ?_⟩)⟩
  · rw [hid]
    exact hn.issued l hl
  · unfold Listener.place
    rw [hid, hevent, hhears.1, hhears.2]

theorem Paired.heeds {m n : Step α} (h : Paired m n) (hn : w.state.listeners.Numbered) :
    w.Heeds (m w).2 := by
  induction h generalizing w with
  | pure a => exact .refl hn
  | @bind _ _ m _ f _ _ _ ihm ihf =>
    have hfirst := ihm hn
    rcases bind_snd m f w with h | ⟨a, _, h⟩
    · rw [h]
      exact hfirst
    · rw [h]
      exact hfirst.trans (ihf a hfirst.numbered)
  | state_bind _ ih => exact ih w.state w.state (.refl _) hn
  | update hfg => exact .of_turn hn (hfg.listeners _) (List.append_nil _).symm rfl
  | say hcalls _ => exact .of_turn hn (.thin (.refl _)) rfl hcalls
  | notify e => exact heeds_notify hn e

theorem heeds_shiftClick (hn : w.state.listeners.Numbered) (custom : CustomTargets)
    (container : NodeId) (slot : SlotId) : w.Heeds (shiftClick custom container slot w).2 := by
  unfold shiftClick
  rw [state_bind]
  cases w.state.containerAt container with
  | error r => exact .refl hn
  | ok c =>
    dsimp only
    cases w.state.movable c slot with
    | none => exact .refl hn
    | some stack =>
      dsimp only
      split
      · exact .refl hn
      · rw [map_snd]
        exact (deaf_commitAll _).heeds hn

end Step

namespace Operation
variable {op : Operation}

theorem heeds_of_plain (h : op.plain = true) (hn : w.state.listeners.Numbered) :
    w.Heeds (op.run w).2 := by
  rw [op.run_eq]
  unfold Step.ignored
  rw [Step.map_snd]
  exact (deaf_perform h).heeds hn

theorem trace_of_not_idle (h : op.idle = false) : (op.run w).2.trace = w.trace := by
  cases op with
  | onSlotChange node react =>
    change ((Step.onSlotChange node react).ignored w).2.trace = _
    unfold Step.ignored Step.onSlotChange
    rw [Step.map_snd, Step.state_bind]
    split <;> rfl
  | onView container react =>
    change ((Step.onView container react).ignored w).2.trace = _
    unfold Step.ignored Step.onView
    rw [Step.map_snd, Step.state_bind]
    cases w.state.containerAt container <;> rfl
  | onClose container react =>
    change ((Step.onClose container react).ignored w).2.trace = _
    unfold Step.ignored Step.onClose
    rw [Step.map_snd, Step.state_bind]
    cases w.state.containerAt container <;> rfl
  | removeListener l => rfl
  | _ => cases h

/-- Whoever is called while an operation runs was registered before it. -/
theorem calls_registered (op : Operation) (hw : w.state.Sound) (hung : w.state.Hung)
    (hn : w.state.listeners.Numbered) : ∃ es, (op.run w).2.trace = w.trace ++ es ∧
      ∀ c ∈ Step.heard es, (c.1, c.2.node, c.2.kind) ∈ w.state.listeners.places := by
  cases hidle : op.idle with
  | false => exact ⟨[], by rw [trace_of_not_idle hidle, List.append_nil], by simp [Step.heard]⟩
  | true =>
    have hheeds : w.Heeds (op.run w).2 := by
      by_cases hplain : op.plain = true
      · exact heeds_of_plain hplain hn
      · cases op with
        | shiftClick custom container slot =>
          change w.Heeds ((Step.shiftClick custom container slot).ignored w).2
          unfold Step.ignored
          rw [Step.map_snd]
          exact Step.heeds_shiftClick hn custom container slot
        | setDiagnostics d => exact .of_turn hn (.thin (.refl _)) (List.append_nil _).symm rfl
        | onSlotChange _ _ | onView _ _ | onClose _ _ => cases hidle
        | _ => exact absurd rfl hplain
    obtain ⟨es, hes, hcalls⟩ := hheeds.calls
    refine ⟨es, hes, fun c hc => ?_⟩
    obtain ⟨hle, hplace | hnew⟩ := hcalls c hc
    · exact hplace
    · rw [(retains_of_idle hidle hw hung).issued] at hle
      exact absurd hle (Nat.not_le_of_lt hnew)

end Operation

end Calls

end Stowage
