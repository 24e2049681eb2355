import Stowage.Dispatch

/-!
# Steps that only give out

Calling listeners and writing the log leave the state alone and hand nothing to the transport. What
such a step gives out belongs to the kind of event that it is about.
-/

namespace Stowage

set_option autoImplicit false

def Emission.message? : Emission → Option Message
  | .sent m => some m
  | _ => none

def Emission.heard? : Emission → Option (ListenerId × Event)
  | .heard l e => some (l, e)
  | _ => none

def Emission.Of (k : EventKind) : Emission → Prop
  | .sent _ => False
  | .heard _ e => e.kind = k
  | .reported _ => True
  | .logged _ => True

theorem Emission.Of.message? {k : EventKind} {e : Emission} (h : e.Of k) : e.message? = none := by
  cases e with
  | sent m => cases h
  | heard l e => rfl
  | reported d => rfl
  | logged r => rfl

def World.give (w : World) (es : List Emission) : World := { w with trace := w.trace ++ es }

theorem World.give_nil (w : World) : w.give [] = w := by simp [give]

theorem World.give_give (w : World) (es fs : List Emission) :
    (w.give es).give fs = w.give (es ++ fs) := by simp [give]

theorem DiagnosticsOutlet.carry_of (o : DiagnosticsOutlet) (d : Diagnostic) (k : EventKind) :
    ∀ e ∈ o.carry d, e.Of k := by
  intro e he
  cases o with
  | connected =>
    rw [List.mem_singleton.mp he]
    trivial
  | disconnected =>
    rw [List.mem_singleton.mp he]
    trivial
  | absent => cases he

namespace Step

variable {α β : Type}

@[simp] theorem state_bind (next : State → Step β) (w : World) :
    (state >>= next) w = next w.state w := rfl

@[simp] theorem trace_bind (next : List Emission → Step β) (w : World) :
    (trace >>= next) w = next w.trace w := rfl

@[simp] theorem update_bind (change : State → State) (next : Unit → Step β) (w : World) :
    (update change >>= next) w = next () { w with state := change w.state } := rfl

@[simp] theorem emit_bind (es : List Emission) (next : Unit → Step β) (w : World) :
    (emit es >>= next) w = next () (w.give es) := rfl

theorem bind_snd (m : Step α) (next : α → Step β) (w : World) :
    ((m >>= next) w).2 = (m w).2 ∨ ∃ a, (m w).1 = .ok a ∧
      ((m >>= next) w).2 = (next a (m w).2).2 := by
  rw [bind_apply, andThen]
  rcases h : m w with ⟨r, w'⟩
  cases r with
  | error e => exact Or.inl rfl
  | ok a => exact Or.inr ⟨a, rfl, rfl⟩

theorem bind_eq_ok {m : Step α} {next : α → Step β} {w w' : World} {b : β}
    (h : (m >>= next) w = (.ok b, w')) :
    ∃ a u, m w = (.ok a, u) ∧ next a u = (.ok b, w') := by
  rw [bind_apply, andThen] at h
  rcases hm : m w with ⟨r, u⟩
  rw [hm] at h
  cases r with
  | error e => cases h
  | ok a => exact ⟨a, u, rfl, h⟩

theorem each_nil (act : α → Step Unit) (w : World) : each act [] w = (.ok (), w) := rfl

theorem each_cons (act : α → Step Unit) (a : α) (rest : List α) :
    each act (a :: rest) = (act a >>= fun _ => each act rest) := rfl

/-- The step leaves the state alone, and all that it gives out satisfies `P`. -/
def Inert (P : Emission → Prop) (m : Step α) : Prop :=
  ∀ w, ∃ es, (m w).2 = w.give es ∧ ∀ e ∈ es, P e

namespace Inert
variable {P : Emission → Prop}

theorem of_pure (a : α) : Inert P (pure a : Step α) := by
  intro w
  exact ⟨[], by rw [World.give_nil]; rfl, by simp⟩

theorem of_escape (e : Escape) : Inert P (escape e : Step α) := by
  intro w
  exact ⟨[], by rw [World.give_nil]; rfl, by simp⟩

theorem of_emit {es : List Emission} (h : ∀ e ∈ es, P e) : Inert P (emit es) :=
  fun _ => ⟨es, rfl, h⟩

theorem mono {Q : Emission → Prop} {m : Step α} (hm : Inert P m) (hpq : ∀ e, P e → Q e) :
    Inert Q m := by
  intro w
  obtain ⟨es, hes, hp⟩ := hm w
  exact ⟨es, hes, fun e he => hpq e (hp e he)⟩

theorem bind {m : Step α} {next : α → Step β} (hm : Inert P m) (hn : ∀ a, Inert P (next a)) :
    Inert P (m >>= next) := by
  intro w
  obtain ⟨es, hes, hp⟩ := hm w
  rcases bind_snd m next w with h | ⟨a, _, h⟩
  · exact ⟨es, by rw [h, hes], hp⟩
  · obtain ⟨fs, hfs, hq⟩ := hn a (m w).2
    refine ⟨es ++ fs, by rw [h, hfs, hes, World.give_give], ?_⟩
    intro e he
    rcases List.mem_append.mp he with he | he
    · exact hp e he
    · exact hq e he

theorem state_bind {next : State → Step β} (hn : ∀ s, Inert P (next s)) :
    Inert P (state >>= next) := fun w => hn w.state w

theorem trace_bind {next : List Emission → Step β} (hn : ∀ t, Inert P (next t)) :
    Inert P (trace >>= next) := fun w => hn w.trace w

theorem each {act : α → Step Unit} {l : List α} (h : ∀ a ∈ l, Inert P (act a)) :
    Inert P (each act l) := by
  induction l with
  | nil => exact of_pure ()
  | cons a rest ih =>
    rw [each_cons]
    apply Inert.bind (h a List.mem_cons_self)
    intro _
    exact ih fun b hb => h b (List.mem_cons_of_mem _ hb)

end Inert

theorem Inert.ok {P : Emission → Prop} {m : Step α} (hm : Inert P m) {w u : World} {a : α}
    (h : m w = (.ok a, u)) : ∃ es, u = w.give es ∧ ∀ e ∈ es, P e := by
  obtain ⟨es, hes, hp⟩ := hm w
  rw [h] at hes
  exact ⟨es, hes, hp⟩

theorem inert_log (r : LogRecord) (k : EventKind) : Inert (Emission.Of k) (log r) := by
  apply Inert.of_emit
  intro e he
  rw [List.mem_singleton.mp he]
  trivial

theorem inert_reportFailure (l : Listener) (e : Event) (kind : FailureKind) (message : String)
    (k : EventKind) : Inert (Emission.Of k) (reportFailure l e kind message) := by
  apply Inert.bind (inert_log _ k)
  intro _
  apply Inert.state_bind
  intro s
  exact Inert.of_emit (s.diagnostics.carry_of _ k)

theorem inert_handle (l : Listener) (e : Event) (r : Reaction) (k : EventKind) :
    Inert (Emission.Of k) (handle l e r) := by
  cases r with
  | ok => exact Inert.of_pure ()
  | error m => exact inert_reportFailure l e .error m k
  | panic text =>
    apply Inert.state_bind
    intro s
    split
    · exact inert_reportFailure l e .panic _ k
    · exact Inert.of_escape _

theorem inert_call (e : Event) (l : Listener) : Inert (Emission.Of e.kind) (call e l) := by
  apply Inert.trace_bind
  intro t
  refine Inert.bind (Inert.of_emit ?_) fun _ => inert_handle l e _ e.kind
  intro x hx
  rw [List.mem_singleton.mp hx]
  rfl

theorem inert_notify (e : Event) : Inert (Emission.Of e.kind) (notify e) := by
  apply Inert.state_bind
  intro s
  exact Inert.each fun l _ => inert_call e l

theorem inert_notifySlotChange (slot : SlotId) (before after : Option Stack) :
    Inert (Emission.Of .slotChange) (notifySlotChange slot before after) := by
  apply Inert.state_bind
  intro s
  exact Inert.each fun node _ => inert_notify (.slotChange ⟨node, slot, before, after⟩)

def heard (es : List Emission) : List (ListenerId × Event) := es.filterMap Emission.heard?

theorem heard_reportFailure (l : Listener) (e : Event) (kind : FailureKind) (message : String)
    (w : World) : ∃ es, reportFailure l e kind message w = (.ok (), w.give es) ∧ heard es = [] := by
  unfold reportFailure log
  rw [emit_bind, state_bind]
  refine ⟨_, Prod.ext rfl (World.give_give _ _ _), ?_⟩
  cases h : (w.give _).state.diagnostics <;> rfl

theorem heard_handle {l : Listener} {e : Event} {r : Reaction} {w w' : World}
    (h : handle l e r w = (.ok (), w')) : ∃ es, w' = w.give es ∧ heard es = [] := by
  have hreport : ∀ kind message, reportFailure l e kind message w = (.ok (), w') →
      ∃ es, w' = w.give es ∧ heard es = [] := by
    intro kind message h
    obtain ⟨es, hes, hnone⟩ := heard_reportFailure l e kind message w
    rw [hes] at h
    exact ⟨es, (congrArg Prod.snd h).symm, hnone⟩
  cases r with
  | ok =>
    cases h
    exact ⟨[], (World.give_nil _).symm, rfl⟩
  | error m => exact hreport _ _ h
  | panic text =>
    simp only [handle, state_bind] at h
    split at h
    · exact hreport _ _ h
    · cases h

theorem heard_each {act : α → Step Unit} {made : α → List (ListenerId × Event)} {l : List α}
    {w w' : World} (hact : ∀ a {u u' : World}, u.state = w.state → act a u = (.ok (), u') →
      ∃ es, u' = u.give es ∧ heard es = made a)
    (h : each act l w = (.ok (), w')) : ∃ es, w' = w.give es ∧ heard es = l.flatMap made := by
  induction l generalizing w with
  | nil =>
    cases h
    exact ⟨[], (World.give_nil _).symm, rfl⟩
  | cons a rest ih =>
    rw [each_cons] at h
    obtain ⟨_, u, hfirst, hrest⟩ := bind_eq_ok h
    obtain ⟨es, rfl, hes⟩ := hact a rfl hfirst
    obtain ⟨fs, rfl, hfs⟩ := ih (w := w.give es) hact hrest
    refine ⟨es ++ fs, World.give_give _ _ _, ?_⟩
    unfold heard at *
    rw [List.filterMap_append, hes, hfs, List.flatMap_cons]

theorem heard_call {e : Event} {l : Listener} {w w' : World} (h : call e l w = (.ok (), w')) :
    ∃ es, w' = w.give es ∧ heard es = [(l.id, e)] := by
  unfold call at h
  rw [trace_bind, emit_bind] at h
  obtain ⟨es, rfl, hes⟩ := heard_handle h
  refine ⟨[.heard l.id e] ++ es, World.give_give _ _ _, ?_⟩
  unfold heard at *
  rw [List.filterMap_append, hes]
  rfl

/-- While nothing escapes, all who hear an event are called, once each and in order. -/
theorem heard_notify {e : Event} {w w' : World} (h : notify e w = (.ok (), w')) :
    ∃ es, w' = w.give es ∧ heard es = (w.state.listeners.hearing e).map fun l => (l.id, e) := by
  rw [List.map_eq_flatMap]
  exact heard_each (fun l _ _ _ hcall => heard_call hcall) h

end Step

end Stowage
