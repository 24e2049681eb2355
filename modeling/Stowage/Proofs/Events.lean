import Stowage.Proofs.Step

/-!
# What others notice of a step

Listeners that are called and messages that are handed over are events; failure reports and lines of
the log are not. The events of a sequence are those of its parts, one after the other.
-/

namespace Stowage

set_option autoImplicit false

def Emission.isEvent : Emission → Bool
  | .sent _ | .heard _ _ => true
  | .reported _ | .logged _ => false

def events (es : List Emission) : List Emission := es.filter Emission.isEvent

def calls (hs : List (ListenerId × Event)) : List Emission := hs.map fun h => .heard h.1 h.2

theorem events_append (es fs : List Emission) : events (es ++ fs) = events es ++ events fs :=
  List.filter_append es fs

theorem events_of {k : EventKind} {es : List Emission} (h : ∀ e ∈ es, e.Of k) :
    events es = calls (Step.heard es) := by
  induction es with
  | nil => rfl
  | cons e rest ih =>
    have hrest := ih fun d hd => h d (List.mem_cons_of_mem _ hd)
    cases e with
    | sent m => exact absurd (h _ List.mem_cons_self) id
    | heard l e => exact congrArg (Emission.heard l e :: ·) hrest
    | reported d => exact hrest
    | logged r => exact hrest

namespace World
variable {u w w' : World} {es fs : List Emission}

def Emits (w : World) (es : List Emission) (w' : World) : Prop :=
  ∃ fs, w'.trace = w.trace ++ fs ∧ events fs = es

def Mutters (w w' : World) : Prop := ∃ es, w' = w.give es ∧ events es = []

theorem Emits.refl (w : World) : w.Emits [] w := ⟨[], (List.append_nil _).symm, rfl⟩

theorem Emits.trans (huw : u.Emits es w) (hww : w.Emits fs w') : u.Emits (es ++ fs) w' := by
  obtain ⟨as, htrace, rfl⟩ := huw
  obtain ⟨bs, htrace', rfl⟩ := hww
  exact ⟨as ++ bs, by rw [htrace', htrace, List.append_assoc], events_append as bs⟩

theorem Emits.of_trace (h : w'.trace = w.trace ++ es) : w.Emits (events es) w' := ⟨es, h, rfl⟩

theorem Emits.events_eq (h : w.Emits es w') : events w'.trace = events w.trace ++ es := by
  obtain ⟨fs, htrace, rfl⟩ := h
  rw [htrace, events_append]

theorem Mutters.refl (w : World) : w.Mutters w := ⟨[], w.give_nil.symm, rfl⟩

theorem Mutters.state_eq (h : w.Mutters w') : w'.state = w.state := by
  obtain ⟨es, rfl, _⟩ := h
  rfl

theorem Mutters.emits (h : w.Mutters w') : w.Emits [] w' := by
  obtain ⟨es, rfl, hnone⟩ := h
  exact ⟨es, rfl, hnone⟩

end World

end Stowage
