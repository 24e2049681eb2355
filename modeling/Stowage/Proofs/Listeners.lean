import Stowage.Proofs.Moves

/-!
# Listeners in the order of their registration

Listeners are numbered as they are registered. They go when they are taken away or together with
their node, and those who stay keep their order, so that numbers increase along the list.
-/

namespace Stowage

set_option autoImplicit false

namespace Listeners
variable {l m n : Listeners}

structure Thinned (l m : Listeners) : Prop where
  issued : m.issued = l.issued
  registered : m.registered.Sublist l.registered

inductive Turn (l : Listeners) : Listeners → Prop where
  | register (node : NodeId) (hears : EventKind) (react : List Emission → Event → Reaction) :
      Turn l (l.register node hears react)
  | thin {m : Listeners} (h : l.Thinned m) : Turn l m

structure Numbered (l : Listeners) : Prop where
  increasing : l.registered.Pairwise fun a b => a.id.number < b.id.number
  issued : ∀ r ∈ l.registered, r.id.number ≤ l.issued

theorem Thinned.refl (l : Listeners) : l.Thinned l := ⟨rfl, .refl _⟩

theorem Thinned.trans (hlm : l.Thinned m) (hmn : m.Thinned n) : l.Thinned n :=
  ⟨hmn.issued.trans hlm.issued, hmn.registered.trans hlm.registered⟩

theorem thinned_unregister (l : Listeners) (id : ListenerId) : l.Thinned (l.unregister id) :=
  ⟨rfl, List.filter_sublist⟩

theorem thinned_forget (l : Listeners) (node : NodeId) : l.Thinned (l.forget node) :=
  ⟨rfl, List.filter_sublist⟩

theorem thinned_forgetAll (l : Listeners) (nodes : List NodeId) :
    l.Thinned (nodes.foldl forget l) := by
  induction nodes generalizing l with
  | nil => exact .refl l
  | cons node rest ih => exact (l.thinned_forget node).trans (ih _)

theorem numbered_empty : empty.Numbered := ⟨.nil, by simp [empty]⟩

theorem Numbered.thin (h : l.Numbered) (hlm : l.Thinned m) : m.Numbered := by
  refine ⟨h.increasing.sublist hlm.registered, ?_⟩
  intro r hr
  rw [hlm.issued]
  exact h.issued r (hlm.registered.subset hr)

theorem Numbered.register (h : l.Numbered) (node : NodeId) (hears : EventKind)
    (react : List Emission → Event → Reaction) : (l.register node hears react).Numbered := by
  refine ⟨?_, ?_⟩
  · refine List.pairwise_append.mpr ⟨h.increasing, List.pairwise_singleton _ _, ?_⟩
    intro a ha b hb
    rw [List.mem_singleton.mp hb]
    exact Nat.lt_succ_of_le (h.issued a ha)
  · intro r hr
    rcases List.mem_append.mp hr with hr | hr
    · exact Nat.le_succ_of_le (h.issued r hr)
    · rw [List.mem_singleton.mp hr]
      exact Nat.le_refl _

theorem Numbered.turn (h : l.Numbered) (hlm : l.Turn m) : m.Numbered := by
  cases hlm with
  | register node hears react => exact h.register node hears react
  | thin hlm => exact h.thin hlm

theorem Numbered.nodup (h : l.Numbered) : (l.registered.map Listener.id).Nodup := by
  refine List.pairwise_map.mpr (h.increasing.imp ?_)
  intro a b hab he
  rw [he] at hab
  exact Nat.lt_irrefl _ hab

end Listeners

section Moving
variable {w w' : World}

theorem Touch.listeners (h : Touch w w') : w'.state.listeners = w.state.listeners := by
  cases h with
  | put t hs => rfl
  | tell h =>
    cases h with
    | give _ => rfl
    | tell _ _ _ _ => rfl

theorem Touches.listeners (h : Touches w w') : w'.state.listeners = w.state.listeners := by
  induction h with
  | refl => rfl
  | tail _ hstep ih => rw [hstep.listeners, ih]

theorem Move.listeners (h : Move w w') : w.state.listeners.Thinned w'.state.listeners := by
  cases h with
  | touch h =>
    rw [h.listeners]
    exact .refl _
  | announce _ => exact .refl _
  | leave _ _ => exact .refl _
  | drop _ _ => exact (Listeners.thinned_forget _ _).trans (Listeners.thinned_forget _ _)

theorem Moves.listeners (h : Moves w w') : w.state.listeners.Thinned w'.state.listeners := by
  induction h with
  | refl => exact .refl _
  | tail _ hstep ih => exact ih.trans hstep.listeners

end Moving

end Stowage
