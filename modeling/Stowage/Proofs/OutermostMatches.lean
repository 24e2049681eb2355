import Stowage.Proofs.Ancestry
import Stowage.Proofs.Forest.Outermost
import Stowage.Proofs.Views

/-!
# Searching for nodes

A search for nodes finds all matches below a node, but for those that lie within others. A container
whose two inventories overlap is the exception: each of the two is searched on its own, so a match
that lies within both comes twice, or comes together with one around it.
-/

namespace Stowage

set_option autoImplicit false

section Run
variable {past : List World} {w : World} {x : NodeId}

/-- If the node is a container, the handles of its two inventories have not come round again. -/
def ShowsUnwrapped (past : List World) (w : World) (x : NodeId) : Prop :=
  ∀ c, w.state.forest.container? x = some c → Unwrapped c.top past w ∧ Unwrapped c.bottom past w

theorem Run.overPlain (h : Run past w) (hx : ShowsUnwrapped past w x) :
    w.state.forest.OverPlain x := by
  cases hc : w.state.forest.container? x with
  | none => exact h.sound.forest.overPlain hc
  | some c =>
    obtain ⟨htop, hbottom⟩ := hx c hc
    obtain ⟨_, u, hu, hutop, hubottom⟩ := h.shown_origin hc
    intro y hy
    rcases Forest.mem_container_children hc hy with rfl | rfl
    · exact h.plain_of_showable htop hu hutop
    · exact h.plain_of_showable hbottom hu hubottom

end Run

/-- The view has as members matches below the node, among them one around each match, unless there
is no slot in any of them; and its slots are theirs in fill order, each at its first place. -/
structure State.Finds (s : State) (x : NodeId) (p : NodeId → Bool) (v : View) : Prop where
  matching : ∀ m ∈ v.members, p m = true
  below : ∀ m ∈ v.members, ∃ c ∈ s.forest.children x, m = c ∨ s.forest.isWithin c m = true
  covering : v.isEmpty = false → ∀ c ∈ s.forest.children x, ∀ m, s.forest.isWithin c m = true →
    p m = true → ∃ a ∈ v.members, s.forest.isWithin a m = true
  slots : v.slots = distinct (v.members.flatMap s.forest.fillOrder)
  empty : v.isEmpty = true → v = .empty

namespace State
variable {s : State} {x : NodeId} {p : NodeId → Bool}

theorem searchNodes_eq (s : State) (x : NodeId) (p : NodeId → Bool) :
    s.searchNodes x p =
      .new (s.forest.outermost p x) ((s.forest.outermost p x).flatMap s.forest.fillOrder) := rfl

theorem searchNodes_cases (s : State) (x : NodeId) (p : NodeId → Bool) :
    s.searchNodes x p = .empty ∨ (s.searchNodes x p).isEmpty = false ∧
      s.searchNodes x p = ⟨s.forest.outermost p x,
        distinct ((s.forest.outermost p x).flatMap s.forest.fillOrder)⟩ := by
  rw [searchNodes_eq]
  by_cases hnone : (s.forest.outermost p x).flatMap s.forest.fillOrder = []
  · rw [hnone]
    exact Or.inl rfl
  · refine Or.inr ⟨?_, View.new_of_ne_nil hnone⟩
    rw [Bool.eq_false_iff]
    intro hempty
    exact hnone (View.isEmpty_new_iff.mp hempty)

theorem Sound.finds_searchNodes (hs : s.Sound) (hx : s.forest.OverPlain x) :
    s.Finds x p (s.searchNodes x p) := by
  rcases s.searchNodes_cases x p with hnone | ⟨hsome, hview⟩
  · rw [hnone]
    exact ⟨nofun, nofun, nofun, rfl, fun _ => rfl⟩
  · refine ⟨?_, ?_, ?_, ?_, ?_⟩
    · rw [hview]
      exact fun m hm => (Forest.of_mem_outermost hs.forest hx hm).1
    · rw [hview]
      intro m hm
      obtain ⟨_, c, hc, k, hu⟩ := Forest.of_mem_outermost hs.forest hx hm
      refine ⟨c, hc, ?_⟩
      by_cases hcm : m = c
      · exact Or.inl hcm
      · exact Or.inr (hu.isWithin_of_ne hs.forest (Ne.symm hcm) (hx c hc))
    · rw [hview]
      exact fun _ c hc m hm hp => Forest.exists_mem_outermost hs.forest hx hc hm hp
    · rw [hview]
    · intro hempty
      rw [hsome] at hempty
      cases hempty

theorem Sound.separate_searchNodes_iff (hs : s.Sound) (hx : s.forest.OverPlain x) :
    s.forest.Separate (s.searchNodes x p).members ↔ (s.searchNodes x p).isEmpty = true ∨
      ∀ m, p m = true → ¬ s.forest.Shared x m := by
  rcases s.searchNodes_cases x p with hnone | ⟨hsome, hview⟩
  · rw [hnone]
    exact iff_of_true ⟨List.nodup_nil, nofun⟩ (Or.inl rfl)
  · rw [hsome, hview, Forest.separate_outermost_iff hs.forest hx]
    simp

end State

section Run
variable {past : List World} {w : World} {x : NodeId}

/-- In every state that is reached, a search for nodes finds the matches around all matches below.
What it finds is separate, unless it searches a container and some match lies within both of its
inventories. -/
theorem searchNodes_finds_outermost (h : Run past w) (hx : ShowsUnwrapped past w x)
    (p : NodeId → Bool) : w.state.Finds x p (w.state.searchNodes x p) ∧
      (w.state.forest.Separate (w.state.searchNodes x p).members ↔
        (w.state.searchNodes x p).isEmpty = true ∨
          ∀ m, p m = true → ¬ w.state.forest.Shared x m) :=
  ⟨h.sound.finds_searchNodes (h.overPlain hx), h.sound.separate_searchNodes_iff (h.overPlain hx)⟩

def Operation.overlapping : List Operation :=
  [.instantiate .anySlot Archetype.anySlot_made, .compose [(⟨0, 0⟩, 5)],
    .createContainer ⟨0, 0⟩ ⟨1, 0⟩]

theorem searchNodes_finds_outermost_overlapping :
    (World.reached Operation.overlapping).2.state.forest.Separate
      ((World.reached Operation.overlapping).2.state.searchNodes ⟨1, 0⟩ fun _ => true).members ∧
    (World.reached Operation.overlapping).2.state.Finds ⟨3, 0⟩ (fun _ => true)
      ((World.reached Operation.overlapping).2.state.searchNodes ⟨3, 0⟩ fun _ => true) := by
  have hrun := Run.reached Operation.overlapping
  have hshows : ∀ y, ShowsUnwrapped (World.reached Operation.overlapping).1
      (World.reached Operation.overlapping).2 y := by
    intro y c _
    exact ⟨unwrapped_of_length (by decide), unwrapped_of_length (by decide)⟩
  refine ⟨?_, (searchNodes_finds_outermost hrun (hshows _) _).1⟩
  refine (searchNodes_finds_outermost hrun (hshows ⟨1, 0⟩) fun _ => true).2.mpr (Or.inr ?_)
  rintro m _ ⟨c, hc, _⟩
  have hnone : (World.reached Operation.overlapping).2.state.forest.container? ⟨1, 0⟩ = none := by
    decide +kernel
  rw [hnone] at hc
  cases hc

/-- Searching the container gives the slot, and the row that has it. -/
theorem searchNodes_not_separate : ¬ ∀ (past : List World) (w : World), Run past w →
    ∀ (x : NodeId) (p : NodeId → Bool), w.state.forest.contains x = true →
      w.state.forest.Separate (w.state.searchNodes x p).members := by
  intro h
  have hseparate := h _ _ (Run.reached Operation.overlapping) ⟨3, 0⟩ (fun _ => true)
    (by decide +kernel)
  have hmembers : ((World.reached Operation.overlapping).2.state.searchNodes ⟨3, 0⟩
      fun _ => true).members = [⟨0, 0⟩, ⟨1, 0⟩] := by decide +kernel
  rw [hmembers] at hseparate
  have happart := hseparate.apart ⟨1, 0⟩ (by simp) ⟨0, 0⟩ (by simp) (by decide)
  have hwithin : (World.reached Operation.overlapping).2.state.forest.isWithin ⟨1, 0⟩ ⟨0, 0⟩ =
      true := by decide +kernel
  rw [hwithin] at happart
  cases happart

end Run

end Stowage
