import Stowage.Proofs.Diffs
import Stowage.Proofs.Isolation
import Stowage.Proofs.Shares

/-!
# Nodes and views as shelves

Stacks are offered to nodes and to views and polled from both. Either is a list of distinct slots in
the order in which they are gone through, and all that an offer or a poll does follows from that
list: the slots take their shares in turn, and those that take anything are reported.
-/

namespace Stowage

set_option autoImplicit false

theorem Step.unlessStale_of_live {α : Type} {w : World} {node : NodeId}
    (h : w.state.forest.contains node = true) (operation : String) (refused : α) (act : Step α) :
    unlessStale operation node refused act w = act w := by
  unfold unlessStale
  rw [state_bind]
  exact congrFun (if_pos h) w

/-- What stacks are offered to and polled from. -/
inductive Shelf where
  | node (id : NodeId)
  | view (v : View)

namespace Shelf

def order (s : State) : Shelf → List SlotId
  | node id => s.forest.fillOrder id
  | view v => v.slots

def offer (stack : Stack) : Shelf → Step Transaction
  | node id => Step.offer id stack
  | view v => v.offer stack

def poll (limit : Option Nat) : Shelf → Step (Option Stack × Transaction)
  | node id => Step.poll id limit
  | view v => v.poll limit

def peek (s : State) (limit : Option Nat) : Shelf → Option Stack
  | node id => s.peek id limit
  | view v => v.peek s limit

def There (s : State) : Shelf → Prop
  | node id => s.forest.contains id = true
  | view v => v.Made

section
variable {w w' : World} {sh : Shelf}

theorem peek_eq (s : State) (limit : Option Nat) (sh : Shelf) :
    sh.peek s limit = s.peekIn (sh.order s) limit := by
  cases sh <;> rfl

theorem offer_eq (h : sh.There w.state) (stack : Stack) : sh.offer stack w =
    (Step.offerIn (sh.order w.state) stack >>= fun o => pure o.toTransaction) w := by
  cases sh with
  | view v => rfl
  | node id =>
    have hoffer : Step.offerTo id stack w = Step.offerIn (w.state.forest.fillOrder id) stack w :=
      Step.unlessStale_of_live h _ _ _
    change Step.andThen _ _ w = Step.andThen _ _ w
    unfold Step.andThen
    rw [hoffer]
    rfl

theorem poll_eq (h : sh.There w.state) (limit : Option Nat) :
    sh.poll limit w = Step.pollIn (sh.order w.state) limit w := by
  cases sh with
  | view v => rfl
  | node id => exact Step.unlessStale_of_live h _ _ _

theorem nodup_order {past : List World} (h : Run past w) (hthere : sh.There w.state) :
    (sh.order w.state).Nodup := by
  cases sh with
  | view v => exact View.Made.nodup hthere
  | node id =>
    have hnumbered := h.sound.forest.numbered h.containersFilled id
    exact hnumbered.filled.nodup_iff.mpr hnumbered.nodup

theorem order_kept {s t : State} (h : s.Kept t) (sh : Shelf) : sh.order t = sh.order s := by
  cases sh with
  | view v => rfl
  | node id => exact h.alike.sameOutline.fillOrder id

theorem There.kept {s t : State} (hthere : sh.There s) (h : s.Kept t) : sh.There t := by
  cases sh with
  | view v => exact hthere
  | node id => exact (h.contains id).trans hthere

theorem returns_offer (stack : Stack) (sh : Shelf) : (sh.offer stack).Returns := by
  cases sh with
  | node id => exact .bind (Step.returns_offerTo id stack) fun _ => .of_pure _
  | view v =>
    refine .bind ?_ fun _ => .of_pure _
    exact .state_bind fun s _ => .bind (Step.returns_commitAll _) fun _ => .of_pure _

theorem returns_pollIn (order : List SlotId) (limit : Option Nat) :
    (Step.pollIn order limit).Returns := by
  apply Step.Returns.state_bind
  intro s _
  split
  · exact .of_pure _
  · exact .bind (Step.returns_commitAll _) fun _ => .of_pure _

theorem returns_poll (limit : Option Nat) (sh : Shelf) : (sh.poll limit).Returns := by
  cases sh with
  | view v => exact returns_pollIn v.slots limit
  | node id =>
    apply Step.Returns.state_bind
    intro s _
    split
    · exact .state_bind fun _ _ => returns_pollIn _ limit
    · exact .bind (Step.returns_log _) fun _ => .of_pure _

end

end Shelf

section Dealt
variable {w w' : World} {cs : List Change} {make : SlotId → Nat → Option Stack}
  {cap : SlotId → Nat} {q : Nat} {turns : List SlotId}

/-- When every slot with a share comes to hold something else, these are the ones reported. -/
theorem Step.commitAll_dealt (hw : w.state.Sound) (hturns : turns.Nodup)
    (hnew : ∀ x ∈ takers cap q turns, ∃ slot, w.state.forest.slot x = some slot ∧
      slot.contents ≠ make x (share cap q turns x))
    (h : commitAll (dealt make cap q turns) w = (.ok cs, w')) :
    w.state.Diff w'.state cs ∧ cs.map Change.slot = takers cap q turns ∧
    (∀ c ∈ cs, c.after = make c.slot (share cap q turns c.slot)) ∧
    ∀ x ∈ takers cap q turns, w'.state.contents x = make x (share cap q turns x) := by
  have hnodup := nodup_dealt make cap q hturns
  obtain ⟨hchanges, hheld⟩ := commitAll_new hw hnodup (by
    intro put hput
    obtain ⟨x, hx, rfl⟩ := List.mem_map.mp hput
    exact hnew x hx) h
  refine ⟨commitAll_diff hw hnodup h, ?_, ?_, fun x hx => hheld _ (List.mem_map_of_mem hx)⟩
  · rw [hchanges, List.map_map]
    exact dealt_fst _ _ _ _
  · intro c hc
    rw [hchanges] at hc
    obtain ⟨put, hput, rfl⟩ := List.mem_map.mp hc
    obtain ⟨x, _, rfl⟩ := List.mem_map.mp hput
    rfl

end Dealt

end Stowage
