import Stowage.Proofs.Lifetimes
import Stowage.Proofs.Offers
import Stowage.Proofs.References
import Stowage.Proofs.SlotOrders

/-!
# What becomes of the cursor

A discarded container empties its cursor into the bottom inventory, hands the rest back and goes.
The cursor has no part in the bottom inventory, so all units end up in slots that stay or in what is
handed back.
-/

namespace Stowage

set_option autoImplicit false

namespace Forest
variable {f : Forest}

/-- The inventory below a container is filled slot by slot, and its cursor is none of them. -/
structure Apart (f : Forest) (c : Container) : Prop where
  nodup : (f.fillOrder c.bottom).Nodup
  away : c.cursor ∉ f.fillOrder c.bottom

theorem Apart.sameOutline {g : Forest} {c : Container} (ha : f.Apart c) (h : SameOutline f g) :
    g.Apart c := by
  refine ⟨?_, ?_⟩
  · rw [h.fillOrder]
    exact ha.nodup
  · rw [h.fillOrder]
    exact ha.away

/-- An inventory has the cursor of a container only as itself. -/
theorem Sound.cursor_not_mem_fillOrder (hf : f.Sound) {id x : NodeId} {c : Container}
    (hc : f.container? id = some c) (hne : x ≠ c.cursor) (hplain : f.container? x = none) :
    c.cursor ∉ f.fillOrder x := by
  intro hfilled
  have hmem := (hf.fillOrder_perm hplain).mem_iff.mp hfilled
  obtain ⟨⟨n, hunder⟩, _⟩ := hf.under_of_mem_slots hplain hmem
  cases n with
  | zero => exact hne hunder.eq_of_zero
  | succ n =>
    obtain ⟨b, _, hlists⟩ := hunder.last
    exact hf.not_lists_cursor hc b hlists

theorem container?_eq_bareContent (f : Forest) (x : NodeId) :
    (f.container? x).isSome = (f.bareContent x).any fun k => k.container?.isSome := by
  have hbare : ∀ k : Content, k.bare.container?.isSome = k.container?.isSome := by
    intro k
    cases k <;> rfl
  unfold container? bareContent
  cases f.node? x with
  | none => rfl
  | some n => simp [hbare]

theorem container?_none_of_dead {x : NodeId} (h : f.contains x = false) :
    f.container? x = none := by
  cases hc : f.container? x with
  | none => rfl
  | some c =>
    rw [contains_of_container? hc] at h
    cases h

end Forest

section Origin
variable {calm : Prop} {past : List World} {w w' : World} {id : NodeId} {c : Container}

theorem Advance.container_made (h : Advance calm w w') (hw : w.state.Sound)
    (hc : w'.state.forest.container? id = some c) :
    (∃ d, w.state.forest.container? id = some d ∧ d.bare = c.bare) ∨
      c = w.state.forest.containerOver c.top c.bottom w.state.forest.nextId ∧
        w.state.forest.Showable c.top ∧ w.state.forest.Showable c.bottom := by
  cases h with
  | moves h _ => exact Or.inl ((h.thinned hw).exists_container? hc)
  | listen l => exact Or.inl ⟨c, hc, rfl⟩
  | rewire t d => exact Or.inl ⟨c, hc, rfl⟩
  | grow hg hq =>
    rw [hq.state_eq] at hc
    rw [hg.container?] at hc
    exact Or.inl ⟨c, hc, rfl⟩
  | @frame g x top bottom _ ht hb hg hq =>
    rw [hq.state_eq] at hc
    change g.container? id = some c at hc
    rw [hg.container?] at hc
    split at hc
    · cases hc
      exact Or.inr ⟨rfl, ht, hb⟩
    · exact Or.inl ⟨c, hc, rfl⟩
  | raze hr hn hfree hq =>
    rw [hq.state_eq] at hc
    exact Or.inl ⟨c, (Forest.of_container?_removed hc).2, rfl⟩
  | @enter u w' v x d hm _ _ hv hq =>
    rw [hq.state_eq] at hc
    exact Or.inl (((hm.thinned hw).trans (.entered u v x d)).exists_container? hc)

theorem Advance.container_origin (h : Advance calm w w') (hw : w.state.Sound)
    (hc : w'.state.forest.container? id = some c) :
    (∃ d, w.state.forest.container? id = some d ∧ d.bare = c.bare) ∨
      c.viewers = [] ∧ c.bottom ≠ c.cursor ∧ w.state.forest.Carries c := by
  refine (h.container_made hw hc).imp_right fun ⟨hmade, ht, hb⟩ => ?_
  have hviewers : c.viewers = [] := by rw [hmade]; rfl
  have hcursor : c.cursor = w.state.forest.nextId := by rw [hmade]; rfl
  refine ⟨hviewers, ?_, ht, hb, ?_⟩
  · obtain ⟨n, hn⟩ := Forest.contains_iff.mp hb.live
    rw [hcursor]
    exact Forest.ne_nextId hw.forest.arena hn
  · intro y hy
    rw [hmade] at hy
    exact Forest.mem_containerOver_slots hy

theorem Run.container_made (h : Run past w) (hc : w.state.forest.container? id = some c) :
    ∃ u ∈ past, c.bare = u.state.forest.containerOver c.top c.bottom c.cursor ∧
      c.bottom ≠ c.cursor ∧ u.state.forest.Showable c.top ∧ u.state.forest.Showable c.bottom := by
  induction h generalizing c with
  | start env transport diagnostics =>
    simp [State.new, Forest.container?, Forest.node?_empty] at hc
  | @step past w op before ih =>
    have hadvance := op.advances before.sound
    rcases hadvance.container_made before.sound hc with ⟨d, hd, hbare⟩ | ⟨hmade, ht, hb⟩
    · obtain ⟨htop, hbottom, hcursor, _⟩ := Container.of_bare_eq hbare
      obtain ⟨u, hu, hmade⟩ := ih hd
      rw [hbare, htop, hbottom, hcursor] at hmade
      exact ⟨u, List.mem_cons_of_mem _ hu, hmade⟩
    · have hcursor : c.cursor = w.state.forest.nextId := by rw [hmade]; rfl
      obtain ⟨n, hn⟩ := Forest.contains_iff.mp hb.live
      refine ⟨w, List.mem_cons_self, ?_, ?_, ht, hb⟩
      · rw [hcursor]
        exact congrArg Container.bare hmade
      · rw [hcursor]
        exact Forest.ne_nextId before.sound.forest.arena hn

theorem Run.shown_origin (h : Run past w) (hc : w.state.forest.container? id = some c) :
    c.bottom ≠ c.cursor ∧
      ∃ u ∈ past, u.state.forest.Showable c.top ∧ u.state.forest.Showable c.bottom := by
  obtain ⟨u, hu, _, hne, hshown⟩ := h.container_made hc
  exact ⟨hne, u, hu, hshown⟩

theorem Run.bound_lived (h : Run past w) (hc : w.state.forest.container? id = some c) {x : SlotId}
    (hx : x ∈ c.cursor :: c.slots) : ∃ u ∈ w :: past, u.state.forest.contains x = true := by
  induction h generalizing c with
  | start env transport diagnostics =>
    simp [State.new, Forest.container?, Forest.node?_empty] at hc
  | @step past w op before ih =>
    rcases List.mem_cons.mp hx with rfl | hslot
    · have hcursor := (before.step op).sound.forest.slot_cursor hc
      obtain ⟨s, hs⟩ := Option.isSome_iff_exists.mp hcursor
      exact ⟨_, List.mem_cons_self, Forest.contains_of_slot hs⟩
    · rcases (op.advances before.sound).container_origin before.sound hc with
        hold | ⟨_, _, hcarries⟩
      · obtain ⟨d, hd, hbare⟩ := hold
        obtain ⟨_, _, hcursor, hslots⟩ := Container.of_bare_eq hbare
        rw [← hcursor, ← hslots] at hx
        obtain ⟨u, hu, hlived⟩ := ih hd hx
        exact ⟨u, List.mem_cons_of_mem _ hu, hlived⟩
      · exact ⟨w, List.mem_cons_of_mem _ List.mem_cons_self,
          hcarries.live before.sound.forest hslot⟩

/-- Unless its generations started again, no container stands where an inventory stood that a
container could be made over. -/
theorem Run.plain_of_showable (h : Run past w) {x : NodeId} (hx : Unwrapped x past w) {u : World}
    (hu : u ∈ past) (hshown : u.state.forest.Showable x) : w.state.forest.container? x = none := by
  cases hlive : w.state.forest.contains x with
  | false => exact Forest.container?_none_of_dead hlive
  | true =>
    have hsame := h.bareContent hx (List.mem_cons_of_mem _ hu) hshown.live hlive
    rw [← Option.not_isSome_iff_eq_none, Forest.container?_eq_bareContent, hsame,
      ← Forest.container?_eq_bareContent, hshown.plain]
    exact Bool.false_ne_true

theorem Run.cursor_away (h : Run past w) (hu : Unwrapped c.bottom past w)
    (hc : w.state.forest.container? id = some c) :
    c.cursor ∉ w.state.forest.fillOrder c.bottom := by
  obtain ⟨hne, u, hmem, _, hshown⟩ := h.shown_origin hc
  exact h.sound.forest.cursor_not_mem_fillOrder hc hne (h.plain_of_showable hu hmem hshown)

theorem Run.apart (h : Run past w) (hu : Unwrapped c.bottom past w)
    (hc : w.state.forest.container? id = some c) : w.state.forest.Apart c :=
  ⟨h.nodup_fillOrder c.bottom, h.cursor_away hu hc⟩

end Origin

def State.cursorRest (s : State) (c : Container) : Option Stack :=
  (s.contents c.cursor).bind fun stack =>
    if s.env.settings.returnCursorOnDiscard then s.rejects c.bottom stack else some stack

theorem State.rejects_congr {s t : State} {node : NodeId} (henv : t.env = s.env)
    (hfill : t.forest.fillOrder node = s.forest.fillOrder node)
    (h : ∀ x ∈ s.forest.fillOrder node, t.forest.slot x = s.forest.slot x) (stack : Stack) :
    t.rejects node stack = s.rejects node stack := by
  unfold rejects
  rw [hfill, planOffer_congr henv h stack]

theorem State.units_drop {s : State} {id : NodeId} {c : Container}
    (hc : s.forest.container? id = some c) (cursor : SlotId) (k : ItemClass) :
    s.units k = (s.drop id cursor).units k + k.unitsIn (s.contents cursor) := by
  refine units_erase k ?_ ?_
  · unfold Forest.slot
    rw [s.forest_drop, Forest.node?_removed_of_mem (by simp)]
    rfl
  · intro y hy
    rw [s.forest_drop]
    by_cases hid : y = id
    · unfold Forest.slot
      obtain ⟨n, hn, hcontent⟩ := Forest.container?_eq_some_iff.mp hc
      rw [hid, Forest.node?_removed_of_mem (by simp), hn, Option.bind_some, hcontent]
      rfl
    · exact Forest.slot_removed (by simp [hy, hid])

/-- The state `t` is `s` but that the cursor was emptied and viewers were told. -/
structure State.Emptied (c : Container) (s t : State) : Prop where
  kept : s.Kept t
  cursor : t.contents c.cursor = none
  slot : ∀ x, x ≠ c.cursor → t.forest.slot x = s.forest.slot x
  units : ∀ k : ItemClass, t.units k + k.unitsIn (s.contents c.cursor) = s.units k

section Emptied
variable {s t : State} {c : Container}

theorem State.Emptied.rejects (h : s.Emptied c t) (ha : s.forest.Apart c) (stack : Stack) :
    t.rejects c.bottom stack = s.rejects c.bottom stack := by
  refine State.rejects_congr h.kept.env (h.kept.alike.sameOutline.fillOrder c.bottom) ?_ stack
  intro x hx
  exact h.slot x fun he => ha.away (he ▸ hx)

end Emptied

namespace Step
variable {w w' : World} {id : NodeId} {c : Container} {r : Option Stack}

theorem commit_emptied (hw : w.state.Sound) (hc : w.state.forest.container? id = some c) :
    w.state.Emptied c (commit c.cursor none w).2.state := by
  obtain ⟨s, hs⟩ := Option.isSome_iff_exists.mp (hw.forest.slot_cursor hc)
  have hslot := slot_commit hw c.cursor none
  refine ⟨(tidy_commit c.cursor none w hw).1.kept, ?_, ?_, ?_⟩
  · unfold State.contents Forest.contents
    rw [hslot, Forest.slot_setContents, if_pos rfl, hs]
    rfl
  · intro x hx
    rw [hslot, Forest.slot_setContents, if_neg hx]
  · intro k
    rw [State.contents_of_slot hs]
    exact units_commit hw hs none k

/-- The units that left the cursor are in the inventory below or handed back. -/
theorem returnCursor_ok (hw : w.state.Sound) (hc : w.state.forest.container? id = some c)
    (ha : w.state.forest.Apart c) (h : returnCursor c w = (.ok r, w')) :
    r = w.state.cursorRest c ∧ ∀ k : ItemClass, w'.state.units k + k.unitsIn r =
      w.state.units k + k.unitsIn (w'.state.contents c.cursor) := by
  unfold returnCursor at h
  rw [state_bind] at h
  unfold State.cursorRest
  cases hheld : w.state.contents c.cursor with
  | none =>
    rw [hheld] at h
    cases h
    exact ⟨rfl, fun k => by rw [hheld]⟩
  | some stack =>
    rw [hheld] at h
    dsimp only at h
    split at h
    · rename_i hreturns
      obtain ⟨_, u, hcommit, h⟩ := bind_eq_ok h
      obtain ⟨o, u', hoffer, h⟩ := bind_eq_ok h
      cases h
      have hemptied := commit_emptied hw hc
      rw [hcommit] at hemptied
      have hapart := ha.sameOutline hemptied.kept.alike.sameOutline
      obtain ⟨hrejected, hunits, hothers⟩ :=
        offerTo_ok (hemptied.kept.sound hw) hapart.nodup hoffer
      have hcursor : w'.state.contents c.cursor = none := by
        rw [State.contents_of_slot_eq (hothers _ hapart.away), hemptied.cursor]
      refine ⟨?_, ?_⟩
      · rw [hrejected, hemptied.rejects ha, Option.bind_some, if_pos hreturns]
      · intro k
        have hbefore := hemptied.units k
        have hafter := hunits k
        rw [hheld] at hbefore
        rw [hcursor, ItemClass.unitsIn_none]
        omega
    · rename_i hkeeps
      cases h
      rw [Option.bind_some, if_neg hkeeps]
      exact ⟨rfl, fun k => by rw [hheld]⟩

/-- Discarding a container loses no units but those that it hands back. -/
theorem discard_units (hw : w.state.Sound) (hc : w.state.forest.container? id = some c)
    (ha : w.state.forest.Apart c) (h : discard id w = (.ok r, w')) :
    r = w.state.cursorRest c ∧
      ∀ k : ItemClass, w.state.units k = w'.state.units k + k.unitsIn r := by
  rw [discard_eq hc] at h
  obtain ⟨leftover, u, hreturn, h⟩ := bind_eq_ok h
  have htouches := (tidy_returnCursor c w hw).1
  rw [hreturn] at htouches
  obtain ⟨d, hd, _⟩ := htouches.kept.exists_container?' hc
  obtain ⟨hrest, hunits⟩ := returnCursor_ok hw hc ha hreturn
  rw [dropContainer_bind] at h
  obtain ⟨_, u', hlog, h⟩ := bind_eq_ok h
  cases h
  refine ⟨hrest, ?_⟩
  intro k
  have hstate : w'.state = u.state.drop id c.cursor := (inert_log _ .view).state_eq hlog
  have hdrop := @State.units_drop u.state id d hd c.cursor k
  have hreturned := hunits k
  rw [hstate]
  omega

end Step

end Stowage
