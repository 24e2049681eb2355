import Stowage.Proofs.Container.Gear

/-!
# What a shift-click moves

Whatever target a behavior picks, the slot that was clicked is none of the slots that are filled,
and none of these is filled twice. So the units that leave the slot are those that arrive elsewhere.
A stack of some units is moved, at least in part, just when some slot of the target takes any of it.
-/

namespace Stowage

set_option autoImplicit false

structure Slot.Raises (rules : ItemRules) (s : Slot) (stack a : Stack) : Prop where
  same : a = { stack with quantity := a.quantity }
  merges : ∀ held, s.contents = some held → held.mergesWith stack = true
  more : unitsIn s.contents < a.quantity
  within : a.quantity ≤ s.maxStackFor rules stack

theorem Slot.planOffer_raises {s : Slot} {rules : ItemRules} {stack : Stack} {plan : SlotPlan}
    (h : s.planOffer rules stack = some plan) (hstack : 1 ≤ stack.quantity) :
    ∃ a, plan.after = some a ∧ s.Raises rules stack a := by
  obtain ⟨_, current, hbase, hroom, rfl⟩ := planOffer_cases h
  obtain ⟨hunits, hmerges⟩ := mergeBase_cases hbase
  refine ⟨_, Stack.resize_pos stack (by omega), rfl, hmerges, ?_, ?_⟩ <;>
  · dsimp only
    omega

namespace OfferPlan
variable {s : State} {stack : Stack} {l : List SlotId}

theorem fill_start (hstack : 1 ≤ stack.quantity) (merging : Bool) (x : SlotId) :
    fill s merging (.start stack) x = .start stack ∨
      (fill s merging (.start stack) x).puts ≠ [] := by
  rcases fill_cases s merging (.start stack) x with he | ⟨rest, slot, step, hrest, _, _, hstep, he⟩
  · exact Or.inl he
  · cases hrest
    obtain ⟨a, ha, _⟩ := Slot.planOffer_raises hstep hstack
    rw [he, ha]
    exact Or.inr (by simp)

theorem fill_puts_ne_nil {p : OfferPlan} (h : p.puts ≠ []) (merging : Bool) (x : SlotId) :
    (fill s merging p x).puts ≠ [] := by
  rcases fill_cases s merging p x with he | ⟨_, _, _, _, _, _, _, he⟩
  · rwa [he]
  · rw [he]
    exact List.append_ne_nil_of_left_ne_nil h _

theorem pass_puts_ne_nil {p : OfferPlan} (h : p.puts ≠ []) (merging : Bool) (l : List SlotId) :
    (l.foldl (fill s merging) p).puts ≠ [] :=
  List.foldlRecOn (motive := fun q : OfferPlan => q.puts ≠ []) l _ h fun _ hq x _ =>
    fill_puts_ne_nil hq merging x

theorem pass_start (hstack : 1 ≤ stack.quantity) (merging : Bool)
    (h : (l.foldl (fill s merging) (.start stack)).puts = []) :
    l.foldl (fill s merging) (.start stack) = .start stack ∧
      ∀ x ∈ l, fill s merging (.start stack) x = .start stack := by
  induction l with
  | nil => exact ⟨rfl, nofun⟩
  | cons x rest ih =>
    rw [List.foldl_cons] at h ⊢
    rcases fill_start (s := s) hstack merging x with hsame | hfirst
    · rw [hsame] at h ⊢
      obtain ⟨hrest, hall⟩ := ih h
      exact ⟨hrest, List.forall_mem_cons.mpr ⟨hsame, hall⟩⟩
    · exact absurd h (pass_puts_ne_nil hfirst merging rest)

end OfferPlan

namespace State
variable {s : State} {order : List SlotId} {stack : Stack}

theorem fill_of_no_room {x : SlotId} (h : s.roomFor stack x = false) (merging : Bool) :
    OfferPlan.fill s merging (.start stack) x = .start stack := by
  rcases OfferPlan.fill_cases s merging (.start stack) x with
    he | ⟨rest, slot, step, hrest, hslot, _, hstep, _⟩
  · exact he
  · cases hrest
    unfold roomFor at h
    rw [hslot, Option.any_some, ← Slot.planOffer_eq_none_iff, hstep] at h
    cases h

/-- An offer fills some slot just when some slot has room for the whole stack, or part of it. -/
theorem planOffer_puts_eq_nil_iff (hstack : 1 ≤ stack.quantity) :
    (s.planOffer order stack).puts = [] ↔ ∀ x ∈ order, s.roomFor stack x = false := by
  constructor
  · intro h x hx
    have hmerged : (order.foldl (OfferPlan.fill s true) (.start stack)).puts = [] :=
      not_not.mp fun hne => OfferPlan.pass_puts_ne_nil hne false order h
    obtain ⟨hstart, hmerging⟩ := OfferPlan.pass_start hstack true hmerged
    unfold planOffer at h
    rw [hstart] at h
    obtain ⟨_, hspreading⟩ := OfferPlan.pass_start hstack false h
    unfold roomFor
    cases hslot : s.forest.slot x with
    | none => rfl
    | some slot =>
      have hpass : OfferPlan.fill s slot.contents.isSome (.start stack) x = .start stack := by
        cases slot.contents with
        | none => exact hspreading x hx
        | some held => exact hmerging x hx
      have htried : (OfferPlan.fill s slot.contents.isSome (.start stack) x = _ ∧ _) ∨ _ :=
        OfferPlan.fill_of_slot rfl hslot
      rcases htried with ⟨_, hother | hnone⟩ | ⟨step, hstep, he⟩
      · exact OfferPlan.hasRoom_of_not_eligible List.not_mem_nil rfl hother
      · exact Slot.planOffer_eq_none_iff.mp hnone
      · obtain ⟨a, ha, _⟩ := Slot.planOffer_raises hstep hstack
        rw [hpass, ha] at he
        cases congrArg OfferPlan.puts he
  · intro h
    have hpass : ∀ merging,
        order.foldl (OfferPlan.fill s merging) (.start stack) = OfferPlan.start stack := by
      intro merging
      refine List.foldlRecOn (motive := fun p => p = OfferPlan.start stack) order _ rfl ?_
      intro p hp x hx
      rw [hp, fill_of_no_room (h x hx)]
    unfold planOffer
    rw [hpass, hpass]
    rfl

theorem planOffer_raises (s : State) (order : List SlotId) (hstack : 1 ≤ stack.quantity) :
    ∀ put ∈ (s.planOffer order stack).puts, ∃ live, s.forest.slot put.1 = some live ∧
      live.Raises s.env.rules stack put.2 := by
  have hplan := s.planOffer_induction (P := fun p =>
    (∀ rest, p.remaining = some rest → stack.PartOf rest) ∧
      ∀ put ∈ p.puts, ∃ live, s.forest.slot put.1 = some live ∧
        live.Raises s.env.rules stack put.2) order stack ⟨?_, nofun⟩ ?_
  · exact hplan.2
  · intro rest hrest
    cases hrest
    exact .refl hstack
  · rintro merging p x ⟨hleft, hraises⟩
    rcases OfferPlan.fill_cases s merging p x with
      he | ⟨rest, slot, step, hrest, hslot, _, hstep, he⟩
    · rw [he]
      exact ⟨hleft, hraises⟩
    · rw [he]
      have hpart := hleft rest hrest
      obtain ⟨a, ha, hrise⟩ := Slot.planOffer_raises hstep hpart.positive
      refine ⟨fun more hmore => hpart.trans (Slot.planOffer_rejected hstep hmore), ?_⟩
      rw [ha]
      refine List.forall_mem_append.mpr ⟨hraises, List.forall_mem_singleton.mpr ⟨slot, hslot, ?_⟩⟩
      rw [hpart.eq] at hrise
      exact ⟨hrise.same, hrise.merges, hrise.more, hrise.within⟩

theorem planOffer_remaining_eq (s : State) (order : List SlotId) (hstack : 1 ≤ stack.quantity) :
    (s.planOffer order stack).remaining =
      stack.resize (unitsIn (s.planOffer order stack).remaining) := by
  cases hrest : (s.planOffer order stack).remaining with
  | none => rfl
  | some rest =>
    have hpart := s.planOffer_remaining order hstack hrest
    change some rest = stack.resize rest.quantity
    rw [Stack.resize_pos stack hpart.positive, ← hpart.eq]

theorem planOffer_gains (horder : order.Nodup) (hstack : 1 ≤ stack.quantity) :
    ((s.planOffer order stack).puts.map fun put =>
      put.2.quantity - unitsIn (s.contents put.1)).sum +
        unitsIn (s.planOffer order stack).remaining = stack.quantity := by
  have hraises := s.planOffer_raises order hstack
  have hbalance := (s.planOffer_balanced stack horder).balance stack.itemClass
  rw [s.planOffer_remaining_eq order hstack, ItemClass.unitsIn_resize, if_pos rfl,
    ItemClass.unitsIn_some, if_pos rfl] at hbalance
  have hbefore : ((s.planOffer order stack).puts.map fun put =>
      stack.itemClass.unitsIn (s.contents put.1)) =
        (s.planOffer order stack).puts.map fun put => unitsIn (s.contents put.1) := by
    refine List.map_congr_left fun put hput => ?_
    obtain ⟨live, hlive, hrise⟩ := hraises put hput
    rw [contents_of_slot hlive]
    cases hheld : live.contents with
    | none => rfl
    | some held =>
      have hclass := Stack.mergesWith_iff_itemClass.mp (hrise.merges held hheld)
      exact if_pos hclass
  have hafter : ((s.planOffer order stack).puts.map fun put =>
      stack.itemClass.unitsIn (some put.2)) = (s.planOffer order stack).puts.map fun put =>
        put.2.quantity - unitsIn (s.contents put.1) + unitsIn (s.contents put.1) := by
    refine List.map_congr_left fun put hput => ?_
    obtain ⟨live, hlive, hrise⟩ := hraises put hput
    have hmore := hrise.more
    rw [contents_of_slot hlive, Nat.sub_add_cancel (Nat.le_of_lt hmore), hrise.same]
    exact if_pos rfl
  rw [hbefore, hafter, List.sum_map_add] at hbalance
  omega

theorem planOffer_gains_pos (s : State) (order : List SlotId) (hstack : 1 ≤ stack.quantity)
    (hputs : (s.planOffer order stack).puts ≠ []) :
    0 < ((s.planOffer order stack).puts.map fun put =>
      put.2.quantity - unitsIn (s.contents put.1)).sum := by
  have hraises := s.planOffer_raises order hstack
  obtain ⟨put, rest, hfirst⟩ := List.exists_cons_of_ne_nil hputs
  rw [hfirst] at hraises ⊢
  obtain ⟨live, hlive, hrise⟩ := hraises put List.mem_cons_self
  have hmore := hrise.more
  rw [List.map_cons, List.sum_cons, contents_of_slot hlive]
  omega

def Stuck (s : State) (custom : CustomTargets) (container : NodeId) (c : Container)
    (slot : SlotId) : Prop :=
  c.binds slot = false ∨ slot = c.cursor ∨ s.contents slot = none ∨
    ∃ stack, s.contents slot = some stack ∧
      ∀ x ∈ (s.target custom container slot (s.behaviorOf c)).slots, x ≠ slot →
        s.roomFor stack x = false

/-- Between two states some of a stack, or all of it, was moved to slots of the target. -/
structure Moved (s t : State) (target : List SlotId) (slot : SlotId) (stack : Stack)
    (r : Transaction) : Prop where
  diff : s.Diff t r.changes
  outcome : r.outcome = .partialSuccess
  rejected : r.rejected = none
  source : ∃ n, 0 < n ∧ n ≤ stack.quantity ∧
    t.contents slot = stack.resize (stack.quantity - n) ∧
    n = ((r.touched.filter fun x => x ≠ slot).map fun x =>
      unitsIn (t.contents x) - unitsIn (s.contents x)).sum
  gained : ∀ c ∈ r.changes, c.slot ≠ slot → c.slot ∈ target ∧ ∃ live a,
    s.forest.slot c.slot = some live ∧ c.after = some a ∧ live.Raises s.env.rules stack a

theorem nodup_shiftTarget (s : State) (custom : CustomTargets) (container : NodeId) (slot : SlotId)
    (c : Container) : (s.shiftTarget custom container slot c).Nodup := View.nodup_new _ _

theorem mem_shiftTarget_iff {custom : CustomTargets} {container : NodeId} {c : Container}
    {slot x : SlotId} : x ∈ s.shiftTarget custom container slot c ↔
      x ∈ (s.target custom container slot (s.behaviorOf c)).slots ∧ x ≠ slot := by
  unfold shiftTarget View.without
  rw [View.mem_slots_new_iff, List.mem_filter]
  simp

theorem stuck_iff {custom : CustomTargets} {container : NodeId} {c : Container} {slot : SlotId} :
    s.Stuck custom container c slot ↔ s.movable c slot = none ∨
      ∃ stack, s.movable c slot = some stack ∧
        ∀ x ∈ s.shiftTarget custom container slot c, s.roomFor stack x = false := by
  unfold Stuck movable
  simp only [mem_shiftTarget_iff, and_imp]
  by_cases hbound : (c.binds slot && slot != c.cursor) = true
  · rw [if_pos hbound]
    rw [Bool.and_eq_true, bne_iff_ne] at hbound
    simp [hbound.1, hbound.2]
  · rw [if_neg hbound]
    rw [Bool.and_eq_true, bne_iff_ne, not_and, not_not] at hbound
    refine ⟨fun _ => Or.inl rfl, fun _ => ?_⟩
    cases hb : c.binds slot with
    | false => exact Or.inl rfl
    | true => exact Or.inr (Or.inl (hbound hb))

theorem contents_of_movable {c : Container} {slot : SlotId} (h : s.movable c slot = some stack) :
    s.contents slot = some stack := by
  unfold movable at h
  split at h
  · exact h
  · cases h

theorem shiftPuts_eq {custom : CustomTargets} {container : NodeId} {c : Container} {slot : SlotId}
    (hc : s.containerAt container = .ok c) (hstack : s.movable c slot = some stack) :
    s.shiftPuts custom container slot =
      (slot, (s.planOffer (s.shiftTarget custom container slot c) stack).remaining) ::
        s.offerPuts (s.shiftTarget custom container slot c) stack := by
  unfold shiftPuts
  rw [hc]
  dsimp only [Except.toOption, Option.bind]
  rw [hstack]
  rfl

theorem shiftPuts_new {custom : CustomTargets} {container : NodeId} {c : Container} {slot : SlotId}
    (hc : s.containerAt container = .ok c) (hmovable : s.movable c slot = some stack)
    (hstack : 1 ≤ stack.quantity)
    (hputs : (s.planOffer (s.shiftTarget custom container slot c) stack).puts ≠ []) :
    ∀ put ∈ s.shiftPuts custom container slot,
      ∃ live, s.forest.slot put.1 = some live ∧ live.contents ≠ put.2 := by
  rw [shiftPuts_eq hc hmovable]
  refine List.forall_mem_cons.mpr ⟨?_, ?_⟩
  · obtain ⟨live, hlive, hheld⟩ := Option.bind_eq_some_iff.mp (contents_of_movable hmovable)
    refine ⟨live, hlive, fun hsame => ?_⟩
    replace hsame : (s.planOffer (s.shiftTarget custom container slot c) stack).remaining =
      some stack := hsame.symm.trans hheld
    have hgains := planOffer_gains (s := s) (s.nodup_shiftTarget custom container slot c) hstack
    have hpos := s.planOffer_gains_pos _ hstack hputs
    rw [hsame] at hgains
    change _ + stack.quantity = stack.quantity at hgains
    omega
  · intro put hput
    obtain ⟨p, hp, rfl⟩ := List.mem_map.mp hput
    obtain ⟨live, hlive, hrise⟩ := s.planOffer_raises _ hstack p hp
    refine ⟨live, hlive, fun hsame => ?_⟩
    have hmore := hrise.more
    rw [hsame] at hmore
    exact Nat.lt_irrefl _ hmore

end State

namespace Step
variable {w w' : World} {custom : CustomTargets} {container : NodeId} {slot : SlotId}
  {c : Container} {stack : Stack} {t : Transaction}

/-- Nothing is moved, or the slot and those of the plan get what the plan has for them. -/
theorem shiftClick_cases (h : shiftClick custom container slot w = (.ok (.ok t), w')) :
    ∃ c, w.state.containerAt container = .ok c ∧
      ((w.state.movable c slot = none ∧ t = .failure none ∧ w' = w) ∨
        ∃ stack, w.state.movable c slot = some stack ∧
          (((w.state.planOffer (w.state.shiftTarget custom container slot c) stack).puts = [] ∧
            t = .failure none ∧ w' = w) ∨
          ((w.state.planOffer (w.state.shiftTarget custom container slot c) stack).puts ≠ [] ∧
            ∃ cs, commitAll (w.state.shiftPuts custom container slot) w = (.ok cs, w') ∧
              t = .ofChanges cs none))) := by
  unfold State.shiftPuts
  unfold shiftClick at h
  rw [state_bind] at h
  cases hc : w.state.containerAt container with
  | error r =>
    rw [hc] at h
    cases h
  | ok c =>
    rw [hc] at h
    refine ⟨c, rfl, ?_⟩
    dsimp only [Except.toOption, Option.bind] at h ⊢
    cases hmovable : w.state.movable c slot with
    | none =>
      rw [hmovable] at h
      cases h
      exact Or.inl ⟨rfl, rfl, rfl⟩
    | some stack =>
      rw [hmovable] at h
      refine Or.inr ⟨stack, rfl, ?_⟩
      dsimp only at h
      split at h
      · rename_i hnone
        cases h
        exact Or.inl ⟨List.isEmpty_iff.mp hnone, rfl, rfl⟩
      · rename_i hsome
        obtain ⟨cs, u, hcommit, h⟩ := bind_eq_ok h
        cases h
        exact Or.inr ⟨fun hnone => hsome (List.isEmpty_iff.mpr hnone), cs, hcommit, rfl⟩

theorem shiftClick_answers (hc : w.state.containerAt container = .ok c)
    {r : Except Refusal Transaction} (h : shiftClick custom container slot w = (.ok r, w')) :
    ∃ t, r = .ok t := by
  unfold shiftClick at h
  rw [state_bind, hc] at h
  dsimp only at h
  cases hmovable : w.state.movable c slot with
  | none =>
    rw [hmovable] at h
    cases h
    exact ⟨_, rfl⟩
  | some stack =>
    rw [hmovable] at h
    dsimp only at h
    split at h
    · cases h
      exact ⟨_, rfl⟩
    · obtain ⟨cs, u, _, h⟩ := bind_eq_ok h
      cases h
      exact ⟨_, rfl⟩

theorem touched_shiftClick (hw : w.state.Sound) (hc : w.state.containerAt container = .ok c)
    (h : shiftClick custom container slot w = (.ok (.ok t), w')) {x : SlotId}
    (hx : x ∈ t.touched) (hother : x ≠ slot) : w.state.movable c slot ≠ none ∧
      x ∈ (w.state.target custom container slot (w.state.behaviorOf c)).slots := by
  obtain ⟨d, hd, hcases⟩ := shiftClick_cases h
  rw [hc] at hd
  cases hd
  rcases hcases with ⟨_, rfl, _⟩ | ⟨stack, hmovable, ⟨_, rfl, _⟩ | ⟨_, cs, hcommit, rfl⟩⟩
  · cases hx
  · cases hx
  · have hnodup := w.state.nodup_shiftPuts custom container slot
    obtain ⟨change, hchange, rfl⟩ := List.mem_map.mp hx
    change change ∈ cs at hchange
    rw [(commitAll_ok hw hnodup hcommit).1, State.shiftPuts_eq hc hmovable] at hchange
    obtain ⟨put, hput, hof⟩ := List.mem_filterMap.mp hchange
    rw [(State.changeOf_eq_some hof).1] at hput
    rcases List.mem_cons.mp hput with he | hput
    · exact absurd (congrArg Prod.fst he) hother
    · refine ⟨by simp [hmovable], (State.mem_shiftTarget_iff.mp ?_).1⟩
      have hfilled := List.mem_map_of_mem (f := Prod.fst) hput
      rw [State.offerPuts_fst] at hfilled
      exact w.state.planOffer_puts_subset _ stack hfilled

theorem units_shiftClick (hw : w.state.Sound)
    (h : shiftClick custom container slot w = (.ok (.ok t), w')) (k : ItemClass) :
    w'.state.units k = w.state.units k := by
  obtain ⟨c, hc, ⟨_, _, rfl⟩ | ⟨stack, hmovable, ⟨_, _, rfl⟩ | ⟨_, cs, hcommit, _⟩⟩⟩ :=
    shiftClick_cases h
  · rfl
  · rfl
  · have hnodup := w.state.nodup_shiftPuts custom container slot
    rw [State.shiftPuts_eq hc hmovable] at hcommit hnodup
    have hcontents := State.contents_of_movable hmovable
    obtain ⟨live, hlive, _⟩ := Option.bind_eq_some_iff.mp hcontents
    have hbalanced := w.state.planOffer_balanced stack
      (w.state.nodup_shiftTarget custom container slot c)
    have hslots : ∀ put ∈ (slot, (w.state.planOffer (w.state.shiftTarget custom container slot c)
        stack).remaining) :: w.state.offerPuts (w.state.shiftTarget custom container slot c) stack,
        (w.state.forest.slot put.1).isSome = true := by
      refine List.forall_mem_cons.mpr ⟨Option.isSome_iff_exists.mpr ⟨live, hlive⟩, ?_⟩
      intro put hput
      obtain ⟨p, hp, rfl⟩ := List.mem_map.mp hput
      exact hbalanced.live p hp
    have hunits := units_commitAll hw hnodup hslots hcommit k
    have hbalance := hbalanced.balance k
    unfold State.offerPuts at hunits
    simp only [List.map_cons, List.sum_cons, List.map_map, Function.comp_def, hcontents] at hunits
    omega

theorem shiftClick_moved (hw : w.state.Sound) (hc : w.state.containerAt container = .ok c)
    (hmovable : w.state.movable c slot = some stack) (hstack : 1 ≤ stack.quantity)
    (hputs : (w.state.planOffer (w.state.shiftTarget custom container slot c) stack).puts ≠ [])
    {cs : List Change} (h : commitAll (w.state.shiftPuts custom container slot) w = (.ok cs, w')) :
    w.state.Moved w'.state (w.state.target custom container slot (w.state.behaviorOf c)).slots
      slot stack (.ofChanges cs none) := by
  have hnodup := w.state.nodup_shiftPuts custom container slot
  have hdiff := commitAll_diff hw hnodup h
  obtain ⟨hchanges, hafter⟩ := commitAll_new hw hnodup
    (State.shiftPuts_new hc hmovable hstack hputs) h
  rw [State.shiftPuts_eq hc hmovable] at hchanges hafter
  have hraises := w.state.planOffer_raises (w.state.shiftTarget custom container slot c) hstack
  have hgains := State.planOffer_gains (s := w.state)
    (w.state.nodup_shiftTarget custom container slot c) hstack
  have hpos := w.state.planOffer_gains_pos _ hstack hputs
  have hremaining := w.state.planOffer_remaining_eq
    (w.state.shiftTarget custom container slot c) hstack
  have hmem : ∀ put ∈ (w.state.planOffer (w.state.shiftTarget custom container slot c) stack).puts,
      put.1 ∈ (w.state.target custom container slot (w.state.behaviorOf c)).slots ∧
        put.1 ≠ slot := fun put hput => State.mem_shiftTarget_iff.mp
    (w.state.planOffer_puts_subset _ stack (List.mem_map_of_mem hput))
  unfold State.offerPuts at hchanges hafter
  generalize w.state.planOffer (w.state.shiftTarget custom container slot c) stack = plan at *
  obtain ⟨puts, remaining⟩ := plan
  dsimp only at *
  obtain ⟨hslot, hput⟩ := List.forall_mem_cons.mp hafter
  change w'.state.contents slot = remaining at hslot
  rw [List.map_cons, List.map_map] at hchanges
  refine ⟨hdiff, ?_, rfl, ⟨_, hpos, by omega, ?_, ?_⟩, ?_⟩
  · obtain ⟨put, rest, rfl⟩ := List.exists_cons_of_ne_nil hputs
    rw [hchanges]
    rfl
  · rw [hslot, hremaining]
    congr 1
    omega
  · have htouched : (Transaction.ofChanges cs none).touched.filter (fun x => x ≠ slot) =
        puts.map Prod.fst := by
      change (cs.map Change.slot).filter _ = _
      rw [hchanges, List.map_cons, List.map_map, List.filter_cons_of_neg (by simp)]
      refine List.filter_eq_self.mpr fun x hx => ?_
      obtain ⟨put, hput, rfl⟩ := List.mem_map.mp hx
      exact decide_eq_true (hmem put hput).2
    rw [htouched, List.map_map]
    refine congrArg List.sum (List.map_congr_left fun put hmem => ?_)
    rw [Function.comp_apply, hput _ (List.mem_map_of_mem hmem)]
    rfl
  · intro change hchange hother
    change change ∈ cs at hchange
    rw [hchanges] at hchange
    rcases List.mem_cons.mp hchange with rfl | hchange
    · exact absurd rfl hother
    · obtain ⟨put, hput, rfl⟩ := List.mem_map.mp hchange
      obtain ⟨live, hlive, hrise⟩ := hraises put hput
      exact ⟨(hmem put hput).1, live, put.2, hlive, rfl, hrise⟩

end Step

section Run
variable {past : List World} {w : World}

/-- Whatever happened before and whatever target a behavior picks, a shift-click moves units and
loses none. A stack of some units stays where it is just when it is stuck, and otherwise what is
gained elsewhere leaves the slot. -/
theorem clicks_move_units (h : Run past w) (custom : CustomTargets) (container : NodeId)
    (slot : SlotId) :
    (w.state.env.settings.isolateListenerPanics = true →
      ∃ r w', Step.shiftClick custom container slot w = (.ok r, w')) ∧
    ∀ t w', Step.shiftClick custom container slot w = (.ok (.ok t), w') →
      (∀ k, w'.state.units k = w.state.units k) ∧
      ∃ c, w.state.containerAt container = .ok c ∧
        ((∀ stack, w.state.contents slot = some stack → 1 ≤ stack.quantity) →
          (t.outcome = .failure ↔ w.state.Stuck custom container c slot) ∧
          ((t = .failure none ∧ w' = w) ∨ ∃ stack, w.state.contents slot = some stack ∧
            w.state.Moved w'.state (w.state.target custom container slot
              (w.state.behaviorOf c)).slots slot stack t)) := by
  refine ⟨?_, fun t w' hclick => ⟨Step.units_shiftClick h.sound hclick, ?_⟩⟩
  · intro hisolated
    obtain ⟨r, w', hclick, _⟩ := Step.returns_shiftClick custom container slot w hisolated
    exact ⟨r, w', hclick⟩
  · obtain ⟨c, hc, hcases⟩ := Step.shiftClick_cases hclick
    refine ⟨c, hc, fun hunits => ?_⟩
    rw [State.stuck_iff]
    rcases hcases with ⟨hnone, rfl, rfl⟩ | ⟨stack, hmovable, hcases⟩
    · exact ⟨iff_of_true rfl (Or.inl hnone), Or.inl ⟨rfl, rfl⟩⟩
    · have hcontents := State.contents_of_movable hmovable
      have hstack := hunits stack hcontents
      rcases hcases with ⟨hputs, rfl, rfl⟩ | ⟨hputs, cs, hcommit, rfl⟩
      · exact ⟨iff_of_true rfl (Or.inr ⟨stack, hmovable,
          (State.planOffer_puts_eq_nil_iff hstack).mp hputs⟩), Or.inl ⟨rfl, rfl⟩⟩
      · have hmoved := Step.shiftClick_moved h.sound hc hmovable hstack hputs hcommit
        refine ⟨iff_of_false ?_ ?_, Or.inr ⟨stack, hcontents, hmoved⟩⟩
        · rw [hmoved.outcome]
          nofun
        · rw [hmovable]
          rintro (hnone | ⟨other, hother, hall⟩)
          · cases hnone
          · cases hother
            exact hputs ((State.planOffer_puts_eq_nil_iff hstack).mpr hall)

def Step.clickChest : Step (Except Refusal Transaction) :=
  shiftClick (fun _ _ _ _ => .empty) ⟨3, 0⟩ ⟨0, 0⟩

def Operation.apples : List Operation :=
  chest ++ [.set ⟨0, 0⟩ (some (.new ⟨"minecraft:apple"⟩ 40)),
    .set ⟨1, 0⟩ (some (.new ⟨"minecraft:apple"⟩ 34))]

theorem clicks_move_units_apples : ∃ t w',
    Step.clickChest (World.reached Operation.apples).2 = (.ok (.ok t), w') ∧
    (∀ k, w'.state.units k = (World.reached Operation.apples).2.state.units k) ∧
    t.outcome = .partialSuccess ∧
    w'.state.contents ⟨0, 0⟩ = some (.new ⟨"minecraft:apple"⟩ 10) := by
  obtain ⟨hreturns, hmoves⟩ := clicks_move_units (Run.reached Operation.apples)
    (fun _ _ _ _ => .empty) ⟨3, 0⟩ ⟨0, 0⟩
  have hthere : ((World.reached Operation.apples).2.state.containerAt ⟨3, 0⟩).toOption.any
      (fun _ => true) = true := by decide +kernel
  have hbefore : (World.reached Operation.apples).2.state.contents ⟨0, 0⟩ =
      some (.new ⟨"minecraft:apple"⟩ 40) := by decide +kernel
  have hleft : (Step.clickChest (World.reached Operation.apples).2).2.state.contents ⟨0, 0⟩ =
      some (.new ⟨"minecraft:apple"⟩ 10) := by decide +kernel
  obtain ⟨r, w', hclick⟩ := hreturns (by decide +kernel)
  obtain ⟨_, hc, _⟩ := exists_ok_of_any hthere
  obtain ⟨t, rfl⟩ := Step.shiftClick_answers hc hclick
  obtain ⟨hunits, _, _, hmoved⟩ := hmoves t w' hclick
  change Step.clickChest _ = _ at hclick
  rw [hclick] at hleft
  obtain ⟨_, ⟨_, rfl⟩ | ⟨_, _, hmoved⟩⟩ := hmoved (by
    intro stack hstack
    rw [← Option.some.inj (hbefore.symm.trans hstack)]
    decide)
  · exact absurd (hbefore.symm.trans hleft) (by decide)
  · exact ⟨t, w', hclick, hunits, hmoved.outcome, hleft⟩

/-- A click on a stack of no units takes it away, and neither fails nor is it told to be partial. -/
theorem click_succeeds_without_units :
    ¬ ∀ (past : List World) (w w' : World) (custom : CustomTargets) (container : NodeId)
      (slot : SlotId) (t : Transaction), Run past w →
        Step.shiftClick custom container slot w = (.ok (.ok t), w') →
          t.outcome = .failure ∨ t.outcome = .partialSuccess := by
  intro h
  have hthere : ((World.reached Operation.hollow).2.state.containerAt ⟨3, 0⟩).toOption.any
      (fun _ => true) = true := by decide +kernel
  obtain ⟨c, hc, _⟩ := exists_ok_of_any hthere
  have hsuccess : (Step.clickChest (World.reached Operation.hollow).2).1.toOption.any
      (fun r => r.toOption.any fun t => t.outcome = .success) = true := by decide +kernel
  obtain ⟨r, w', hclick, _⟩ := Step.returns_shiftClick (fun _ _ _ _ => .empty) ⟨3, 0⟩ ⟨0, 0⟩
    (World.reached Operation.hollow).2 (by decide +kernel)
  obtain ⟨t, rfl⟩ := Step.shiftClick_answers hc hclick
  change Step.clickChest _ = _ at hclick
  rw [hclick] at hsuccess
  have hclaimed := h _ _ w' _ _ _ t (Run.reached Operation.hollow) hclick
  rw [of_decide_eq_true hsuccess] at hclaimed
  rcases hclaimed with he | he <;> cases he

end Run

end Stowage
