import Stowage.Proofs.Admission

/-!
# Who is filled first

An offer goes through its slots twice, first to those that hold the same and then to the empty ones.
A slot that is tried while something is left over ends up without room, and what a slot gets it gets
while something is left over. So within either pass no slot gets anything before the slots in front
of it have no room left.
-/

namespace Stowage

set_option autoImplicit false

namespace Slot
variable {s : Slot} {rules : ItemRules} {stack : Stack} {plan : SlotPlan}

def hasRoom (s : Slot) (rules : ItemRules) (stack : Stack) : Bool :=
  s.accepts rules stack && (s.mergeBase stack).any fun held => held < s.maxStackFor rules stack

theorem planOffer_eq_none_iff : s.planOffer rules stack = none ↔ s.hasRoom rules stack = false := by
  unfold planOffer hasRoom
  split
  · rename_i haccepts
    cases hbase : s.mergeBase stack with
    | none => simp
    | some held => simp [haccepts]
  · rename_i hrefuses
    simp [hrefuses]

theorem hasRoom_resize (hsteady : s.filter.Steady rules) (n : Nat) :
    s.hasRoom rules { stack with quantity := n } = s.hasRoom rules stack := by
  have haccepts : s.accepts rules { stack with quantity := n } = s.accepts rules stack :=
    hsteady stack n
  unfold hasRoom
  rw [haccepts]
  rfl

theorem hasRoom_of_full {held : Stack} (hheld : s.contents = some held)
    (hmerges : held.mergesWith stack = true)
    (hfull : s.maxStackFor rules stack ≤ held.quantity) : s.hasRoom rules stack = false := by
  have hbase : s.mergeBase stack = some held.quantity := by
    unfold mergeBase
    rw [hheld]
    exact if_pos hmerges
  unfold hasRoom
  rw [hbase]
  simp [Nat.not_lt.mpr hfull]

theorem full_of_rejected (h : s.planOffer rules stack = some plan) {rest : Stack}
    (hrest : plan.rejected = some rest) : ∃ held, plan.after = some held ∧
      ({ s with contents := some held } : Slot).hasRoom rules stack = false := by
  obtain ⟨_, current, _, hroom, rfl⟩ := planOffer_cases h
  have hlimit : current + min stack.quantity (s.maxStackFor rules stack - current) =
      s.maxStackFor rules stack := by
    dsimp only [Stack.resize] at hrest
    split at hrest
    · cases hrest
    · omega
  dsimp only
  rw [hlimit]
  exact ⟨_, Stack.resize_pos stack (by omega),
    hasRoom_of_full rfl (Stack.mergesWith_iff.mpr ⟨rfl, rfl⟩) (Nat.le_refl _)⟩

end Slot

namespace OfferPlan
variable {s : State} {stack : Stack} {p : OfferPlan} {merging : Bool} {x y z : SlotId}
  {l : List SlotId}

def after (s : State) (p : OfferPlan) (x : SlotId) : Option Stack :=
  ((p.puts.lookup x).map some).getD (s.contents x)

/-- By the plan, the slot will have no room for the stack. -/
def Settled (s : State) (stack : Stack) (p : OfferPlan) (x : SlotId) : Prop :=
  ∀ slot, s.forest.slot x = some slot →
    ({ slot with contents := p.after s x } : Slot).hasRoom s.env.rules stack = false

def Leaves (stack : Stack) (p : OfferPlan) : Prop :=
  ∀ rest, p.remaining = some rest → rest = { stack with quantity := rest.quantity }

theorem leaves_start (stack : Stack) : Leaves stack (.start stack) := by
  intro rest hrest
  cases hrest
  rfl

theorem Leaves.fill (h : Leaves stack p) (merging : Bool) (x : SlotId) :
    Leaves stack (OfferPlan.fill s merging p x) := by
  intro rest hrest
  rcases fill_cases s merging p x with he | ⟨old, slot, step, hold, _, _, hstep, he⟩
  · rw [he] at hrest
    exact h rest hrest
  · rw [he] at hrest
    have hpart := (Slot.planOffer_rejected hstep hrest).eq
    rw [hpart, h old hold]

theorem Leaves.pass (h : Leaves stack p) (merging : Bool) (l : List SlotId) :
    Leaves stack (l.foldl (OfferPlan.fill s merging) p) :=
  List.foldlRecOn l _ h fun _ hq id _ => hq.fill merging id

theorem fill_of_none (h : p.remaining = none) (merging : Bool) (x : SlotId) :
    fill s merging p x = p := by
  unfold fill
  rw [h]

theorem pass_of_none (h : p.remaining = none) (merging : Bool) (l : List SlotId) :
    l.foldl (fill s merging) p = p := by
  induction l with
  | nil => rfl
  | cons x rest ih => rw [List.foldl_cons, fill_of_none h, ih]

theorem remaining_of_pass (h : (l.foldl (fill s merging) p).remaining ≠ none) :
    p.remaining ≠ none := by
  intro hnone
  rw [pass_of_none hnone] at h
  exact h hnone

theorem lookup_of_not_mem (h : x ∉ p.puts.map Prod.fst) : p.puts.lookup x = none := by
  rw [List.lookup_eq_none_iff]
  intro put hput
  rw [bne_iff_ne]
  rintro rfl
  exact h (List.mem_map_of_mem hput)

theorem after_of_not_mem (h : x ∉ p.puts.map Prod.fst) : p.after s x = s.contents x := by
  unfold after
  rw [lookup_of_not_mem h]
  rfl

theorem after_of_mem (hnodup : (p.puts.map Prod.fst).Nodup) {a : Stack} (h : (x, a) ∈ p.puts) :
    p.after s x = some a := by
  unfold after
  rw [(lookup_eq_some_iff_mem hnodup).mpr h]
  rfl

theorem after_append_of_mem {more : List (SlotId × Stack)} {rest : Option Stack}
    (h : x ∈ p.puts.map Prod.fst) : after s ⟨p.puts ++ more, rest⟩ x = p.after s x := by
  have hsome : (p.puts.lookup x).isSome = true := by
    rw [← Option.ne_none_iff_isSome, Ne, List.lookup_eq_none_iff]
    intro hnone
    obtain ⟨put, hput, rfl⟩ := List.mem_map.mp h
    simpa using hnone put hput
  unfold after
  rw [List.lookup_append, Option.or_of_isSome hsome]

theorem isSome_of_pass (h : x ∈ (l.foldl (fill s merging) p).puts.map Prod.fst) :
    x ∈ p.puts.map Prod.fst ∨ (s.contents x).isSome = merging := by
  induction l generalizing p with
  | nil => exact Or.inl h
  | cons y rest ih =>
    rcases ih h with hx | hx
    · rcases fill_cases s merging p y with he | ⟨rest, slot, step, _, hslot, heligible, _, he⟩
      · rw [he] at hx
        exact Or.inl hx
      · rw [he, List.map_append, List.mem_append] at hx
        refine hx.imp_right fun hx => ?_
        obtain ⟨put, hput, rfl⟩ := List.mem_map.mp hx
        obtain ⟨a, _, rfl⟩ := Option.map_eq_some_iff.mp (Option.mem_toList.mp hput)
        rw [State.contents_of_slot hslot]
        unfold eligible at heligible
        cases hheld : slot.contents <;> cases merging <;> simp_all [Slot.isEmpty]
    · exact Or.inr hx

theorem remaining_of_put {before behind : List SlotId} (hbefore : x ∉ before)
    (hnew : x ∉ p.puts.map Prod.fst)
    (h : x ∈ ((before ++ x :: behind).foldl (fill s merging) p).puts.map Prod.fst) :
    (before.foldl (fill s merging) p).remaining ≠ none := by
  intro hnone
  rw [List.foldl_append, List.foldl_cons, fill_of_none hnone, pass_of_none hnone] at h
  exact (foldl_fill_puts_subset s merging before p h).elim hnew hbefore

theorem fill_of_slot {rest : Stack} {slot : Slot} (hrest : p.remaining = some rest)
    (hslot : s.forest.slot x = some slot) :
    (fill s merging p x = p ∧
      (eligible merging p x slot rest = false ∨ slot.planOffer s.env.rules rest = none)) ∨
    ∃ step, slot.planOffer s.env.rules rest = some step ∧
      fill s merging p x = ⟨p.puts ++ (step.after.map fun a => (x, a)).toList, step.rejected⟩ := by
  unfold fill
  rw [hrest, hslot]
  dsimp only
  split
  · cases hstep : slot.planOffer s.env.rules rest with
    | none => exact Or.inl ⟨rfl, Or.inr rfl⟩
    | some step => exact Or.inr ⟨step, rfl, rfl⟩
  · rename_i heligible
    exact Or.inl ⟨rfl, Or.inl (Bool.eq_false_iff.mpr heligible)⟩

theorem hasRoom_of_not_eligible {slot : Slot} {rest : Stack} {rules : ItemRules}
    (hnew : x ∉ p.puts.map Prod.fst) (hpass : slot.contents.isSome = merging)
    (h : eligible merging p x slot rest = false) : slot.hasRoom rules rest = false := by
  unfold eligible at h
  unfold Slot.hasRoom Slot.mergeBase
  cases hheld : slot.contents with
  | none =>
    have hany : (p.puts.any fun put => put.1 = x) = false := by
      rw [List.any_eq_false]
      intro put hput
      rw [decide_eq_true_iff]
      rintro rfl
      exact hnew (List.mem_map_of_mem hput)
    rw [hheld] at hpass
    simp [← hpass, hany, Slot.isEmpty, hheld] at h
  | some held =>
    rw [hheld] at hpass
    simp only [← hpass, Option.isSome_some, if_pos, hheld, Option.any_some] at h
    simp [h]

section Settling
variable (hsteady : ∀ slot, s.forest.slot y = some slot → slot.filter.Steady s.env.rules)
include hsteady

/-- A slot without room stays without. -/
theorem Settled.fill (h : Settled s stack p y) (hleaves : Leaves stack p) (merging : Bool)
    (x : SlotId) :
    Settled s stack (OfferPlan.fill s merging p x) y := by
  rcases fill_cases s merging p x with he | ⟨rest, slot, step, hrest, hslot, _, hstep, he⟩
  · rw [he]
    exact h
  · have hsame : (OfferPlan.fill s merging p x).after s y = p.after s y := by
      rw [he]
      by_cases hmem : y ∈ p.puts.map Prod.fst
      · exact after_append_of_mem hmem
      · have hne : y ≠ x := by
          rintro rfl
          have hfull := h slot hslot
          rw [after_of_not_mem hmem, State.contents_of_slot hslot,
            ← Slot.hasRoom_resize (hsteady slot hslot) rest.quantity, ← hleaves rest hrest,
            ← Slot.planOffer_eq_none_iff] at hfull
          rw [hstep] at hfull
          cases hfull
        rw [after_of_not_mem hmem, after_of_not_mem]
        rw [List.map_append, List.mem_append, not_or]
        refine ⟨hmem, fun hy => hne ?_⟩
        obtain ⟨put, hput, rfl⟩ := List.mem_map.mp hy
        obtain ⟨a, _, rfl⟩ := Option.map_eq_some_iff.mp (Option.mem_toList.mp hput)
        rfl
    intro slot' hslot'
    rw [hsame]
    exact h slot' hslot'

theorem Settled.pass (h : Settled s stack p y) (hleaves : Leaves stack p) (merging : Bool)
    (l : List SlotId) :
    Settled s stack (l.foldl (OfferPlan.fill s merging) p) y := by
  induction l generalizing p with
  | nil => exact h
  | cons x rest ih => exact ih (h.fill hsteady hleaves merging x) (hleaves.fill merging x)

theorem settled_fill (hleaves : Leaves stack p) (hnew : y ∉ p.puts.map Prod.fst)
    (hpass : (s.contents y).isSome = merging)
    (hrest : (OfferPlan.fill s merging p y).remaining ≠ none) :
    Settled s stack (OfferPlan.fill s merging p y) y := by
  intro slot hslot
  obtain ⟨rest, hleft⟩ := Option.ne_none_iff_exists'.mp
    fun hnone => hrest (by rw [fill_of_none hnone, hnone])
  have hresize : ∀ t : Option Stack, ({ slot with contents := t } : Slot).hasRoom s.env.rules rest =
      ({ slot with contents := t } : Slot).hasRoom s.env.rules stack := by
    intro t
    have hfilter : ({ slot with contents := t } : Slot).filter.Steady s.env.rules :=
      hsteady slot hslot
    rw [hleaves rest hleft]
    exact Slot.hasRoom_resize hfilter rest.quantity
  have hpassed : slot.hasRoom s.env.rules rest = false →
      OfferPlan.fill s merging p y = p →
      ({ slot with contents := (OfferPlan.fill s merging p y).after s y } : Slot).hasRoom
        s.env.rules stack = false := by
    intro hfull hsame
    rw [hsame, after_of_not_mem hnew, State.contents_of_slot hslot, ← hresize]
    exact hfull
  rcases fill_of_slot hleft hslot with ⟨hsame, heligible | hstep⟩ | ⟨step, hstep, hfill⟩
  · rw [State.contents_of_slot hslot] at hpass
    exact hpassed (hasRoom_of_not_eligible hnew hpass heligible) hsame
  · exact hpassed (Slot.planOffer_eq_none_iff.mp hstep) hsame
  · rw [hfill] at hrest ⊢
    obtain ⟨excess, hexcess⟩ := Option.ne_none_iff_exists'.mp hrest
    obtain ⟨held, hheld, hfull⟩ := Slot.full_of_rejected hstep hexcess
    have hafter : after s ⟨p.puts ++ (step.after.map fun a => (y, a)).toList, step.rejected⟩ y =
        some held := by
      unfold after
      rw [List.lookup_append, lookup_of_not_mem hnew, hheld]
      simp
    rw [hafter, ← hresize]
    exact hfull

/-- What a pass goes through has no room afterwards, if something is left over. -/
theorem settled_pass (hl : l.Nodup) (hleaves : Leaves stack p)
    (hnew : ∀ z ∈ l, (s.contents z).isSome = merging → z ∉ p.puts.map Prod.fst) (hy : y ∈ l)
    (hpass : (s.contents y).isSome = merging)
    (hrest : (l.foldl (OfferPlan.fill s merging) p).remaining ≠ none) :
    Settled s stack (l.foldl (OfferPlan.fill s merging) p) y := by
  induction l generalizing p with
  | nil => cases hy
  | cons a rest ih =>
    obtain ⟨ha, hl⟩ := List.nodup_cons.mp hl
    rcases List.mem_cons.mp hy with rfl | hy
    · have hsettled := settled_fill hsteady hleaves (hnew y List.mem_cons_self hpass) hpass
        (remaining_of_pass hrest)
      exact hsettled.pass hsteady (hleaves.fill merging y) merging rest
    · refine ih hl (hleaves.fill merging a) ?_ hy hrest
      intro z hz hzpass hmem
      rcases fill_puts_subset s merging p a hmem with hmem | rfl
      · exact hnew z (List.mem_cons_of_mem _ hz) hzpass hmem
      · exact ha hz

end Settling

end OfferPlan

section Priority
variable {s : State} {stack : Stack} {order : List SlotId} {x y : SlotId}

/-- When a slot gets something, a slot in front of it ends up without room, unless it is an empty
slot in front of one that is not. -/
theorem State.planOffer_settles (horder : order.Nodup) (hyx : [y, x].Sublist order)
    (hsteady : ∀ slot, s.forest.slot y = some slot → slot.filter.Steady s.env.rules)
    (hx : x ∈ (s.planOffer order stack).puts.map Prod.fst)
    (hturn : s.contents x = none ∨ s.contents y ≠ none) :
    OfferPlan.Settled s stack (s.planOffer order stack) y := by
  obtain ⟨front, back, rfl, hfront, hback⟩ := List.cons_sublist_iff.mp hyx
  obtain ⟨middle, behind, rfl⟩ := List.append_of_mem (List.singleton_sublist.mp hback)
  rw [← List.append_assoc] at horder hx ⊢
  have hy : y ∈ front ++ middle := List.mem_append_left _ hfront
  generalize front ++ middle = before at horder hx hy ⊢
  obtain ⟨hbefore, _, hdisjoint⟩ := List.nodup_append.mp horder
  have hxbefore : x ∉ before := fun h => hdisjoint x h x List.mem_cons_self rfl
  have hstart : ∀ z, z ∉ (OfferPlan.start stack).puts.map Prod.fst := fun z => List.not_mem_nil
  have hleaves := OfferPlan.leaves_start stack
  have hmerged := hleaves.pass (s := s) true (before ++ x :: behind)
  unfold State.planOffer at hx ⊢
  by_cases hmerging : x ∈ (((before ++ x :: behind).foldl (OfferPlan.fill s true)
      (.start stack)).puts.map Prod.fst)
  · have hxfull := (OfferPlan.isSome_of_pass hmerging).resolve_left (hstart x)
    have hyfull : (s.contents y).isSome = true := by
      rcases hturn with hnone | hy
      · rw [hnone] at hxfull
        cases hxfull
      · exact Option.isSome_iff_ne_none.mpr hy
    have hsettled := OfferPlan.settled_pass hsteady hbefore hleaves (fun z _ _ => hstart z) hy
      hyfull (OfferPlan.remaining_of_put hxbefore (hstart x) hmerging)
    have hpass := hsettled.pass hsteady (hleaves.pass true before) true (x :: behind)
    rw [← List.foldl_append] at hpass
    exact hpass.pass hsteady hmerged false _
  · have hrest := OfferPlan.remaining_of_put hxbefore hmerging hx
    cases hheld : (s.contents y).isSome with
    | true =>
      have hsettled := OfferPlan.settled_pass hsteady horder hleaves (fun z _ _ => hstart z)
        (List.mem_append_left _ hy) hheld (OfferPlan.remaining_of_pass hrest)
      exact hsettled.pass hsteady hmerged false _
    | false =>
      have hnew : ∀ z ∈ before, (s.contents z).isSome = false →
          z ∉ (((before ++ x :: behind).foldl (OfferPlan.fill s true)
            (.start stack)).puts.map Prod.fst) := by
        intro z _ hz hmem
        rw [(OfferPlan.isSome_of_pass hmem).resolve_left (hstart z)] at hz
        cases hz
      have hsettled := OfferPlan.settled_pass hsteady hbefore hmerged hnew hy hheld hrest
      have hpass := hsettled.pass hsteady (hmerged.pass false before) false
        (x :: behind)
      rwa [← List.foldl_append] at hpass

theorem State.planOffer_merges (hx : x ∈ (s.planOffer order stack).puts.map Prod.fst) {held : Stack}
    (hheld : s.contents x = some held) : held.mergesWith stack = true := by
  have hplan := s.planOffer_induction (P := fun p => OfferPlan.Leaves stack p ∧
      ∀ put ∈ p.puts, ∀ held, s.contents put.1 = some held → held.mergesWith stack = true)
    order stack ⟨OfferPlan.leaves_start stack, by simp [OfferPlan.start]⟩ ?_
  · obtain ⟨put, hput, rfl⟩ := List.mem_map.mp hx
    exact hplan.2 put hput held hheld
  · rintro merging p id ⟨hleaves, hmerges⟩
    refine ⟨hleaves.fill merging id, ?_⟩
    rcases OfferPlan.fill_cases s merging p id with
      he | ⟨rest, slot, step, hrest, hslot, _, hstep, he⟩
    · rw [he]
      exact hmerges
    · rw [he]
      intro put hput held hheld
      rcases List.mem_append.mp hput with hput | hput
      · exact hmerges put hput held hheld
      · obtain ⟨a, _, rfl⟩ := Option.map_eq_some_iff.mp (Option.mem_toList.mp hput)
        rw [State.contents_of_slot hslot] at hheld
        obtain ⟨_, current, hbase, _, _⟩ := Slot.planOffer_cases hstep
        unfold Slot.mergeBase at hbase
        rw [hheld] at hbase
        dsimp only at hbase
        split at hbase
        · rename_i hsame
          rw [hleaves rest hrest] at hsame
          exact hsame
        · cases hbase

end Priority

end Stowage
