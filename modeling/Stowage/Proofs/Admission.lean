import Stowage.Proofs.Arithmetic
import Stowage.Proofs.Offers

/-!
# What a slot may hold

A slot admits a stack of at least one unit, within the limit for it, that passes the filter, as far
as the filter does not look at quantities. Whatever a plan has for a slot the slot admits: offers
and replacements ask the slot, and polls leave less of what was admitted before. Of slots that are
not their own, because something was put there that was meant for another one, nothing more is
known than that they hold no stacks without units.
-/

namespace Stowage

set_option autoImplicit false

def Filter.Steady (rules : ItemRules) (f : Filter) : Prop :=
  ∀ (t : Stack) (n : Nat), f.test rules { t with quantity := n } = f.test rules t

def Filter.isCustom : Filter → Bool
  | .custom _ => true
  | _ => false

/-- Only filters of callers can look at more than the kind of an item. -/
theorem Filter.steady_of_known {rules : ItemRules} {f : Filter} (h : f.isCustom = false) :
    f.Steady rules := by
  intro t n
  cases f with
  | custom accepts => cases h
  | any => rfl
  | kinds ks => rfl
  | equipment e => rfl
  | tag tag => rfl

structure Stack.PartOf (t a : Stack) : Prop where
  eq : a = { t with quantity := a.quantity }
  positive : 1 ≤ a.quantity
  le : a.quantity ≤ t.quantity

namespace Stack.PartOf
variable {t a b : Stack}

theorem refl (h : 1 ≤ t.quantity) : t.PartOf t := ⟨rfl, h, Nat.le_refl _⟩

theorem trans (ha : t.PartOf a) (hb : a.PartOf b) : t.PartOf b where
  eq := by rw [hb.eq, ha.eq]
  positive := hb.positive
  le := Nat.le_trans hb.le ha.le

theorem of_resize {n : Nat} (h : t.resize n = some a) (hn : n ≤ t.quantity) : t.PartOf a := by
  unfold Stack.resize at h
  split at h
  · cases h
  · cases h
    exact ⟨rfl, by dsimp only; omega, hn⟩

end Stack.PartOf

namespace Slot

/-- The slot may hold the stack; its limit and its filter have a say if the slot is its own. -/
structure Admits (own : Prop) (rules : ItemRules) (s : Slot) (t : Stack) : Prop where
  positive : 1 ≤ t.quantity
  within : own → t.quantity ≤ s.maxStackFor rules t
  accepted : own → s.filter.Steady rules → s.accepts rules t = true

/-- The contents of the slot are admitted, and its limit is a quantity. -/
structure Legal (own : Prop) (rules : ItemRules) (s : Slot) : Prop where
  limit : s.maxStackSize ≤ maxQuantity
  held : ∀ {t : Stack}, s.contents = some t → s.Admits own rules t

section
variable {own : Prop} {rules : ItemRules} {s : Slot} {t a : Stack} {plan : SlotPlan}

theorem Admits.of_accepts {n : Nat} (h : s.accepts rules t = true)
    (hn : n ≤ s.maxStackFor rules t) (ha : t.resize n = some a) : s.Admits own rules a := by
  unfold Stack.resize at ha
  split at ha
  · cases ha
  · cases ha
    refine ⟨by dsimp only; omega, fun _ => hn, ?_⟩
    intro _ hsteady
    exact (hsteady t n).trans h

theorem Admits.part (h : s.Admits own rules t) (ha : t.PartOf a) : s.Admits own rules a := by
  have hlimit : s.maxStackFor rules a = s.maxStackFor rules t := by
    rw [ha.eq]
    rfl
  refine ⟨ha.positive, ?_, ?_⟩
  · intro hown
    rw [hlimit]
    exact Nat.le_trans ha.le (h.within hown)
  · intro hown hsteady
    unfold accepts
    rw [ha.eq, hsteady]
    exact h.accepted hown hsteady

theorem Admits.mono {p : Prop} (h : s.Admits own rules t) (hp : p → own) : s.Admits p rules t :=
  ⟨h.positive, fun hown => h.within (hp hown), fun hown => h.accepted (hp hown)⟩

theorem Admits.congr {u : Slot} (h : s.Admits own rules t) (hfilter : u.filter = s.filter)
    (hlimit : u.maxStackSize = s.maxStackSize) : u.Admits own rules t := by
  refine ⟨h.positive, ?_, ?_⟩
  · unfold maxStackFor
    rw [hlimit]
    exact h.within
  · unfold accepts
    rw [hfilter]
    exact h.accepted

theorem planOffer_admits (h : s.planOffer rules t = some plan) (ha : plan.after = some a) :
    s.Admits own rules a := by
  obtain ⟨haccepts, current, _, hroom, rfl⟩ := planOffer_cases h
  exact .of_accepts haccepts (by omega) ha

theorem planOffer_rejected (h : s.planOffer rules t = some plan) (ha : plan.rejected = some a) :
    t.PartOf a := by
  obtain ⟨_, current, _, _, rfl⟩ := planOffer_cases h
  exact .of_resize ha (Nat.sub_le _ _)

theorem planSet_admits (h : s.planSet rules t = some plan) (ha : plan.after = some a) :
    s.Admits own rules a := by
  unfold planSet at h
  split at h
  · rename_i haccepts
    cases h
    exact .of_accepts haccepts (Nat.min_le_right _ _) ha
  · cases h

theorem planPoll_left {limit : Option Nat} {part : Stack} {left : Option Stack}
    (h : s.planPoll limit = some (part, left)) (ha : left = some a) :
    ∃ held, s.contents = some held ∧ held.PartOf a := by
  unfold planPoll at h
  obtain ⟨held, hheld, h⟩ := Option.bind_eq_some_iff.mp h
  obtain ⟨taken, _, h⟩ := Option.map_eq_some_iff.mp h
  cases h
  exact ⟨held, hheld, .of_resize ha (Nat.sub_le _ _)⟩

theorem Legal.put (h : s.Legal own rules) {after : Option Stack}
    (ha : ∀ t, after = some t → s.Admits own rules t) :
    Legal own rules { s with contents := after } :=
  ⟨h.limit, fun ht => (ha _ ht).congr rfl rfl⟩

end

end Slot

namespace State
variable {own : SlotId → Prop} {s t : State} {order : List SlotId} {stack : Stack}

def Takes (s : State) (own : SlotId → Prop) (put : SlotId × Option Stack) : Prop :=
  ∀ slot t, s.forest.slot put.1 = some slot → put.2 = some t →
    slot.Admits (own put.1) s.env.rules t

def Legal (s : State) (own : SlotId → Prop) : Prop :=
  ∀ (x : SlotId) (slot : Slot), s.forest.slot x = some slot → slot.Legal (own x) s.env.rules

theorem Legal.mono {p : SlotId → Prop} (h : s.Legal own) (hp : ∀ x, p x → own x) : s.Legal p :=
  fun x slot hslot => ⟨(h x slot hslot).limit, fun ht => ((h x slot hslot).held ht).mono (hp x)⟩

theorem steady_of_known
    (h : ∀ x ∈ s.liveSlots, (s.forest.slot x).all (fun slot => !slot.filter.isCustom) = true)
    (x : SlotId) (slot : Slot) (hslot : s.forest.slot x = some slot) :
    slot.filter.Steady s.env.rules := by
  have hknown := h x (mem_liveSlots.mpr (by rw [hslot]; rfl))
  rw [hslot, Option.all_some, Bool.not_eq_true'] at hknown
  exact Filter.steady_of_known hknown

theorem takes_none (s : State) (x : SlotId) : s.Takes own (x, none) := by
  intro slot t _ ht
  cases ht

/-- What holds of the empty plan and is kept by every slot that is tried holds of the plan. -/
theorem planOffer_induction {P : OfferPlan → Prop} (s : State) (order : List SlotId) (stack : Stack)
    (hstart : P (.start stack))
    (hfill : ∀ merging p id, P p → P (OfferPlan.fill s merging p id)) :
    P (s.planOffer order stack) := by
  have hpass : ∀ merging p, P p → P (order.foldl (OfferPlan.fill s merging) p) := by
    intro merging p hp
    exact List.foldlRecOn order _ hp fun q hq id _ => hfill merging q id hq
  exact hpass false _ (hpass true _ hstart)

theorem planOffer_admits (s : State) (order : List SlotId) (stack : Stack) :
    ∀ put ∈ (s.planOffer order stack).puts, s.Takes own (put.1, some put.2) := by
  refine s.planOffer_induction (P := fun p => ∀ put ∈ p.puts, s.Takes own (put.1, some put.2))
    order stack ?_ ?_
  · intro put hput
    cases hput
  · intro merging p id hp put hput
    rcases OfferPlan.fill_cases s merging p id with he | ⟨rest, slot, step, _, hslot, _, hstep, he⟩
    · rw [he] at hput
      exact hp put hput
    · rw [he] at hput
      rcases List.mem_append.mp hput with hput | hput
      · exact hp put hput
      · obtain ⟨a, ha, rfl⟩ := Option.map_eq_some_iff.mp (Option.mem_toList.mp hput)
        intro live t hlive ht
        cases ht
        change s.forest.slot id = some live at hlive
        rw [hslot] at hlive
        cases hlive
        exact Slot.planOffer_admits hstep ha

theorem planOffer_remaining (s : State) (order : List SlotId) (hstack : 1 ≤ stack.quantity)
    {rest : Stack} (h : (s.planOffer order stack).remaining = some rest) : stack.PartOf rest := by
  refine s.planOffer_induction
    (P := fun p => ∀ rest, p.remaining = some rest → stack.PartOf rest) order stack ?_ ?_ rest h
  · intro rest hrest
    cases hrest
    exact .refl hstack
  · intro merging p id hp rest hrest
    rcases OfferPlan.fill_cases s merging p id with he | ⟨old, slot, step, hold, _, _, hstep, he⟩
    · rw [he] at hrest
      exact hp rest hrest
    · rw [he] at hrest
      exact (hp old hold).trans (Slot.planOffer_rejected hstep hrest)

theorem planPollFrom_takes (h : s.Legal own) (order : List SlotId) (taken : Option Stack)
    (budget : Option Nat) : ∀ put ∈ (s.planPollFrom order taken budget).2, s.Takes own put := by
  induction order generalizing taken budget with
  | nil =>
    intro put hput
    cases hput
  | cons id rest ih =>
    unfold planPollFrom
    split
    · intro put hput
      cases hput
    · split
      · rename_i held part left _ hpoll
        split
        · intro put hput
          rcases List.mem_cons.mp hput with hput | hput
          · rw [hput]
            intro slot t hslot ht
            obtain ⟨live, hlive, hpoll⟩ := Option.bind_eq_some_iff.mp hpoll
            change s.forest.slot id = some slot at hslot
            rw [hlive] at hslot
            cases hslot
            obtain ⟨held, hheld, hpart⟩ := Slot.planPoll_left hpoll ht
            exact ((h _ _ hlive).held hheld).part hpart
          · exact ih _ _ put hput
        · exact ih taken budget
      · exact ih taken budget

theorem planPoll_takes (h : s.Legal own) (order : List SlotId) (limit : Option Nat)
    {plan : PollPlan} (hplan : s.planPoll order limit = some plan) :
    ∀ put ∈ plan.leaves, s.Takes own put := by
  have hleaves := planPollFrom_takes h order none limit
  unfold planPoll at hplan
  rcases hfrom : s.planPollFrom order none limit with ⟨taken, leaves⟩
  rw [hfrom] at hplan hleaves
  cases taken with
  | none => cases hplan
  | some t =>
    cases hplan
    exact hleaves

end State

end Stowage
