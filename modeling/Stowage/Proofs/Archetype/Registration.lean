import Stowage.Archetype.Stock

/-!
# Registering lists of archetypes

A list of archetypes is registered one by one, and the first that is refused ends it. So the
registry takes in as many of the list as have identifiers that are free and different from each
other, and these stay also when a later one is refused. The stock archetypes have different
identifiers. Hence the whole set goes in when none of them is taken, none of it goes in when that of
the first is taken, and otherwise a part of it stays behind although the registration has failed.
-/

namespace Stowage

set_option autoImplicit false

namespace Registry

def enter (r : Registry) (as : List Archetype) : Registry :=
  ⟨r.entries ++ as.filterMap fun a => a.id.map fun id => (id, a)⟩

structure Accepts (r : Registry) (as : List Archetype) : Prop where
  named : ∀ a ∈ as, ∃ id, a.id = some id
  distinct : (as.map Archetype.id).Nodup
  free : ∀ a ∈ as, ∀ id, a.id = some id → r.contains id = false

/-- What the registration of a list leaves behind: the whole list when nothing is refused, and
otherwise just what stands before the archetype that is refused. -/
inductive Outcome (r : Registry) (set : List Archetype) : Registry → Option Refusal → Prop where
  | complete (accepts : r.Accepts set) : Outcome r set (r.enter set) none
  | stopped {before after : List Archetype} {a : Archetype} {e : Refusal}
      (split : set = before ++ a :: after) (accepts : r.Accepts before)
      (refused : (r.enter before).register a = .error e) : Outcome r set (r.enter before) (some e)

variable {r : Registry} {a : Archetype} {as : List Archetype} {id : ArchetypeId}

section Enter

@[simp] theorem enter_nil (r : Registry) : r.enter [] = r := by
  simp [enter]

theorem enter_append (r : Registry) (as bs : List Archetype) :
    r.enter (as ++ bs) = (r.enter as).enter bs := by
  simp [enter]

theorem enter_cons (r : Registry) (a : Archetype) (as : List Archetype) :
    r.enter (a :: as) = (r.enter [a]).enter as := enter_append r [a] as

theorem enter_singleton (ha : a.id = some id) : r.enter [a] = ⟨r.entries ++ [(id, a)]⟩ := by
  simp [enter, ha]

theorem contains_iff : r.contains id = true ↔ id ∈ r.ids := by
  unfold contains get? ids
  rw [List.lookup_isSome_iff, List.mem_map]
  constructor
  · rintro ⟨p, hp, hid⟩
    exact ⟨p, hp, (beq_iff_eq.mp hid).symm⟩
  · rintro ⟨p, hp, rfl⟩
    exact ⟨p, hp, BEq.rfl⟩

theorem contains_enter_iff :
    (r.enter as).contains id = true ↔ r.contains id = true ∨ ∃ a ∈ as, a.id = some id := by
  rw [contains_iff, contains_iff]
  simp only [ids, enter, List.map_append, List.mem_append, List.mem_map, List.mem_filterMap,
    Option.map_eq_some_iff]
  refine or_congr Iff.rfl ?_
  constructor
  · rintro ⟨_, ⟨a, ha, i, hi, rfl⟩, rfl⟩
    exact ⟨a, ha, hi⟩
  · rintro ⟨a, ha, hi⟩
    exact ⟨(id, a), ⟨a, ha, id, hi, rfl⟩, rfl⟩

theorem get?_enter (h : r.get? id = some a) : (r.enter as).get? id = some a := by
  unfold get? enter at *
  rw [List.lookup_append, h, Option.some_or]

theorem get?_enter_singleton (ha : a.id = some id) (hfree : r.contains id = false) :
    (r.enter [a]).get? id = some a := by
  have hnone : r.entries.lookup id = none :=
    Option.not_isSome_iff_eq_none.mp (Bool.eq_false_iff.mp hfree)
  rw [enter_singleton ha]
  unfold get?
  rw [List.lookup_append, hnone, Option.none_or, List.lookup_cons_self]

end Enter

section Accepts

theorem accepts_nil (r : Registry) : r.Accepts [] := ⟨nofun, List.nodup_nil, nofun⟩

theorem accepts_cons_iff : r.Accepts (a :: as) ↔
    (∃ id, a.id = some id ∧ r.contains id = false) ∧ (r.enter [a]).Accepts as := by
  constructor
  · intro h
    obtain ⟨id, ha⟩ := h.named a List.mem_cons_self
    obtain ⟨hnew, hdistinct⟩ := List.nodup_cons.mp h.distinct
    refine ⟨⟨id, ha, h.free a List.mem_cons_self id ha⟩,
      fun b hb => h.named b (List.mem_cons_of_mem a hb), hdistinct, ?_⟩
    intro b hb i hi
    refine Bool.eq_false_iff.mpr fun hc => ?_
    rcases contains_enter_iff.mp hc with hc | ⟨c, hc, hci⟩
    · rw [h.free b (List.mem_cons_of_mem a hb) i hi] at hc
      cases hc
    · rw [List.mem_singleton.mp hc, ← hi] at hci
      exact hnew (hci ▸ List.mem_map_of_mem hb)
  · rintro ⟨⟨id, ha, hfree⟩, h⟩
    have htaken : (r.enter [a]).contains id = true :=
      contains_enter_iff.mpr (Or.inr ⟨a, List.mem_singleton_self a, ha⟩)
    refine ⟨?_, ?_, ?_⟩
    · intro b hb
      rcases List.mem_cons.mp hb with rfl | hb
      · exact ⟨id, ha⟩
      · exact h.named b hb
    · rw [List.map_cons, List.nodup_cons]
      refine ⟨fun hmem => ?_, h.distinct⟩
      obtain ⟨b, hb, hba⟩ := List.mem_map.mp hmem
      rw [h.free b hb id (hba.trans ha)] at htaken
      cases htaken
    · intro b hb i hi
      rcases List.mem_cons.mp hb with rfl | hb
      · rw [ha] at hi
        cases hi
        exact hfree
      · refine Bool.eq_false_iff.mpr fun hc => ?_
        have hnot := h.free b hb i hi
        rw [contains_enter_iff.mpr (Or.inl hc)] at hnot
        cases hnot

theorem Accepts.get?_enter (h : r.Accepts as) (ha : a ∈ as) (hid : a.id = some id) :
    (r.enter as).get? id = some a := by
  induction as generalizing r with
  | nil => cases ha
  | cons b rest ih =>
    obtain ⟨⟨i, hi, hfree⟩, hrest⟩ := accepts_cons_iff.mp h
    rw [enter_cons]
    rcases List.mem_cons.mp ha with rfl | ha
    · rw [hid] at hi
      cases hi
      exact Registry.get?_enter (get?_enter_singleton hid hfree)
    · exact ih hrest ha

end Accepts

section Register

theorem register_cases (r : Registry) (a : Archetype) :
    (a.id = none ∧ r.register a = .error (.invalidBuilder a.displayId .anonymous)) ∨
      (∃ id, a.id = some id ∧ r.contains id = true ∧
        r.register a = .error (.duplicateArchetype id)) ∨
      ∃ id note, a.id = some id ∧ r.contains id = false ∧
        r.register a = .ok (r.enter [a], note) := by
  unfold register
  cases ha : a.id with
  | none => exact Or.inl ⟨rfl, rfl⟩
  | some id =>
    dsimp only
    cases hc : r.contains id with
    | true => exact Or.inr (Or.inl ⟨id, rfl, hc, rfl⟩)
    | false => exact Or.inr (Or.inr ⟨id, _, rfl, hc, by rw [enter_singleton ha]; rfl⟩)

/-- The archetypes before the first that is refused are registered, and nothing else is. -/
theorem registerEach_outcome (r : Registry) (set : List Archetype) :
    Outcome r set (r.registerEach set).1 (r.registerEach set).2.2 := by
  induction set generalizing r with
  | nil =>
    have hnone := Outcome.complete r.accepts_nil
    rwa [enter_nil] at hnone
  | cons a rest ih =>
    have hrefused : ∀ e, r.register a = .error e →
        Outcome r (a :: rest) (r.registerEach (a :: rest)).1
          (r.registerEach (a :: rest)).2.2 := by
      intro e he
      have hstop : Outcome r (a :: rest) (r.enter []) (some e) :=
        .stopped (List.nil_append _).symm r.accepts_nil (by rwa [enter_nil])
      rw [enter_nil] at hstop
      simp only [registerEach, he]
      exact hstop
    rcases r.register_cases a with ⟨_, he⟩ | ⟨_, _, _, he⟩ | ⟨id, note, ha, hfree, hok⟩
    · exact hrefused _ he
    · exact hrefused _ he
    · have hrest := ih (r.enter [a])
      simp only [registerEach, hok]
      generalize (r.enter [a]).registerEach rest = last at hrest ⊢
      obtain ⟨r', notes, refusal⟩ := last
      dsimp only at hrest ⊢
      cases hrest with
      | complete accepts =>
        rw [← enter_cons]
        exact .complete (accepts_cons_iff.mpr ⟨⟨id, ha, hfree⟩, accepts⟩)
      | @stopped before after b e split accepts refused =>
        rw [← enter_cons] at refused ⊢
        exact .stopped (by rw [split, List.cons_append])
          (accepts_cons_iff.mpr ⟨⟨id, ha, hfree⟩, accepts⟩) refused

end Register

section Outcome
variable {set : List Archetype} {r' : Registry} {refusal : Option Refusal}

theorem Outcome.get? (h : Outcome r set r' refusal) (hr : r.get? id = some a) :
    r'.get? id = some a := by
  cases h with
  | complete accepts => exact get?_enter hr
  | stopped split accepts refused => exact get?_enter hr

/-- In a list of different identifiers the first that is refused was taken before. -/
theorem Outcome.exists_taken (h : Outcome r set r' refusal)
    (hnamed : ∀ a ∈ set, ∃ id, a.id = some id) (hdistinct : (set.map Archetype.id).Nodup)
    {e : Refusal} (he : refusal = some e) : ∃ before a after id, set = before ++ a :: after ∧
      r.Accepts before ∧ a.id = some id ∧ r.contains id = true ∧ e = .duplicateArchetype id ∧
      r' = r.enter before := by
  cases h with
  | complete accepts => cases he
  | @stopped before after a e split accepts refused =>
    cases he
    obtain ⟨id, hid⟩ := hnamed a (split ▸ List.mem_append_right before List.mem_cons_self)
    rcases (r.enter before).register_cases a with
      ⟨hnone, _⟩ | ⟨i, hi, htaken, hr⟩ | ⟨_, _, _, _, hr⟩
    · rw [hid] at hnone
      cases hnone
    · rw [hid] at hi
      cases hi
      rw [hr] at refused
      cases refused
      refine ⟨before, a, after, id, split, accepts, hid, ?_, rfl, rfl⟩
      rcases contains_enter_iff.mp htaken with hc | ⟨b, hb, hbi⟩
      · exact hc
      · rw [split, List.map_append, List.nodup_append] at hdistinct
        exact absurd (hbi.trans hid.symm) (hdistinct.2.2 _ (List.mem_map_of_mem hb) _
          (List.mem_map_of_mem List.mem_cons_self))
    · rw [hr] at refused
      cases refused

theorem Accepts.enter_eq_self_iff (h : r.Accepts as) : r.enter as = r ↔ as = [] := by
  constructor
  · intro heq
    cases as with
    | nil => rfl
    | cons a rest =>
      obtain ⟨id, ha⟩ := h.named a List.mem_cons_self
      have hfree := h.free a List.mem_cons_self id ha
      rw [← heq, contains_enter_iff.mpr (Or.inr ⟨a, List.mem_cons_self, ha⟩)] at hfree
      cases hfree
  · rintro rfl
    exact r.enter_nil

end Outcome

end Registry

namespace Stock

def names : List String :=
  ["slot", "input_slot", "output_slot", "fuel_slot", "helmet", "chestplate", "leggings", "boots",
    "offhand", "hotbar", "main_grid", "player_main", "armor", "player", "chest", "shulker_box",
    "ender_chest", "double_chest", "dispenser", "jukebox", "furnace", "crafting_grid",
    "crafting_table"]

/-- What the registration of the set leaves behind. When it fails, the archetypes before the first
whose identifier was taken stay, and these are none only if it was that of the plain slot. -/
structure Registered (r : Registry) (set : List Archetype) (r' : Registry)
    (refusal : Option Refusal) : Prop where
  kept : ∀ id a, r.get? id = some a → r'.get? id = some a
  succeeds_iff : refusal = none ↔ ∀ n ∈ names, r.contains ⟨group, n⟩ = false
  complete : refusal = none →
    r' = r.enter set ∧ ∀ a ∈ set, ∃ id, a.id = some id ∧ r'.get? id = some a
  stopped : ∀ e, refusal = some e → ∃ before a after id, set = before ++ a :: after ∧
    a.id = some id ∧ r.contains id = true ∧ e = .duplicateArchetype id ∧ r' = r.enter before ∧
    ∀ b ∈ before, ∃ i, b.id = some i ∧ r.contains i = false ∧ r'.get? i = some b
  unchanged_iff : refusal ≠ none → (r' = r ↔ r.contains ⟨group, "slot"⟩ = true)

theorem exists_archetypes (rules : ItemRules) : ∃ set, archetypes rules = .ok set ∧
    set.map Archetype.id = names.map fun n => some ⟨group, n⟩ := ⟨_, rfl, rfl⟩

theorem register_outcome (r : Registry) (set : List Archetype) :
    r.Outcome set (register r set).1 (register r set).2.2 := by
  have h := r.registerEach_outcome set
  unfold register
  generalize r.registerEach set = last at h ⊢
  obtain ⟨r', notes, refusal⟩ := last
  cases refusal <;> exact h

section Named
variable {r r' : Registry} {set : List Archetype} {refusal : Option Refusal}
  (hids : set.map Archetype.id = names.map fun n => some ⟨group, n⟩)
include hids

theorem exists_name {a : Archetype} (ha : a ∈ set) : ∃ n ∈ names, a.id = some ⟨group, n⟩ := by
  have hmem : a.id ∈ set.map Archetype.id := List.mem_map_of_mem ha
  rw [hids] at hmem
  obtain ⟨n, hn, heq⟩ := List.mem_map.mp hmem
  exact ⟨n, hn, heq.symm⟩

theorem exists_archetype {n : String} (hn : n ∈ names) : ∃ a ∈ set, a.id = some ⟨group, n⟩ := by
  have hmem : some (ArchetypeId.mk group n) ∈ set.map Archetype.id := by
    rw [hids]
    exact List.mem_map_of_mem hn
  exact List.mem_map.mp hmem

theorem exists_taken (h : r.Outcome set r' refusal) {e : Refusal} (he : refusal = some e) :
    ∃ before a after id, set = before ++ a :: after ∧ r.Accepts before ∧ a.id = some id ∧
      r.contains id = true ∧ e = .duplicateArchetype id ∧ r' = r.enter before := by
  refine h.exists_taken (fun a ha => ?_) ?_ he
  · obtain ⟨n, _, hid⟩ := exists_name hids ha
    exact ⟨_, hid⟩
  · rw [hids]
    decide

theorem succeeds_iff (h : r.Outcome set r' refusal) :
    refusal = none ↔ ∀ n ∈ names, r.contains ⟨group, n⟩ = false := by
  constructor
  · rintro rfl n hn
    cases h with
    | complete accepts =>
      obtain ⟨a, ha, hid⟩ := exists_archetype hids hn
      exact accepts.free a ha _ hid
  · intro hfree
    refine Option.eq_none_iff_forall_ne_some.mpr fun e he => ?_
    obtain ⟨before, a, after, id, rfl, _, hid, hc, _⟩ := exists_taken hids h he
    obtain ⟨n, hn, hname⟩ := exists_name hids (List.mem_append_right before List.mem_cons_self)
    rw [hid] at hname
    cases hname
    rw [hfree n hn] at hc
    cases hc

theorem unchanged_iff (h : r.Outcome set r' refusal) (hsome : refusal ≠ none) :
    r' = r ↔ r.contains ⟨group, "slot"⟩ = true := by
  obtain ⟨e, he⟩ := Option.ne_none_iff_exists'.mp hsome
  obtain ⟨before, a, after, id, rfl, accepts, hid, hc, _, rfl⟩ := exists_taken hids h he
  rw [accepts.enter_eq_self_iff]
  constructor
  · rintro rfl
    rw [List.nil_append, List.map_cons, hid] at hids
    cases (List.cons.inj hids).1
    exact hc
  · intro hslot
    cases before with
    | nil => rfl
    | cons b rest =>
      have hb := (List.cons.inj hids).1
      rw [accepts.free b List.mem_cons_self _ hb] at hslot
      cases hslot

theorem registered (h : r.Outcome set r' refusal) : Registered r set r' refusal where
  kept _ _ := h.get?
  succeeds_iff := succeeds_iff hids h
  complete := by
    rintro rfl
    cases h with
    | complete accepts =>
      refine ⟨rfl, fun a ha => ?_⟩
      obtain ⟨id, hid⟩ := accepts.named a ha
      exact ⟨id, hid, accepts.get?_enter ha hid⟩
  stopped e he := by
    obtain ⟨before, a, after, id, hset, accepts, hid, hc, hdup, rfl⟩ := exists_taken hids h he
    refine ⟨before, a, after, id, hset, hid, hc, hdup, rfl, fun b hb => ?_⟩
    obtain ⟨i, hi⟩ := accepts.named b hb
    exact ⟨i, hi, accepts.free b hb i hi, accepts.get?_enter hb hi⟩
  unchanged_iff := unchanged_iff hids h

end Named

end Stock

/-- The stock archetypes are registered up to the first whose identifier was taken before. So all of
them are when none was, none of them is when that of the plain slot was, and in all other cases some
are registered although the registration is refused. -/
theorem stock_registered_up_to_taken (rules : ItemRules) : ∃ set,
    Stock.archetypes rules = .ok set ∧
    set.map Archetype.id = Stock.names.map (fun n => some ⟨Stock.group, n⟩) ∧
    ∀ r, Stock.Registered r set (Stock.register r set).1 (Stock.register r set).2.2 := by
  obtain ⟨set, hset, hids⟩ := Stock.exists_archetypes rules
  exact ⟨set, hset, hids, fun r => Stock.registered hids (Stock.register_outcome r set)⟩

/-- Someone has registered an armor of their own, and then the stock set is refused: the twelve
archetypes before its armor stay. -/
theorem stock_partly_registered : ∃ own set r note,
    Stock.named Builder.slot "armor" = .ok own ∧ Stock.archetypes .unrestricted = .ok set ∧
    Registry.empty.register own = .ok (r, note) ∧
    (Stock.register r set).2.2 = some (.duplicateArchetype ⟨Stock.group, "armor"⟩) ∧
    r.contains ⟨Stock.group, "slot"⟩ = false ∧ r.size = 1 ∧
    (Stock.register r set).1.contains ⟨Stock.group, "slot"⟩ = true ∧
    (Stock.register r set).1.size = 13 :=
  ⟨_, _, _, _, rfl, rfl, rfl, rfl, rfl, rfl, rfl, rfl⟩

end Stowage
