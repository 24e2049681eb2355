import Stowage.Arena

/-!
# Laws of the arena

What a handle gives after each operation. An insertion issues a handle that was stale before, and a
removal makes just the one handle stale, as long as the vacant list names exactly the places without
a value. The generation of a place counts how often it was vacated.
-/

namespace Stowage.Arena

set_option autoImplicit false

variable {α : Type}

/-- The vacant list names every place without a value, and names it once. -/
structure Sound (a : Arena α) : Prop where
  nodup : a.vacant.Nodup
  mem_vacant : ∀ i, i ∈ a.vacant ↔ ∃ p, a.places[i]? = some p ∧ p.value = none

theorem sound_empty : (empty : Arena α).Sound := by
  refine ⟨List.nodup_nil, ?_⟩
  intro i
  simp [empty]

theorem contains_iff {a : Arena α} {id : NodeId} :
    a.contains id = true ↔ ∃ v, a.get? id = some v := Option.isSome_iff_exists

theorem get?_eq_some_iff {a : Arena α} {id : NodeId} {v : α} :
    a.get? id = some v ↔
      ∃ p, a.places[id.index]? = some p ∧ p.generation = id.generation ∧ p.value = some v := by
  unfold get?
  cases h : a.places[id.index]? with
  | none => simp
  | some p => simp

theorem index_lt_of_get? {a : Arena α} {id : NodeId} {v : α} (h : a.get? id = some v) :
    id.index < a.places.size := by
  obtain ⟨p, hp, _, _⟩ := get?_eq_some_iff.mp h
  exact (Array.getElem?_eq_some_iff.mp hp).1

theorem eq_of_index_eq {a : Arena α} {x y : NodeId} {v u : α} (hx : a.get? x = some v)
    (hy : a.get? y = some u) (h : x.index = y.index) : x = y := by
  obtain ⟨p, hp, hpg, _⟩ := get?_eq_some_iff.mp hx
  obtain ⟨q, hq, hqg, _⟩ := get?_eq_some_iff.mp hy
  rw [h, hq] at hp
  have hpq : q = p := Option.some.inj hp
  subst hpq
  cases x
  cases y
  simp_all

section Modify
variable (a : Arena α) (id : NodeId) (change : α → α)

theorem get?_modify (x : NodeId) :
    (a.modify id change).get? x = if x = id then (a.get? id).map change else a.get? x := by
  unfold modify
  split
  · rename_i hlive
    obtain ⟨v, hv⟩ := contains_iff.mp hlive
    obtain ⟨p, hp, hg, hpv⟩ := get?_eq_some_iff.mp hv
    by_cases hx : x = id
    · subst hx
      simp [get?, Array.getElem?_modify, hp, hg, hpv]
    · rw [if_neg hx]
      by_cases hi : x.index = id.index
      · have hne : p.generation ≠ x.generation := by
          intro h
          apply hx
          cases x
          cases id
          simp_all
        simp [get?, hi, hp, hne, Array.getElem?_modify]
      · simp [get?, Array.getElem?_modify, Ne.symm hi]
  · rename_i hdead
    have hnone : a.get? id = none := by simpa [contains] using hdead
    split
    · rename_i hx
      simp [hx, hnone]
    · rfl

theorem Sound.modify {a : Arena α} (h : a.Sound) (id : NodeId) (change : α → α) :
    (a.modify id change).Sound := by
  unfold Arena.modify
  split
  · refine ⟨h.nodup, ?_⟩
    intro i
    rw [h.mem_vacant i]
    by_cases hi : id.index = i
    · constructor
      · rintro ⟨p, hp, hpv⟩
        exact ⟨⟨p.generation, p.value.map change⟩, by simp [Array.getElem?_modify, hi, hp],
          by simp [hpv]⟩
      · rintro ⟨q, hq, hqv⟩
        simp only [Array.getElem?_modify, hi, if_true, Option.map_eq_some_iff] at hq
        obtain ⟨p, hp, rfl⟩ := hq
        exact ⟨p, hp, by simpa using hqv⟩
    · simp [Array.getElem?_modify, hi]
  · exact h

end Modify

section Remove

theorem get?_remove (a : Arena α) (id x : NodeId) :
    (a.remove id).get? x = if x = id then none else a.get? x := by
  unfold remove
  split
  · rename_i hlive
    obtain ⟨v, hv⟩ := contains_iff.mp hlive
    obtain ⟨p, hp, hg, _⟩ := get?_eq_some_iff.mp hv
    by_cases hi : x.index = id.index
    · by_cases hx : x = id
      · simp [get?, Array.getElem?_modify, hx, hp]
      · have hne : p.generation ≠ x.generation := by
          intro h
          apply hx
          cases x
          cases id
          simp_all
        simp [get?, Array.getElem?_modify, hx, hi, hp, hne]
    · have hx : x ≠ id := fun h => hi (h ▸ rfl)
      simp [get?, Array.getElem?_modify, hx, Ne.symm hi]
  · rename_i hdead
    have hnone : a.get? id = none := by simpa [contains] using hdead
    split
    · rename_i hx
      rw [hx, hnone]
    · rfl

theorem Sound.remove {a : Arena α} (h : a.Sound) (id : NodeId) : (a.remove id).Sound := by
  unfold Arena.remove
  split
  · rename_i hlive
    obtain ⟨v, hv⟩ := contains_iff.mp hlive
    obtain ⟨p, hp, _, hpv⟩ := get?_eq_some_iff.mp hv
    refine ⟨?_, ?_⟩
    · refine List.nodup_cons.mpr ⟨?_, h.nodup⟩
      intro hmem
      obtain ⟨q, hq, hqv⟩ := (h.mem_vacant _).mp hmem
      rw [hp] at hq
      have hpq : p = q := Option.some.inj hq
      subst hpq
      simp [hpv] at hqv
    · intro i
      simp only [List.mem_cons, Array.getElem?_modify, h.mem_vacant i]
      by_cases hi : id.index = i
      · subst hi
        simp [hp]
      · simp [hi, Ne.symm hi]
  · exact h

end Remove

section Insert

variable {a : Arena α}

theorem Sound.get?_nextId (h : a.Sound) : a.get? a.nextId = none := by
  unfold nextId get?
  cases hv : a.vacant with
  | nil => simp
  | cons i rest =>
    have hmem : i ∈ a.vacant := by simp [hv]
    obtain ⟨p, hp, hpv⟩ := (h.mem_vacant i).mp hmem
    simp [hp, hpv]

@[simp] theorem insert_snd (v : α) : (a.insert v).2 = a.nextId := by
  unfold insert
  split <;> rfl

theorem Sound.get?_insert (h : a.Sound) (v : α) (x : NodeId) :
    (a.insert v).1.get? x = if x = a.nextId then some v else a.get? x := by
  unfold insert nextId
  cases hv : a.vacant with
  | nil =>
    by_cases hx : x = ⟨a.places.size, 0⟩
    · subst hx
      simp [get?]
    · rw [if_neg hx]
      by_cases hi : x.index = a.places.size
      · have hg : (0 : Nat) ≠ x.generation := by
          intro h0
          apply hx
          cases x
          simp_all
        simp [get?, hi, hg]
      · simp [get?, Array.getElem?_push, hi]
  | cons i rest =>
    have hmem : i ∈ a.vacant := by simp [hv]
    obtain ⟨p, hp, hpv⟩ := (h.mem_vacant i).mp hmem
    have hgen : a.generationAt i = p.generation := by simp [generationAt, hp]
    by_cases hx : x = ⟨i, a.generationAt i⟩
    · subst hx
      simp [get?, Array.getElem?_modify, hp, hgen]
    · rw [if_neg hx]
      by_cases hi : x.index = i
      · have hne : p.generation ≠ x.generation := by
          intro h0
          apply hx
          cases x
          simp_all
        simp [get?, hi, hp, hne, Array.getElem?_modify]
      · simp [get?, Array.getElem?_modify, Ne.symm hi]

theorem Sound.insert (h : a.Sound) (v : α) : (a.insert v).1.Sound := by
  unfold Arena.insert
  cases hv : a.vacant with
  | nil =>
    refine ⟨List.nodup_nil, ?_⟩
    intro i
    have hi := h.mem_vacant i
    simp only [hv] at hi
    simp only [List.not_mem_nil, false_iff] at hi ⊢
    rintro ⟨p, hp, hpv⟩
    rw [Array.getElem?_push] at hp
    split at hp
    · cases hp
      simp at hpv
    · exact hi ⟨p, hp, hpv⟩
  | cons j rest =>
    have hnodup := h.nodup
    rw [hv] at hnodup
    obtain ⟨hj, hrest⟩ := List.nodup_cons.mp hnodup
    refine ⟨hrest, ?_⟩
    intro i
    have hi := h.mem_vacant i
    rw [hv] at hi
    simp only [Array.getElem?_modify]
    by_cases hij : j = i
    · subst hij
      simp [hj]
    · have hmem : i ∈ rest ↔ i ∈ j :: rest := by simp [Ne.symm hij]
      rw [hmem, hi]
      simp [hij]

end Insert

section Generations

theorem generationAt_empty (i : Nat) : (empty : Arena α).generationAt i = 0 := by
  simp [empty, generationAt]

theorem generationAt_of_contains {a : Arena α} {x : NodeId} (h : a.contains x = true) :
    a.generationAt x.index = x.generation := by
  obtain ⟨v, hv⟩ := contains_iff.mp h
  obtain ⟨p, hp, hg, _⟩ := get?_eq_some_iff.mp hv
  simp [generationAt, hp, hg]

@[simp] theorem generationAt_modify (a : Arena α) (id : NodeId) (change : α → α) (i : Nat) :
    (a.modify id change).generationAt i = a.generationAt i := by
  unfold modify
  split
  · unfold generationAt
    by_cases hi : id.index = i
    · cases hp : a.places[i]? <;> simp [Array.getElem?_modify, hi, hp]
    · simp [Array.getElem?_modify, hi]
  · rfl

@[simp] theorem contains_modify (a : Arena α) (id x : NodeId) (change : α → α) :
    (a.modify id change).contains x = a.contains x := by
  unfold contains
  rw [get?_modify]
  split
  · rename_i hx
    rw [hx, Option.isSome_map]
  · rfl

theorem modify_of_stale {a : Arena α} {id : NodeId} (h : a.contains id = false) (f : α → α) :
    a.modify id f = a := by
  unfold modify
  rw [if_neg (by simp [h])]

theorem modify_of_contains {a : Arena α} {id : NodeId} (h : a.contains id = true) (f : α → α) :
    a.modify id f =
      { a with places := a.places.modify id.index fun p => { p with value := p.value.map f } } := by
  unfold modify
  rw [if_pos h]

theorem modify_comm (a : Arena α) (x y : NodeId) (f : α → α) :
    (a.modify x f).modify y f = (a.modify y f).modify x f := by
  cases hx : a.contains x with
  | false =>
    rw [modify_of_stale hx, modify_of_stale ((contains_modify a y x f).trans hx)]
  | true =>
    cases hy : a.contains y with
    | false =>
      rw [modify_of_stale hy, modify_of_stale ((contains_modify a x y f).trans hy)]
    | true =>
      by_cases hxy : x = y
      · rw [hxy]
      · have hindex : x.index ≠ y.index := by
          obtain ⟨v, hv⟩ := contains_iff.mp hx
          obtain ⟨u, hu⟩ := contains_iff.mp hy
          exact fun h => hxy (eq_of_index_eq hv hu h)
        rw [modify_of_contains ((contains_modify a x y f).trans hy), modify_of_contains hx,
          modify_of_contains ((contains_modify a y x f).trans hx), modify_of_contains hy]
        refine congrArg (fun places => Arena.mk places a.vacant a.size) (Array.ext (by simp) ?_)
        intro i _ _
        simp only [Array.getElem_modify]
        split <;> split <;> simp_all

theorem generationAt_remove {a : Arena α} {id : NodeId} (h : a.contains id = true) (i : Nat) :
    (a.remove id).generationAt i =
      if i = id.index then (a.generationAt i + 1) % generations else a.generationAt i := by
  obtain ⟨v, hv⟩ := contains_iff.mp h
  obtain ⟨p, hp, _, _⟩ := get?_eq_some_iff.mp hv
  unfold remove generationAt
  rw [if_pos h]
  by_cases hi : i = id.index
  · simp [Array.getElem?_modify, hi, hp]
  · simp [Array.getElem?_modify, hi, Ne.symm hi]

theorem contains_remove (a : Arena α) (id x : NodeId) :
    (a.remove id).contains x = (!decide (x = id) && a.contains x) := by
  unfold contains
  rw [get?_remove]
  by_cases hx : x = id <;> simp [hx]

theorem Sound.generationAt_insert {a : Arena α} (h : a.Sound) (v : α) (i : Nat) :
    (a.insert v).1.generationAt i = a.generationAt i := by
  unfold Arena.insert
  cases hv : a.vacant with
  | nil =>
    unfold generationAt
    by_cases hi : i = a.places.size
    · simp [hi]
    · simp [Array.getElem?_push, hi]
  | cons j rest =>
    have hmem : j ∈ a.vacant := by simp [hv]
    obtain ⟨p, hp, _⟩ := (h.mem_vacant j).mp hmem
    unfold generationAt
    by_cases hi : j = i
    · simp [Array.getElem?_modify, ← hi, hp]
    · simp [Array.getElem?_modify, hi]

theorem Sound.contains_insert {a : Arena α} (h : a.Sound) (v : α) {x : NodeId}
    (hx : a.contains x = true) : (a.insert v).1.contains x = true := by
  unfold contains at *
  rw [h.get?_insert]
  split
  · rfl
  · exact hx

structure Stays (a b : Arena α) (i : Nat) : Prop where
  generation : b.generationAt i = a.generationAt i
  contains : ∀ {x : NodeId}, x.index = i → a.contains x = true → b.contains x = true

structure Vacated (a b : Arena α) (i : Nat) : Prop where
  generation : b.generationAt i = (a.generationAt i + 1) % generations
  lived : ∃ x : NodeId, x.index = i ∧ a.contains x = true
  gone : ∀ {x : NodeId}, x.index = i → b.contains x = false

def Extends (a b : Arena α) : Prop := ∀ i, a.Stays b i

structure Fades (a b : Arena α) : Prop where
  contains : ∀ {x : NodeId}, b.contains x = true → a.contains x = true
  places : ∀ i, a.Stays b i ∨ a.Vacated b i

section Relations
variable {a b c : Arena α}

theorem Stays.refl (a : Arena α) (i : Nat) : a.Stays a i := ⟨rfl, fun _ h => h⟩

theorem Stays.trans {i : Nat} (hab : a.Stays b i) (hbc : b.Stays c i) : a.Stays c i :=
  ⟨hbc.generation.trans hab.generation, fun hi hx => hbc.contains hi (hab.contains hi hx)⟩

theorem Extends.refl (a : Arena α) : a.Extends a := Stays.refl a

theorem Extends.trans (hab : a.Extends b) (hbc : b.Extends c) : a.Extends c :=
  fun i => (hab i).trans (hbc i)

theorem extends_modify (a : Arena α) (id : NodeId) (change : α → α) :
    a.Extends (a.modify id change) :=
  fun i => ⟨a.generationAt_modify id change i, fun _ hx => by rwa [contains_modify]⟩

theorem Sound.extends_insert (h : a.Sound) (v : α) : a.Extends (a.insert v).1 :=
  fun i => ⟨h.generationAt_insert v i, fun _ hx => h.contains_insert v hx⟩

theorem Fades.refl (a : Arena α) : a.Fades a := ⟨fun h => h, fun i => Or.inl (.refl a i)⟩

/-- What was added to nothing cannot go twice, so no place is vacated a second time. -/
theorem Fades.trans (hab : a.Fades b) (hbc : b.Fades c) : a.Fades c := by
  refine ⟨fun hx => hab.contains (hbc.contains hx), ?_⟩
  intro i
  rcases hab.places i with hfirst | hfirst
  · rcases hbc.places i with hsecond | hsecond
    · exact Or.inl (hfirst.trans hsecond)
    · obtain ⟨x, hi, hx⟩ := hsecond.lived
      refine Or.inr ⟨?_, ⟨x, hi, hab.contains hx⟩, hsecond.gone⟩
      rw [hsecond.generation, hfirst.generation]
  · rcases hbc.places i with hsecond | hsecond
    · refine Or.inr ⟨hsecond.generation.trans hfirst.generation, hfirst.lived, ?_⟩
      intro x hi
      rw [Bool.eq_false_iff]
      intro hx
      have hdead := hfirst.gone hi
      rw [hbc.contains hx] at hdead
      cases hdead
    · obtain ⟨x, hi, hx⟩ := hsecond.lived
      rw [hfirst.gone hi] at hx
      cases hx

theorem fades_modify (a : Arena α) (id : NodeId) (change : α → α) :
    a.Fades (a.modify id change) :=
  ⟨fun hx => by rwa [contains_modify] at hx, fun i => Or.inl (a.extends_modify id change i)⟩

theorem fades_remove (a : Arena α) (id : NodeId) : a.Fades (a.remove id) := by
  cases hlive : a.contains id with
  | false =>
    have hsame : a.remove id = a := by
      unfold remove
      rw [if_neg (by simp [hlive])]
    rw [hsame]
    exact .refl a
  | true =>
    refine ⟨fun hx => ?_, fun i => ?_⟩
    · rw [contains_remove, Bool.and_eq_true] at hx
      exact hx.2
    · by_cases hi : i = id.index
      · refine Or.inr ⟨?_, ⟨id, hi.symm, hlive⟩, ?_⟩
        · rw [generationAt_remove hlive, if_pos hi]
        · intro x hx
          rw [contains_remove, Bool.eq_false_iff, Ne, Bool.and_eq_true]
          rintro ⟨hne, hx'⟩
          obtain ⟨u, hu⟩ := contains_iff.mp hx'
          obtain ⟨v, hv⟩ := contains_iff.mp hlive
          have he := eq_of_index_eq hu hv (hx.trans hi)
          simp [he] at hne
      · refine Or.inl ⟨?_, ?_⟩
        · rw [generationAt_remove hlive, if_neg hi]
        · intro x hx hx'
          have hne : x ≠ id := fun he => hi (by rw [← hx, he])
          rw [contains_remove, hx']
          simp [hne]

end Relations

end Generations

end Stowage.Arena
