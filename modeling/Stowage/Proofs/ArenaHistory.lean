import Stowage.Proofs.Arena
import Mathlib.Data.List.Nodup

/-!
# What an arena remembers

A handle holds the value that it was issued for, as it was changed since, until that is taken out.
All of this is read from what was done so far, without looking at places, generations or the vacant
list. No handle is issued twice while no place was vacated as often as there are generations.
-/

namespace Stowage.Arena

set_option autoImplicit false

variable {α : Type}

/-- What was done to an arena: a value was put in under the handle issued for it, the value under a
handle was changed, or what a handle held was taken out. -/
inductive Deed (α : Type) where
  | put (id : NodeId) (v : α)
  | change (id : NodeId) (f : α → α)
  | take (id : NodeId) (gave : Option α)

/-- An arena with all that was done to it, the newest deed first. A value that is made from its
handle is made from the handle that the insertion gives back. -/
inductive History : List (Deed α) → Arena α → Prop where
  | start : History [] empty
  | insert {past : List (Deed α)} {a : Arena α} (v : α) (before : History past a) :
      History (.put (a.insert v).2 v :: past) (a.insert v).1
  | insertWith {past : List (Deed α)} {a : Arena α} (v : NodeId → α) (before : History past a) :
      History (.put (a.insertWith v).2 (v (a.insertWith v).2) :: past) (a.insertWith v).1
  | modify {past : List (Deed α)} {a : Arena α} (id : NodeId) (f : α → α)
      (before : History past a) : History (.change id f :: past) (a.modify id f)
  | take {past : List (Deed α)} {a : Arena α} (id : NodeId) (before : History past a) :
      History (.take id (a.take id).2 :: past) (a.take id).1

def held : List (Deed α) → NodeId → Option α
  | [], _ => none
  | .put id v :: past, x => if x = id then some v else held past x
  | .change id f :: past, x => if x = id then (held past x).map f else held past x
  | .take id _ :: past, x => if x = id then none else held past x

def Deed.issued? : Deed α → Option NodeId
  | .put id _ => some id
  | _ => none

def Deed.taken? : Deed α → Option NodeId
  | .take id (some _) => some id
  | _ => none

def issued (past : List (Deed α)) : List NodeId := past.filterMap Deed.issued?

def taken (past : List (Deed α)) : List NodeId := past.filterMap Deed.taken?

def vacatings (i : Nat) (past : List (Deed α)) : Nat :=
  (taken past).countP fun id => id.index = i

structure Recalls (a : Arena α) (past : List (Deed α)) : Prop where
  issued_once : (issued past).Nodup
  get? : ∀ x, a.get? x = held past x
  live_iff : ∀ x, a.contains x = true ↔ x ∈ issued past ∧ x ∉ taken past
  taken_once : (taken past).Nodup
  stale : ∀ x, a.contains x = false → a.take x = (a, none) ∧ ∀ f, a.modify x f = a
  size : a.size = ((issued past).filter a.contains).length
  own_handle : ∀ v : NodeId → α,
    (a.insertWith v).1.get? (a.insertWith v).2 = some (v (a.insertWith v).2)
  vacant_once : a.vacant.Nodup
  vacant_iff : ∀ i, i ∈ a.vacant ↔ ∃ p, a.places[i]? = some p ∧ p.value = none
  places : a.places.size = a.size + a.vacant.length

section Deeds
variable {past : List (Deed α)} {a : Arena α} {x id : NodeId} {v : α} {i : Nat}

@[simp] theorem issued_put : issued (.put id v :: past) = id :: issued past := rfl

@[simp] theorem issued_change (f : α → α) : issued (.change id f :: past) = issued past := rfl

@[simp] theorem issued_take (gave : Option α) : issued (.take id gave :: past) = issued past := rfl

@[simp] theorem taken_put : taken (.put id v :: past) = taken past := rfl

@[simp] theorem taken_take_some : taken (.take id (some v) :: past) = id :: taken past := rfl

theorem vacatings_take_some : vacatings i (.take id (some v) :: past) =
    vacatings i past + if id.index = i then 1 else 0 := by
  unfold vacatings
  rw [taken_take_some, List.countP_cons]
  simp

theorem vacatings_le (d : Deed α) (i : Nat) (past : List (Deed α)) :
    vacatings i past ≤ vacatings i (d :: past) := by
  unfold vacatings taken
  rw [List.filterMap_cons]
  split
  · exact Nat.le_refl _
  · rw [List.countP_cons]
    exact Nat.le_add_right _ _

@[simp] theorem size_modify (a : Arena α) (id : NodeId) (f : α → α) :
    (a.modify id f).places.size = a.places.size := by
  unfold modify
  split <;> simp

@[simp] theorem size_remove (a : Arena α) (id : NodeId) :
    (a.remove id).places.size = a.places.size := by
  unfold remove
  split <;> simp

theorem take_of_stale (h : a.contains id = false) : a.take id = (a, none) := by
  have hnone : a.get? id = none := by simpa [contains] using h
  unfold take remove
  rw [if_neg (by simp [h]), hnone]

end Deeds

section Kept
variable {past : List (Deed α)} {a : Arena α} {x : NodeId}

theorem History.sound (h : History past a) : a.Sound := by
  induction h with
  | start => exact sound_empty
  | insert v _ ih => exact ih.insert v
  | insertWith v _ ih => exact ih.insert _
  | modify id f _ ih => exact ih.modify id f
  | take id _ ih => exact ih.remove id

/-- Both insertions do the same, and a removal does nothing or takes a value out. -/
@[elab_as_elim]
theorem History.by_effect {P : List (Deed α) → Arena α → Prop}
    (start : P [] empty)
    (insert : ∀ {past : List (Deed α)} {a : Arena α} (v : α), History past a → P past a →
      P (.put a.nextId v :: past) (a.insert v).1)
    (modify : ∀ {past : List (Deed α)} {a : Arena α} (id : NodeId) (f : α → α),
      History past a → P past a → P (.change id f :: past) (a.modify id f))
    (stale : ∀ {past : List (Deed α)} {a : Arena α} (id : NodeId), History past a → P past a →
      a.contains id = false → P (.take id none :: past) a)
    (take : ∀ {past : List (Deed α)} {a : Arena α} (id : NodeId) (v : α), History past a →
      P past a → a.get? id = some v → P (.take id (some v) :: past) (a.remove id))
    (h : History past a) : P past a := by
  induction h with
  | start => exact start
  | insert v before ih =>
    rw [insert_snd]
    exact insert v before ih
  | insertWith v before ih =>
    unfold Arena.insertWith
    rw [insert_snd]
    exact insert _ before ih
  | modify id f before ih => exact modify id f before ih
  | @take past a id before ih =>
    cases hv : a.get? id with
    | none =>
      have hstale : a.contains id = false := by simp [contains, hv]
      rw [take_of_stale hstale]
      exact stale id before ih hstale
    | some v =>
      unfold Arena.take
      rw [hv]
      exact take id v before ih hv

theorem History.get?_eq (h : History past a) (x : NodeId) : a.get? x = held past x := by
  refine h.by_effect ?_ ?_ ?_ ?_ ?_
  · simp [get?, empty, held]
  · intro past a v before ih
    rw [before.sound.get?_insert, held, ih]
  · intro past a id f _ ih
    rw [get?_modify, held, ← ih]
    split
    · rename_i hx
      rw [hx]
    · rfl
  · intro past a id _ ih hstale
    rw [held, ← ih]
    split
    · rename_i hx
      rw [hx]
      simpa [contains] using hstale
    · rfl
  · intro past a id v _ ih _
    rw [get?_remove, held, ih]

theorem mem_issued_of_held {v : α} (h : held past x = some v) : x ∈ issued past := by
  induction past generalizing v with
  | nil => cases h
  | cons d past ih =>
    cases d with
    | put id u =>
      rw [held] at h
      split at h
      · rename_i hx
        simp [hx]
      · simp [ih h]
    | change id f =>
      rw [held] at h
      split at h
      · obtain ⟨u, hu, _⟩ := Option.map_eq_some_iff.mp h
        exact ih hu
      · exact ih h
    | take id gave =>
      rw [held] at h
      split at h
      · cases h
      · exact ih h

theorem History.mem_issued (h : History past a) (hx : a.contains x = true) : x ∈ issued past := by
  obtain ⟨v, hv⟩ := contains_iff.mp hx
  rw [h.get?_eq] at hv
  exact mem_issued_of_held hv

theorem History.taken_subset (h : History past a) : taken past ⊆ issued past := by
  refine h.by_effect (List.Subset.refl _) ?_ ?_ ?_ ?_
  · intro past a v _ ih
    exact List.subset_cons_of_subset _ ih
  · intro past a id f _ ih
    exact ih
  · intro past a id _ ih _
    exact ih
  · intro past a id v before ih hv
    exact List.cons_subset.mpr ⟨before.mem_issued (contains_iff.mpr ⟨v, hv⟩), ih⟩

theorem History.generationAt_eq (h : History past a) (i : Nat) :
    a.generationAt i = vacatings i past % generations := by
  refine h.by_effect (generationAt_empty i) ?_ ?_ ?_ ?_
  · intro past a v before ih
    rw [before.sound.generationAt_insert, ih]
    rfl
  · intro past a id f _ ih
    rw [generationAt_modify, ih]
    rfl
  · intro past a id _ ih _
    exact ih
  · intro past a id v _ ih hv
    rw [generationAt_remove (contains_iff.mpr ⟨v, hv⟩), ih, vacatings_take_some]
    by_cases hi : i = id.index
    · rw [if_pos hi, if_pos hi.symm, Nat.mod_add_mod]
    · rw [if_neg hi, if_neg (Ne.symm hi), Nat.add_zero]

theorem generation_nextId (a : Arena α) : a.nextId.generation = a.generationAt a.nextId.index := by
  unfold nextId
  cases a.vacant with
  | nil => simp [generationAt]
  | cons i rest => rfl

end Kept

def indices : Nat := 4294967296

def Young (past : List (Deed α)) : Prop := ∀ i, vacatings i past < generations

section Young
variable {past : List (Deed α)} {a : Arena α} {x : NodeId}

theorem Young.earlier {d : Deed α} (h : Young (d :: past)) : Young past :=
  fun i => Nat.lt_of_le_of_lt (vacatings_le d i past) (h i)

theorem History.generationAt_young (h : History past a) (hy : Young past) (i : Nat) :
    a.generationAt i = vacatings i past := by
  rw [h.generationAt_eq, Nat.mod_eq_of_lt (hy i)]

theorem History.generation_lt (h : History past a) : Young past → ∀ x ∈ issued past,
    a.contains x = false → x.generation < vacatings x.index past := by
  refine h.by_effect ?_ ?_ ?_ ?_ ?_
  · intro _ x hx
    cases hx
  · intro past a v before ih hy x hx hstale
    unfold contains at hstale
    rw [before.sound.get?_insert] at hstale
    split at hstale
    · cases hstale
    · rename_i hne
      exact ih hy.earlier x ((List.mem_cons.mp hx).resolve_left hne) hstale
  · intro past a id f _ ih hy x hx hstale
    rw [contains_modify] at hstale
    exact ih hy.earlier x hx hstale
  · intro past a id _ ih _ hy x hx hstale
    exact ih hy.earlier x hx hstale
  · intro past a id v before ih hv hy x hx hstale
    by_cases hlive : a.contains x = true
    · have hid : x = id := by
        rw [contains_remove, hlive, Bool.and_true, Bool.not_eq_false', decide_eq_true_eq] at hstale
        exact hstale
      have hgen := before.generationAt_young hy.earlier x.index
      rw [generationAt_of_contains hlive] at hgen
      rw [vacatings_take_some, if_pos (by rw [hid])]
      omega
    · have hlt := ih hy.earlier x hx (Bool.eq_false_iff.mpr hlive)
      exact Nat.lt_of_lt_of_le hlt (vacatings_le _ _ _)

/-- The next handle is a new one: its place is of just its generation. -/
theorem History.nextId_not_mem (h : History past a) (hy : Young past) :
    a.nextId ∉ issued past := by
  intro hmem
  have hstale : a.contains a.nextId = false := by simp [contains, h.sound.get?_nextId]
  have hlt := h.generation_lt hy _ hmem hstale
  rw [generation_nextId, h.generationAt_young hy] at hlt
  exact Nat.lt_irrefl _ hlt

theorem History.issued_once (h : History past a) : Young past → (issued past).Nodup := by
  refine h.by_effect (fun _ => List.nodup_nil) ?_ ?_ ?_ ?_
  · intro past a v before ih hy
    exact List.nodup_cons.mpr ⟨before.nextId_not_mem hy.earlier, ih hy.earlier⟩
  · intro past a id f _ ih hy
    exact ih hy.earlier
  · intro past a id _ ih _ hy
    exact ih hy.earlier
  · intro past a id v _ ih _ hy
    exact ih hy.earlier

/-- A handle is live from the insertion that issued it until its value is taken out. -/
theorem History.live_iff (h : History past a) : Young past → ∀ x,
    a.contains x = true ↔ x ∈ issued past ∧ x ∉ taken past := by
  refine h.by_effect ?_ ?_ ?_ ?_ ?_
  · intro _ x
    simp [contains, Arena.get?, empty, issued]
  · intro past a v before ih hy x
    have hnew := before.nextId_not_mem hy.earlier
    unfold contains
    rw [before.sound.get?_insert, issued_put, taken_put, List.mem_cons]
    by_cases hx : x = a.nextId
    · rw [if_pos hx]
      simp only [hx, Option.isSome_some, true_or, true_and, true_iff]
      exact fun hmem => hnew (before.taken_subset hmem)
    · rw [if_neg hx]
      simp only [hx, false_or]
      exact ih hy.earlier x
  · intro past a id f _ ih hy x
    rw [contains_modify]
    exact ih hy.earlier x
  · intro past a id _ ih _ hy x
    exact ih hy.earlier x
  · intro past a id v _ ih _ hy x
    rw [contains_remove, Bool.and_eq_true, ih hy.earlier x, issued_take, taken_take_some,
      List.mem_cons]
    simp only [Bool.not_eq_true', decide_eq_false_iff_not, not_or]
    tauto

theorem History.taken_once (h : History past a) : Young past → (taken past).Nodup := by
  refine h.by_effect (fun _ => List.nodup_nil) ?_ ?_ ?_ ?_
  · intro past a v _ ih hy
    exact ih hy.earlier
  · intro past a id f _ ih hy
    exact ih hy.earlier
  · intro past a id _ ih _ hy
    exact ih hy.earlier
  · intro past a id v before ih hv hy
    have hlive := (before.live_iff hy.earlier id).mp (contains_iff.mpr ⟨v, hv⟩)
    exact List.nodup_cons.mpr ⟨hlive.2, ih hy.earlier⟩

theorem History.size_eq (h : History past a) : Young past →
    a.size = ((issued past).filter a.contains).length := by
  refine h.by_effect (fun _ => rfl) ?_ ?_ ?_ ?_
  · intro past a v before ih hy
    have hnew := before.nextId_not_mem hy.earlier
    have hlive : (a.insert v).1.contains a.nextId = true := by
      simp [contains, before.sound.get?_insert]
    have hsame :
        (issued past).filter (a.insert v).1.contains = (issued past).filter a.contains := by
      refine List.filter_congr fun x hx => ?_
      unfold contains
      rw [before.sound.get?_insert, if_neg fun he : x = a.nextId => hnew (he ▸ hx)]
    rw [issued_put, List.filter_cons_of_pos hlive, List.length_cons, hsame, ← ih hy.earlier]
    unfold Arena.insert
    split <;> rfl
  · intro past a id f _ ih hy
    rw [issued_change, List.filter_congr fun x _ => contains_modify a id x f, ← ih hy.earlier]
    unfold Arena.modify
    split <;> rfl
  · intro past a id _ ih _ hy
    exact ih hy.earlier
  · intro past a id v before ih hv hy
    have hlive := contains_iff.mpr ⟨v, hv⟩
    have hmem : id ∈ (issued past).filter a.contains :=
      List.mem_filter.mpr ⟨before.mem_issued hlive, hlive⟩
    have hrest : (issued past).filter (a.remove id).contains =
        ((issued past).filter a.contains).erase id := by
      rw [((before.issued_once hy.earlier).filter _).erase_eq_filter, List.filter_filter]
      refine List.filter_congr fun x _ => ?_
      rw [contains_remove]
      rfl
    rw [issued_take, hrest, List.length_erase_of_mem hmem, ← ih hy.earlier]
    unfold Arena.remove
    rw [if_pos hlive]

theorem History.places_eq (h : History past a) : Young past →
    a.places.size = a.size + a.vacant.length := by
  refine h.by_effect (fun _ => rfl) ?_ ?_ ?_ ?_
  · intro past a v _ ih hy
    have hplaces := ih hy.earlier
    unfold Arena.insert
    cases hvacant : a.vacant with
    | nil => simpa [hvacant] using hplaces
    | cons i rest =>
      simp only [hvacant, List.length_cons] at hplaces
      simp only [Array.size_modify]
      omega
  · intro past a id f _ ih hy
    have hplaces := ih hy.earlier
    unfold Arena.modify
    split <;> simpa using hplaces
  · intro past a id _ ih _ hy
    exact ih hy.earlier
  · intro past a id v before ih hv hy
    have hplaces := ih hy.earlier
    have hlive := contains_iff.mpr ⟨v, hv⟩
    have hpos : 0 < a.size := by
      rw [before.size_eq hy.earlier]
      exact List.length_pos_of_mem (List.mem_filter.mpr ⟨before.mem_issued hlive, hlive⟩)
    unfold Arena.remove
    rw [if_pos hlive]
    simp only [Array.size_modify, List.length_cons]
    omega

theorem History.recalls (h : History past a) (hy : Young past) : a.Recalls past where
  issued_once := h.issued_once hy
  get? := h.get?_eq
  live_iff := h.live_iff hy
  taken_once := h.taken_once hy
  stale := fun _ hx => ⟨take_of_stale hx, modify_of_stale hx⟩
  size := h.size_eq hy
  own_handle := by
    intro v
    unfold Arena.insertWith
    rw [h.sound.get?_insert, insert_snd, if_pos rfl]
  vacant_once := h.sound.nodup
  vacant_iff := h.sound.mem_vacant
  places := h.places_eq hy

theorem size_le_insert (a : Arena α) (v : α) : a.places.size ≤ (a.insert v).1.places.size := by
  unfold insert
  split <;> simp

/-- No place ever goes, so whatever was issued stands for one of them. -/
theorem History.index_lt (h : History past a) : ∀ x ∈ issued past, x.index < a.places.size := by
  refine h.by_effect ?_ ?_ ?_ ?_ ?_
  · intro x hx
    cases hx
  · intro past a v before ih x hx
    rcases List.mem_cons.mp hx with rfl | hold
    · have hget : (a.insert v).1.get? a.nextId = some v := by
        rw [before.sound.get?_insert, if_pos rfl]
      exact index_lt_of_get? hget
    · exact Nat.lt_of_lt_of_le (ih x hold) (size_le_insert a v)
  · intro past a id f _ ih x hx
    rw [size_modify]
    exact ih x hx
  · intro past a id _ ih _ x hx
    exact ih x hx
  · intro past a id v _ ih _ x hx
    rw [size_remove]
    exact ih x hx

theorem History.generation_lt_generations (h : History past a) :
    ∀ x ∈ issued past, x.generation < generations := by
  refine h.by_effect ?_ ?_ ?_ ?_ ?_
  · intro x hx
    cases hx
  · intro past a v before ih x hx
    rcases List.mem_cons.mp hx with rfl | hold
    · rw [generation_nextId, before.generationAt_eq]
      exact Nat.mod_lt _ (by decide)
    · exact ih x hold
  · intro past a id f _ ih
    exact ih
  · intro past a id _ ih _
    exact ih
  · intro past a id v _ ih _
    exact ih

/-- Whatever was done to an arena, as long as no place was vacated as often as there are generations
and there are no more places than a handle can tell apart: no handle is issued twice, each holds its
own value from the insertion that issued it until that is taken out, and nothing before or after,
and its two numbers need no more than 32 bits. -/
theorem handles_hold_their_values (h : History past a) (hy : Young past)
    (hplaces : a.places.size ≤ indices) :
    a.Recalls past ∧ ∀ x ∈ issued past, x.index < indices ∧ x.generation < generations :=
  ⟨h.recalls hy, fun x hx =>
    ⟨Nat.lt_of_lt_of_le (h.index_lt x hx) hplaces, h.generation_lt_generations x hx⟩⟩

end Young

section Reused

def reused : Arena Nat :=
  ((((empty.insert 5).1.insert 7).1.take ⟨0, 0⟩).1.insertWith NodeId.generation).1

def reusing : List (Deed Nat) :=
  [.put ⟨0, 1⟩ 1, .take ⟨0, 0⟩ (some 5), .put ⟨1, 0⟩ 7, .put ⟨0, 0⟩ 5]

theorem history_reused : History reusing reused :=
  .insertWith NodeId.generation (.take ⟨0, 0⟩ (.insert 7 (.insert 5 .start)))

theorem young_reusing : Young reusing := by
  intro i
  refine Nat.lt_of_le_of_lt List.countP_le_length ?_
  decide

theorem handles_hold_their_values_reused : History reusing reused ∧ Young reusing ∧
    reused.places.size ≤ indices ∧ reused.Recalls reusing ∧ reused.get? ⟨0, 0⟩ = none ∧
    reused.get? ⟨0, 1⟩ = some 1 := by
  have hplaces : reused.places.size ≤ indices := by decide
  obtain ⟨hrecalls, _⟩ := handles_hold_their_values history_reused young_reusing hplaces
  exact ⟨history_reused, young_reusing, hplaces, hrecalls, hrecalls.get? _, hrecalls.get? _⟩

end Reused

end Stowage.Arena
