import Stowage.Written.Containers
import Mathlib.Data.List.Forall2

/-!
# Padded written forms

The record of a structure may have fields that no one asks for, and its fields may come in any
order. A padding says where in a written form there are such records. Only they are padded: a
choice is told by the one field of its record, and null stands for itself alone.
-/

namespace Stowage

set_option autoImplicit false

open Written

/-- Which data pass for a written form, the form itself among them. -/
structure Padding where
  Pads : Datum → Datum → Prop
  refl : ∀ d, Pads d d
  null_iff : ∀ {d e : Datum}, Pads d e → (d = .null ↔ e = .null)

namespace Datum

def called (name : String) (fields : List (String × Datum)) : List (String × Datum) :=
  fields.filter fun f => f.1 = name

/-- A written form of which the fields called one of `left` are left out. -/
def without (left : List String) : Datum → Datum
  | .record fields => .record (fields.filter fun f => f.1 ∉ left)
  | d => d

theorem lookup_eq_called (name : String) (fields : List (String × Datum)) :
    fields.lookup name = (called name fields).head?.map Prod.snd := by
  unfold called
  rw [List.head?_filter]
  induction fields with
  | nil => rfl
  | cons f rest ih =>
    rw [List.lookup_cons, List.find?_cons]
    by_cases hf : f.1 = name
    · rw [beq_iff_eq.mpr hf.symm, decide_eq_true hf]
      rfl
    · rw [beq_false_of_ne (Ne.symm hf), decide_eq_false hf]
      exact ih

theorem lookup_without (left : List String) (name : String) (fields : List (String × Datum)) :
    (fields.filter fun f => f.1 ∉ left).lookup name =
      if name ∈ left then none else fields.lookup name := by
  rw [lookup_eq_called, lookup_eq_called, called, called, List.filter_filter]
  split
  · rename_i hleft
    have hnone : (fields.filter fun f => decide (f.1 = name) && decide (f.1 ∉ left)) = [] := by
      rw [List.filter_eq_nil_iff]
      intro f _ hf
      rw [Bool.and_eq_true, decide_eq_true_eq, decide_eq_true_eq] at hf
      exact hf.2 (hf.1 ▸ hleft)
    rw [hnone]
    rfl
  · rename_i hkept
    have hsame : ∀ f ∈ fields, (decide (f.1 = name) && decide (f.1 ∉ left)) =
        decide (f.1 = name) := by
      intro f _
      rw [Bool.eq_iff_iff, Bool.and_eq_true, decide_eq_true_eq, decide_eq_true_eq]
      exact ⟨And.left, fun hf => ⟨hf, hf ▸ hkept⟩⟩
    rw [List.filter_congr hsame]

end Datum

namespace Padding

def strict : Padding where
  Pads := Eq
  refl _ := rfl
  null_iff h := by rw [h]

def fields (asked : List (String × Padding)) : Padding where
  Pads
    | .record ds, .record es => ∀ name p, (name, p) ∈ asked →
        List.Forall₂ (fun d e => p.Pads d.2 e.2) (Datum.called name ds) (Datum.called name es)
    | d, e => d = e
  refl d := by
    cases d with
    | record ds => exact fun _ p _ => List.forall₂_same.mpr fun f _ => p.refl f.2
    | _ => rfl
  null_iff {d e} h := by
    cases d with
    | record ds =>
      cases e with
      | record es => simp
      | _ => cases h
    | _ =>
      cases h
      rfl

def items (p : Padding) : Padding where
  Pads
    | .list ds, .list es => List.Forall₂ p.Pads ds es
    | d, e => d = e
  refl d := by
    cases d with
    | list ds => exact List.forall₂_same.mpr fun d _ => p.refl d
    | _ => rfl
  null_iff {d e} h := by
    cases d with
    | list ds =>
      cases e with
      | list es => simp
      | _ => cases h
    | _ =>
      cases h
      rfl

def choice (name : String) (p : Padding) : Padding where
  Pads d e := d = e ∨ ∃ c f, d = .record [(name, c)] ∧ e = .record [(name, f)] ∧ p.Pads c f
  refl _ := Or.inl rfl
  null_iff := by
    rintro d e (rfl | ⟨c, f, rfl, rfl, _⟩)
    · rfl
    · simp

section Fields
variable {asked : List (String × Padding)} {ds es : List (String × Datum)} {name : String}
  {p : Padding}

theorem pads_nil : (fields []).Pads (.record ds) (.record es) := fun _ _ h => nomatch h

theorem pads_cons
    (hfirst : List.Forall₂ (fun d e => p.Pads d.2 e.2) (Datum.called name ds)
      (Datum.called name es)) (hrest : (fields asked).Pads (.record ds) (.record es)) :
    (fields ((name, p) :: asked)).Pads (.record ds) (.record es) := by
  intro other q hq
  rcases List.mem_cons.mp hq with heq | hq
  · cases heq
    exact hfirst
  · exact hrest other q hq

theorem pads_insert (before after : List (String × Datum)) (d : Datum)
    (h : name ∉ asked.map Prod.fst) : (fields asked).Pads (.record (before ++ after))
      (.record (before ++ (name, d) :: after)) := by
  intro other q hq
  have hne : name ≠ other := fun heq => h (heq ▸ List.mem_map_of_mem hq)
  have hsame : Datum.called other (before ++ (name, d) :: after) =
      Datum.called other (before ++ after) := by
    unfold Datum.called
    rw [List.filter_append, List.filter_append,
      List.filter_cons_of_neg (by rwa [decide_eq_true_eq])]
  rw [hsame]
  exact List.forall₂_same.mpr fun f _ => q.refl f.2

/-- A look-up in a padded record finds what it finds in the record, padded. -/
theorem rel_lookup (h : (fields asked).Pads (.record ds) (.record es)) (hp : (name, p) ∈ asked) :
    Option.Rel p.Pads (ds.lookup name) (es.lookup name) := by
  have hsame : List.Forall₂ (fun d e => p.Pads d.2 e.2) (Datum.called name ds)
      (Datum.called name es) := h name p hp
  rw [Datum.lookup_eq_called, Datum.lookup_eq_called]
  generalize Datum.called name ds = here, Datum.called name es = there at hsame
  cases hsame with
  | nil => exact .none
  | cons hfirst _ => exact .some hfirst

theorem eq_of_rel_strict {o o' : Option Datum} (h : Option.Rel strict.Pads o o') : o' = o := by
  cases h with
  | none => rfl
  | some heq => exact congrArg some heq.symm

/-- A padded record is a record, whose fields are read by name. -/
theorem exists_fields {e : Datum} (h : (fields asked).Pads (.record ds) e) : ∃ look,
    e.named = some look ∧ (∀ names least, e.fieldsOf names least = some look) ∧
      ∀ name p, (name, p) ∈ asked → Option.Rel p.Pads (ds.lookup name) (look name) := by
  cases e with
  | record es => exact ⟨_, rfl, fun _ _ => rfl, fun name p hp => rel_lookup h hp⟩
  | _ => cases h

end Fields

section Choice
variable {name : String} {p : Padding} {c d e : Datum}

theorem eq_of_choice (h : (choice name p).Pads d e) (hother : ∀ c, d ≠ .record [(name, c)]) :
    e = d := by
  rcases h with rfl | ⟨c, f, rfl, _, _⟩
  · rfl
  · exact absurd rfl (hother c)

theorem exists_choice (h : (choice name p).Pads (.record [(name, c)]) e) :
    ∃ f, e = .record [(name, f)] ∧ p.Pads c f := by
  rcases h with rfl | ⟨_, f, hc, rfl, hf⟩
  · exact ⟨c, rfl, p.refl c⟩
  · cases hc
    exact ⟨f, rfl, hf⟩

end Choice

end Padding

/-- The value is read back from its written form, also when that is padded. -/
structure ReadsBack {α : Type} [Written α] (p : Padding) (a : α) : Prop where
  same : read (write a) = some a
  padded : ∀ d, p.Pads (write a) d → read d = some a

namespace ReadsBack
variable {α : Type} [Written α] {p : Padding} {a : α}

theorem of_padded (h : ∀ d, p.Pads (write a) d → read d = some a) : ReadsBack p a :=
  ⟨h _ (p.refl _), h⟩

theorem of_same (h : read (write a) = some a) : ReadsBack .strict a := by
  refine .of_padded fun d hd => ?_
  cases hd
  exact h

theorem list {as : List α} (h : ∀ a ∈ as, ReadsBack p a) : ReadsBack (.items p) as := by
  refine .of_padded fun d hd => ?_
  cases d with
  | list es =>
    change List.Forall₂ p.Pads (as.map write) es at hd
    change es.mapM read = some as
    induction as generalizing es with
    | nil =>
      cases hd
      rfl
    | cons a rest ih =>
      obtain ⟨e, others, he, hothers, rfl⟩ := List.forall₂_cons_left_iff.mp hd
      rw [List.mapM_cons, (h a List.mem_cons_self).padded e he,
        ih (fun b hb => h b (List.mem_cons_of_mem a hb)) others hothers]
      rfl
  | _ => cases hd

theorem option {o : Option α} (h : ∀ a, o = some a → ReadsBack p a ∧ write a ≠ .null) :
    ReadsBack p o := by
  refine .of_padded fun d hd => ?_
  cases o with
  | none =>
    cases (p.null_iff hd).mp rfl
    rfl
  | some a =>
    obtain ⟨ha, hwrite⟩ := h a rfl
    have hd' := ha.padded d hd
    have hnull : d ≠ .null := fun he => hwrite ((p.null_iff hd).mpr he)
    cases d with
    | null => exact absurd rfl hnull
    | _ => exact congrArg (Option.map some) hd'

section Field
variable {look : String → Option Datum} {name : String} (h : ReadsBack p a)
  (hlook : Option.Rel p.Pads (some (write a)) (look name))
include h hlook

theorem exists_found : ∃ d, look name = some d ∧ read d = some a := by
  generalize look name = found at hlook
  cases hlook with
  | some hd => exact ⟨_, rfl, h.padded _ hd⟩

theorem field : Written.field look name = some a := by
  obtain ⟨d, hd, hread⟩ := h.exists_found hlook
  unfold Written.field
  rw [hd]
  exact hread

theorem fieldOr (missing : α) : Written.fieldOr look name missing read = some a := by
  obtain ⟨d, hd, hread⟩ := h.exists_found hlook
  unfold Written.fieldOr
  rw [hd]
  exact hread

end Field

end ReadsBack

end Stowage
