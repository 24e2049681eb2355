import Stowage.Container.Snapshot
import Stowage.Proofs.Forest.Outline
import Mathlib.Data.List.Nodup

/-!
# What viewers are bound to

A container gives each of its slots a wire index, and a view has a row for every bound slot. Both
are lists of pairs of wire and slot, in which no wire and no slot stands twice.
-/

namespace Stowage

set_option autoImplicit false

section Keys
variable {α β κ : Type} [DecidableEq κ]

theorem find?_of_nodup {key : α → κ} {l : List α} (h : (l.map key).Nodup) {a : α} (ha : a ∈ l) :
    l.find? (fun b => key b = key a) = some a := by
  induction l with
  | nil => cases ha
  | cons b rest ih =>
    obtain ⟨hb, hrest⟩ := List.nodup_cons.mp h
    rcases List.mem_cons.mp ha with ha | ha
    · rw [ha]
      simp
    · have hne : key b ≠ key a := by
        intro he
        rw [he] at hb
        exact hb (List.mem_map_of_mem ha)
      rw [List.find?_cons_of_neg (by simpa using hne)]
      exact ih hrest ha

theorem lookup_eq_some_iff_mem {l : List (κ × β)} (h : (l.map Prod.fst).Nodup) {k : κ} {b : β} :
    l.lookup k = some b ↔ (k, b) ∈ l := by
  induction l with
  | nil => simp
  | cons p rest ih =>
    obtain ⟨i, c⟩ := p
    obtain ⟨hi, hrest⟩ := List.nodup_cons.mp h
    rw [List.lookup_cons]
    by_cases hk : k = i
    · subst hk
      have hnot : (k, b) ∉ rest := fun hm => hi (List.mem_map.mpr ⟨(k, b), hm, rfl⟩)
      simp [hnot, eq_comm]
    · rw [beq_false_of_ne hk]
      simp [hk, ih hrest]

end Keys

namespace Container

def bindings (c : Container) : List (Int × SlotId) :=
  (cursorWire, c.cursor) :: c.slots.zipIdx.map fun p => (Int.ofNat p.2, p.1)

theorem wires_eq (c : Container) :
    c.bindings.map Prod.fst = cursorWire :: (List.range c.slots.length).map Int.ofNat := by
  have hidx := congrArg (List.map Int.ofNat) (List.zipIdx_map_snd 0 c.slots)
  rw [List.map_map, ← List.range_eq_range'] at hidx
  simp only [bindings, List.map_cons, List.map_map]
  exact congrArg _ hidx

theorem boundSlots_eq (c : Container) : c.bindings.map Prod.snd = c.cursor :: c.slots := by
  have hslots := List.zipIdx_map_fst 0 c.slots
  simp only [bindings, List.map_cons, List.map_map]
  exact congrArg _ hslots

theorem wires_increase (c : Container) : (c.bindings.map Prod.fst).Pairwise (· < ·) := by
  rw [wires_eq, List.pairwise_cons, List.pairwise_map]
  constructor
  · intro i hi
    obtain ⟨n, _, rfl⟩ := List.mem_map.mp hi
    simp only [cursorWire, Int.ofNat_eq_natCast]
    omega
  · refine List.pairwise_lt_range.imp ?_
    intro a b hab
    exact Int.ofNat_lt.mpr hab

theorem nodup_wires (c : Container) : (c.bindings.map Prod.fst).Nodup := by
  refine c.wires_increase.imp ?_
  intro a b hab
  exact Int.ne_of_lt hab

theorem mem_bindings_of_wireIndex {c : Container} {slot : SlotId} {wire : Int}
    (h : c.wireIndex slot = some wire) : (wire, slot) ∈ c.bindings := by
  unfold wireIndex at h
  split at h
  · rename_i hs
    cases h
    rw [hs]
    exact List.mem_cons_self
  · obtain ⟨i, hi, rfl⟩ := Option.map_eq_some_iff.mp h
    refine List.mem_cons_of_mem _ (List.mem_map.mpr ⟨(slot, i), ?_, rfl⟩)
    rw [List.mem_zipIdx_iff_getElem?]
    obtain ⟨hlt, hget, _⟩ := List.idxOf?_eq_some_iff.mp hi
    rw [List.getElem?_eq_getElem hlt]
    simpa using hget

theorem not_mem_bindings_of_wireIndex {c : Container} {slot : SlotId} {wire : Int}
    (h : c.wireIndex slot = none) : (wire, slot) ∉ c.bindings := by
  intro hmem
  have hslot : slot ∈ c.cursor :: c.slots := by
    rw [← boundSlots_eq]
    exact List.mem_map_of_mem hmem
  unfold wireIndex at h
  split at h
  · cases h
  · rename_i hs
    rw [Option.map_eq_none_iff, List.idxOf?_eq_none_iff] at h
    rcases List.mem_cons.mp hslot with he | he
    · exact hs he
    · exact h he

end Container

namespace ClientView

def bindings (v : ClientView) : List (Int × SlotId) := v.rows.map fun r => (r.wire, r.slot)

theorem bindings_learn (v : ClientView) (slot : SlotId) (t : Option Stack) :
    (v.learn slot t).bindings = v.bindings := by
  unfold bindings learn
  rw [List.map_map]
  congr 1
  funext r
  simp only [Function.comp_apply]
  split <;> rfl

theorem mem_learn_iff {v : ClientView} {slot : SlotId} {t : Option Stack} {r : ViewRow} :
    r ∈ (v.learn slot t).rows ↔
      ∃ q ∈ v.rows, r = if q.slot = slot then { q with lastKnown := t } else q := by
  unfold learn
  rw [List.mem_map]
  constructor
  · intro h
    obtain ⟨q, hq, rfl⟩ := h
    exact ⟨q, hq, rfl⟩
  · intro h
    obtain ⟨q, hq, rfl⟩ := h
    exact ⟨q, hq, rfl⟩

section Bound
variable {v : ClientView} {c : Container} (h : v.bindings = c.bindings)
include h

theorem mem_bindings_of_row {r : ViewRow} (hr : r ∈ v.rows) : (r.wire, r.slot) ∈ c.bindings := by
  rw [← h]
  exact List.mem_map_of_mem hr

theorem exists_row {wire : Int} {slot : SlotId} (hb : (wire, slot) ∈ c.bindings) :
    ∃ r ∈ v.rows, r.wire = wire ∧ r.slot = slot := by
  rw [← h] at hb
  obtain ⟨r, hr, he⟩ := List.mem_map.mp hb
  cases he
  exact ⟨r, hr, rfl, rfl⟩

theorem nodup_row_wires : (v.rows.map ViewRow.wire).Nodup := by
  have hw := c.nodup_wires
  rw [← h] at hw
  simpa [bindings, List.map_map, Function.comp_def] using hw

theorem nodup_row_slots (hc : (c.cursor :: c.slots).Nodup) : (v.rows.map ViewRow.slot).Nodup := by
  rw [← c.boundSlots_eq, ← h] at hc
  simpa [bindings, List.map_map, Function.comp_def] using hc

theorem row_eq_of_wire {q r : ViewRow} (hq : q ∈ v.rows) (hr : r ∈ v.rows)
    (hw : q.wire = r.wire) : q = r :=
  List.inj_on_of_nodup_map (nodup_row_wires h) hq hr hw

theorem row_eq_of_slot (hc : (c.cursor :: c.slots).Nodup) {q r : ViewRow} (hq : q ∈ v.rows)
    (hr : r ∈ v.rows) (hs : q.slot = r.slot) : q = r :=
  List.inj_on_of_nodup_map (nodup_row_slots h hc) hq hr hs

theorem row_of_learn (hc : (c.cursor :: c.slots).Nodup) {wire : Int} {slot : SlotId}
    {t : Option Stack} (hb : (wire, slot) ∈ c.bindings) {r : ViewRow}
    (hr : r ∈ (v.learn slot t).rows) :
    r.wire = wire ∧ r.lastKnown = t ∨ r.wire ≠ wire ∧ r ∈ v.rows := by
  obtain ⟨q, hq, rfl⟩ := mem_learn_iff.mp hr
  obtain ⟨b, hbr, hwire, hslot⟩ := exists_row h hb
  by_cases hqs : q.slot = slot
  · have hsame := row_eq_of_slot h hc hq hbr (hqs.trans hslot.symm)
    rw [if_pos hqs]
    exact Or.inl ⟨(congrArg ViewRow.wire hsame).trans hwire, rfl⟩
  · rw [if_neg hqs]
    refine Or.inr ⟨?_, hq⟩
    intro hqw
    have hsame := row_eq_of_wire h hq hbr (hqw.trans hwire.symm)
    exact hqs ((congrArg ViewRow.slot hsame).trans hslot)

theorem slot_of_row {r : ViewRow} (hr : r ∈ v.rows) : v.slot r.wire = some r.slot := by
  unfold slot
  rw [find?_of_nodup (nodup_row_wires h) hr]
  rfl

theorem lastKnown_of_row (hc : (c.cursor :: c.slots).Nodup) {r : ViewRow} (hr : r ∈ v.rows) :
    v.lastKnown r.slot = r.lastKnown := by
  unfold lastKnown
  rw [find?_of_nodup (nodup_row_slots h hc) hr]
  rfl

end Bound

theorem row_of_slot {v : ClientView} {wire : Int} {slot : SlotId} (h : v.slot wire = some slot) :
    ∃ r ∈ v.rows, r.wire = wire ∧ r.slot = slot := by
  obtain ⟨r, hr, hs⟩ := Option.map_eq_some_iff.mp h
  have hw := List.find?_some hr
  exact ⟨r, List.mem_of_find?_eq_some hr, by simpa using hw, hs⟩

end ClientView

namespace State

theorem bindings_freshView (s : State) (c : Container) : (s.freshView c).bindings = c.bindings := by
  simp only [freshView, ClientView.bindings, Container.bindings, List.map_cons, List.map_map]
  rfl

theorem lastKnown_freshView {s : State} {c : Container} {r : ViewRow}
    (h : r ∈ (s.freshView c).rows) : r.lastKnown = s.contents r.slot := by
  rcases List.mem_cons.mp h with h | h
  · rw [h]
  · obtain ⟨p, _, rfl⟩ := List.mem_map.mp h
    rfl

end State

namespace Container

def audience (c : Container) : List (ViewerId × List (Int × SlotId)) :=
  c.viewers.map fun p => (p.1, p.2.bindings)

def frame (c : Container) : Container × List (ViewerId × List (Int × SlotId)) :=
  (c.bare, c.audience)

theorem bindings_of_bare_eq {c d : Container} (h : c.bare = d.bare) : c.bindings = d.bindings := by
  obtain ⟨_, _, hcursor, hslots⟩ := of_bare_eq h
  unfold bindings
  rw [hcursor, hslots]

theorem viewers_fst (c : Container) : c.audience.map Prod.fst = c.viewers.map Prod.fst := by
  unfold audience
  rw [List.map_map]
  rfl

theorem audience_of_frame_eq {c d : Container} (h : c.frame = d.frame) : c.audience = d.audience :=
  congrArg Prod.snd h

theorem viewers_fst_of_frame_eq {c d : Container} (h : c.frame = d.frame) :
    c.viewers.map Prod.fst = d.viewers.map Prod.fst := by
  rw [← c.viewers_fst, ← d.viewers_fst, audience_of_frame_eq h]

theorem bare_of_frame_eq {c d : Container} (h : c.frame = d.frame) : c.bare = d.bare :=
  congrArg Prod.fst h

theorem frame_learn (c : Container) (v : ViewerId) (slot : SlotId) (t : Option Stack) :
    (c.learn v slot t).frame = c.frame := by
  simp only [frame, Prod.mk.injEq]
  refine ⟨rfl, ?_⟩
  unfold audience learn
  rw [List.map_map]
  congr 1
  funext p
  simp only [Function.comp_apply]
  split
  · rw [ClientView.bindings_learn]
  · rfl

theorem mem_learn_iff {c : Container} {v : ViewerId} {slot : SlotId} {t : Option Stack}
    {p : ViewerId × ClientView} :
    p ∈ (c.learn v slot t).viewers ↔
      ∃ q ∈ c.viewers, p = (q.1, if q.1 = v then q.2.learn slot t else q.2) := by
  unfold learn
  rw [List.mem_map]
  constructor
  · intro h
    obtain ⟨q, hq, rfl⟩ := h
    exact ⟨q, hq, rfl⟩
  · intro h
    obtain ⟨q, hq, rfl⟩ := h
    exact ⟨q, hq, rfl⟩

theorem mem_detach_iff {c : Container} {v : ViewerId} {p : ViewerId × ClientView} :
    p ∈ (c.detach v).viewers ↔ p ∈ c.viewers ∧ p.1 ≠ v := by
  simp [detach, List.mem_filter]

theorem mem_viewers_detach_iff {c : Container} {u v : ViewerId} :
    u ∈ (c.detach v).viewers.map Prod.fst ↔ u ∈ c.viewers.map Prod.fst ∧ u ≠ v := by
  constructor
  · intro hu
    obtain ⟨p, hp, rfl⟩ := List.mem_map.mp hu
    obtain ⟨hpc, hne⟩ := mem_detach_iff.mp hp
    exact ⟨List.mem_map_of_mem hpc, hne⟩
  · intro hu
    obtain ⟨p, hp, rfl⟩ := List.mem_map.mp hu.1
    exact List.mem_map_of_mem (mem_detach_iff.mpr ⟨hp, hu.2⟩)

theorem mem_attach_iff {c : Container} {v : ViewerId} {view : ClientView}
    (hv : v ∉ c.viewers.map Prod.fst) {p : ViewerId × ClientView} :
    p ∈ (c.attach v view).viewers ↔ p ∈ c.viewers ∨ p = (v, view) := by
  simp only [attach, List.mem_append, List.mem_filter, List.mem_cons, decide_eq_true_eq]
  constructor
  · intro h
    rcases h with h | h | h
    · exact Or.inl h.1
    · exact Or.inr h
    · exact Or.inl h.1
  · intro h
    rcases h with h | h
    · have hne : p.1.number ≠ v.number := by
        intro he
        have hp : p.1 = v := by
          cases hp : p.1
          cases v
          rw [hp] at he
          exact congrArg _ he
        rw [← hp] at hv
        exact hv (List.mem_map_of_mem h)
      rcases Nat.lt_or_gt_of_ne hne with hlt | hgt
      · exact Or.inl ⟨h, hlt⟩
      · exact Or.inr (Or.inr ⟨h, hgt⟩)
    · exact Or.inr (Or.inl h)

theorem mem_viewers_attach_iff {c : Container} {u v : ViewerId} {view : ClientView}
    (hv : v ∉ c.viewers.map Prod.fst) :
    u ∈ (c.attach v view).viewers.map Prod.fst ↔ u ∈ c.viewers.map Prod.fst ∨ u = v := by
  constructor
  · intro hu
    obtain ⟨p, hp, rfl⟩ := List.mem_map.mp hu
    rcases (mem_attach_iff hv).mp hp with hp | hp
    · exact Or.inl (List.mem_map_of_mem hp)
    · exact Or.inr (congrArg Prod.fst hp)
  · intro hu
    rcases hu with hu | hu
    · obtain ⟨p, hp, rfl⟩ := List.mem_map.mp hu
      exact List.mem_map_of_mem ((mem_attach_iff hv).mpr (Or.inl hp))
    · rw [hu]
      exact List.mem_map.mpr ⟨(v, view), (mem_attach_iff hv).mpr (Or.inr rfl), rfl⟩

def Ordered (c : Container) : Prop :=
  (c.viewers.map Prod.fst).Pairwise fun u v => u.number < v.number

theorem Ordered.nodup {c : Container} (h : c.Ordered) : (c.viewers.map Prod.fst).Nodup := by
  refine h.imp ?_
  intro u v huv he
  rw [he] at huv
  exact Nat.lt_irrefl _ huv

theorem Ordered.detach {c : Container} (h : c.Ordered) (v : ViewerId) : (c.detach v).Ordered := by
  refine h.sublist ?_
  exact List.filter_sublist.map Prod.fst

theorem Ordered.attach {c : Container} (h : c.Ordered) (v : ViewerId) (view : ClientView) :
    (c.attach v view).Ordered := by
  unfold Ordered at *
  simp only [Container.attach, List.map_append, List.map_cons]
  rw [List.pairwise_append, List.pairwise_cons]
  have hmem : ∀ (p : ViewerId × ClientView → Bool), ∀ u ∈ (c.viewers.filter p).map Prod.fst,
      ∃ q, p q = true ∧ q.1 = u := by
    intro p u hu
    obtain ⟨q, hq, rfl⟩ := List.mem_map.mp hu
    exact ⟨q, (List.mem_filter.mp hq).2, rfl⟩
  refine ⟨h.sublist (List.filter_sublist.map _), ⟨?_, h.sublist (List.filter_sublist.map _)⟩, ?_⟩
  · intro u hu
    obtain ⟨q, hq, rfl⟩ := hmem _ u hu
    exact of_decide_eq_true hq
  · intro u hu w hw
    obtain ⟨q, hq, rfl⟩ := hmem _ u hu
    have hlt : q.1.number < v.number := of_decide_eq_true hq
    rcases List.mem_cons.mp hw with hw | hw
    · rw [hw]
      exact hlt
    · obtain ⟨r, hr, rfl⟩ := hmem _ w hw
      exact Nat.lt_trans hlt (of_decide_eq_true hr)

end Container

end Stowage
