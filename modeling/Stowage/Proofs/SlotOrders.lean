import Stowage.Proofs.Changes

/-!
# Index order and fill order

The slots of a node are numbered without gaps, and the order to fill them goes through all of them.
Both orders of a composite come from its children: by position, and by priority unless a fill order
was written down. Whether one was is known from the drafts that nodes were made from, which are
listed along a run.
-/

namespace Stowage

set_option autoImplicit false

structure Composite.ByPriority (k : Composite) (sorted : List ChildEntry) : Prop where
  perm : sorted.Perm k.children
  descending : sorted.Pairwise fun a b => b.priority ≤ a.priority
  ties : ∀ p, sorted.filter (fun e => e.priority = p) = k.children.filter fun e => e.priority = p

theorem Composite.exists_byPriority (k : Composite) : ∃ sorted, k.ByPriority sorted ∧
    ∀ f : Forest, f.derivedFillOrder k.children = sorted.flatMap fun e => f.fillOrder e.node := by
  refine ⟨_, ⟨stableSort_perm _ _, ?_, ?_⟩, fun f => rfl⟩
  · refine (pairwise_stableSort ?_ ?_ k.children).imp fun h => of_decide_eq_true h
    · intro a b
      simpa using Int.le_total b.priority a.priority
    · intro a b c hab hbc
      have hab := of_decide_eq_true hab
      have hbc := of_decide_eq_true hbc
      exact decide_eq_true (Int.le_trans hbc hab)
  · intro p
    refine filter_stableSort ?_ _
    intro a b ha hb
    have ha := of_decide_eq_true ha
    have hb := of_decide_eq_true hb
    exact decide_eq_true (by omega)

namespace Forest

/-- The slots of a node are distinct and numbered from zero, and are all there to be filled. -/
structure Numbered (f : Forest) (x : NodeId) : Prop where
  nodup : (f.slots x).Nodup
  inside : ∀ s, s ∈ f.slots x ↔ ∃ i, f.indexOf x s = some i
  bounded : ∀ i, i < f.capacity x ↔ ∃ s, f.indexOf x s = some i
  inverse : ∀ s i, f.indexOf x s = some i ↔ f.slotAt x i = some s
  filled : (f.fillOrder x).Perm (f.slots x)

/-- Both orders of a composite follow from its children, unless a fill order was written down. -/
structure Ordered (f : Forest) (x : NodeId) (k : Composite) (written : Option (List Nat)) :
    Prop where
  row : f.slots x = (f.children x).flatMap f.slots
  derived : written = none → ∃ sorted, k.ByPriority sorted ∧
    f.fillOrder x = sorted.flatMap fun e => f.fillOrder e.node
  chosen : ∀ order, written = some order → f.fillOrder x = order.filterMap (f.slotAt x)

section Numbers
variable {f g : Forest} {x : NodeId}

theorem numbered_of_nodup (hnodup : (f.slots x).Nodup) (hfill : (f.fillOrder x).Perm (f.slots x)) :
    f.Numbered x := by
  have hinverse : ∀ s i, f.indexOf x s = some i ↔ f.slotAt x i = some s := by
    intro s i
    unfold indexOf slotAt
    rw [List.idxOf?_eq_some_iff, List.getElem?_eq_some_iff]
    constructor
    · rintro ⟨hi, hs, _⟩
      exact ⟨hi, hs⟩
    · rintro ⟨hi, hs⟩
      refine ⟨hi, hs, ?_⟩
      intro j hj he
      have hij := (hnodup.getElem_inj_iff).mp (he.trans hs.symm)
      omega
  refine ⟨hnodup, ?_, ?_, hinverse, hfill⟩
  · intro s
    simp only [hinverse]
    exact List.mem_iff_getElem?
  · intro i
    simp only [hinverse]
    unfold capacity slotAt
    constructor
    · intro hi
      exact ⟨_, List.getElem?_eq_getElem hi⟩
    · rintro ⟨s, hs⟩
      exact (List.getElem?_eq_some_iff.mp hs).1

def ContainersFilled (f : Forest) : Prop :=
  ∀ id c, f.container? id = some c → c.fillOrder.Perm c.slots

theorem containerOver_filled (hf : f.Sound) {top bottom : NodeId} (ht : f.Showable top)
    (hb : f.Showable bottom) (cursor : SlotId) :
    (f.containerOver top bottom cursor).fillOrder.Perm
      (f.containerOver top bottom cursor).slots := by
  simp only [containerOver]
  split
  · exact hf.fillOrder_perm ht.plain
  · exact (hf.fillOrder_perm ht.plain).append ((hf.fillOrder_perm hb.plain).filter _)

theorem slots_of_container? {c : Container} (hc : f.container? x = some c) :
    f.slots x = c.slots ∧ f.fillOrder x = c.fillOrder := by
  obtain ⟨n, hn, hcontent⟩ := container?_eq_some_iff.mp hc
  unfold slots fillOrder
  rw [hn]
  simp only [hcontent, and_self]

theorem Change.containersFilled {limit : Nat} {new : List (NodeId × Draft)}
    (h : Change limit f new g) (hf : f.Sound) (hfilled : f.ContainersFilled) :
    g.ContainersFilled := by
  intro id c hc
  cases h with
  | lasts h =>
    have hbare := (h.outline (contains_of_container? hc)).container?
    rw [hc, Option.map_some] at hbare
    obtain ⟨d, hd, hdc⟩ := Option.map_eq_some_iff.mp hbare.symm
    have hfill := congrArg Container.fillOrder hdc
    change d.fillOrder = c.fillOrder at hfill
    rw [← hfill, ← (Container.of_bare_eq hdc).2.2.2]
    exact hfilled id d hd
  | grow made =>
    rw [(instantiate_grown limit hf made.fits).container?] at hc
    exact hfilled id c hc
  | join h =>
    rw [(compose_grown hf h).container?] at hc
    exact hfilled id c hc
  | frame ht hb =>
    rw [container?_addContainer hf] at hc
    split at hc
    · cases hc
      exact containerOver_filled hf ht hb _
    · exact hfilled id c hc

theorem Sound.numbered (hf : f.Sound) (hfilled : f.ContainersFilled) (x : NodeId) :
    f.Numbered x := by
  cases hc : f.container? x with
  | none => exact numbered_of_nodup (hf.nodup_slots hc) (hf.fillOrder_perm hc)
  | some c =>
    obtain ⟨hslots, hfill⟩ := slots_of_container? hc
    refine numbered_of_nodup ?_ ?_
    · rw [hslots]
      exact (List.nodup_cons.mp (hf.nodup_bound hc)).2
    · rw [hslots, hfill]
      exact hfilled x c hc

end Numbers

section Drafts
variable {f g : Forest} {ds new : List (NodeId × Draft)}

theorem Change.drafted {limit : Nat} (h : Change limit f new g) (hf : f.Sound) (hg : g.Sound)
    (hd : f.Drafted ds) : g.Drafted (new ++ ds.filter fun d => g.contains d.1) := by
  have hkeep : ∀ ds', g.Drafted (ds' ++ ds) →
      g.Drafted (ds' ++ ds.filter fun d => g.contains d.1) := by
    intro ds' h
    rwa [List.filter_eq_self.mpr fun d hd => h.live d (List.mem_append_right _ hd)]
  cases h with
  | lasts h => exact h.drafted hg hd
  | grow made => exact hkeep _ (instantiate_drafted limit hf hd made)
  | join h => exact hkeep [] (compose_drafted hf hd h)
  | frame ht hb => exact hkeep [] (hd.addContainer hf limit _ _)

theorem Drafted.ordered (h : f.Drafted ds) {x : NodeId} {k : Composite}
    (hk : f.composite? x = some k) : f.Ordered x k (writtenOrder ds x) := by
  obtain ⟨hslots, hfill⟩ := h.follows hk
  refine ⟨?_, ?_, ?_⟩
  · rw [slots_of_composite? hk, hslots, children_of_composite? hk, List.flatMap_map]
  · intro hnone
    obtain ⟨sorted, hsorted, hderived⟩ := k.exists_byPriority
    rw [fillOrder_of_composite? hk, hfill, hnone]
    exact ⟨sorted, hsorted, hderived f⟩
  · intro order horder
    rw [fillOrder_of_composite? hk, hfill, horder]
    unfold slotAt
    rw [slots_of_composite? hk]
    rfl

end Drafts

end Forest

/-- A run together with the drafts of the live nodes that were made from one. -/
inductive DraftedRun : List (NodeId × Draft) → List World → World → Prop where
  | start (env : Environment) (transport : Transport) (diagnostics : DiagnosticsOutlet) :
      DraftedRun [] [] ⟨.new env transport diagnostics, []⟩
  | step {drafts : List (NodeId × Draft)} {past : List World} {w : World} (op : Operation)
      (before : DraftedRun drafts past w) :
      DraftedRun (op.drafts w ++ drafts.filter fun d => (op.run w).2.state.forest.contains d.1)
        (w :: past) (op.run w).2

section Run
variable {drafts : List (NodeId × Draft)} {past : List World} {w : World}

theorem DraftedRun.run (h : DraftedRun drafts past w) : Run past w := by
  induction h with
  | start env transport diagnostics => exact .start env transport diagnostics
  | step op _ ih => exact .step op ih

theorem Run.exists_drafts (h : Run past w) : ∃ drafts, DraftedRun drafts past w := by
  induction h with
  | start env transport diagnostics => exact ⟨_, .start env transport diagnostics⟩
  | step op _ ih =>
    obtain ⟨drafts, h⟩ := ih
    exact ⟨_, .step op h⟩

theorem DraftedRun.drafted (h : DraftedRun drafts past w) : w.state.forest.Drafted drafts := by
  induction h with
  | start env transport diagnostics => exact Forest.Drafted.empty
  | step op before ih =>
    have hw := before.run.sound
    exact (op.changes hw).drafted hw.forest (before.run.step op).sound.forest ih

theorem Run.containersFilled (h : Run past w) : w.state.forest.ContainersFilled := by
  refine h.forest_induction ?_ fun hchange hf _ => hchange.containersFilled hf
  intro id c hc
  simp [Forest.container?, Forest.node?_empty] at hc

theorem Run.nodup_fillOrder (h : Run past w) (x : NodeId) :
    (w.state.forest.fillOrder x).Nodup := by
  have hnumbered := h.sound.forest.numbered h.containersFilled x
  exact hnumbered.filled.nodup_iff.mpr hnumbered.nodup

/-- In every state that is reached the slots of a node are numbered without gaps and all filled in
some order; both orders of a composite follow from its children, whatever it is made of, unless the
draft that it was made from has a fill order of its own. -/
theorem slot_orders_agree (h : Run past w) : (∃ drafts, DraftedRun drafts past w) ∧
    ∀ drafts, DraftedRun drafts past w → ∀ x, w.state.forest.Numbered x ∧
      ∀ k, w.state.forest.composite? x = some k →
        w.state.forest.Ordered x k (Forest.writtenOrder drafts x) := by
  refine ⟨h.exists_drafts, ?_⟩
  intro drafts hdrafts x
  exact ⟨h.sound.forest.numbered h.containersFilled x, fun k hk => hdrafts.drafted.ordered hk⟩

section Turned

def Builder.turned : Builder :=
  ((Builder.rows 1).place (.cell 0 1) .anySlot 5).place (.cell 0 0) .anySlot 7

def Archetype.turned : Archetype :=
  .frozen none Builder.turned.draft ⟨.grid 1 2, 2, [(1, 0), (0, 0)]⟩ Builder.turned.children

theorem Archetype.turned_made : turned.Made :=
  .frozen (.place _ _ (.place _ _ (.rows 1) anySlot_made) anySlot_made)
    (show Builder.turned.freeze none = .ok turned from rfl)

def Operation.stacked : List Operation :=
  [.instantiate .turned Archetype.turned_made, .instantiate .anySlot Archetype.anySlot_made,
    .compose [(⟨2, 0⟩, 5), (⟨3, 0⟩, 7)]]

theorem slot_orders_agree_stacked :
    (World.reached Operation.stacked).2.state.forest.slots ⟨4, 0⟩ =
      [⟨1, 0⟩, ⟨0, 0⟩, ⟨3, 0⟩] ∧
    (World.reached Operation.stacked).2.state.forest.fillOrder ⟨4, 0⟩ =
      [⟨3, 0⟩, ⟨1, 0⟩, ⟨0, 0⟩] ∧
    (World.reached Operation.stacked).2.state.forest.Numbered ⟨4, 0⟩ ∧
    ∃ drafts k, (World.reached Operation.stacked).2.state.forest.composite? ⟨2, 0⟩ = some k ∧
      (World.reached Operation.stacked).2.state.forest.Ordered ⟨2, 0⟩ k
        (Forest.writtenOrder drafts ⟨2, 0⟩) := by
  obtain ⟨⟨drafts, hdrafts⟩, horders⟩ := slot_orders_agree (Run.reached Operation.stacked)
  obtain ⟨k, hk⟩ : ∃ k,
      (World.reached Operation.stacked).2.state.forest.composite? ⟨2, 0⟩ = some k :=
    Option.isSome_iff_exists.mp (by decide +kernel)
  exact ⟨by decide +kernel, by decide +kernel, (horders drafts hdrafts ⟨4, 0⟩).1, drafts, k, hk,
    (horders drafts hdrafts ⟨2, 0⟩).2 k hk⟩

end Turned

end Run

end Stowage
