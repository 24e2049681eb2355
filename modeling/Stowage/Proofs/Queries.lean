import Stowage.Proofs.OutermostMatches
import Stowage.Proofs.SlotOrders

/-!
# Several queries at once

Queries are combined by or, whatever they look at: one more query takes no slot out of the view, and
their order does not matter. A slot that is searched itself is the exception. It has no nodes below
it, so what it holds is found only as long as no query looks at anything else.
-/

namespace Stowage

set_option autoImplicit false

namespace Forest
variable {f g : Forest} {x y : NodeId} {s : SlotId} {k : Composite}

theorem composite?_of_bareContent (h : g.bareContent x = f.bareContent x) :
    g.composite? x = f.composite? x := by
  have hread := congrArg (fun o => o.bind Content.composite?) h
  simpa [bareContent, Option.bind_map, Function.comp_def, OutlineAt.composite?_bare,
    composite?] using hread

theorem Thinned.contains_composite (hfg : Thinned f g) (hf : f.Sound)
    (hk : f.composite? y = some k) : g.contains y = true := by
  by_contra hdead
  obtain ⟨id, c, hc, _, hy⟩ := hfg.gone (contains_of_composite? hk) (Bool.eq_false_iff.mpr hdead)
  rcases hy with rfl | rfl
  · rw [composite?_of_container? hc] at hk
    cases hk
  · obtain ⟨t, ht⟩ := Option.isSome_iff_exists.mp (hf.slot_cursor hc)
    obtain ⟨n, hn, hcontent⟩ := slot_eq_some_iff.mp ht
    simp [composite?, hn, hcontent, Content.composite?] at hk

theorem contains_of_mem_fillOrder (hs : s ∈ f.fillOrder y) : f.contains y = true := by
  unfold fillOrder at hs
  cases hn : f.node? y with
  | none => simp [hn] at hs
  | some n => exact contains_iff.mpr ⟨n, hn⟩

theorem of_contents {t : Stack} (h : f.contents x = some t) :
    f.slots x = [x] ∧ f.fillOrder x = [x] ∧ f.children x = [] := by
  obtain ⟨slot, hslot, _⟩ := Option.bind_eq_some_iff.mp h
  obtain ⟨n, hn, hcontent⟩ := slot_eq_some_iff.mp hslot
  unfold slots fillOrder children
  simp only [hn, hcontent, and_self]

theorem mem_slots_cases (hy : f.container? y = none) (hs : s ∈ f.slots y) :
    s = y ∨ ∃ k, f.composite? y = some k ∧ s ∈ k.slots := by
  cases hk : f.composite? y with
  | some k =>
    rw [slots_of_composite? hk] at hs
    exact Or.inr ⟨k, rfl, hs⟩
  | none =>
    unfold slots composite? container? at *
    cases hn : f.node? y with
    | none => simp [hn] at hs
    | some n =>
      cases hc : n.content <;> simp_all [Content.composite?, Content.container?]

end Forest

section Shown
variable {calm : Prop} {past : List World} {w w' : World} {id y : NodeId} {c : Container}

theorem Advance.shown_composite (h : Advance calm w w') (hw : w.state.Sound)
    (hc : w'.state.forest.container? id = some c) (hy : y = c.top ∨ y = c.bottom) {k : Composite}
    (hk : w.state.forest.composite? y = some k) : w'.state.forest.composite? y = some k := by
  have hlive := Forest.contains_of_composite? hk
  have hstays : w'.state.forest.contains y = true := by
    cases h with
    | moves h _ => exact (h.thinned hw).contains_composite hw.forest hk
    | listen l => exact hlive
    | rewire t d => exact hlive
    | grow hg hq =>
      rw [hq.state_eq]
      exact ((hg.content y hlive).contains).trans hlive
    | frame ht hb hg hq =>
      rw [hq.state_eq]
      exact ((hg.content y hlive).contains).trans hlive
    | raze hr hn hfree hq =>
      rw [hq.state_eq] at hc ⊢
      obtain ⟨htop, hbottom⟩ := hw.not_mem_of_showing hfree (Forest.of_container?_removed hc).2
      refine Forest.contains_removed_iff.mpr ⟨hlive, ?_⟩
      rcases hy with rfl | rfl
      · exact htop
      · exact hbottom
    | @enter u w' v x d hm _ _ hv hq =>
      rw [hq.state_eq]
      exact ((hm.thinned hw).trans (.entered u v x d)).contains_composite hw.forest hk
  rw [Forest.composite?_of_bareContent (h.bareContent hlive hstays), hk]

theorem Run.bound_part (h : Run past w) (hc : w.state.forest.container? id = some c) {s : SlotId}
    (hs : s ∈ c.slots) : ∃ y, (y = c.top ∨ y = c.bottom) ∧
      (s = y ∨ ∃ k, w.state.forest.composite? y = some k ∧ s ∈ k.slots) := by
  induction h generalizing c with
  | start env transport diagnostics =>
    simp [State.new, Forest.container?, Forest.node?_empty] at hc
  | @step past w op before ih =>
    have hadvance := op.advances before.sound
    obtain ⟨y, hy, hpart⟩ : ∃ y, (y = c.top ∨ y = c.bottom) ∧
        (s = y ∨ ∃ k, w.state.forest.composite? y = some k ∧ s ∈ k.slots) := by
      rcases hadvance.container_origin before.sound hc with ⟨d, hd, hbare⟩ | ⟨_, _, hcarries⟩
      · obtain ⟨htop, hbottom, _, hslots⟩ := Container.of_bare_eq hbare
        rw [← hslots] at hs
        rw [← htop, ← hbottom]
        exact ih hd hs
      · rcases hcarries.slots s hs with hs | hs
        · exact ⟨c.top, Or.inl rfl, Forest.mem_slots_cases hcarries.top.plain hs⟩
        · exact ⟨c.bottom, Or.inr rfl, Forest.mem_slots_cases hcarries.bottom.plain hs⟩
    refine ⟨y, hy, ?_⟩
    rcases hpart with hself | ⟨k, hk, hsk⟩
    · exact Or.inl hself
    · exact Or.inr ⟨k, hadvance.shown_composite before.sound hc hy hk, hsk⟩

end Shown

theorem exists_reads_not {qs : List Query} (h : ¬ ∀ q ∈ qs, q.readsContents = true) :
    ∃ q ∈ qs, q.readsContents = false := by
  simpa using h

def State.meets (s : State) (qs : List Query) (node : NodeId) : Bool :=
  qs.any fun q => s.satisfies node q

def State.Holds (s : State) (qs : List Query) (slot : SlotId) : Prop :=
  ∃ t, s.contents slot = some t ∧ ∃ q ∈ qs, q.accepts t = true

/-- A slot with matching contents is searched, and to queries on contents alone others are added. -/
structure State.Overlooks (s : State) (x : NodeId) (qs more : List Query) : Prop where
  holds : s.Holds qs x
  contents : ∀ q ∈ qs, q.readsContents = true
  mixed : ∃ q ∈ more, q.readsContents = false

namespace State
variable {s : State} {x node : NodeId} {slot : SlotId} {q : Query} {qs more : List Query}

theorem satisfies_of_readsContents (h : q.readsContents = true) : s.satisfies node q =
    (s.forest.slots node).any fun id => (s.contents id).any fun t => q.accepts t := by
  cases q <;> first | rfl | cases h

theorem meets_of_holds (hqs : ∀ q ∈ qs, q.readsContents = true) (hnode : slot ∈ s.forest.slots node)
    (h : s.Holds qs slot) : s.meets qs node = true := by
  obtain ⟨t, ht, q, hq, haccepts⟩ := h
  refine List.any_eq_true.mpr ⟨q, hq, ?_⟩
  rw [satisfies_of_readsContents (hqs q hq)]
  exact List.any_eq_true.mpr ⟨slot, hnode, by rw [ht]; exact haccepts⟩

theorem meets_append (h : s.meets qs node = true) : s.meets (qs ++ more) node = true := by
  unfold meets at *
  rw [List.any_append, h]
  rfl

theorem search_of_contents (hqs : ∀ q ∈ qs, q.readsContents = true) :
    s.search x qs = s.searchSlots x fun _ slot =>
      slot.contents.any fun t => qs.any fun q => q.accepts t := by
  unfold search
  cases qs with
  | nil =>
    have hnone : (s.forest.fillOrder x).filter (fun id => (s.forest.slot id).any fun slot =>
        slot.contents.any fun t => ([] : List Query).any fun q => q.accepts t) = [] :=
      List.filter_eq_nil_iff.mpr (by simp)
    unfold searchSlots
    rw [hnone]
    rfl
  | cons q qs => rw [if_neg (by simp), if_pos (List.all_eq_true.mpr hqs)]

theorem search_of_mixed (hqs : ∃ q ∈ qs, q.readsContents = false) :
    s.search x qs = s.searchNodes x (s.meets qs) := by
  obtain ⟨q, hq, hreads⟩ := hqs
  have hne : ¬ qs.isEmpty = true := by
    rw [List.isEmpty_iff]
    exact List.ne_nil_of_mem hq
  have hsome : ¬ qs.all Query.readsContents = true := by
    rw [List.all_eq_true]
    intro hall
    rw [hall q hq] at hreads
    cases hreads
  unfold search
  rw [if_neg hne, if_neg hsome]
  rfl

/-- Queries on contents give the slots that hold what one of them looks for. -/
theorem mem_search_of_contents (hqs : ∀ q ∈ qs, q.readsContents = true) :
    slot ∈ (s.search x qs).slots ↔ slot ∈ s.forest.fillOrder x ∧ s.Holds qs slot := by
  rw [search_of_contents hqs]
  unfold searchSlots Holds contents Forest.contents
  rw [View.mem_slots_new_iff, List.mem_filter]
  cases hslot : s.forest.slot slot with
  | none => simp
  | some t => cases ht : t.contents <;> simp [ht]

/-- Other queries give the slots of the outermost nodes that meet one of them. -/
theorem mem_search_of_mixed (hqs : ∃ q ∈ qs, q.readsContents = false) :
    slot ∈ (s.search x qs).slots ↔
      ∃ m ∈ s.forest.outermost (s.meets qs) x, slot ∈ s.forest.fillOrder m := by
  rw [search_of_mixed hqs, searchNodes_eq, View.mem_slots_new_iff, List.mem_flatMap]

theorem search_perm {qs' : List Query} (h : qs.Perm qs') : s.search x qs' = s.search x qs := by
  unfold search
  simp only [h.isEmpty_eq, h.all_eq, h.any_eq]

theorem search_append_contents (hqs : ∀ q ∈ qs, q.readsContents = true)
    (hmore : ∀ q ∈ more, q.readsContents = true) (h : slot ∈ (s.search x qs).slots) :
    slot ∈ (s.search x (qs ++ more)).slots := by
  obtain ⟨hfill, t, ht, q, hq, haccepts⟩ := (mem_search_of_contents hqs).mp h
  have hall : ∀ q ∈ qs ++ more, q.readsContents = true :=
    fun q hq => (List.mem_append.mp hq).elim (hqs q) (hmore q)
  exact (mem_search_of_contents hall).mpr ⟨hfill, t, ht, q, List.mem_append_left _ hq, haccepts⟩

theorem Sound.search_append (hs : s.Sound) (hx : s.forest.OverPlain x)
    (hqs : ∃ q ∈ qs, q.readsContents = false) (h : slot ∈ (s.search x qs).slots) :
    slot ∈ (s.search x (qs ++ more)).slots := by
  obtain ⟨m, hm, hslot⟩ := (mem_search_of_mixed hqs).mp h
  obtain ⟨hmeets, c, hc, k, hu⟩ := Forest.of_mem_outermost hs.forest hx hm
  have hwithin : s.forest.isWithin c m = true :=
    (hs.forest.isWithin_iff (hx c hc)).mpr ⟨Forest.contains_of_mem_fillOrder hslot, k, hu⟩
  have hmore : s.meets (qs ++ more) m = true := meets_append hmeets
  obtain ⟨m', hm', hmm⟩ := Forest.exists_mem_outermost hs.forest hx hc hwithin hmore
  have hplain := Forest.plain_of_mem_outermost hs.forest hx hm'
  obtain ⟨_, j, hu'⟩ := (hs.forest.isWithin_iff hplain).mp hmm
  obtain ⟨q, hq, hreads⟩ := hqs
  exact (mem_search_of_mixed ⟨q, List.mem_append_left _ hq, hreads⟩).mpr
    ⟨m', hm', hu'.fillOrder_subset hs.forest hplain hslot⟩

/-- A slot that is searched itself is lost once a query looks at anything but contents. -/
theorem Overlooks.lost (h : s.Overlooks x qs more) :
    x ∈ (s.search x qs).slots ∧ x ∉ (s.search x (qs ++ more)).slots := by
  obtain ⟨t, ht, _⟩ := h.holds
  obtain ⟨_, hfill, hchildren⟩ := Forest.of_contents ht
  obtain ⟨q, hq, hreads⟩ := h.mixed
  constructor
  · rw [mem_search_of_contents h.contents, hfill]
    exact ⟨List.mem_singleton_self x, h.holds⟩
  · rw [mem_search_of_mixed ⟨q, List.mem_append_right _ hq, hreads⟩, Forest.outermost_eq, hchildren]
    rintro ⟨m, hm, _⟩
    cases hm

end State

section Run
variable {past : List World} {w : World} {x : NodeId} {qs more : List Query} {slot : SlotId}

theorem Run.exists_child_with_slot (h : Run past w) (hslot : slot ∈ w.state.forest.fillOrder x)
    {t : Stack} (ht : w.state.contents slot = some t) :
    slot = x ∨ ∃ y ∈ w.state.forest.children x, slot ∈ w.state.forest.slots y := by
  have hf := h.sound.forest
  cases hc : w.state.forest.container? x with
  | none =>
    have hslot := (hf.fillOrder_perm hc).mem_iff.mp hslot
    rcases Forest.mem_slots_cases hc hslot with hself | ⟨k, hk, hsk⟩
    · exact Or.inl hself
    · obtain ⟨e, he, hse⟩ := List.mem_flatMap.mp ((hf.slots_perm hk).mem_iff.mp hsk)
      rw [Forest.children_of_composite? hk]
      exact Or.inr ⟨e.node, List.mem_map_of_mem he, hse⟩
  | some c =>
    have hbound : slot ∈ c.slots := by
      rw [(Forest.slots_of_container? hc).2] at hslot
      exact (h.containersFilled x c hc).mem_iff.mp hslot
    obtain ⟨y, hy, hpart⟩ := h.bound_part hc hbound
    have hchild : y ∈ w.state.forest.children x := by
      rw [Forest.children_of_container? hc, Container.mem_children_iff]
      exact hy
    refine Or.inr ⟨y, hchild, ?_⟩
    rcases hpart with rfl | ⟨k, hk, hsk⟩
    · rw [(Forest.of_contents ht).1]
      exact List.mem_singleton_self slot
    · rw [Forest.slots_of_composite? hk]
      exact hsk

theorem Run.search_mixed (h : Run past w) (hx : ShowsUnwrapped past w x)
    (hqs : ∀ q ∈ qs, q.readsContents = true) (hmore : ∃ q ∈ more, q.readsContents = false)
    (hslot : slot ∈ (w.state.search x qs).slots) (hne : slot ≠ x) :
    slot ∈ (w.state.search x (qs ++ more)).slots := by
  obtain ⟨hfill, t, ht, haccepts⟩ := (State.mem_search_of_contents hqs).mp hslot
  rcases h.exists_child_with_slot hfill ht with hself | ⟨y, hy, hsy⟩
  · exact absurd hself hne
  · have hmeets : w.state.meets (qs ++ more) y = true :=
      State.meets_append (State.meets_of_holds hqs hsy ⟨t, ht, haccepts⟩)
    obtain ⟨q, hq, hreads⟩ := hmore
    have hplain := h.overPlain hx y hy
    exact (State.mem_search_of_mixed ⟨q, List.mem_append_right _ hq, hreads⟩).mpr
      ⟨y, Forest.mem_outermost_of_child hy hmeets,
        (h.sound.forest.fillOrder_perm hplain).mem_iff.mpr hsy⟩

/-- In every state that is reached, queries are combined by or: more queries find all that fewer
find, but for a slot that is searched itself and for which the first query is added that looks at
anything but contents. In which order the queries come makes no difference. -/
theorem queries_are_alternatives (h : Run past w) (hx : ShowsUnwrapped past w x) :
    (∀ qs more, (∀ slot ∈ (w.state.search x qs).slots,
      slot ∈ (w.state.search x (qs ++ more)).slots) ↔ ¬ w.state.Overlooks x qs more) ∧
    ∀ qs qs', qs.Perm qs' → w.state.search x qs' = w.state.search x qs := by
  refine ⟨?_, fun _ _ => State.search_perm⟩
  intro qs more
  constructor
  · intro hkept hlost
    exact hlost.lost.2 (hkept x hlost.lost.1)
  · intro hnot slot hslot
    by_cases hqs : ∀ q ∈ qs, q.readsContents = true
    · by_cases hmore : ∀ q ∈ more, q.readsContents = true
      · exact State.search_append_contents hqs hmore hslot
      · have hmixed := exists_reads_not hmore
        refine h.search_mixed hx hqs hmixed hslot ?_
        rintro rfl
        exact hnot ⟨((State.mem_search_of_contents hqs).mp hslot).2, hqs, hmixed⟩
    · exact h.sound.search_append (h.overPlain hx) (exists_reads_not hqs) hslot

theorem queries_are_alternatives_visit :
    ⟨0, 0⟩ ∈ ((World.reached Operation.visit).2.state.search ⟨3, 0⟩
      [.itemKind ⟨"minecraft:stone"⟩, .name "chest"]).slots := by
  have hrun := Run.reached Operation.visit
  have hshows : ShowsUnwrapped (World.reached Operation.visit).1
      (World.reached Operation.visit).2 ⟨3, 0⟩ := by
    intro c _
    exact ⟨unwrapped_of_length (by decide), unwrapped_of_length (by decide)⟩
  have hkept := (queries_are_alternatives hrun hshows).1 [.itemKind ⟨"minecraft:stone"⟩]
    [.name "chest"]
  refine hkept.mpr ?_ ⟨0, 0⟩ (by decide +kernel)
  rintro ⟨⟨t, ht, _⟩, _, _⟩
  have hnone : (World.reached Operation.visit).2.state.contents ⟨3, 0⟩ = none := by
    decide +kernel
  rw [hnone] at ht
  cases ht

/-- The filled slot is found by itself as long as only contents are looked at. -/
theorem query_lost : ¬ ∀ (past : List World) (w : World), Run past w →
    ∀ (x : NodeId) (qs more : List Query), w.state.forest.contains x = true →
      ∀ slot ∈ (w.state.search x qs).slots, slot ∈ (w.state.search x (qs ++ more)).slots := by
  intro h
  have hkept := h _ _ (Run.reached Operation.visit) ⟨0, 0⟩ [.itemKind ⟨"minecraft:stone"⟩]
    [.name "chest"] (by decide +kernel) ⟨0, 0⟩ (by decide +kernel)
  have hnone : ((World.reached Operation.visit).2.state.search ⟨0, 0⟩
      ([.itemKind ⟨"minecraft:stone"⟩] ++ [.name "chest"])).slots = [] := by decide +kernel
  rw [hnone] at hkept
  cases hkept

end Run

end Stowage
