import Stowage.Proofs.Callees

/-!
# How long a listener stays

A listener is registered from the operation that answers with its number until it is taken away or
its node goes. Numbers are given out once, and a node that comes to the place of another one has no
listeners, nor are those of the other one called for it.
-/

namespace Stowage

set_option autoImplicit false

/-- A run with its operations. The list has each of them with the world that it was done in, the
newest first. -/
inductive Chronicle : List (World × Operation) → World → Prop where
  | start (env : Environment) (transport : Transport) (diagnostics : DiagnosticsOutlet) :
      Chronicle [] ⟨.new env transport diagnostics, []⟩
  | step {past : List (World × Operation)} {w : World} (op : Operation)
      (before : Chronicle past w) : Chronicle ((w, op) :: past) (op.run w).2

def enlisted (past : List (World × Operation)) : List (ListenerId × NodeId × EventKind) :=
  past.filterMap fun q => q.2.enlists q.1

/-- One of the operations registered the listener, none has taken it away since, and its node has
been there ever since. -/
def Standing (past : List (World × Operation)) (w : World) (p : ListenerId × NodeId × EventKind) :
    Prop :=
  ∃ later u op earlier, past = later ++ (u, op) :: earlier ∧ op.enlists u = some p ∧
    (∀ q ∈ later, q.1.state.forest.contains p.2.1 = true ∧ q.2.Keeps p.1) ∧
    w.state.forest.contains p.2.1 = true

/-- The node goes with its whole inventory, or it is a container or the cursor of one and both of
these go. -/
def World.Discards (w w' : World) (x : NodeId) : Prop :=
  (∃ r, w.state.forest.parent r = none ∧ x ∈ w.state.forest.descendants r ++ [r] ∧
    ∀ y ∈ w.state.forest.descendants r ++ [r], w'.state.forest.contains y = false) ∨
  ∃ id c, w.state.forest.container? id = some c ∧ (x = id ∨ x = c.cursor) ∧
    w'.state.forest.contains id = false ∧ w'.state.forest.contains c.cursor = false

/-- The register agrees with what was done so far, and so does everything that is read from it. -/
structure World.KeepsRegister (past : List (World × Operation)) (w : World) : Prop where
  once : ((enlisted past).map Prod.fst).Nodup
  numbers : ∀ p ∈ enlisted past, 0 < p.1.number ∧ p.1.number ≤ past.length
  registered : ∀ p, p ∈ w.state.listeners.places ↔ Standing past w p
  removed : ∀ l, ∃ b, (Step.removeListener l w).1 = .ok b ∧
    (b = true ↔ ∃ post, Standing past w (l, post))
  called : ∀ op : Operation, ∃ es, (op.run w).2.trace = w.trace ++ es ∧
    ∀ c ∈ Step.heard es, Standing past w (c.1, c.2.node, c.2.kind)
  unheard : ∀ (op : Operation) x, w.state.forest.contains x = false →
    (op.run w).2.state.forest.contains x = true →
      ∀ p ∈ (op.run w).2.state.listeners.places, p.2.1 ≠ x
  discarded : ∀ (op : Operation) x, w.state.forest.contains x = true →
    (op.run w).2.state.forest.contains x = false → w.Discards (op.run w).2 x

theorem Advance.discards {calm : Prop} {w w' : World} (h : Advance calm w w') (hw : w.state.Sound)
    {x : NodeId} (hlive : w.state.forest.contains x = true)
    (hgone : w'.state.forest.contains x = false) : w.Discards w' x := by
  have hthinned : Forest.Thinned w.state.forest w'.state.forest → w.Discards w' x := by
    intro h
    obtain ⟨id, c, hc, hid, hx⟩ := h.gone hlive hgone
    exact Or.inr ⟨id, c, hc, hx, hid, h.cursor hc hid⟩
  cases h with
  | moves h _ => exact hthinned (h.thinned hw)
  | listen l _ =>
    rw [hlive] at hgone
    cases hgone
  | rewire t d =>
    rw [hlive] at hgone
    cases hgone
  | grow hg hq =>
    rw [hq.state_eq, (hg.content x hlive).contains, hlive] at hgone
    cases hgone
  | @frame g _ _ _ _ ht hb hg hq =>
    rw [hq.state_eq] at hgone
    change g.contains x = false at hgone
    rw [(hg.content x hlive).contains, hlive] at hgone
    cases hgone
  | @raze r _ hr hn hfree hq =>
    rw [hq.state_eq] at hgone
    refine Or.inl ⟨r, hr, ?_, ?_⟩
    · by_contra hmem
      have hstays := Forest.contains_removed_iff.mpr ⟨hlive, hmem⟩
      exact Bool.false_ne_true (hgone.symm.trans hstays)
    · intro y hy
      rw [hq.state_eq]
      exact Forest.contains_removed_of_mem hy
  | @enter u _ v id c hm _ hc hv hq =>
    refine hthinned ?_
    rw [hq.state_eq]
    exact (hm.thinned hw).trans (.entered u v id c)

section Chronicle
variable {past : List (World × Operation)} {w : World} {p : ListenerId × NodeId × EventKind}

theorem Chronicle.run (h : Chronicle past w) : Run (past.map Prod.fst) w := by
  induction h with
  | start env transport diagnostics => exact .start env transport diagnostics
  | step op _ ih => exact .step op ih

theorem Chronicle.hung (h : Chronicle past w) : w.state.Hung := by
  induction h with
  | start env transport diagnostics => exact fun l hl => nomatch hl
  | step op before ih => exact (op.musters before.run.sound ih).hung

theorem standing_nil : ¬ Standing [] w p := by
  rintro ⟨later, u, op, earlier, hsplit, _⟩
  simp at hsplit

/-- Who stands after an operation stood before it, unless it is the one that was registered. -/
theorem standing_cons_iff {w' : World} {op : Operation} : Standing ((w, op) :: past) w' p ↔
    (op.enlists w = some p ∨ Standing past w p ∧ op.Keeps p.1) ∧
      w'.state.forest.contains p.2.1 = true := by
  constructor
  · rintro ⟨later, u, o, earlier, hsplit, hnew, hsince, hlive⟩
    refine ⟨?_, hlive⟩
    cases later with
    | nil =>
      cases hsplit
      exact Or.inl hnew
    | cons q later =>
      cases hsplit
      obtain ⟨hbefore, hkeeps⟩ := hsince (w, op) List.mem_cons_self
      exact Or.inr ⟨⟨later, u, o, earlier, rfl, hnew,
        fun q hq => hsince q (List.mem_cons_of_mem _ hq), hbefore⟩, hkeeps⟩
  · rintro ⟨hnew | ⟨⟨later, u, o, earlier, rfl, hnew, hsince, hbefore⟩, hkeeps⟩, hlive⟩
    · exact ⟨[], w, op, past, rfl, hnew, fun _ hq => absurd hq List.not_mem_nil, hlive⟩
    · refine ⟨(w, op) :: later, u, o, earlier, rfl, hnew, ?_, hlive⟩
      intro q hq
      rcases List.mem_cons.mp hq with rfl | hq
      · exact ⟨hbefore, hkeeps⟩
      · exact hsince q hq

/-- Just those are registered whom no one took away and whose nodes did not go. -/
theorem Chronicle.mem_places_iff (h : Chronicle past w) :
    p ∈ w.state.listeners.places ↔ Standing past w p := by
  induction h with
  | start env transport diagnostics => exact iff_of_false nofun standing_nil
  | @step past w op before ih =>
    have hmusters := op.musters before.run.sound before.hung
    rw [standing_cons_iff, hmusters.places, ih]
    constructor
    · rintro (⟨hold, hkeeps, hlive⟩ | hnew)
      · exact ⟨Or.inr ⟨hold, hkeeps⟩, hlive⟩
      · exact ⟨Or.inl hnew, (hmusters.next p hnew).2.2⟩
    · rintro ⟨hnew | ⟨hold, hkeeps⟩, hlive⟩
      · exact Or.inr hnew
      · exact Or.inl ⟨hold, hkeeps, hlive⟩

theorem enlisted_cons (past : List (World × Operation)) (w : World) (op : Operation) :
    enlisted ((w, op) :: past) = (op.enlists w).toList ++ enlisted past := by
  unfold enlisted
  rw [List.filterMap_cons]
  cases op.enlists w <;> rfl

theorem Chronicle.numbers (h : Chronicle past w) : (enlisted past).map (fun p => p.1.number) =
    (List.range' 1 w.state.listeners.issued).reverse := by
  induction h with
  | start env transport diagnostics => rfl
  | @step past w op before ih =>
    have hmusters := op.musters before.run.sound before.hung
    rw [enlisted_cons, List.map_append, ih, hmusters.issued]
    cases hnew : op.enlists w with
    | none => rfl
    | some p =>
      change p.1.number :: _ = (List.range' 1 (w.state.listeners.issued + 1)).reverse
      rw [List.range'_1_concat, List.reverse_append, (hmusters.next p hnew).1]
      simp [Listeners.nextId, Nat.add_comm]

theorem Chronicle.issued_le (h : Chronicle past w) : w.state.listeners.issued ≤ past.length := by
  have hlength := congrArg List.length h.numbers
  rw [List.length_map, List.length_reverse, List.length_range'] at hlength
  rw [← hlength]
  exact List.length_filterMap_le _ _

theorem Step.removeListener_fst (l : ListenerId) (w : World) :
    (Step.removeListener l w).1 = .ok (w.state.listeners.isRegistered l) := rfl

theorem Listeners.isRegistered_iff {ls : Listeners} {l : ListenerId} :
    ls.isRegistered l = true ↔ ∃ post, (l, post) ∈ ls.places := by
  unfold isRegistered places
  simp only [List.any_eq_true, List.mem_map, decide_eq_true_eq]
  constructor
  · rintro ⟨r, hr, rfl⟩
    exact ⟨(r.node, r.hears), r, hr, rfl⟩
  · rintro ⟨post, r, hr, hplace⟩
    exact ⟨r, hr, congrArg Prod.fst hplace⟩

/-- In every state that is reached, a listener is registered just from its registration until it is
taken away or its node goes. No number is given out twice, and a listener is only ever called for
the node on which it was registered. -/
theorem listeners_stay_with_their_nodes (h : Chronicle past w) : w.KeepsRegister past := by
  have hw := h.run.sound
  have hnumbers := h.numbers
  refine ⟨?_, ?_, fun p => h.mem_places_iff, ?_, ?_, ?_, ?_⟩
  · have hnodup := List.nodup_reverse.mpr
      (List.nodup_range' (s := 1) (n := w.state.listeners.issued))
    rw [← hnumbers] at hnodup
    refine List.Nodup.of_map ListenerId.number ?_
    rwa [List.map_map]
  · intro p hp
    have hmem := List.mem_map_of_mem (f := fun p => p.1.number) hp
    rw [hnumbers, List.mem_reverse, List.mem_range'_1] at hmem
    have hle := h.issued_le
    omega
  · intro l
    refine ⟨_, Step.removeListener_fst l w, ?_⟩
    rw [Listeners.isRegistered_iff]
    exact exists_congr fun post => h.mem_places_iff
  · intro op
    obtain ⟨es, hes, hcalls⟩ := op.calls_registered hw h.hung h.run.numbered
    exact ⟨es, hes, fun c hc => h.mem_places_iff.mp (hcalls c hc)⟩
  · rintro op x hdead _ p hp rfl
    have hmusters := op.musters hw h.hung
    rcases (hmusters.places p).mp hp with ⟨hold, _⟩ | hnew
    · obtain ⟨l, hl, rfl⟩ := List.mem_map.mp hold
      exact Bool.false_ne_true (hdead.symm.trans (h.hung l hl))
    · rw [(hmusters.next p hnew).2.1] at hdead
      cases hdead
  · exact fun op x hlive hgone => (op.advances hw).discards hw hlive hgone

end Chronicle

section Replaced

def Operation.recorded (past : List (World × Operation)) (w : World) :
    List Operation → List (World × Operation) × World
  | [] => (past, w)
  | op :: rest => recorded ((w, op) :: past) (op.run w).2 rest

theorem Chronicle.recorded {past : List (World × Operation)} {w : World} (h : Chronicle past w)
    (ops : List Operation) :
    Chronicle (Operation.recorded past w ops).1 (Operation.recorded past w ops).2 := by
  induction ops generalizing past w with
  | nil => exact h
  | cons op rest ih => exact ih (.step op h)

def Operation.replacedOverheard : List Operation :=
  [.instantiate .anySlot Archetype.anySlot_made, .onSlotChange ⟨0, 0⟩ fun _ _ => .ok,
    .remove ⟨0, 0⟩, .instantiate .anySlot Archetype.anySlot_made]

theorem listeners_stay_with_their_nodes_replaced : ∃ past w, Chronicle past w ∧
    enlisted past = [(⟨1⟩, ⟨0, 0⟩, .slotChange)] ∧ w.state.forest.contains ⟨0, 1⟩ = true ∧
    w.KeepsRegister past ∧ ∀ p, ¬ Standing past w p := by
  have hrun := (Chronicle.start default .live .absent).recorded Operation.replacedOverheard
  have hkeeps := listeners_stay_with_their_nodes hrun
  refine ⟨_, _, hrun, by decide +kernel, by decide +kernel, hkeeps, fun p hp => ?_⟩
  have hmem := (hkeeps.registered p).mpr hp
  have hnone : (Operation.recorded [] ⟨.new default .live .absent, []⟩
      Operation.replacedOverheard).2.state.listeners.places = [] := by decide +kernel
  rw [hnone] at hmem
  cases hmem

end Replaced

end Stowage
