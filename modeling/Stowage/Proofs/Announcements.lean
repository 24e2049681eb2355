import Stowage.Proofs.Agreement
import Stowage.Proofs.Ancestry
import Stowage.Proofs.Answers
import Stowage.Proofs.Notices
import Stowage.Proofs.Seniority

/-!
# Whom a change is announced to

An operation on contents announces the changes that it reports, one after the other: to listeners
from the slot upwards and then on the containers that bind it, and after that to viewers, container
by container. No listener is called twice for a change. A viewer is passed over only for knowing of
the change already, which needs a panic that escaped before.
-/

namespace Stowage

set_option autoImplicit false

/-- The order in which a change is announced: listeners from the innermost node outwards and by
registration, containers by age, viewers by number. All who are concerned are reached, once each. -/
structure World.Addresses (past : List World) (w : World) (c : Change) : Prop where
  upwards : w.state.forest.Rises c.slot
  targets : ∀ id, id ∈ w.state.changeTargets c.slot ↔ id ∈ w.state.forest.ancestors c.slot ∨
    ∃ k, w.state.forest.container? id = some k ∧ k.binds c.slot = true
  once : (w.state.changeTargets c.slot).Nodup
  registered : w.state.listeners.Numbered
  oldest_first : w.state.containers.Pairwise fun a b =>
    containerAge b (w :: past) < containerAge a (w :: past)
  viewers : ∀ {id : NodeId} {k : Container}, w.state.forest.container? id = some k → k.Ordered
  called : ∀ l ∈ w.state.listeners.registered, l.hears = .slotChange →
    l.node ∈ w.state.changeTargets c.slot →
    (l.id, .slotChange ⟨l.node, c.slot, c.before, c.after⟩) ∈ w.state.callsFor c
  called_once : ((w.state.callsFor c).map Prod.fst).Nodup
  told : ∀ {who : ClientView → Bool} {id : NodeId} {k : Container},
    w.state.forest.container? id = some k → k.binds c.slot = true → ∀ p ∈ k.viewers,
    who p.2 = true → ∃ wire, k.wireIndex c.slot = some wire ∧
      .delta p.1 wire c.after ∈ w.state.deltas who c.slot c.after
  told_once : ∀ who, ((w.state.deltas who c.slot c.after).map Message.viewer).Nodup

theorem Container.wireIndex_of_binds {c : Container} {slot : SlotId} (h : c.binds slot = true) :
    ∃ wire, c.wireIndex slot = some wire := by
  unfold wireIndex
  split
  · exact ⟨_, rfl⟩
  · rename_i hcursor
    have hslot : slot ∈ c.slots := by simpa [binds, hcursor] using h
    obtain ⟨i, hi⟩ := Option.ne_none_iff_exists'.mp
      (mt List.idxOf?_eq_none_iff.mp (not_not.mpr hslot))
    exact ⟨_, by rw [hi]; rfl⟩

section Concerned
variable {past : List World} {w : World}

theorem State.mem_deltasIn_iff {s : State} {who : ClientView → Bool} {slot : SlotId}
    {t : Option Stack} {id : NodeId} {m : Message} :
    m ∈ s.deltasIn who slot t id ↔ ∃ k wire, s.forest.container? id = some k ∧
      k.wireIndex slot = some wire ∧ ∃ p ∈ k.viewers, who p.2 = true ∧ m = .delta p.1 wire t := by
  unfold deltasIn
  cases hk : s.forest.container? id with
  | none => simp
  | some k =>
    dsimp only
    cases hwire : k.wireIndex slot with
    | none => simp [hwire]
    | some wire =>
      constructor
      · intro hm
        obtain ⟨p, hp, rfl⟩ := List.mem_map.mp hm
        obtain ⟨hp, hwho⟩ := List.mem_filter.mp hp
        exact ⟨k, wire, rfl, hwire, p, hp, hwho, rfl⟩
      · rintro ⟨d, i, hd, hi, p, hp, hwho, rfl⟩
        cases hd
        rw [hwire] at hi
        cases hi
        exact List.mem_map_of_mem (List.mem_filter.mpr ⟨hp, hwho⟩)

theorem State.mem_changeTargets_iff {s : State} (hs : s.Sound) {slot : SlotId} {id : NodeId} :
    id ∈ s.changeTargets slot ↔ id ∈ s.forest.ancestors slot ∨
      ∃ k, s.forest.container? id = some k ∧ k.binds slot = true := by
  have hlisted : ∀ {k}, s.forest.container? id = some k → id ∈ s.containers :=
    fun hk => (hs.mem_containers id).mpr ⟨_, hk⟩
  by_cases habove : id ∈ s.forest.ancestors slot
  · simp [changeTargets, habove]
  · simp only [changeTargets, List.mem_append, habove, false_or, List.mem_filter]
    cases hk : s.forest.container? id with
    | none => simp
    | some k => simp [habove, hlisted hk]

theorem State.nodup_changeTargets {s : State} (hs : s.Sound) {slot : SlotId}
    (hrises : s.forest.Rises slot) : (s.changeTargets slot).Nodup := by
  refine List.nodup_append.mpr ⟨hrises.nodup, hs.nodup_containers.filter _, ?_⟩
  intro a ha b hb hab
  have hapart := (List.mem_filter.mp hb).2
  rw [← hab] at hapart
  simp [ha] at hapart

/-- A listener hangs on one node, so who is called for one node is not called for another. -/
theorem State.nodup_callsFor {s : State} {c : Change} (htargets : (s.changeTargets c.slot).Nodup)
    (hnumbered : s.listeners.Numbered) : ((s.callsFor c).map Prod.fst).Nodup := by
  unfold callsFor
  rw [List.map_flatMap, List.nodup_flatMap]
  refine ⟨?_, htargets.imp ?_⟩
  · intro node _
    rw [List.map_map]
    exact hnumbered.nodup.sublist (List.filter_sublist.map Listener.id)
  · intro a b hab i ha hb
    have hof : ∀ {node : NodeId}, i ∈ ((s.listeners.hearing
        (.slotChange ⟨node, c.slot, c.before, c.after⟩)).map fun l =>
          (l.id, Event.slotChange ⟨node, c.slot, c.before, c.after⟩)).map Prod.fst →
        ∃ l ∈ s.listeners.registered, l.id = i ∧ l.node = node := by
      intro node hi
      obtain ⟨_, hpair, rfl⟩ := List.mem_map.mp hi
      obtain ⟨l, hl, rfl⟩ := List.mem_map.mp hpair
      obtain ⟨hmem, hhears⟩ := List.mem_filter.mp hl
      exact ⟨l, hmem, rfl, (of_decide_eq_true hhears).2⟩
    obtain ⟨l, hl, hli, hla⟩ := hof ha
    obtain ⟨m, hm, hmi, hmb⟩ := hof hb
    have hlm := List.inj_on_of_nodup_map hnumbered.nodup hl hm (hli.trans hmi.symm)
    exact hab (by rw [← hla, hlm, hmb])

/-- No viewer looks into two containers, so who is told in one is not told in another. -/
theorem State.nodup_deltas {s : State} (hs : s.Sound) (who : ClientView → Bool) (slot : SlotId)
    (t : Option Stack) : ((s.deltas who slot t).map Message.viewer).Nodup := by
  unfold deltas
  rw [List.map_flatMap, List.nodup_flatMap]
  refine ⟨?_, hs.nodup_containers.imp ?_⟩
  · intro id _
    unfold deltasIn
    cases hk : s.forest.container? id with
    | none => exact List.nodup_nil
    | some k =>
      dsimp only
      cases k.wireIndex slot with
      | none => exact List.nodup_nil
      | some wire =>
        rw [List.map_map]
        exact (hs.ordered hk).nodup.sublist (List.filter_sublist.map Prod.fst)
  · intro a b hab v ha hb
    have hof : ∀ {id : NodeId}, v ∈ (s.deltasIn who slot t id).map Message.viewer →
        ∃ k, s.forest.container? id = some k ∧ v ∈ k.viewers.map Prod.fst := by
      intro id hv
      obtain ⟨m, hm, rfl⟩ := List.mem_map.mp hv
      obtain ⟨k, wire, hk, _, p, hp, _, rfl⟩ := State.mem_deltasIn_iff.mp hm
      exact ⟨k, hk, List.mem_map_of_mem hp⟩
    obtain ⟨k, hk, hvk⟩ := hof ha
    obtain ⟨d, hd, hvd⟩ := hof hb
    exact hab (hs.container_unique hk hvk hd hvd)

theorem Run.addresses (h : Run past w) {c : Change}
    (hlive : w.state.forest.contains c.slot = true) : w.Addresses past c := by
  have hs := h.sound
  have hrises := h.rooted.rises hs.forest hlive
  have htargets := State.nodup_changeTargets hs hrises
  refine ⟨hrises, fun id => State.mem_changeTargets_iff hs, htargets, h.numbered, h.oldest_first,
    hs.ordered, ?_, State.nodup_callsFor htargets h.numbered, ?_,
    fun who => State.nodup_deltas hs who c.slot c.after⟩
  · intro l hl hhears hnode
    refine List.mem_flatMap.mpr ⟨l.node, hnode, List.mem_map.mpr ⟨l, ?_, rfl⟩⟩
    exact List.mem_filter.mpr ⟨hl, decide_eq_true ⟨hhears, rfl⟩⟩
  · intro who id k hk hbinds p hp hwho
    obtain ⟨wire, hwire⟩ := Container.wireIndex_of_binds hbinds
    refine ⟨wire, hwire, List.mem_flatMap.mpr ⟨id, (hs.mem_containers id).mpr ⟨k, hk⟩, ?_⟩⟩
    exact State.mem_deltasIn_iff.mpr ⟨k, wire, hk, hwire, p, hp, hwho, rfl⟩

end Concerned

section Calm
variable {past : List World} {w : World}

/-- While nothing escapes, viewers are up to date about every slot, unless the generations of its
place started again. -/
theorem CalmRun.agrees_of_unwrapped (h : CalmRun past w) {x : SlotId} (hx : Unwrapped x past w)
    (v : ViewerId) : w.Agrees v x := by
  induction h with
  | start env transport diagnostics =>
    intro id c view hc
    simp [State.new, Forest.container?, Forest.node?_empty] at hc
  | @step past w w' op before ok ih =>
    have hw := before.run.sound
    have hw' : w' = (op.run w).2 := by rw [ok]
    have hadvance := op.advances hw
    unfold Step.Advances at hadvance
    rw [ok] at hadvance
    have hcalm := hadvance.mono (q := True) fun _ => ⟨(), rfl⟩
    cases hlive : w.state.forest.contains x with
    | true => exact (ih hx.earlier).advance hw hcalm hlive
    | false =>
      intro id c view hc hv hback r hr hslot
      exfalso
      rcases hadvance.container_origin hw hc with ⟨d, hd, hbare⟩ | ⟨hnone, _⟩
      · have hbinds : x ∈ d.cursor :: d.slots := by
          obtain ⟨_, _, hcursor, hslots⟩ := Container.of_bare_eq hbare
          have hmem := ClientView.mem_bindings_of_row ((hadvance.sound hw).bound hc hv) hr
          rw [hcursor, hslots, ← Container.boundSlots_eq, ← hslot]
          exact List.mem_map_of_mem hmem
        obtain ⟨u, hu, hlived⟩ := before.run.bound_lived hd hbinds
        rw [hw'] at hx hback
        have hstill := before.run.live_before hx hu hlived hback
        rw [hlive] at hstill
        cases hstill
      · rw [hnone] at hv
        cases hv

end Calm

section Operation
variable {past : List World} {w w' : World} {op : Operation} {t : Option Transaction}
    {puts : List (SlotId × Option Stack)}

theorem Operation.live_of_change (hw : w.state.Sound) (hputs : op.puts w.state = some puts)
    (h : op.answer w = (.ok t, w')) {c : Change} (hc : c ∈ Transaction.changesOf t) :
    w.state.forest.contains c.slot = true := by
  obtain ⟨part, _, u, hu, hrun⟩ := Operation.commits hputs
  rw [h] at hrun
  change Step.commitAll part u = (.ok (Transaction.changesOf t), w') at hrun
  rw [← hu.state_eq] at hw ⊢
  obtain ⟨s, hs, _⟩ := Step.commitAll_changes hw hrun hc
  exact Forest.contains_of_slot hs

theorem Operation.emits (hw : w.state.Sound) (hputs : op.puts w.state = some puts)
    (h : op.answer w = (.ok t, w')) :
    w.Emits (w.state.announcements [] (Transaction.changesOf t)) w' ∧
      ((∀ c ∈ Transaction.changesOf t, ∀ v, w.Agrees v c.slot) →
        w.Emits ((Transaction.changesOf t).flatMap (w.state.announcement fun _ => true)) w') := by
  obtain ⟨part, _, u, hu, hrun⟩ := Operation.commits hputs
  have hstate := hu.state_eq
  rw [h] at hrun
  change Step.commitAll part u = (.ok (Transaction.changesOf t), w') at hrun
  rw [← hstate] at hw ⊢
  refine ⟨hu.emits.trans (Step.commitAll_emits hw hrun), ?_⟩
  intro hagrees
  have hagrees' : ∀ c ∈ Transaction.changesOf t, ∀ v, u.Agrees v c.slot :=
    fun c hc v => World.Calm.of_state_eq hstate v c.slot (hagrees c hc v)
  exact hu.emits.trans (Step.commitAll_emits_all hw hagrees' hrun)

/-- In every state that is reached, an operation on contents from which nothing escapes gives out
the announcements of the changes that it reports, and each addresses all whom it concerns. Those who
look at a slot and know already what it holds now are not told; there are none such if all were last
told what the slot held before, as it is while nothing ever escapes and the generations of the
slot's place do not start again. -/
theorem changes_are_announced (h : Run past w) :
    (∀ {op : Operation} {puts : List (SlotId × Option Stack)} {t : Option Transaction}
        {w' : World}, op.puts w.state = some puts → op.answer w = (.ok t, w') →
      w.Emits (w.state.announcements [] (Transaction.changesOf t)) w' ∧
      ((∀ c ∈ Transaction.changesOf t, ∀ v, w.Agrees v c.slot) →
        w.Emits ((Transaction.changesOf t).flatMap (w.state.announcement fun _ => true)) w') ∧
      ∀ c ∈ Transaction.changesOf t, w.Addresses past c) ∧
    (CalmRun past w → ∀ x, Unwrapped x past w → ∀ v, w.Agrees v x) := by
  refine ⟨?_, fun hcalm _ hx v => hcalm.agrees_of_unwrapped hx v⟩
  intro op puts t w' hputs hanswer
  obtain ⟨hannounced, hall⟩ := Operation.emits h.sound hputs hanswer
  exact ⟨hannounced, hall,
    fun c hc => h.addresses (Operation.live_of_change h.sound hputs hanswer hc)⟩

def Transaction.stoneTaken : Transaction :=
  .ofChanges [⟨⟨0, 0⟩, some (.single ⟨"minecraft:stone"⟩), none⟩] none

def Operation.watched : List Operation :=
  visit ++ [.onSlotChange ⟨3, 0⟩ fun _ _ => .ok, .onSlotChange ⟨0, 0⟩ fun _ _ => .ok]

theorem changes_are_announced_watched :
    (World.reached Operation.watched).2.Emits
      [.heard ⟨2⟩ (.slotChange ⟨⟨0, 0⟩, ⟨0, 0⟩, some (.single ⟨"minecraft:stone"⟩), none⟩),
        .heard ⟨1⟩ (.slotChange ⟨⟨3, 0⟩, ⟨0, 0⟩, some (.single ⟨"minecraft:stone"⟩), none⟩),
        .sent (.delta ⟨7⟩ 0 none)]
      ((Operation.clear ⟨0, 0⟩).run (World.reached Operation.watched).2).2 := by
  have hcalm := CalmRun.reached (show Operation.calmThrough .blank Operation.watched = true by
    decide +kernel)
  obtain ⟨hannounced, hagrees⟩ := changes_are_announced (Run.reached Operation.watched)
  have hanswer := Operation.answer_of_reported (show (Operation.clear ⟨0, 0⟩).reported
    (World.reached Operation.watched).2 = some .stoneTaken by decide +kernel)
  have hevents := (hannounced rfl hanswer).2.1 fun c _ v =>
    hagrees hcalm c.slot (unwrapped_of_length (by decide +kernel)) v
  have hexpected : Transaction.stoneTaken.changes.flatMap
      ((World.reached Operation.watched).2.state.announcement fun _ => true) =
      [.heard ⟨2⟩ (.slotChange ⟨⟨0, 0⟩, ⟨0, 0⟩, some (.single ⟨"minecraft:stone"⟩), none⟩),
        .heard ⟨1⟩ (.slotChange ⟨⟨3, 0⟩, ⟨0, 0⟩, some (.single ⟨"minecraft:stone"⟩), none⟩),
        .sent (.delta ⟨7⟩ 0 none)] := by decide +kernel
  rw [← hexpected]
  exact hevents

/-- A viewer looks at a chest, and a listener on the chest panics when something is put in. A stone
is put in, and the viewer is not told. -/
def Operation.startled : List Operation :=
  chest ++ [.openContainer ⟨3, 0⟩ ⟨7⟩,
    .onSlotChange ⟨0, 0⟩ fun _ e => if e.after.isSome then .panic none else .ok,
    .set ⟨0, 0⟩ (some (.single ⟨"minecraft:stone"⟩))]

/-- After a panic that escaped a viewer may know of a change already. When the stone is taken out
again, that is reported and heard, but the viewer, who was not told of the stone, is told
nothing. -/
theorem change_unannounced_after_escape :
    ∃ past w op puts t w', Run past w ∧ Operation.puts w.state op = some puts ∧
      op.answer w = (.ok t, w') ∧
      ¬ w.Emits ((Transaction.changesOf t).flatMap (w.state.announcement fun _ => true)) w' := by
  have hrun : Run (Operation.through [] World.exposed Operation.startled).1
      (Operation.through [] World.exposed Operation.startled).2 :=
    (Run.start _ .live .absent).through Operation.startled
  have hanswer := Operation.answer_of_reported (show (Operation.clear ⟨0, 0⟩).reported
    (Operation.through [] World.exposed Operation.startled).2 = some .stoneTaken by decide +kernel)
  refine ⟨_, _, .clear ⟨0, 0⟩, _, _, _, hrun, rfl, hanswer, ?_⟩
  intro hemits
  exact absurd hemits.events_eq (by decide +kernel)

end Operation

end Stowage
