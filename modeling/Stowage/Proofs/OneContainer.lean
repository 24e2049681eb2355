import Stowage.Proofs.Operation

/-!
# One container at a time

A viewer has the container open that counts it among its viewers, and no other. The list of
containers is exact. Closing discards a container of two inventories with its last viewer, if
settings say so, and the listeners are told of it beforehand.
-/

namespace Stowage

set_option autoImplicit false

def Emission.closing? : Emission → Option (ListenerId × CloseEvent)
  | .heard l (.close e) => some (l, e)
  | _ => none

def closings (es : List Emission) : List (ListenerId × CloseEvent) := es.filterMap Emission.closing?

theorem closings_append (es fs : List Emission) :
    closings (es ++ fs) = closings es ++ closings fs := List.filterMap_append

theorem closings_of {k : EventKind} (hk : k ≠ .close) {es : List Emission}
    (h : ∀ e ∈ es, e.Of k) : closings es = [] := by
  unfold closings
  rw [List.filterMap_eq_nil_iff]
  intro e he
  have hof := h e he
  cases e with
  | heard l e =>
    cases e with
    | close e => exact absurd hof.symm hk
    | slotChange e => rfl
    | view e => rfl
  | sent m => rfl
  | reported d => rfl
  | logged r => rfl

theorem closings_carry (t : Transport) (m : Message) : closings (t.carry m) = [] := by
  cases t <;> cases m <;> rfl

theorem closings_eq_heard (es : List Emission) {e : CloseEvent} {ls : List Listener}
    (h : Step.heard es = ls.map fun l => (l.id, .close e)) :
    closings es = ls.map fun l => (l.id, e) := by
  have hread : closings es =
      (Step.heard es).filterMap fun p => (Emission.heard p.1 p.2).closing? := by
    unfold closings Step.heard
    rw [List.filterMap_filterMap]
    congr 1
    funext x
    cases x with
    | heard l e => rfl
    | sent m => rfl
    | reported d => rfl
    | logged r => rfl
  rw [hread, h, List.filterMap_map]
  simp [Function.comp_def, Emission.closing?]

theorem Touches.closings {w w' : World} (h : Touches w w') :
    ∃ es, w'.trace = w.trace ++ es ∧ closings es = [] := by
  induction h with
  | refl => exact ⟨[], by simp, rfl⟩
  | @tail u _ _ hstep ih =>
    obtain ⟨es, hes, hnone⟩ := ih
    cases hstep with
    | put _ _ => exact ⟨es, hes, hnone⟩
    | @tell _ slot t htell =>
      cases htell with
      | @give fs hof =>
        refine ⟨es ++ fs, ?_, ?_⟩
        · rw [← List.append_assoc, ← hes]
          rfl
        · rw [closings_append, hnone, closings_of (by decide) hof]
          rfl
      | @tell id c v view wire _ _ _ _ =>
        refine ⟨es ++ u.state.transport.carry (.delta v wire t), ?_, ?_⟩
        · rw [← List.append_assoc, ← hes]
          rfl
        · rw [closings_append, hnone, closings_carry]
          rfl

section Close
variable {w w' : World} {v : ViewerId} {id : NodeId} {c : Container}

theorem isEmpty_detach_iff (hc : c.Ordered) (hv : v ∈ c.viewers.map Prod.fst) :
    (c.detach v).viewers.isEmpty = true ↔ c.viewers.map Prod.fst = [v] := by
  have hempty : (c.detach v).viewers.isEmpty = true ↔ ∀ u ∈ c.viewers.map Prod.fst, u = v := by
    simp [Container.detach, List.filter_eq_nil_iff]
  rw [hempty]
  constructor
  · intro hall
    have hlen : (c.viewers.map Prod.fst).length ≤ 1 := by
      have hsub : (c.viewers.map Prod.fst) ⊆ [v] := fun u hu => List.mem_singleton.mpr (hall u hu)
      exact hc.nodup.length_le_of_subset hsub
    cases hl : c.viewers.map Prod.fst with
    | nil =>
      rw [hl] at hv
      cases hv
    | cons u rest =>
      rw [hl] at hlen hall
      have hrest : rest = [] := by simpa using hlen
      rw [hrest, hall u List.mem_cons_self]
  · intro hone u hu
    rw [hone] at hu
    exact List.mem_singleton.mp hu

def Container.goesWith (c : Container) (v : ViewerId) (s : Settings) : Bool :=
  (c.detach v).viewers.isEmpty && !c.isResident && s.discardIdleContainers

def Announced (w : World) (e : CloseEvent) (es : List Emission) : Prop :=
  closings es = (w.state.listeners.hearing (.close e)).map fun l => (l.id, e)

theorem afterLeaving_announced {r : Closed} (h : Step.afterLeaving v id c w = (.ok r, w')) :
    ∃ u es, u.state = w.state ∧ u.trace = w.trace ++ es ∧
      Announced w ⟨id, v, c.goesWith v w.state.env.settings⟩ es ∧
      ((if c.goesWith v w.state.env.settings then Step.discard id else pure none) >>=
        fun leftover => pure ⟨id, c.goesWith v w.state.env.settings, leftover⟩ : Step Closed) u =
          (.ok r, w') := by
  obtain ⟨_, w₁, h₁, h⟩ := Step.bind_eq_ok h
  obtain ⟨_, w₂, h₂, h⟩ := Step.bind_eq_ok h
  rw [Step.state_bind] at h
  obtain ⟨_, w₃, h₃, h⟩ := Step.bind_eq_ok h
  obtain ⟨es₁, hw₁, hof₁⟩ := (Step.inert_log _ .view).ok h₁
  obtain ⟨es₂, hw₂, hof₂⟩ := (Step.inert_notify _).ok h₂
  obtain ⟨es₃, hw₃, hheard⟩ := Step.heard_notify h₃
  have hstate₂ : w₂.state = w.state := by
    rw [hw₂, hw₁]
    rfl
  have hclosings := closings_eq_heard es₃ hheard
  rw [hstate₂] at hclosings h
  refine ⟨w₃, es₁ ++ es₂ ++ es₃, ?_, ?_, ?_, ?_⟩
  · rw [hw₃]
    exact hstate₂
  · rw [hw₃, hw₂, hw₁, World.give_give, World.give_give, List.append_assoc]
    rfl
  · unfold Announced
    rw [closings_append, closings_append, closings_of (k := .view) (by decide) hof₁,
      closings_of (k := .view) (by decide) hof₂]
    exact hclosings
  · dsimp only at h
    unfold Container.goesWith
    split
    · rename_i hflag
      rw [if_pos hflag] at h
      exact h
    · rename_i hflag
      rw [if_neg hflag] at h
      exact h

/-- What closing comes to: who hears of it, and whether the container goes. -/
theorem afterLeaving_ok {r : Closed} (hw : w.state.Sound)
    (hc : w.state.forest.container? id = some (c.detach v))
    (h : Step.afterLeaving v id c w = (.ok r, w')) :
    r.container = id ∧ r.discarded = c.goesWith v w.state.env.settings ∧
    (r.discarded = true → w'.state.forest.contains id = false ∧
      w'.state.forest.contains c.cursor = false) ∧
    (r.discarded = false → w'.state = w.state) ∧
    ∃ es, w'.trace = w.trace ++ es ∧ Announced w ⟨id, v, r.discarded⟩ es := by
  obtain ⟨u, es, hstate, htrace, hclosings, h⟩ := afterLeaving_announced h
  obtain ⟨leftover, w₄, hrest, h⟩ := Step.bind_eq_ok h
  cases h
  refine ⟨rfl, rfl, ?_⟩
  cases hflag : c.goesWith v w.state.env.settings with
  | false =>
    rw [hflag] at hrest hclosings
    cases hrest
    exact ⟨nofun, fun _ => hstate, es, htrace, hclosings⟩
  | true =>
    rw [hflag] at hrest hclosings
    obtain ⟨x, note, htouches, rfl⟩ :=
      Step.discard_ok (by rwa [hstate]) (by rwa [hstate]) hrest
    obtain ⟨fs, hfs, hnone⟩ := htouches.closings
    have hgone : ∀ y ∈ [c.cursor, id],
        ([c.cursor, id].foldl Forest.remove x.state.forest).contains y = false :=
      fun y hy => Forest.contains_removed_of_mem hy
    refine ⟨fun _ => ⟨hgone id (by simp), hgone c.cursor (by simp)⟩, nofun,
      es ++ (fs ++ [.logged note]), ?_, ?_⟩
    · change x.trace ++ [.logged note] = _
      rw [hfs, htrace, List.append_assoc, List.append_assoc]
    · unfold Announced
      rw [closings_append, closings_append, hnone, hclosings]
      exact List.append_nil _

/-- What is said of a closing is what happens: the container goes with its cursor when the viewer
was the last one, it is no resident container and settings say so; listeners were told the same. -/
structure Closed.Truthful (r : Closed) (c : Container) (v : ViewerId) (w w' : World) : Prop where
  container : w.state.forest.container? r.container = some c
  opened : w.state.openContainer v = some r.container
  discarded_iff : r.discarded = true ↔ w.state.viewers r.container = [v] ∧ c.top ≠ c.bottom ∧
    w.state.env.settings.discardIdleContainers = true
  gone : r.discarded = true → w'.state.forest.contains r.container = false ∧
    w'.state.forest.contains c.cursor = false
  stays : r.discarded = false → w'.state.kind r.container = some .container
  announced : ∃ es, w'.trace = w.trace ++ es ∧ Announced w ⟨r.container, v, r.discarded⟩ es

theorem viewers_of_container? {s : State} (hc : s.forest.container? id = some c) :
    s.viewers id = c.viewers.map Prod.fst := by
  simp [State.viewers, hc]

theorem close_truthful {r : Closed} (hw : w.state.Sound)
    (h : Step.close v w = (.ok (some r), w')) : ∃ c, r.Truthful c v w w' := by
  cases hopen : w.state.openContainer v with
  | none =>
    rw [Step.close_of_none hopen] at h
    cases h
  | some id =>
    obtain ⟨c, hc, hv⟩ := hw.openContainer_eq_some_iff.mp hopen
    rw [Step.close_of_some hopen hc] at h
    obtain ⟨closed, u, hafter, hpure⟩ := Step.bind_eq_ok h
    cases hpure
    obtain ⟨rfl, hflag, hgone, hkept, es, htrace, htold⟩ :=
      afterLeaving_ok (hw.leave hc hv) (Step.container?_leave hc) hafter
    refine ⟨c, hc, hopen, ?_, hgone, ?_, w.state.transport.carry (.release v) ++ es, ?_, ?_⟩
    · rw [hflag, viewers_of_container? hc, ← isEmpty_detach_iff (hw.ordered hc) hv]
      simp [Container.goesWith, Container.isResident, World.leave, State.leave, and_assoc]
    · intro hstays
      have hstate := hkept hstays
      unfold State.kind
      rw [hstate, Forest.kind_eq_container_iff]
      exact ⟨_, Step.container?_leave hc⟩
    · rw [htrace, ← List.append_assoc]
      rfl
    · unfold Announced
      rw [closings_append, closings_carry]
      exact htold

theorem close_eq_none_iff {r : Option Closed} (hw : w.state.Sound)
    (h : Step.close v w = (.ok r, w')) : r = none ↔ w.state.openContainer v = none := by
  cases hopen : w.state.openContainer v with
  | none =>
    rw [Step.close_of_none hopen] at h
    cases h
    simp
  | some id =>
    obtain ⟨c, hc, _⟩ := hw.openContainer_eq_some_iff.mp hopen
    rw [Step.close_of_some hopen hc] at h
    obtain ⟨closed, u, _, hpure⟩ := Step.bind_eq_ok h
    cases hpure
    simp

end Close

theorem State.Sound.mem_viewers_iff {s : State} (h : s.Sound) {v : ViewerId} {id : NodeId} :
    v ∈ s.viewers id ↔ s.openContainer v = some id := by
  rw [h.openContainer_eq_some_iff]
  cases hc : s.forest.container? id with
  | none => simp [State.viewers, hc]
  | some c => simp [viewers_of_container? hc]

/-- The three records agree in every world of a run, and closing tells the truth about what it
discards. -/
theorem one_open_container {past : List World} {w : World} (h : Run past w) :
    (∀ v id, w.state.openContainer v = some id ↔
      w.state.kind id = some .container ∧ v ∈ w.state.viewers id) ∧
    (∀ v x y, v ∈ w.state.viewers x → v ∈ w.state.viewers y → x = y) ∧
    w.state.containers.Nodup ∧
    (∀ id, id ∈ w.state.containers ↔ w.state.kind id = some .container) ∧
    ∀ v r w', Step.close v w = (.ok r, w') →
      (r = none ↔ w.state.openContainer v = none) ∧
      ∀ closed, r = some closed → ∃ c, closed.Truthful c v w w' := by
  have hw := h.sound
  have hkind : ∀ id, w.state.kind id = some .container ↔
      ∃ c, w.state.forest.container? id = some c := fun id => Forest.kind_eq_container_iff
  refine ⟨?_, ?_, hw.nodup_containers, ?_, ?_⟩
  · intro v id
    rw [hw.mem_viewers_iff, hkind, iff_and_self]
    intro hopen
    obtain ⟨c, hc, _⟩ := hw.openContainer_eq_some_iff.mp hopen
    exact ⟨c, hc⟩
  · intro v x y hx hy
    rw [hw.mem_viewers_iff] at hx hy
    rw [hx] at hy
    exact Option.some.inj hy
  · intro id
    rw [hw.mem_containers, hkind]
  · intro v r w' hclose
    refine ⟨close_eq_none_iff hw hclose, ?_⟩
    intro closed hclosed
    rw [hclosed] at hclose
    exact close_truthful hw hclose

theorem one_open_container_visit :
    (World.reached Operation.visit).2.state.openContainer ⟨7⟩ = some ⟨3, 0⟩ ∧
    (World.reached Operation.visit).2.state.kind ⟨3, 0⟩ = some .container ∧
    ⟨7⟩ ∈ (World.reached Operation.visit).2.state.viewers ⟨3, 0⟩ := by
  have hopen : (World.reached Operation.visit).2.state.openContainer ⟨7⟩ = some ⟨3, 0⟩ := by
    decide +kernel
  have hrun := Run.reached Operation.visit
  exact ⟨hopen, ((one_open_container hrun).1 _ _).mp hopen⟩

end Stowage
