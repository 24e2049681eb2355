import Stowage.Proofs.References
import Stowage.Proofs.TwinRuns

/-!
# Handles that come again

A slot that is made takes the place vacated last, and vacates it when it is removed. Doing so over
and over changes nothing but the generation of that place, which starts again in the end. From then
on handles that went stale long ago are issued once more.
-/

namespace Stowage

set_option autoImplicit false

namespace Arena
variable {α : Type} {a : Arena α} {i g : Nat}

def atGeneration (a : Arena α) (i g : Nat) : Arena α :=
  { a with places := a.places.modify i fun p => { p with generation := g } }

theorem atGeneration_generationAt (a : Arena α) (i : Nat) :
    a.atGeneration i (a.generationAt i) = a := by
  unfold atGeneration
  have hplaces : a.places.modify i (fun p => { p with generation := a.generationAt i }) =
      a.places := by
    refine Array.ext_getElem? fun j => ?_
    rw [Array.getElem?_modify]
    split
    · rename_i hj
      unfold generationAt
      rw [hj]
      cases a.places[j]? <;> rfl
    · rfl
  rw [hplaces]

theorem atGeneration_atGeneration (a : Arena α) (i g g' : Nat) :
    (a.atGeneration i g).atGeneration i g' = a.atGeneration i g' := by
  unfold atGeneration
  refine congrArg (fun places => Arena.mk places a.vacant a.size) (Array.ext_getElem? fun j => ?_)
  simp only [Array.getElem?_modify]
  split
  · rw [Option.map_map]
    rfl
  · rfl

theorem get?_atGeneration (ha : a.Sound) (hi : i ∈ a.vacant) (g : Nat) (x : NodeId) :
    (a.atGeneration i g).get? x = a.get? x := by
  obtain ⟨p, hp, hvalue⟩ := (ha.mem_vacant i).mp hi
  unfold get? atGeneration
  by_cases hx : i = x.index
  · rw [← hx]
    simp [Array.getElem?_modify, hp, hvalue]
  · simp [Array.getElem?_modify, hx]

theorem generationAt_atGeneration (ha : a.Sound) (hi : i ∈ a.vacant) (g : Nat) :
    (a.atGeneration i g).generationAt i = g := by
  obtain ⟨p, hp, _⟩ := (ha.mem_vacant i).mp hi
  unfold generationAt atGeneration
  simp [Array.getElem?_modify, hp]

theorem nextId_of_vacant {rest : List Nat} (hv : a.vacant = i :: rest) :
    a.nextId = ⟨i, a.generationAt i⟩ := by
  unfold nextId
  rw [hv]

theorem remove_inserted (ha : a.Sound) {rest : List Nat} (hv : a.vacant = i :: rest) (v : α)
    (change : α → α) : ((a.insert v).1.modify a.nextId change).remove a.nextId =
      a.atGeneration i ((a.generationAt i + 1) % generations) := by
  obtain ⟨p, hp, hvalue⟩ := (ha.mem_vacant i).mp (by simp [hv])
  have hgeneration : a.generationAt i = p.generation := by simp [generationAt, hp]
  have hlive : (a.insert v).1.contains a.nextId = true := by
    rw [contains_iff]
    exact ⟨v, by rw [ha.get?_insert, if_pos rfl]⟩
  have hid : a.nextId = ⟨i, p.generation⟩ := by rw [nextId_of_vacant hv, hgeneration]
  have hinsert : (a.insert v).1 =
      ⟨a.places.modify i fun p => { p with value := some v }, rest, a.size + 1⟩ := by
    unfold insert
    rw [hv]
  unfold remove
  rw [contains_modify, if_pos hlive, modify_of_contains hlive, hinsert, hid]
  unfold atGeneration
  rw [hv]
  refine congrArg (fun places => Arena.mk places (i :: rest) a.size)
    (Array.ext_getElem? fun j => ?_)
  simp only [Array.getElem?_modify]
  split
  · rename_i hj
    rw [← hj, hp, hgeneration]
    simp [hvalue]
  · rfl

end Arena

namespace State
variable {s : State} {i g : Nat}

def atGeneration (s : State) (i g : Nat) : State :=
  { s with forest := ⟨s.forest.nodes.atGeneration i g⟩ }

theorem showing_congr {t : State} (hcontainers : t.containers = s.containers)
    (h : ∀ id, t.forest.container? id = s.forest.container? id) (nodes : List NodeId) :
    t.showing nodes = s.showing nodes := by
  unfold showing
  simp only [hcontainers, h]

theorem showing_atGeneration (hs : s.forest.nodes.Sound) (hi : i ∈ s.forest.nodes.vacant) (g : Nat)
    (nodes : List NodeId) : (s.atGeneration i g).showing nodes = s.showing nodes := by
  refine @showing_congr s (s.atGeneration i g) rfl (fun id => ?_) nodes
  exact congrArg (fun n : Option Node => n.bind fun n => n.content.container?)
    (Arena.get?_atGeneration hs hi g id)

theorem showing_eq_none {x : NodeId} (h : ∀ id c, s.forest.container? id = some c →
    c.top ≠ x ∧ c.bottom ≠ x) : s.showing [x] = none := by
  unfold showing
  rw [List.find?_eq_none]
  intro id _
  cases hc : s.forest.container? id with
  | none => simp
  | some c =>
    obtain ⟨htop, hbottom⟩ := h id c hc
    simp [htop, hbottom]

end State

theorem Forest.descendants_eq_nil {f : Forest} {x : NodeId} (h : f.children x = []) :
    f.descendants x = [] := by
  unfold descendants
  cases f.reach with
  | zero => rfl
  | succ n =>
    unfold descendantsUpTo
    rw [h]
    rfl

/-- A slot that is made is a node by itself, and when it goes again only the generation of its place
is another. -/
theorem Forest.instantiate_anySlot {f : Forest} (hf : f.nodes.Sound) {i : Nat} {rest : List Nat}
    (hv : f.nodes.vacant = i :: rest) (limit : Nat) :
    ∃ g n slot, f.instantiate limit .anySlot = (g, f.nextId) ∧ g.node? f.nextId = some n ∧
      n.parent = none ∧ n.content = .slot slot ∧ g.remove f.nextId =
        ⟨f.nodes.atGeneration i ((f.nodes.generationAt i + 1) % generations)⟩ := by
  let node : NodeId → Node := fun id =>
    { Node.plain id (f.contentOf limit Builder.slot.draft ⟨.slot, 1, []⟩ []) with
      name := Builder.slot.draft.name, archetype := none,
      properties := Builder.slot.draft.properties, shiftClick := Builder.slot.draft.shiftClick }
  have hnode : (f.insert node).1.node? f.nextId = some (node f.nextId) := by
    rw [node?_insert hf, if_pos rfl]
  have hchildren : (f.insert node).1.children f.nextId = [] := by
    unfold children
    rw [hnode]
    rfl
  have hgrown : grow limit f .anySlot = ((f.insert node).1, f.nextId) := by
    unfold Archetype.anySlot
    simp only [grow, growAll]
    exact Prod.ext rfl (Arena.insert_snd _)
  have hrooted : (f.insert node).1.setRoot f.nextId =
      (f.insert node).1.modify f.nextId fun n => { n with root := f.nextId } := by
    unfold setRoot
    rw [descendants_eq_nil hchildren]
    rfl
  refine ⟨(f.insert node).1.setRoot f.nextId, { node f.nextId with root := f.nextId }, _, ?_, ?_,
    rfl, rfl, ?_⟩
  · unfold instantiate
    rw [hgrown]
  · rw [hrooted, node?_modify, if_pos rfl, hnode]
    rfl
  · rw [hrooted]
    exact congrArg Forest.mk (Arena.remove_inserted hf hv _ _)

theorem State.dropNodes_of_no_listeners {s : State} (h : s.listeners.registered = [])
    (x : NodeId) : s.dropNodes [x] = { s with forest := s.forest.remove x } := by
  have hforget : s.listeners.forget x = s.listeners := by
    unfold Listeners.forget
    rw [h, List.filter_nil, ← h]
  unfold dropNodes
  simp only [List.foldl_cons, List.foldl_nil, hforget]

section Turn
variable {past : List World} {w : World} {i : Nat} {rest : List Nat}

theorem events_give_logged (w : World) (r : LogRecord) :
    events (w.give [.logged r]).trace = events w.trace := by
  unfold World.give
  rw [events_append]
  exact List.append_nil _

theorem Step.instantiate_ok {a : Archetype} {g : Forest} {x : NodeId} (h :
    w.state.forest.instantiate w.state.env.settings.defaultMaxStackSize a = (g, x)) :
    ∃ u, Step.instantiate a w = (.ok x, u) ∧ u.state = { w.state with forest := g } ∧
      events u.trace = events w.trace := by
  unfold Step.instantiate
  rw [Step.state_bind, h]
  exact ⟨_, rfl, rfl, events_give_logged _ _⟩

theorem Step.remove_slot {x : NodeId} {n : Node} {slot : Slot}
    (hn : w.state.forest.node? x = some n) (hparent : n.parent = none)
    (hslot : n.content = .slot slot) (hfree : w.state.showing [x] = none) :
    ∃ u, Step.remove x w = (.ok (.ok ()), u) ∧ u.state = w.state.dropNodes [x] ∧
      events u.trace = events w.trace := by
  have hchildren : w.state.forest.children x = [] := by
    unfold Forest.children
    rw [hn]
    simp only [hslot]
  have hbelow := Forest.descendants_eq_nil hchildren
  unfold Step.remove
  rw [Step.state_bind, hn]
  simp only [hparent, Option.isSome_none, Bool.false_eq_true, if_false, hslot]
  unfold Step.removeTree
  rw [Step.state_bind, hbelow, List.nil_append, hfree]
  exact ⟨_, rfl, rfl, events_give_logged _ _⟩

theorem Step.ignored_snd {α : Type} {m : Step α} {a : α} {w' : World} (h : m w = (.ok a, w')) :
    (m.ignored w).2 = w' := by
  unfold Step.ignored
  rw [Step.bind_of_ok h]
  rfl

theorem Run.turn (h : Run past w) (hv : w.state.forest.nodes.vacant = i :: rest)
    (hl : w.state.listeners.registered = [])
    (hfree : w.state.showing [w.state.forest.nextId] = none) :
    ∃ past' w', Run past' w' ∧
      w'.state = w.state.atGeneration i ((w.state.forest.nodes.generationAt i + 1) % generations) ∧
      events w'.trace = events w.trace := by
  have hf := h.sound.forest
  obtain ⟨g, n, slot, hinstantiate, hnode, hparent, hslot, hremoved⟩ :=
    Forest.instantiate_anySlot hf.arena hv w.state.env.settings.defaultMaxStackSize
  have hgrown := Forest.instantiate_grown w.state.env.settings.defaultMaxStackSize hf
    Archetype.anySlot_made.fits
  rw [hinstantiate] at hgrown
  obtain ⟨u, hmade, hustate, hutrace⟩ := Step.instantiate_ok hinstantiate
  have hshown : u.state.showing [w.state.forest.nextId] = none := by
    rw [hustate]
    exact (@State.showing_congr w.state { w.state with forest := g } rfl
      (fun id => hgrown.container? id) _).trans hfree
  rw [← show u.state.forest = g from congrArg State.forest hustate] at hnode
  obtain ⟨w', hgone, hstate, htrace⟩ := Step.remove_slot hnode hparent hslot hshown
  have hrun := (h.step (.instantiate .anySlot Archetype.anySlot_made)).step
    (.remove w.state.forest.nextId)
  change Run _ (Step.ignored (Step.remove _) (Step.ignored (Step.instantiate _) w).2).2 at hrun
  rw [Step.ignored_snd hmade, Step.ignored_snd hgone] at hrun
  refine ⟨_, w', hrun, ?_, htrace.trans hutrace⟩
  rw [hstate, State.dropNodes_of_no_listeners (by rw [hustate]; exact hl), hustate]
  exact congrArg (fun f => { w.state with forest := f }) hremoved

/-- A slot is made and removed again and again. -/
theorem Run.turns (h : Run past w) (hv : w.state.forest.nodes.vacant = i :: rest)
    (hl : w.state.listeners.registered = [])
    (hi : w.state.forest.nodes.generationAt i < generations) (n : Nat)
    (hfree : ∀ m < n, w.state.showing
      [⟨i, (w.state.forest.nodes.generationAt i + m) % generations⟩] = none) :
    ∃ past' w', Run past' w' ∧
      w'.state = w.state.atGeneration i ((w.state.forest.nodes.generationAt i + n) % generations) ∧
      events w'.trace = events w.trace := by
  have harena := h.sound.forest.arena
  have hmem : i ∈ w.state.forest.nodes.vacant := by simp [hv]
  induction n with
  | zero =>
    refine ⟨past, w, h, ?_, rfl⟩
    rw [Nat.add_zero, Nat.mod_eq_of_lt hi]
    unfold State.atGeneration
    rw [Arena.atGeneration_generationAt]
  | succ n ih =>
    obtain ⟨past', u, hrun, hstate, htrace⟩ := ih fun m hm => hfree m (Nat.lt_succ_of_lt hm)
    have hforest := congrArg State.forest hstate
    have hgeneration : u.state.forest.nodes.generationAt i =
        (w.state.forest.nodes.generationAt i + n) % generations := by
      rw [hforest]
      exact Arena.generationAt_atGeneration harena hmem _
    have hvacant : u.state.forest.nodes.vacant = i :: rest := by
      rw [hforest]
      exact hv
    have hshown : u.state.showing [u.state.forest.nextId] = none := by
      rw [show u.state.forest.nextId = _ from Arena.nextId_of_vacant hvacant, hgeneration, hstate,
        State.showing_atGeneration harena hmem]
      exact hfree n (Nat.lt_succ_self n)
    have hnone : u.state.listeners.registered = [] := by
      rw [hstate]
      exact hl
    obtain ⟨past'', w', hrun', hstate', htrace'⟩ := hrun.turn hvacant hnone hshown
    refine ⟨past'', w', hrun', ?_, htrace'.trans htrace⟩
    rw [hstate', hgeneration, Nat.mod_add_mod, Nat.add_assoc, hstate]
    unfold State.atGeneration
    rw [Arena.atGeneration_atGeneration]

end Turn

section Twins
variable {w v : World}

theorem World.twin_of_state_eq (hstate : w.state = v.state)
    (htrace : events w.trace = events v.trace) : w.Twin v :=
  ⟨⟨by rw [hstate], by rw [hstate], by rw [hstate], by rw [hstate],
    by rw [hstate]; exact .refl _, by rw [hstate]⟩, htrace.symm⟩

theorem Operation.twin_through {ops : List Operation} (hops : ∀ op ∈ ops, op.plain = true)
    (h : w.Twin v) (hw : w.state.env.settings.isolateListenerPanics = true)
    (past past' : List World) :
    (Operation.through past w ops).2.Twin (Operation.through past' v ops).2 ∧
      (Operation.through past w ops).2.state.env.settings.isolateListenerPanics = true := by
  induction ops generalizing past past' w v with
  | nil => exact ⟨h, hw⟩
  | cons op rest ih =>
    obtain ⟨_, _, _, htwin, hbeats, _⟩ := (Twin.same (hops op List.mem_cons_self)).perform h hw
    exact ih (fun op hop => hops op (List.mem_cons_of_mem _ hop)) htwin
      (by rw [hbeats.env]; exact hw) _ _

end Twins

/-- What is done when a place has come to another generation is done in the course of a run. -/
theorem Run.resumed {past : List World} {w : World} {i n : Nat} {rest : List Nat} (h : Run past w)
    (hw : w.state.env.settings.isolateListenerPanics = true)
    (hv : w.state.forest.nodes.vacant = i :: rest) (hl : w.state.listeners.registered = [])
    (hi : w.state.forest.nodes.generationAt i < generations)
    (hfree : ∀ m < n, w.state.showing
      [⟨i, (w.state.forest.nodes.generationAt i + m) % generations⟩] = none)
    {ops : List Operation} (hops : ∀ op ∈ ops, op.plain = true) :
    ∃ past' w', Run past' w' ∧ w'.state.env.settings.isolateListenerPanics = true ∧
      w'.Twin (Operation.through [] ⟨w.state.atGeneration i
        ((w.state.forest.nodes.generationAt i + n) % generations), w.trace⟩ ops).2 := by
  obtain ⟨past', u, hrun, hstate, htrace⟩ := h.turns hv hl hi n hfree
  have hu : u.state.env.settings.isolateListenerPanics = true := by
    rw [hstate]
    exact hw
  obtain ⟨htwin, hisolated⟩ := Operation.twin_through hops
    (World.twin_of_state_eq (v := ⟨_, w.trace⟩) hstate htrace) hu past' []
  exact ⟨_, _, hrun.through ops, hisolated, htwin⟩

end Stowage
