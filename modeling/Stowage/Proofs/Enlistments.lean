import Stowage.Proofs.Commits
import Stowage.Proofs.References
import Stowage.Proofs.TwinRuns

/-!
# Who is registered after an operation

An operation registers one listener at most, and answers with its number. Besides that, listeners go
only by their number or together with their node, on every way on which nodes go.
-/

namespace Stowage

set_option autoImplicit false

open Relation

def Listeners.places (l : Listeners) : List (ListenerId × NodeId × EventKind) :=
  l.registered.map Listener.place

def State.Hung (s : State) : Prop :=
  ∀ l ∈ s.listeners.registered, s.forest.contains l.node = true

structure World.Retains (w w' : World) : Prop where
  issued : w'.state.listeners.issued = w.state.listeners.issued
  registered : ∀ l, l ∈ w'.state.listeners.registered ↔
    l ∈ w.state.listeners.registered ∧ w'.state.forest.contains l.node = true

section Retention
variable {w u w' : World}

theorem Listeners.mem_forgetAll_iff {ls : Listeners} {nodes : List NodeId} {l : Listener} :
    l ∈ (nodes.foldl forget ls).registered ↔ l ∈ ls.registered ∧ l.node ∉ nodes := by
  induction nodes generalizing ls with
  | nil => simp
  | cons node rest ih =>
    rw [List.foldl_cons, ih, List.mem_cons, not_or, ← and_assoc]
    simp [forget]

namespace World.Retains

theorem hung (h : w.Retains w') : w'.state.Hung := fun l hl => ((h.registered l).mp hl).2

theorem of_eq (hung : w.state.Hung) (hlisteners : w'.state.listeners = w.state.listeners)
    (hlive : ∀ x, w.state.forest.contains x = true → w'.state.forest.contains x = true) :
    w.Retains w' where
  issued := by rw [hlisteners]
  registered := by
    intro l
    rw [hlisteners]
    exact ⟨fun hl => ⟨hl, hlive _ (hung l hl)⟩, And.left⟩

theorem of_state_eq (hung : w.state.Hung) (hstate : w'.state = w.state) : w.Retains w' := by
  refine of_eq hung ?_ ?_
  · rw [hstate]
  · rw [hstate]
    exact fun _ hx => hx

theorem trans (hwu : w.Retains u) (huw : u.Retains w')
    (hfades : ∀ x, w'.state.forest.contains x = true → u.state.forest.contains x = true) :
    w.Retains w' where
  issued := huw.issued.trans hwu.issued
  registered := by
    intro l
    rw [huw.registered, hwu.registered]
    exact ⟨fun h => ⟨h.1.1, h.2⟩, fun h => ⟨⟨h.1, hfades _ h.2⟩, h.2⟩⟩

theorem of_removed (hung : w.state.Hung) (nodes : List NodeId)
    (hforest : w'.state.forest = nodes.foldl Forest.remove w.state.forest)
    (hlisteners : w'.state.listeners = nodes.foldl Listeners.forget w.state.listeners) :
    w.Retains w' where
  issued := by
    rw [hlisteners]
    exact (Listeners.thinned_forgetAll _ _).issued
  registered := by
    intro l
    rw [hforest, hlisteners, Listeners.mem_forgetAll_iff, Forest.contains_removed_iff]
    exact ⟨fun h => ⟨h.1, hung l h.1, h.2⟩, fun h => ⟨h.1, h.2.2⟩⟩

end World.Retains

theorem Move.retains (h : Move w w') (hung : w.state.Hung) : w.Retains w' := by
  cases h with
  | touch h => exact .of_eq hung h.listeners fun x hx => (h.kept.contains x).trans hx
  | announce _ => exact .of_state_eq hung rfl
  | leave _ _ => exact .of_eq hung rfl fun x hx => (w.contains_leave _ _ x).trans hx
  | @drop id c _ _ => exact .of_removed hung [c.cursor, id] rfl rfl

theorem Moves.retains (h : Moves w w') (hw : w.state.Sound) (hung : w.state.Hung) :
    w.Retains w' := by
  induction h with
  | refl => exact .of_state_eq hung rfl
  | tail hmoves hstep ih =>
    have hu := Moves.sound hmoves hw
    exact ih.trans (hstep.retains ih.hung) fun _ hx => (hstep.thinned hu).contains hx

theorem World.Retains.entered (h : w.Retains u) {v : ViewerId} {id : NodeId} {c : Container}
    (hq : World.Quiet (u.enter v id c) w') : w.Retains w' := by
  have hsame : ∀ x, w'.state.forest.contains x = u.state.forest.contains x := by
    intro x
    rw [hq.state_eq]
    exact u.contains_enter v id c x
  refine h.trans (.of_eq h.hung ?_ fun x hx => (hsame x).trans hx) fun x hx =>
      (hsame x).symm.trans hx
  rw [hq.state_eq]
  rfl

/-- An operation that leaves the list of listeners alone leaves their nodes alone. -/
theorem Advance.retains {calm : Prop} (h : Advance calm w w') (hw : w.state.Sound)
    (hung : w.state.Hung) (hlisteners : w'.state.listeners = w.state.listeners) : w.Retains w' := by
  cases h with
  | moves h _ => exact h.retains hw hung
  | listen l _ => exact .of_eq hung hlisteners fun _ hx => hx
  | rewire t d => exact .of_eq hung hlisteners fun _ hx => hx
  | grow hg hq =>
    refine .of_eq hung hlisteners fun x hx => ?_
    rw [hq.state_eq]
    exact (hg.content x hx).contains.trans hx
  | frame ht hb hg hq =>
    refine .of_eq hung hlisteners fun x hx => ?_
    rw [hq.state_eq]
    exact (hg.content x hx).contains.trans hx
  | @raze r _ hr hn hfree hq =>
    refine .of_removed hung (w.state.forest.descendants r ++ [r]) ?_ ?_
    · rw [hq.state_eq]
      rfl
    · rw [hq.state_eq]
      rfl
  | enter hm _ hc hv hq => exact (hm.retains hw hung).entered hq

namespace Step

variable {α β : Type}

def Retains (m : Step α) (w : World) : Prop := w.Retains (m w).2

theorem Retains.map {m : Step α} (h : m.Retains w) (answer : α → β) :
    (m >>= fun a => pure (answer a)).Retains w := by
  unfold Retains at *
  rwa [map_snd]

theorem Retains.ignored {m : Step α} (h : m.Retains w) : m.ignored.Retains w := h.map _

theorem Tidy.retains {m : Step α} (hm : m.Tidy) (hw : w.state.Sound) (hung : w.state.Hung) :
    m.Retains w := (hm w hw).1.moves.retains hw hung

theorem Advances.retains {m : Step α} (hm : m.Advances w) (hw : w.state.Sound)
    (hung : w.state.Hung) (hlisteners : (m w).2.state.listeners = w.state.listeners) :
    m.Retains w := Advance.retains hm hw hung hlisteners

theorem retains_openContainer (hw : w.state.Sound) (hung : w.state.Hung) (id : NodeId)
    (v : ViewerId) : (openContainer id v).Retains w := by
  unfold Retains openContainer
  rw [state_bind]
  cases w.state.containerAt id with
  | error r => exact .of_state_eq hung rfl
  | ok _ =>
    dsimp only
    split
    · exact .of_state_eq hung rfl
    · have hclose := (orderly_close hw v).1.retains hw hung
      rcases h : close v w with ⟨r, u⟩
      rw [h] at hclose
      cases r with
      | error e =>
        rw [bind_of_error h]
        exact hclose
      | ok closed =>
        rw [bind_of_ok h, state_bind]
        cases u.state.containerAt id with
        | error r => exact hclose
        | ok c => exact hclose.entered (quiet_attach v id c u _)

theorem retains_removeTree (hung : w.state.Hung) (node : NodeId) : (removeTree node).Retains w := by
  unfold Retains removeTree
  rw [state_bind]
  cases w.state.showing (w.state.forest.descendants node ++ [node]) with
  | some id => exact .of_state_eq hung rfl
  | none => exact .of_removed hung (w.state.forest.descendants node ++ [node]) rfl rfl

theorem retains_remove (hw : w.state.Sound) (hung : w.state.Hung) (node : NodeId) :
    (remove node).Retains w := by
  unfold Retains remove
  rw [state_bind]
  cases hn : w.state.forest.node? node with
  | none => exact .of_state_eq hung rfl
  | some n =>
    dsimp only
    split
    · exact .of_state_eq hung rfl
    · cases hc : n.content with
      | container c =>
        dsimp only [removeContainer]
        split
        · rename_i hempty
          have hc := Forest.container?_eq_some_iff.mpr ⟨n, hn, hc⟩
          rw [map_snd]
          exact (orderly_discard hw hc (List.isEmpty_iff.mp hempty)).1.retains hw hung
        · exact .of_state_eq hung rfl
      | slot s => exact retains_removeTree hung node
      | ordered k => exact retains_removeTree hung node
      | grid g => exact retains_removeTree hung node

end Step

end Retention

namespace Operation

def post? : Operation → Option (NodeId × EventKind)
  | .onSlotChange node _ => some (node, .slotChange)
  | .onView container _ => some (container, .view)
  | .onClose container _ => some (container, .close)
  | _ => none

def enlists (op : Operation) (w : World) : Option (ListenerId × NodeId × EventKind) :=
  match op.post?, (op.perform w).1 with
  | some post, .ok (.listener (.ok l)) => some (l, post)
  | _, _ => none

def Keeps (op : Operation) (l : ListenerId) : Prop := op ≠ .removeListener l

def idle : Operation → Bool
  | .onSlotChange _ _ | .onView _ _ | .onClose _ _ | .removeListener _ => false
  | _ => true

section Idle
variable {op : Operation} {w : World}

theorem enlists_of_idle (h : op.idle = true) : op.enlists w = none := by
  cases op with
  | onSlotChange _ _ | onView _ _ | onClose _ _ | removeListener _ => cases h
  | _ => rfl

theorem keeps_of_idle (h : op.idle = true) (l : ListenerId) : op.Keeps l := by
  rintro rfl
  cases h

theorem retains_of_idle (h : op.idle = true) (hw : w.state.Sound) (hung : w.state.Hung) :
    op.run.Retains w := by
  have hadvances := op.advances hw
  cases op with
  | instantiate a made => exact hadvances.retains hw hung rfl
  | instantiateId r id made =>
    refine hadvances.retains hw hung ?_
    change ((Step.instantiateId r id).ignored w).2.state.listeners = _
    unfold Step.ignored Step.instantiateId
    rw [Step.map_snd]
    cases r.get? id <;> rfl
  | compose children =>
    refine hadvances.retains hw hung ?_
    change ((Step.composePrioritized children).ignored w).2.state.listeners = _
    unfold Step.ignored Step.composePrioritized
    rw [Step.map_snd, Step.state_bind]
    cases w.state.forest.compose children <;> rfl
  | createContainer top bottom =>
    refine hadvances.retains hw hung ?_
    change ((Step.createContainer top bottom).ignored w).2.state.listeners = _
    unfold Step.ignored Step.createContainer
    rw [Step.map_snd, Step.state_bind]
    dsimp only
    cases w.state.forest.showRefusal top <|> w.state.forest.showRefusal bottom <;> rfl
  | openContainer container v => exact (Step.retains_openContainer hw hung container v).ignored
  | close v =>
    have hclose : (Step.close v).Retains w := (Step.orderly_close hw v).1.retains hw hung
    exact hclose.ignored
  | remove node => exact (Step.retains_remove hw hung node).ignored
  | offer node stack => exact ((Step.tidy_offer node stack).retains hw hung).ignored
  | offerTo node stack => exact ((Step.tidy_offerTo node stack).retains hw hung).ignored
  | poll node limit => exact ((Step.tidy_poll node limit).retains hw hung).ignored
  | set slot stack => exact ((Step.tidy_set slot stack).retains hw hung).ignored
  | setAt node index stack => exact ((Step.tidy_setAt node index stack).retains hw hung).ignored
  | clear node => exact ((Step.tidy_clear node).retains hw hung).ignored
  | revert t => exact ((Step.tidy_revert t).retains hw hung).ignored
  | shiftClick custom container slot =>
    exact ((Step.tidy_shiftClick custom container slot).retains hw hung).ignored
  | offerInView view stack => exact ((Step.tidy_viewOffer view stack).retains hw hung).ignored
  | offerToView view stack =>
    exact ((Step.tidy_offerIn view.slots stack).retains hw hung).ignored
  | pollInView view limit => exact ((Step.tidy_pollIn view.slots limit).retains hw hung).ignored
  | setInView view index stack =>
    exact ((Step.tidy_setIn view.slots index stack).retains hw hung).ignored
  | setTransport t => exact hadvances.retains hw hung rfl
  | setDiagnostics d => exact hadvances.retains hw hung rfl
  | onSlotChange _ _ | onView _ _ | onClose _ _ | removeListener _ => cases h

end Idle

/-- What an operation does to the list of listeners: who was there stays, unless it is taken away or
its node goes, and one may come with the next number. -/
structure Musters (op : Operation) (w : World) : Prop where
  hung : (op.run w).2.state.Hung
  places : ∀ p, p ∈ (op.run w).2.state.listeners.places ↔
    (p ∈ w.state.listeners.places ∧ op.Keeps p.1 ∧
      (op.run w).2.state.forest.contains p.2.1 = true) ∨ op.enlists w = some p
  issued : (op.run w).2.state.listeners.issued =
    w.state.listeners.issued + (op.enlists w).toList.length
  next : ∀ p, op.enlists w = some p → p.1 = w.state.listeners.nextId ∧
    w.state.forest.contains p.2.1 = true ∧ (op.run w).2.state.forest.contains p.2.1 = true

section Musters
variable {op : Operation} {w : World}

theorem Musters.of_retains (hretains : op.run.Retains w) (hkeeps : ∀ l, op.Keeps l)
    (hnone : op.enlists w = none) : op.Musters w where
  hung := hretains.hung
  places := by
    intro p
    unfold Listeners.places
    rw [hnone, List.mem_map, List.mem_map]
    constructor
    · rintro ⟨l, hl, rfl⟩
      obtain ⟨hold, hlive⟩ := (hretains.registered l).mp hl
      exact Or.inl ⟨⟨l, hold, rfl⟩, hkeeps _, hlive⟩
    · rintro (⟨⟨l, hold, rfl⟩, _, hlive⟩ | hnew)
      · exact ⟨l, (hretains.registered l).mpr ⟨hold, hlive⟩, rfl⟩
      · cases hnew
  issued := by
    rw [hnone]
    exact hretains.issued
  next := by
    intro p hp
    rw [hnone] at hp
    cases hp

theorem Musters.of_register {post : NodeId × EventKind} (react : List Emission → Event → Reaction)
    (hung : w.state.Hung) (hlive : w.state.forest.contains post.1 = true)
    (hkeeps : ∀ l, op.Keeps l) (henlists : op.enlists w = some (w.state.listeners.nextId, post))
    (hrun : (op.run w).2.state =
      { w.state with listeners := w.state.listeners.register post.1 post.2 react }) :
    op.Musters w where
  hung := by
    intro l hl
    rw [hrun] at hl ⊢
    rcases List.mem_append.mp hl with hold | hnew
    · exact hung l hold
    · rw [List.mem_singleton.mp hnew]
      exact hlive
  places := by
    intro p
    have hplaces : (op.run w).2.state.listeners.places =
        w.state.listeners.places ++ [(w.state.listeners.nextId, post)] := by
      rw [hrun]
      exact List.map_append
    rw [hplaces, henlists, hrun, List.mem_append, List.mem_singleton, Option.some.injEq, eq_comm]
    refine or_congr_left ⟨fun hp => ⟨hp, hkeeps _, ?_⟩, And.left⟩
    obtain ⟨l, hl, rfl⟩ := List.mem_map.mp hp
    exact hung l hl
  issued := by
    rw [hrun, henlists]
    rfl
  next := by
    intro p hp
    rw [henlists] at hp
    cases hp
    rw [hrun]
    exact ⟨rfl, hlive, hlive⟩

theorem musters_removeListener (hung : w.state.Hung) (l : ListenerId) :
    (Operation.removeListener l).Musters w where
  hung := fun r hr => hung r (List.mem_filter.mp hr).1
  places := by
    intro p
    change p ∈ (w.state.listeners.unregister l).places ↔ _
    unfold Listeners.places Listeners.unregister Keeps
    simp only [List.mem_map, List.mem_filter, decide_eq_true_eq]
    constructor
    · rintro ⟨r, ⟨hr, hne⟩, rfl⟩
      refine Or.inl ⟨⟨r, hr, rfl⟩, ?_, hung r hr⟩
      rintro h
      cases h
      exact hne rfl
    · rintro (⟨⟨r, hr, rfl⟩, hne, _⟩ | hnew)
      · refine ⟨r, ⟨hr, ?_⟩, rfl⟩
        rintro rfl
        exact hne rfl
      · cases hnew
  issued := rfl
  next := fun p hp => by cases hp

theorem Musters.of_answer {m : Step (Except Refusal ListenerId)} {post : NodeId × EventKind}
    (hung : w.state.Hung) (hpost : op.post? = some post)
    (hperform : op.perform = m >>= fun r => pure (.listener r)) (hkeeps : ∀ l, op.Keeps l)
    (h : (w.state.forest.contains post.1 = true ∧ ∃ react,
        m w = (Step.listen post.1 post.2 react >>= fun l => pure (.ok l)) w) ∨
      ∃ r, m w = (.ok (.error r), w)) : op.Musters w := by
  have hrun : (op.run w).2 = (m w).2 := by
    rw [op.run_eq, hperform]
    unfold Step.ignored
    rw [Step.map_snd, Step.map_snd]
  rcases h with ⟨hlive, react, hm⟩ | ⟨r, hm⟩
  · refine .of_register react hung hlive hkeeps ?_ ?_
    · unfold enlists
      rw [hpost, hperform, Step.bind_of_ok (hm.trans rfl)]
      rfl
    · rw [hrun, hm]
      rfl
  · refine .of_retains (.of_state_eq hung ?_) hkeeps ?_
    · rw [hrun, hm]
    · unfold enlists
      rw [hpost, hperform, Step.bind_of_ok hm]
      rfl

theorem musters_onSlotChange (hung : w.state.Hung) (node : NodeId)
    (react : List Emission → SlotChange → Reaction) :
    (Operation.onSlotChange node react).Musters w := by
  refine .of_answer hung rfl rfl (fun _ => nofun) ?_
  unfold Step.onSlotChange
  rw [Step.state_bind]
  by_cases hlive : w.state.forest.contains node = true
  · rw [if_pos hlive]
    exact Or.inl ⟨hlive, _, rfl⟩
  · rw [if_neg hlive]
    exact Or.inr ⟨_, rfl⟩

theorem musters_onView (hung : w.state.Hung) (container : NodeId)
    (react : List Emission → ViewEvent → Reaction) :
    (Operation.onView container react).Musters w := by
  refine .of_answer hung rfl rfl (fun _ => nofun) ?_
  unfold Step.onView
  rw [Step.state_bind]
  cases hc : w.state.containerAt container with
  | error r => exact Or.inr ⟨_, rfl⟩
  | ok c =>
    have hlive := Forest.contains_of_container? (Step.containerAt_eq_ok_iff.mp hc)
    exact Or.inl ⟨hlive, _, rfl⟩

theorem musters_onClose (hung : w.state.Hung) (container : NodeId)
    (react : List Emission → CloseEvent → Reaction) :
    (Operation.onClose container react).Musters w := by
  refine .of_answer hung rfl rfl (fun _ => nofun) ?_
  unfold Step.onClose
  rw [Step.state_bind]
  cases hc : w.state.containerAt container with
  | error r => exact Or.inr ⟨_, rfl⟩
  | ok c =>
    have hlive := Forest.contains_of_container? (Step.containerAt_eq_ok_iff.mp hc)
    exact Or.inl ⟨hlive, _, rfl⟩

theorem musters (op : Operation) (hw : w.state.Sound) (hung : w.state.Hung) : op.Musters w := by
  by_cases hidle : op.idle = true
  · exact .of_retains (retains_of_idle hidle hw hung) (keeps_of_idle hidle)
      (enlists_of_idle hidle)
  · cases op with
    | onSlotChange node react => exact musters_onSlotChange hung node react
    | onView container react => exact musters_onView hung container react
    | onClose container react => exact musters_onClose hung container react
    | removeListener l => exact musters_removeListener hung l
    | _ => exact absurd rfl hidle

end Musters

end Operation

end Stowage
