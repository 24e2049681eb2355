import Stowage.Proofs.Commits
import Stowage.Proofs.Events
import Stowage.Proofs.Forest.Roots
import Stowage.Proofs.Listeners

/-!
# What is given out about a change

A commit calls the listeners of the slot and of what lies above it, then those of the other
containers that bind it, and then hands over a message for every viewer of a container that binds
it. Whom it concerns is read from what commits leave alone, so a list of commits tells of its
changes one after the other.
-/

namespace Stowage

set_option autoImplicit false

def ClientView.lacks (view : ClientView) (c : Change) : Bool := !view.knows c.slot c.after

def ClientView.after (view : ClientView) (told : List Change) : ClientView :=
  told.foldl (fun v c => v.learn c.slot c.after) view

def Container.hear (c : Container) (slot : SlotId) (t : Option Stack) : Container :=
  { c with viewers := c.viewers.map fun p => (p.1, p.2.learn slot t) }

namespace State

def callsFor (s : State) (c : Change) : List (ListenerId × Event) :=
  (s.changeTargets c.slot).flatMap fun node =>
    (s.listeners.hearing (.slotChange ⟨node, c.slot, c.before, c.after⟩)).map fun l =>
      (l.id, .slotChange ⟨node, c.slot, c.before, c.after⟩)

def deltasIn (s : State) (who : ClientView → Bool) (slot : SlotId) (t : Option Stack)
    (id : NodeId) : List Message :=
  match s.forest.container? id with
  | none => []
  | some c => match c.wireIndex slot with
    | none => []
    | some wire => (c.viewers.filter fun p => who p.2).map fun p => .delta p.1 wire t

def deltas (s : State) (who : ClientView → Bool) (slot : SlotId) (t : Option Stack) :
    List Message :=
  s.containers.flatMap (s.deltasIn who slot t)

def handed (s : State) (ms : List Message) : List Emission :=
  ms.flatMap fun m => events (s.transport.carry m)

/-- All events about a change of which `who` are to be told: calls first, then messages. -/
def announcement (s : State) (who : ClientView → Bool) (c : Change) : List Emission :=
  calls (s.callsFor c) ++ s.handed (s.deltas who c.slot c.after)

/-- The events about changes, after `told` were announced. Who knows of one already is not told. -/
def announcements (s : State) (told : List Change) : List Change → List Emission
  | [] => []
  | c :: rest =>
    s.announcement (fun view => (view.after told).lacks c) c ++ s.announcements (told ++ [c]) rest

end State

section Concerned
variable {w w' : World}

theorem Touch.reach (h : Touch w w') : w'.state.forest.reach = w.state.forest.reach := by
  cases h with
  | put t hs => exact Forest.reach_modify _ _ _
  | tell h =>
    cases h with
    | give _ => rfl
    | tell _ _ _ _ => exact Forest.reach_modify _ _ _

theorem Touches.reach (h : Touches w w') : w'.state.forest.reach = w.state.forest.reach := by
  induction h with
  | refl => rfl
  | tail _ hstep ih => rw [hstep.reach, ih]

theorem Touches.ancestors (h : Touches w w') (x : NodeId) :
    w'.state.forest.ancestors x = w.state.forest.ancestors x := by
  unfold Forest.ancestors
  rw [h.reach, h.kept.alike.sameOutline.ancestorsUpTo]

theorem Touches.changeTargets (h : Touches w w') (slot : SlotId) :
    w'.state.changeTargets slot = w.state.changeTargets slot := by
  have hbare : ∀ o : Option Container, (o.any fun c => c.binds slot) =
      (o.map Container.bare).any fun c => c.binds slot := by
    intro o
    cases o <;> rfl
  have hbinds : ∀ id, ((w'.state.forest.container? id).any fun c => c.binds slot) =
      (w.state.forest.container? id).any fun c => c.binds slot := by
    intro id
    rw [hbare, h.kept.alike.sameOutline.container?, ← hbare]
  unfold State.changeTargets
  simp only [h.ancestors, h.kept.containers, hbinds]

theorem Touches.callsFor (h : Touches w w') (c : Change) :
    w'.state.callsFor c = w.state.callsFor c := by
  unfold State.callsFor
  rw [h.changeTargets, h.listeners]

theorem State.deltasIn_hear {s u : State} {id : NodeId} {x : SlotId} {a : Option Stack}
    (h : u.forest.container? id = (s.forest.container? id).map fun c => c.hear x a)
    (who : ClientView → Bool) (slot : SlotId) (t : Option Stack) :
    u.deltasIn who slot t id = s.deltasIn (fun view => who (view.learn x a)) slot t id := by
  unfold deltasIn
  cases hc : s.forest.container? id with
  | none =>
    rw [hc, Option.map_none] at h
    rw [h]
  | some c =>
    rw [hc, Option.map_some] at h
    have hwire : (c.hear x a).wireIndex slot = c.wireIndex slot := rfl
    simp only [h, hwire]
    cases c.wireIndex slot with
    | none => rfl
    | some wire =>
      simp only [Container.hear, List.filter_map, List.map_map, Function.comp_def]

section Heard
variable (h : Touches w w') {c : Change} (hheard : ∀ id, w'.state.forest.container? id =
  (w.state.forest.container? id).map fun k => k.hear c.slot c.after)
include h hheard

/-- After a change that all viewers heard of, another is announced to those who lack it then. -/
theorem Touches.announcement (who : ClientView → Bool) (d : Change) :
    w'.state.announcement who d =
      w.state.announcement (fun view => who (view.learn c.slot c.after)) d := by
  have hdeltas : w'.state.deltas who d.slot d.after =
      w.state.deltas (fun view => who (view.learn c.slot c.after)) d.slot d.after := by
    unfold State.deltas
    rw [h.kept.containers]
    exact List.flatMap_congr fun id _ => State.deltasIn_hear (hheard id) who d.slot d.after
  unfold State.announcement State.handed
  rw [h.callsFor, hdeltas, h.kept.transport]

theorem Touches.announcements (told : List Change) (cs : List Change) :
    w'.state.announcements told cs = w.state.announcements (c :: told) cs := by
  induction cs generalizing told with
  | nil => rfl
  | cons d rest ih =>
    unfold State.announcements
    rw [h.announcement hheard, ih]
    rfl

end Heard

/-- Where a change is news to all viewers, it is announced to all. -/
theorem State.announcement_of_news {s : State} {who : ClientView → Bool} {c : Change}
    (h : ∀ {id : NodeId} {k : Container}, s.forest.container? id = some k →
      ∀ p ∈ k.viewers, who p.2 = true) :
    s.announcement who c = s.announcement (fun _ => true) c := by
  have hdeltas : s.deltas who c.slot c.after = s.deltas (fun _ => true) c.slot c.after := by
    refine List.flatMap_congr fun id _ => ?_
    unfold deltasIn
    cases hk : s.forest.container? id with
    | none => rfl
    | some k =>
      dsimp only
      rw [List.filter_congr fun p hp => h hk p hp]
  unfold announcement
  rw [hdeltas]

theorem World.lacks_of_agrees {put : SlotId × Option Stack} {c : Change}
    (hc : w.state.changeOf put = some c) (hagrees : ∀ v, w.Agrees v c.slot) {id : NodeId}
    {k : Container} (hk : w.state.forest.container? id = some k) :
    ∀ p ∈ k.viewers, p.2.lacks c = true := by
  obtain ⟨_, hne, s, hs, hbefore⟩ := State.changeOf_eq_some hc
  intro p hp
  unfold ClientView.lacks
  rw [Bool.not_eq_true', ← Bool.not_eq_true]
  intro hknows
  obtain ⟨r, hr, hrt⟩ := List.any_eq_true.mp hknows
  obtain ⟨hslot, hknown⟩ := of_decide_eq_true hrt
  have hheld := hagrees p.1 id k p.2 hk hp (Forest.contains_of_slot hs) r hr hslot
  rw [State.contents_of_slot hs, hbefore] at hheld
  exact hne (hheld.symm.trans hknown)

end Concerned

section Hearing
variable {slot : SlotId} {t : Option Stack}

theorem ClientView.learn_eq_self {view : ClientView}
    (h : ∀ r ∈ view.rows, r.slot = slot → r.lastKnown = t) : view.learn slot t = view := by
  have hrow : ∀ r ∈ view.rows, (if r.slot = slot then { r with lastKnown := t } else r) = r := by
    intro r hr
    split
    · rename_i hslot
      rw [← h r hr hslot]
    · rfl
  unfold learn
  rw [List.map_congr_left hrow, List.map_id']

theorem State.Sound.learn_of_knows {s : State} (hs : s.Sound) {id : NodeId} {c : Container}
    (hc : s.forest.container? id = some c) {p : ViewerId × ClientView} (hp : p ∈ c.viewers)
    (hknows : p.2.knows slot t = true) : p.2.learn slot t = p.2 := by
  apply ClientView.learn_eq_self
  intro r hr hslot
  obtain ⟨q, hq, hqt⟩ := List.any_eq_true.mp hknows
  obtain ⟨hqslot, hqknown⟩ := of_decide_eq_true hqt
  rw [← ClientView.row_eq_of_slot (hs.bound hc hp) (hs.forest.nodup_bound hc) hq hr
    (hqslot.trans hslot.symm)]
  exact hqknown

theorem State.Sound.hear_of_unbound {s : State} (hs : s.Sound) {id : NodeId} {c : Container}
    (hc : s.forest.container? id = some c) (hnone : c.wireIndex slot = none) :
    c.hear slot t = c := by
  have hview : ∀ p ∈ c.viewers, (p.1, p.2.learn slot t) = p := by
    intro p hp
    rw [ClientView.learn_eq_self]
    intro r hr hslot
    have hmem := ClientView.mem_bindings_of_row (hs.bound hc hp) hr
    rw [hslot] at hmem
    exact absurd hmem (Container.not_mem_bindings_of_wireIndex hnone)
  unfold Container.hear
  rw [List.map_congr_left hview, List.map_id']

theorem Container.viewers_learn {c : Container} {v : ViewerId} {view : ClientView}
    {front behind : List (ViewerId × ClientView)}
    (h : c.viewers = front ++ (v, view) :: behind) (hnodup : (c.viewers.map Prod.fst).Nodup) :
    (c.learn v slot t).viewers = front ++ (v, view.learn slot t) :: behind := by
  have hstay : ∀ {l : List (ViewerId × ClientView)}, v ∉ l.map Prod.fst →
      l.map (fun p => (p.1, if p.1 = v then p.2.learn slot t else p.2)) = l := by
    intro l hv
    rw [List.map_congr_left (g := id), List.map_id]
    intro p hp
    rw [if_neg fun he => hv (List.mem_map.mpr ⟨p, hp, he⟩)]
    rfl
  rw [h, List.map_append, List.map_cons] at hnodup
  obtain ⟨_, hbehind, hfront⟩ := List.nodup_append.mp hnodup
  unfold learn
  rw [h, List.map_append, List.map_cons, hstay, hstay (List.nodup_cons.mp hbehind).1]
  · simp
  · intro hmem
    exact hfront v hmem v List.mem_cons_self rfl

end Hearing

namespace Step
variable {w w' : World} {slot : SlotId} {t : Option Stack}

theorem heard_notifySlotChange {before after : Option Stack}
    (h : notifySlotChange slot before after w = (.ok (), w')) :
    ∃ es, w' = w.give es ∧ heard es = w.state.callsFor ⟨slot, before, after⟩ := by
  refine heard_each (fun node u u' hu hnotify => ?_) h
  obtain ⟨es, hes, hheard⟩ := heard_notify hnotify
  rw [hu] at hheard
  exact ⟨es, hes, hheard⟩

theorem notifySlotChange_emits {before after : Option Stack}
    (h : notifySlotChange slot before after w = (.ok (), w')) :
    w'.state = w.state ∧ w.Emits (calls (w.state.callsFor ⟨slot, before, after⟩)) w' := by
  obtain ⟨fs, hfs, hof⟩ := (inert_notifySlotChange slot before after).ok h
  obtain ⟨es, rfl, hheard⟩ := heard_notifySlotChange h
  have hsame : es = fs := List.append_cancel_left (congrArg World.trace hfs)
  rw [← hheard, ← events_of (hsame ▸ hof)]
  exact ⟨rfl, .of_trace rfl⟩

structure Informs (slot : SlotId) (t : Option Stack) (ids : List NodeId) (w : World)
    (ms : List Message) (w' : World) : Prop where
  emits : w.Emits (w.state.handed ms) w'
  transport : w'.state.transport = w.state.transport
  views : ∀ x, w'.state.forest.container? x = if x ∈ ids then
    (w.state.forest.container? x).map fun c => c.hear slot t else w.state.forest.container? x

namespace Informs
variable {u : World} {ms ns : List Message} {id : NodeId} {ids : List NodeId}

theorem nil (slot : SlotId) (t : Option Stack) (w : World) : Informs slot t [] w [] w :=
  ⟨.refl w, rfl, fun _ => rfl⟩

theorem idle (h : (w.state.forest.container? id).map (fun c => c.hear slot t) =
    w.state.forest.container? id) : Informs slot t [id] w [] w := by
  refine ⟨.refl w, rfl, ?_⟩
  intro x
  split
  · rename_i hx
    rw [List.mem_singleton.mp hx, h]
  · rfl

theorem cons (hfirst : Informs slot t [id] w ms u) (hrest : Informs slot t ids u ns w')
    (hid : id ∉ ids) : Informs slot t (id :: ids) w (ms ++ ns) w' := by
  refine ⟨?_, hrest.transport.trans hfirst.transport, ?_⟩
  · have hboth := hfirst.emits.trans hrest.emits
    unfold State.handed at *
    rw [hfirst.transport, ← List.flatMap_append] at hboth
    exact hboth
  · intro x
    rw [hrest.views, hfirst.views]
    by_cases hx : x = id
    · simp [hx, hid]
    · simp [hx]

end Informs

section Telling
variable {id : NodeId} {wire : Int} {c : Container}

structure Teaches (id : NodeId) (c : Container) (ms : List Message)
    (viewers : List (ViewerId × ClientView)) (w w' : World) : Prop where
  emits : w.Emits (w.state.handed ms) w'
  transport : w'.state.transport = w.state.transport
  views : ∀ x, w'.state.forest.container? x =
    if x = id then some { c with viewers := viewers } else w.state.forest.container? x

theorem Teaches.trans {u : World} {ms ns : List Message}
    {taught viewers : List (ViewerId × ClientView)} (hfirst : Teaches id c ms taught w u)
    (hrest : Teaches id { c with viewers := taught } ns viewers u w') :
    Teaches id c (ms ++ ns) viewers w w' := by
  refine ⟨?_, hrest.transport.trans hfirst.transport, ?_⟩
  · have hboth := hfirst.emits.trans hrest.emits
    unfold State.handed at *
    rw [hfirst.transport, ← List.flatMap_append] at hboth
    exact hboth
  · intro x
    rw [hrest.views, hfirst.views]
    split <;> rfl

theorem tellViewer_teaches (front behind : List (ViewerId × ClientView)) {p : ViewerId × ClientView}
    (hc : w.state.forest.container? id = some c) (hviewers : c.viewers = front ++ p :: behind)
    (hnodup : (c.viewers.map Prod.fst).Nodup)
    (hknown : p.2.knows slot t = true → p.2.learn slot t = p.2) :
    ∃ u, tellViewer id wire slot t p.1 p.2 w = (.ok (), u) ∧
      Teaches id c (([p].filter fun p => !p.2.knows slot t).map fun p => .delta p.1 wire t)
        (front ++ (p.1, p.2.learn slot t) :: behind) w u := by
  obtain ⟨v, view⟩ := p
  unfold tellViewer
  cases hknows : view.knows slot t with
  | true =>
    refine ⟨w, rfl, ?_, rfl, ?_⟩
    · simpa [hknows, State.handed] using World.Emits.refl w
    · intro x
      split
      · rename_i hx
        rw [hx, hc, hknown hknows, ← hviewers]
      · rfl
  | false =>
    let u := (w.give [.logged
      (.trace s!"Sync slot {wire} of container {id.describe} to {v.describe}")]).tell
        id v slot wire t
    have hdelta : w.Emits (events (w.state.transport.carry (.delta v wire t))) u :=
      ⟨_, List.append_assoc _ _ _, rfl⟩
    refine ⟨u, rfl, ?_, rfl, ?_⟩
    · simpa [hknows, State.handed] using hdelta
    · intro x
      rw [World.container?_tell]
      split
      · rw [← Container.viewers_learn hviewers hnodup]
        exact congrArg _ hc
      · rfl

theorem tellEach_teaches (front rest : List (ViewerId × ClientView))
    (hc : w.state.forest.container? id = some c) (hviewers : c.viewers = front ++ rest)
    (hnodup : (c.viewers.map Prod.fst).Nodup)
    (hknown : ∀ p ∈ rest, p.2.knows slot t = true → p.2.learn slot t = p.2) :
    ∃ w', each (fun p => tellViewer id wire slot t p.1 p.2) rest w = (.ok (), w') ∧
      Teaches id c ((rest.filter fun p => !p.2.knows slot t).map fun p => .delta p.1 wire t)
        (front ++ rest.map fun p => (p.1, p.2.learn slot t)) w w' := by
  induction rest generalizing w c front with
  | nil =>
    refine ⟨w, rfl, .refl w, rfl, ?_⟩
    intro x
    split
    · rename_i hx
      rw [hx, hc, List.map_nil, ← hviewers]
    · rfl
  | cons p rest ih =>
    obtain ⟨u, hfirst, htaught⟩ := tellViewer_teaches front rest hc hviewers hnodup
      (hknown p List.mem_cons_self)
    obtain ⟨w', hrun, hrest⟩ := ih (front ++ [(p.1, p.2.learn slot t)])
      ((htaught.views id).trans (if_pos rfl)) (by rw [List.append_assoc]; rfl)
      (by simpa [hviewers] using hnodup) fun q hq => hknown q (List.mem_cons_of_mem _ hq)
    refine ⟨w', by rw [each_cons, bind_of_ok hfirst, hrun], ?_⟩
    have hboth := htaught.trans hrest
    rw [← List.map_append, ← List.filter_append, List.append_assoc] at hboth
    exact hboth

theorem tellViewersOf_emits (hw : w.state.Sound) (slot : SlotId) (t : Option Stack)
    (id : NodeId) : ∃ w', tellViewersOf slot t id w = (.ok (), w') ∧ Informs slot t [id] w
      (w.state.deltasIn (fun view => !view.knows slot t) slot t id) w' := by
  unfold tellViewersOf State.deltasIn
  rw [state_bind]
  cases hc : w.state.forest.container? id with
  | none =>
    refine ⟨w, rfl, .idle ?_⟩
    rw [hc, Option.map_none]
  | some c =>
    dsimp only
    cases hwire : c.wireIndex slot with
    | none =>
      refine ⟨w, rfl, .idle ?_⟩
      rw [hc, Option.map_some, hw.hear_of_unbound hc hwire]
    | some wire =>
      obtain ⟨w', hrun, htaught⟩ := tellEach_teaches [] c.viewers hc rfl
        (hw.ordered hc).nodup fun p hp => hw.learn_of_knows hc hp
      refine ⟨w', hrun, htaught.emits, htaught.transport, ?_⟩
      intro x
      rw [htaught.views]
      by_cases hx : x = id
      · rw [if_pos hx, if_pos (List.mem_singleton.mpr hx), hx, hc]
        rfl
      · rw [if_neg hx, if_neg (by simpa using hx)]

end Telling

/-- One container is told after the other. No container comes twice, so what one is told of is as it
was at the start. -/
theorem tellAll_emits (hw : w.state.Sound) (slot : SlotId) (t : Option Stack) {ids : List NodeId}
    (hnodup : ids.Nodup) : ∃ w', each (tellViewersOf slot t) ids w = (.ok (), w') ∧
      Informs slot t ids w
        (ids.flatMap (w.state.deltasIn (fun view => !view.knows slot t) slot t)) w' := by
  induction ids generalizing w with
  | nil => exact ⟨w, rfl, .nil slot t w⟩
  | cons id rest ih =>
    obtain ⟨hid, hrest⟩ := List.nodup_cons.mp hnodup
    obtain ⟨u, hfirst, hinforms⟩ := tellViewersOf_emits hw slot t id
    have hu : u.state.Sound := by
      obtain ⟨u', hfirst', htells, _⟩ := tellViewersOf_told hw slot t id
      rw [hfirst] at hfirst'
      cases hfirst'
      exact htells.touches.kept.sound hw
    obtain ⟨w', hrun, hinforms'⟩ := ih hu hrest
    have hdeltas : rest.flatMap (u.state.deltasIn (fun view => !view.knows slot t) slot t) =
        rest.flatMap (w.state.deltasIn (fun view => !view.knows slot t) slot t) := by
      refine List.flatMap_congr fun x hx => ?_
      have hne : x ∉ [id] := by
        intro he
        rw [List.mem_singleton.mp he] at hx
        exact hid hx
      unfold State.deltasIn
      rw [hinforms.views, if_neg hne]
    rw [hdeltas] at hinforms'
    exact ⟨w', by rw [each_cons, bind_of_ok hfirst, hrun], hinforms.cons hinforms' hid⟩

theorem tellViewers_emits (hw : w.state.Sound) (slot : SlotId) :
    ∃ w', tellViewers slot w = (.ok (), w') ∧
      w.Emits (w.state.handed (w.state.deltas (fun view => !view.knows slot (w.state.contents slot))
        slot (w.state.contents slot))) w' ∧
      ∀ x, w'.state.forest.container? x =
        (w.state.forest.container? x).map fun c => c.hear slot (w.state.contents slot) := by
  obtain ⟨w', hrun, hinforms⟩ :=
    tellAll_emits hw slot (w.state.contents slot) hw.nodup_containers
  refine ⟨w', hrun, hinforms.emits, ?_⟩
  intro x
  rw [hinforms.views]
  split
  · rfl
  · rename_i hx
    cases hc : w.state.forest.container? x with
    | none => rfl
    | some c => exact absurd ((hw.mem_containers x).mpr ⟨c, hc⟩) hx

/-- A change is announced to all it concerns but those who know, and then all know. -/
theorem replaceContents_emits {s : Slot} {before after : Option Stack} {c : Change}
    (hw : w.state.Sound) (hs : w.state.forest.slot slot = some s)
    (h : replaceContents slot before after w = (.ok c, w')) :
    w.Emits (w.state.announcement (fun view => !view.knows slot after) ⟨slot, before, after⟩) w' ∧
      ∀ x, w'.state.forest.container? x =
        (w.state.forest.container? x).map fun c => c.hear slot after := by
  have hput : Touches w (w.put slot after) := .single (.put w after hs)
  have hviews : ∀ x, (w.put slot after).state.forest.container? x = w.state.forest.container? x :=
    fun x => w.state.forest.container?_setContents slot x after
  unfold replaceContents updateForest at h
  rw [update_bind] at h
  obtain ⟨_, u, hnotify, h⟩ := bind_eq_ok h
  obtain ⟨_, u', htell, h⟩ := bind_eq_ok h
  cases h
  change notifySlotChange slot before after (w.put slot after) = _ at hnotify
  obtain ⟨hstate, hcalls⟩ := notifySlotChange_emits hnotify
  have hcontents : u.state.contents slot = after := by
    rw [hstate]
    have hset := Forest.contents_setContents hs slot after
    rwa [if_pos rfl] at hset
  have hu : u.state.Sound := by
    rw [hstate]
    exact hput.kept.sound hw
  obtain ⟨v, hrun, hdeltas, hheard⟩ := tellViewers_emits hu slot
  rw [hrun] at htell
  cases htell
  rw [hcontents, hstate] at hdeltas hheard
  have hsame : (w.put slot after).state.deltas (fun view => !view.knows slot after) slot after =
      w.state.deltas (fun view => !view.knows slot after) slot after := by
    unfold State.deltas State.deltasIn
    simp only [hviews]
    rfl
  rw [hsame] at hdeltas
  rw [hput.callsFor] at hcalls
  refine ⟨hcalls.trans hdeltas, ?_⟩
  intro x
  rw [hheard, hviews]

theorem commit_emits {after : Option Stack} {c : Change} (hw : w.state.Sound)
    (h : commit slot after w = (.ok (some c), w')) :
    w.Emits (w.state.announcement (fun view => view.lacks c) c) w' ∧
      ∀ x, w'.state.forest.container? x =
        (w.state.forest.container? x).map fun k => k.hear c.slot c.after := by
  rcases commit_cases h with ⟨_, hnone, _⟩ | ⟨s, hs, _, hsome, hreplace⟩
  · cases hnone
  · cases hsome
    exact replaceContents_emits hw hs hreplace

theorem commitAll_emits {puts : List (SlotId × Option Stack)} {cs : List Change}
    (hw : w.state.Sound) (h : commitAll puts w = (.ok cs, w')) :
    w.Emits (w.state.announcements [] cs) w' := by
  induction puts generalizing w cs with
  | nil =>
    cases h
    exact .refl _
  | cons put rest ih =>
    obtain ⟨x, after⟩ := put
    rw [commitAll_cons] at h
    obtain ⟨first, u, hfirst, h⟩ := bind_eq_ok h
    obtain ⟨others, u', hothers, h⟩ := bind_eq_ok h
    cases h
    cases first with
    | none =>
      rw [commit_none hfirst] at hothers
      exact ih hw hothers
    | some c =>
      have htouches := (tidy_commit x after w hw).1
      rw [hfirst] at htouches
      obtain ⟨hemits, hheard⟩ := commit_emits hw hfirst
      have hrest := ih (htouches.kept.sound hw) hothers
      rw [htouches.announcements hheard] at hrest
      exact hemits.trans hrest

/-- If all were last told what the changed slots held, no one is left out. -/
theorem commitAll_emits_all {puts : List (SlotId × Option Stack)} {cs : List Change}
    (hw : w.state.Sound) (hagrees : ∀ c ∈ cs, ∀ v, w.Agrees v c.slot)
    (h : commitAll puts w = (.ok cs, w')) :
    w.Emits (cs.flatMap (w.state.announcement fun _ => true)) w' := by
  induction puts generalizing w cs with
  | nil =>
    cases h
    exact .refl _
  | cons put rest ih =>
    obtain ⟨x, after⟩ := put
    rw [commitAll_cons] at h
    obtain ⟨first, u, hfirst, h⟩ := bind_eq_ok h
    obtain ⟨others, u', hothers, h⟩ := bind_eq_ok h
    cases h
    cases hchange : first with
    | none =>
      rw [hchange] at hfirst hagrees
      rw [commit_none hfirst] at hothers
      exact ih hw hagrees hothers
    | some c =>
      rw [hchange] at hfirst hagrees
      obtain ⟨htouches, hcalm⟩ := tidy_commit x after w hw
      rw [hfirst] at htouches hcalm
      obtain ⟨hemits, hheard⟩ := commit_emits hw hfirst
      have hnews : w.state.announcement (fun view => view.lacks c) c =
          w.state.announcement (fun _ => true) c :=
        State.announcement_of_news
          (World.lacks_of_agrees (commit_ok hfirst).symm (hagrees c List.mem_cons_self))
      have hrest : u.Emits (others.flatMap (u.state.announcement fun _ => true)) w' :=
        ih (htouches.kept.sound hw)
          (fun d hd v => hcalm _ rfl v d.slot (hagrees d (List.mem_cons_of_mem _ hd) v)) hothers
      have hsame : others.flatMap (u.state.announcement fun _ => true) =
          others.flatMap (w.state.announcement fun _ => true) :=
        List.flatMap_congr fun d _ => htouches.announcement hheard (fun _ => true) d
      rw [hsame] at hrest
      rw [hnews] at hemits
      exact hemits.trans hrest

end Step

end Stowage
