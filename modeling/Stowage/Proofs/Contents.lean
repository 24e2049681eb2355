import Stowage.Container.ShiftClick
import Stowage.Proofs.Moves

/-!
# Contents and what viewers know of them

Committing a change puts the contents into the slot and then tells every viewer who does not know.
When nothing escapes, a viewer who knew what the slots hold knows it again afterwards. All
operations on contents are sequences of commits and inherit this.
-/

namespace Stowage

set_option autoImplicit false

open Relation

namespace World

def Agrees (w : World) (v : ViewerId) (x : SlotId) : Prop :=
  ∀ (id : NodeId) (c : Container) (view : ClientView), w.state.forest.container? id = some c →
    (v, view) ∈ c.viewers → w.state.forest.contains x = true →
    ∀ r ∈ view.rows, r.slot = x → r.lastKnown = w.state.contents x

theorem Agrees.transfer {w w' : World} {v : ViewerId} {x : SlotId} (h : w.Agrees v x)
    (hviews : ∀ {id c view}, w'.state.forest.container? id = some c → (v, view) ∈ c.viewers →
      ∃ y d, w.state.forest.container? y = some d ∧ (v, view) ∈ d.viewers)
    (hcontents : w'.state.forest.contains x = true →
      w.state.forest.contains x = true ∧ w'.state.contents x = w.state.contents x) :
    w'.Agrees v x := by
  intro id c view hc hv hlive r hr hrx
  obtain ⟨y, d, hd, hvd⟩ := hviews hc hv
  obtain ⟨hx, hsame⟩ := hcontents hlive
  rw [hsame]
  exact h y d view hd hvd hx r hr hrx

/-- No viewer who agreed with a slot fell behind. -/
def Calm (w w' : World) : Prop := ∀ v x, w.Agrees v x → w'.Agrees v x

theorem Calm.refl (w : World) : Calm w w := fun _ _ h => h

theorem Calm.trans {u v w : World} (huv : Calm u v) (hvw : Calm v w) : Calm u w :=
  fun v x h => hvw v x (huv v x h)

theorem Calm.of_state_eq {w w' : World} (h : w'.state = w.state) : Calm w w' := by
  intro v x hagrees
  unfold Agrees
  rw [h]
  exact hagrees

def Told (w : World) (id : NodeId) (slot : SlotId) (t : Option Stack) : Prop :=
  ∀ {c : Container}, w.state.forest.container? id = some c → ∀ p ∈ c.viewers,
    ∀ r ∈ p.2.rows, r.slot = slot → r.lastKnown = t

def ToldTo (w : World) (id : NodeId) (v : ViewerId) (slot : SlotId) (t : Option Stack) : Prop :=
  ∀ {c : Container}, w.state.forest.container? id = some c → ∀ p ∈ c.viewers, p.1 = v →
    ∀ r ∈ p.2.rows, r.slot = slot → r.lastKnown = t

end World

section Telling
variable {w w' : World} {slot : SlotId} {t : Option Stack}

theorem Tell.rows (h : Tell slot t w w') {id : NodeId} {c' : Container}
    (hc' : w'.state.forest.container? id = some c') {p' : ViewerId × ClientView}
    (hp' : p' ∈ c'.viewers) : ∃ c p, w.state.forest.container? id = some c ∧ p ∈ c.viewers ∧
      p.1 = p'.1 ∧ ∀ r' ∈ p'.2.rows, ∃ r ∈ p.2.rows,
        r' = r ∨ r.slot = slot ∧ r' = { r with lastKnown := t } := by
  have hsame : w.state.forest.container? id = some c' →
      ∃ c p, w.state.forest.container? id = some c ∧ p ∈ c.viewers ∧
        p.1 = p'.1 ∧ ∀ r' ∈ p'.2.rows, ∃ r ∈ p.2.rows,
          r' = r ∨ r.slot = slot ∧ r' = { r with lastKnown := t } :=
    fun hc => ⟨c', p', hc, hp', rfl, fun r' hr' => ⟨r', hr', Or.inl rfl⟩⟩
  cases h with
  | give _ => exact hsame hc'
  | @tell x c v view wire hc hv hw hk =>
    rw [World.container?_tell] at hc'
    split at hc'
    · rename_i hx
      rw [hc, Option.map_some, Option.some.injEq] at hc'
      rw [← hc'] at hp'
      obtain ⟨p, hp, rfl⟩ := Container.mem_learn_iff.mp hp'
      refine ⟨c, p, by rw [hx]; exact hc, hp, rfl, ?_⟩
      intro r' hr'
      by_cases hpv : p.1 = v
      · simp only [if_pos hpv] at hr'
        obtain ⟨r, hr, rfl⟩ := ClientView.mem_learn_iff.mp hr'
        refine ⟨r, hr, ?_⟩
        by_cases hslot : r.slot = slot
        · exact Or.inr ⟨hslot, if_pos hslot⟩
        · exact Or.inl (if_neg hslot)
      · simp only [if_neg hpv] at hr'
        exact ⟨r', hr', Or.inl rfl⟩
    · exact hsame hc'

theorem Tells.rows (h : Tells slot t w w') {id : NodeId} {c' : Container}
    (hc' : w'.state.forest.container? id = some c') {p' : ViewerId × ClientView}
    (hp' : p' ∈ c'.viewers) : ∃ c p, w.state.forest.container? id = some c ∧ p ∈ c.viewers ∧
      p.1 = p'.1 ∧ ∀ r' ∈ p'.2.rows, ∃ r ∈ p.2.rows,
        r' = r ∨ r.slot = slot ∧ r' = { r with lastKnown := t } := by
  induction h generalizing c' p' with
  | refl => exact ⟨c', p', hc', hp', rfl, fun r' hr' => ⟨r', hr', Or.inl rfl⟩⟩
  | tail _ hstep ih =>
    obtain ⟨c₁, p₁, hc₁, hp₁, he₁, hrows₁⟩ := hstep.rows hc' hp'
    obtain ⟨c, p, hc, hp, he, hrows⟩ := ih hc₁ hp₁
    refine ⟨c, p, hc, hp, he.trans he₁, ?_⟩
    intro r' hr'
    obtain ⟨r₁, hr₁, hcase₁⟩ := hrows₁ r' hr'
    obtain ⟨r, hr, hcase⟩ := hrows r₁ hr₁
    refine ⟨r, hr, ?_⟩
    rcases hcase with rfl | ⟨hslot, rfl⟩
    · exact hcase₁
    · rcases hcase₁ with rfl | ⟨_, rfl⟩
      · exact Or.inr ⟨hslot, rfl⟩
      · exact Or.inr ⟨hslot, rfl⟩

theorem Tells.toldTo (h : Tells slot t w w') {id : NodeId} {v : ViewerId}
    (htold : w.ToldTo id v slot t) : w'.ToldTo id v slot t := by
  intro c' hc' p' hp' hv r' hr' hslot
  obtain ⟨c, p, hc, hp, he, hrows⟩ := h.rows hc' hp'
  obtain ⟨r, hr, hcase⟩ := hrows r' hr'
  rcases hcase with rfl | ⟨_, rfl⟩
  · exact htold hc p hp (he.trans hv) _ hr hslot
  · rfl

theorem Tells.told (h : Tells slot t w w') {id : NodeId} (htold : w.Told id slot t) :
    w'.Told id slot t := by
  intro c' hc' p' hp'
  exact h.toldTo (fun hc p hp _ => htold hc p hp) hc' p' hp' rfl

theorem Tells.agrees_of_ne (h : Tells slot t w w') {v : ViewerId} {x : SlotId} (hx : x ≠ slot)
    (hagrees : w.Agrees v x) : w'.Agrees v x := by
  intro id c' view' hc' hv' hlive r' hr' hrx
  obtain ⟨c, p, hc, hp, he, hrows⟩ := h.rows hc' hv'
  obtain ⟨r, hr, hcase⟩ := hrows r' hr'
  rw [h.contents_eq]
  rw [h.touches.kept.contains] at hlive
  obtain ⟨u, view⟩ := p
  have hu : u = v := he
  rcases hcase with rfl | ⟨hslot, rfl⟩
  · rw [hu] at hp
    exact hagrees id c view hc hp hlive _ hr hrx
  · exact absurd (hrx.symm.trans hslot) hx

namespace Step

theorem tellViewer_told {id : NodeId} {c : Container} {v : ViewerId} {view : ClientView}
    {wire : Int} (hw : w.state.Sound) (hc : w.state.forest.container? id = some c)
    (hv : (v, view) ∈ c.viewers) (hwire : c.wireIndex slot = some wire) :
    ∃ w' c', tellViewer id wire slot t v view w = (.ok (), w') ∧ Tells slot t w w' ∧
      w'.ToldTo id v slot t ∧ w'.state.forest.container? id = some c' ∧ c'.frame = c.frame ∧
      ∀ p ∈ c.viewers, p.1 ≠ v → p ∈ c'.viewers := by
  have hnodup := (hw.ordered hc).nodup
  have hbound := hw.bound hc hv
  have hslots := hw.forest.nodup_bound hc
  unfold tellViewer
  split
  · rename_i hknows
    refine ⟨w, c, rfl, .refl, ?_, hc, rfl, fun p hp _ => hp⟩
    intro d hd p hp hpv r hr hslot
    rw [hc] at hd
    cases hd
    have hview : p = (v, view) := List.inj_on_of_nodup_map hnodup hp hv hpv
    rw [hview] at hr
    obtain ⟨q, hq, hqt⟩ := List.any_eq_true.mp hknows
    simp only [decide_eq_true_eq] at hqt
    have hqr := ClientView.row_eq_of_slot hbound hslots hq hr (hqt.1.trans hslot.symm)
    rw [← hqr]
    exact hqt.2
  · rename_i hknows
    have hknows : view.knows slot t = false := by simpa using hknows
    let note : LogRecord :=
      .trace s!"Sync slot {wire} of container {id.describe} to {v.describe}"
    have hgive : Tell slot t w (w.give [.logged note]) := by
      apply Tell.give
      intro e he
      rw [List.mem_singleton.mp he]
      trivial
    have htell : Tell slot t (w.give [.logged note])
        ((w.give [.logged note]).tell id v slot wire t) :=
      Tell.tell (w.give [.logged note]) hc hv hwire hknows
    refine ⟨(w.give [.logged note]).tell id v slot wire t, c.learn v slot t, rfl,
      (ReflTransGen.single hgive).tail htell, ?_, ?_, c.frame_learn v slot t, ?_⟩
    · intro d hd p hp hpv r hr hslot
      rw [World.container?_tell, if_pos rfl] at hd
      change (w.state.forest.container? id).map _ = some d at hd
      rw [hc, Option.map_some, Option.some.injEq] at hd
      rw [← hd] at hp
      obtain ⟨q, hq, rfl⟩ := Container.mem_learn_iff.mp hp
      simp only [if_pos hpv] at hr
      obtain ⟨r₀, _, rfl⟩ := ClientView.mem_learn_iff.mp hr
      by_cases hr₀ : r₀.slot = slot
      · rw [if_pos hr₀]
      · rw [if_neg hr₀] at hslot
        exact absurd hslot hr₀
    · rw [World.container?_tell, if_pos rfl]
      change (w.state.forest.container? id).map _ = _
      rw [hc, Option.map_some]
    · intro p hp hne
      refine Container.mem_learn_iff.mpr ⟨p, hp, ?_⟩
      rw [if_neg hne]

theorem tellEach_told {id : NodeId} {wire : Int} (rest : List (ViewerId × ClientView))
    {w : World} {c : Container} (hw : w.state.Sound)
    (hc : w.state.forest.container? id = some c) (hrest : ∀ p ∈ rest, p ∈ c.viewers)
    (hnodup : (rest.map Prod.fst).Nodup) (hwire : c.wireIndex slot = some wire) :
    ∃ w', each (fun p => tellViewer id wire slot t p.1 p.2) rest w = (.ok (), w') ∧
      Tells slot t w w' ∧ ∀ p ∈ rest, w'.ToldTo id p.1 slot t := by
  induction rest generalizing w c with
  | nil => exact ⟨w, rfl, .refl, by simp⟩
  | cons p rest ih =>
    obtain ⟨v, view⟩ := p
    obtain ⟨hp, hnodup⟩ := List.nodup_cons.mp hnodup
    obtain ⟨u, d, hrun, htells, htold, hd, hframe, hothers⟩ :=
      tellViewer_told (t := t) hw hc (hrest _ List.mem_cons_self) hwire
    have hu := htells.touches.kept.sound hw
    have hmem : ∀ q ∈ rest, q ∈ d.viewers := by
      intro q hq
      refine hothers q (hrest q (List.mem_cons_of_mem _ hq)) ?_
      intro he
      exact hp (List.mem_map.mpr ⟨q, hq, he⟩)
    obtain ⟨_, _, hcursor, hslots⟩ := Container.of_bare_eq (Container.bare_of_frame_eq hframe)
    have hwire' : d.wireIndex slot = some wire := by
      unfold Container.wireIndex at *
      rw [hcursor, hslots]
      exact hwire
    obtain ⟨w', hrun', htells', htold'⟩ := ih hu hd hmem hnodup hwire'
    refine ⟨w', ?_, htells.trans htells', ?_⟩
    · rw [each_cons, bind_of_ok hrun]
      exact hrun'
    · intro q hq
      rcases List.mem_cons.mp hq with hq | hq
      · rw [hq]
        exact htells'.toldTo htold
      · exact htold' q hq

theorem tellViewersOf_told (hw : w.state.Sound) (slot : SlotId) (t : Option Stack) (id : NodeId) :
    ∃ w', tellViewersOf slot t id w = (.ok (), w') ∧ Tells slot t w w' ∧ w'.Told id slot t := by
  unfold tellViewersOf
  rw [state_bind]
  cases hc : w.state.forest.container? id with
  | none =>
    refine ⟨w, rfl, .refl, ?_⟩
    intro c hsome
    rw [hc] at hsome
    cases hsome
  | some c =>
    simp only
    cases hwire : c.wireIndex slot with
    | none =>
      refine ⟨w, rfl, .refl, ?_⟩
      intro d hd p hp r hr hslot
      rw [hc] at hd
      cases hd
      have hmem := ClientView.mem_bindings_of_row (hw.bound hc hp) hr
      rw [hslot] at hmem
      exact absurd hmem (Container.not_mem_bindings_of_wireIndex hwire)
    | some wire =>
      obtain ⟨w', hrun, htells, htold⟩ := tellEach_told (t := t) c.viewers hw hc (fun p hp => hp)
        (hw.ordered hc).nodup hwire
      refine ⟨w', hrun, htells, ?_⟩
      intro d hd p hp
      obtain ⟨c₀, q, hc₀, hq, he, _⟩ := htells.rows hd hp
      rw [hc] at hc₀
      cases hc₀
      exact htold q hq hd p hp he.symm

theorem tellViewers_told (hw : w.state.Sound) (slot : SlotId) :
    ∃ w', tellViewers slot w = (.ok (), w') ∧ Tells slot (w.state.contents slot) w w' ∧
      ∀ id, w'.Told id slot (w.state.contents slot) := by
  have hall : ∀ (ids : List NodeId) (t : Option Stack) (u : World), u.state.Sound →
      ∃ w', each (tellViewersOf slot t) ids u = (.ok (), w') ∧ Tells slot t u w' ∧
        ∀ id ∈ ids, w'.Told id slot t := by
    intro ids t
    induction ids with
    | nil =>
      intro u hu
      exact ⟨u, rfl, .refl, by simp⟩
    | cons id rest ih =>
      intro u hu
      obtain ⟨u₁, hrun, htells, htold⟩ := tellViewersOf_told hu slot t id
      obtain ⟨w', hrun', htells', htold'⟩ := ih u₁ (htells.touches.kept.sound hu)
      refine ⟨w', ?_, htells.trans htells', ?_⟩
      · rw [each_cons, bind_of_ok hrun]
        exact hrun'
      · intro x hx
        rcases List.mem_cons.mp hx with hx | hx
        · rw [hx]
          exact htells'.told htold
        · exact htold' x hx
  obtain ⟨w', hrun, htells, htold⟩ := hall w.state.containers (w.state.contents slot) w hw
  refine ⟨w', hrun, htells, ?_⟩
  intro id c hc
  obtain ⟨d, hd, _⟩ := htells.touches.kept.exists_container? hc
  exact htold id ((hw.mem_containers id).mpr ⟨d, hd⟩) hc

/-- After a slot got new contents: listeners and viewers hear of it, and then all viewers know. -/
theorem replaceContents_told {s : Slot} (before after : Option Stack) (hw : w.state.Sound)
    (hs : w.state.forest.slot slot = some s) :
    Tells slot after (w.put slot after) (replaceContents slot before after w).2 ∧
      ∀ r, (replaceContents slot before after w).1 = .ok r →
        ∀ id, (replaceContents slot before after w).2.Told id slot after := by
  have hput : (w.put slot after).state.contents slot = after := by
    have hset := Forest.contents_setContents hs slot after
    rwa [if_pos rfl] at hset
  unfold replaceContents updateForest
  rw [update_bind]
  change Tells slot after (w.put slot after)
      ((notifySlotChange slot before after >>= fun _ => tellViewers slot >>= fun _ => _)
        (w.put slot after)).2 ∧ ∀ r,
      ((notifySlotChange slot before after >>= fun _ => tellViewers slot >>= fun _ => _)
        (w.put slot after)).1 = .ok r → ∀ id,
      ((notifySlotChange slot before after >>= fun _ => tellViewers slot >>= fun _ => _)
        (w.put slot after)).2.Told id slot after
  obtain ⟨es, hes, hof⟩ := inert_notifySlotChange slot before after (w.put slot after)
  rcases hn : notifySlotChange slot before after (w.put slot after) with ⟨r, u⟩
  rw [hn] at hes
  have hu : u = (w.put slot after).give es := hes
  have hgive : Tells slot after (w.put slot after) u := by
    rw [hu]
    exact .single (.give _ hof)
  cases r with
  | error e =>
    rw [bind_of_error hn]
    refine ⟨hgive, ?_⟩
    intro r hr
    cases hr
  | ok a =>
    have husound : u.state.Sound := by
      rw [hu]
      exact (w.kept_put slot after).sound hw
    have hcontents : u.state.contents slot = after := by
      rw [hu]
      exact hput
    obtain ⟨w', hrun, htells, htold⟩ := tellViewers_told husound slot
    rw [hcontents] at htells htold
    rw [bind_of_ok hn, bind_of_ok hrun]
    exact ⟨hgive.trans htells, fun _ _ => htold⟩

end Step

end Telling

namespace Step

variable {α β : Type}

/-- The step only touches contents, and is calm when nothing escapes. -/
def Tidy (m : Step α) : Prop :=
  ∀ w, w.state.Sound → Touches w (m w).2 ∧ ∀ a, (m w).1 = .ok a → World.Calm w (m w).2

namespace Tidy

theorem of_pure (a : α) : (pure a : Step α).Tidy := fun w _ => ⟨.refl, fun _ _ => .refl w⟩

theorem bind {m : Step α} {next : α → Step β} (hm : m.Tidy) (hn : ∀ a, (next a).Tidy) :
    (m >>= next).Tidy := by
  intro w hw
  obtain ⟨htouch, hcalm⟩ := hm w hw
  rcases h : m w with ⟨r, u⟩
  rw [h] at htouch hcalm
  cases r with
  | error e =>
    rw [bind_of_error h]
    refine ⟨htouch, ?_⟩
    intro b hb
    cases hb
  | ok a =>
    rw [bind_of_ok h]
    obtain ⟨htouch', hcalm'⟩ := hn a u (htouch.kept.sound hw)
    exact ⟨htouch.trans htouch', fun b hb => (hcalm a rfl).trans (hcalm' b hb)⟩

theorem state_bind {next : State → Step β} (hn : ∀ s, (next s).Tidy) :
    (state >>= next).Tidy := fun w hw => hn w.state w hw

theorem of_inert {m : Step α} (hm : Inert (Emission.Of .slotChange) m) : m.Tidy := by
  intro w _
  obtain ⟨es, hes, hof⟩ := hm w
  rw [hes]
  exact ⟨.single (.tell (@Tell.give default none w es hof)), fun _ _ => .of_state_eq rfl⟩

end Tidy

/-- A committed slot is known to all who have it bound, and no one forgets about the others. -/
theorem tidy_commit (slot : SlotId) (after : Option Stack) : (commit slot after).Tidy := by
  intro w hw
  unfold commit
  rw [state_bind]
  cases hs : w.state.forest.slot slot with
  | none => exact Tidy.of_pure _ w hw
  | some s =>
    simp only
    split
    · exact Tidy.of_pure _ w hw
    · obtain ⟨htells, htold⟩ := replaceContents_told s.contents after hw hs
      have hput : Touch w (w.put slot after) := .put w after hs
      rcases hr : replaceContents slot s.contents after w with ⟨r, u⟩
      rw [hr] at htells htold
      cases r with
      | error e =>
        rw [bind_of_error hr]
        refine ⟨.head hput htells.touches, ?_⟩
        intro a ha
        cases ha
      | ok change =>
        rw [bind_of_ok hr]
        refine ⟨.head hput htells.touches, ?_⟩
        intro _ _ v x hagrees
        by_cases hx : x = slot
        · intro id c view hc hv _ row hrow hslot
          rw [hx] at hslot
          have hknown := htold change rfl id hc (v, view) hv row hrow hslot
          have hset := Forest.contents_setContents hs x after
          rw [if_pos hx] at hset
          change row.lastKnown = u.state.contents x
          rw [hknown, htells.contents_eq]
          exact hset.symm
        · apply htells.agrees_of_ne hx
          intro id c view hc hv hlive row hrow hslot
          change (w.state.forest.setContents slot after).container? id = some c at hc
          rw [Forest.container?_setContents] at hc
          rw [hput.kept.contains] at hlive
          have hset := Forest.contents_setContents hs x after
          rw [if_neg hx] at hset
          rw [hagrees id c view hc hv hlive row hrow hslot]
          exact hset.symm

theorem tidy_commitAll (changes : List (SlotId × Option Stack)) : (commitAll changes).Tidy := by
  induction changes with
  | nil => exact Tidy.of_pure []
  | cons change rest ih =>
    apply Tidy.bind (tidy_commit change.1 change.2)
    intro first
    apply Tidy.bind ih
    intro others
    exact Tidy.of_pure _

theorem tidy_unlessStale {operation : String} {node : NodeId} {refused : α} {act : Step α}
    (h : act.Tidy) : (unlessStale operation node refused act).Tidy := by
  apply Tidy.state_bind
  intro s
  split
  · exact h
  · apply Tidy.bind (Tidy.of_inert (inert_log _ .slotChange))
    intro _
    exact Tidy.of_pure refused

theorem tidy_offerIn (order : List SlotId) (stack : Stack) : (offerIn order stack).Tidy := by
  apply Tidy.state_bind
  intro s
  apply Tidy.bind (tidy_commitAll _)
  intro changes
  exact Tidy.of_pure _

theorem tidy_pollIn (order : List SlotId) (limit : Option Nat) : (pollIn order limit).Tidy := by
  apply Tidy.state_bind
  intro s
  split
  · exact Tidy.of_pure _
  · apply Tidy.bind (tidy_commitAll _)
    intro changes
    exact Tidy.of_pure _

theorem tidy_offerTo (node : NodeId) (stack : Stack) : (offerTo node stack).Tidy := by
  apply tidy_unlessStale
  apply Tidy.state_bind
  intro s
  exact tidy_offerIn _ stack

theorem tidy_offer (node : NodeId) (stack : Stack) : (offer node stack).Tidy := by
  apply Tidy.bind (tidy_offerTo node stack)
  intro offered
  exact Tidy.of_pure _

theorem tidy_poll (node : NodeId) (limit : Option Nat) : (poll node limit).Tidy := by
  apply tidy_unlessStale
  apply Tidy.state_bind
  intro s
  exact tidy_pollIn _ limit

theorem tidy_set (slot : SlotId) (stack : Option Stack) : (set slot stack).Tidy := by
  apply tidy_unlessStale
  apply Tidy.state_bind
  intro s
  split
  · exact Tidy.of_pure _
  · apply Tidy.bind (tidy_commitAll _)
    intro changes
    exact Tidy.of_pure _

theorem tidy_setIn (order : List SlotId) (index : Nat) (stack : Option Stack) :
    (setIn order index stack).Tidy := by
  unfold setIn
  split
  · exact Tidy.of_pure _
  · exact tidy_set _ stack

theorem tidy_setAt (node : NodeId) (index : Nat) (stack : Option Stack) :
    (setAt node index stack).Tidy := by
  apply Tidy.state_bind
  intro s
  exact tidy_setIn _ index stack

theorem tidy_clear (node : NodeId) : (clear node).Tidy := by
  apply Tidy.state_bind
  intro s
  apply Tidy.bind (tidy_commitAll _)
  intro changes
  exact Tidy.of_pure _

theorem tidy_revert (t : Transaction) : (revert t).Tidy := by
  apply Tidy.bind (tidy_commitAll _)
  intro changes
  exact Tidy.of_pure _

theorem tidy_viewOffer (v : View) (stack : Stack) : (v.offer stack).Tidy := by
  apply Tidy.bind (tidy_offerIn v.slots stack)
  intro offered
  exact Tidy.of_pure _

theorem tidy_shiftClick (custom : CustomTargets) (container : NodeId) (slot : SlotId) :
    (shiftClick custom container slot).Tidy := by
  apply Tidy.state_bind
  intro s
  split
  · exact Tidy.of_pure _
  · split
    · exact Tidy.of_pure _
    · dsimp only
      split
      · exact Tidy.of_pure _
      · apply Tidy.bind (tidy_commitAll _)
        intro changes
        exact Tidy.of_pure _

end Step

end Stowage
