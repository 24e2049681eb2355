import Stowage.Proofs.Container.Cursor
import Stowage.Proofs.Isolation
import Stowage.Proofs.OneContainer
import Stowage.Proofs.Recycling

/-!
# Closing, opening and removing containers

Closing hands back whatever the discarded container could not put away. Opening closes what the
viewer had open before, and removing discards a container as closing does, but neither of the two
hands anything back: the units that are left over are lost.
-/

namespace Stowage

set_option autoImplicit false

/-- What is left over of a cursor when the viewer closes what it has open. -/
def State.closingRest (s : State) (v : ViewerId) : Option Stack :=
  (s.openContainer v).bind fun x => (s.forest.container? x).bind fun c =>
    if c.goesWith v s.env.settings then s.cursorRest c else none

def State.abandoned (s : State) (id : NodeId) (v : ViewerId) : Option Stack :=
  if (s.forest.container? id).isNone ∨ s.openContainer v = some id then none else s.closingRest v

section Steps
variable {w w' : World} {v : ViewerId} {id : NodeId} {c : Container}

theorem World.apart_leave (ha : w.state.forest.Apart c) (v : ViewerId) (id : NodeId) :
    (w.leave v id).state.forest.Apart (c.detach v) := by
  have halike : Forest.Alike w.state.forest (w.leave v id).state.forest :=
    w.state.forest.alike_modifyContainer id (fun d => d.detach v) fun _ => rfl
  exact ⟨(ha.sameOutline halike.sameOutline).nodup, (ha.sameOutline halike.sameOutline).away⟩

theorem World.cursorRest_leave (w : World) (v : ViewerId) (id : NodeId) (c : Container) :
    (w.leave v id).state.cursorRest (c.detach v) = w.state.cursorRest c := by
  have halike : Forest.Alike w.state.forest (w.leave v id).state.forest :=
    w.state.forest.alike_modifyContainer id (fun d => d.detach v) fun _ => rfl
  have hrejects := @State.rejects_congr w.state (w.leave v id).state c.bottom rfl
    (halike.sameOutline.fillOrder c.bottom) fun x _ => w.slot_leave v id x
  unfold State.cursorRest
  change ((w.leave v id).state.contents c.cursor).bind (fun stack =>
    if w.state.env.settings.returnCursorOnDiscard then (w.leave v id).state.rejects c.bottom stack
    else some stack) = _
  simp only [World.contents_leave, hrejects]

/-- What closing hands back is what the discarded container could not put away. -/
theorem Step.close_ok {r : Option Closed} (hw : w.state.Sound)
    (ho : w.state.openContainer v = some id) (hc : w.state.forest.container? id = some c)
    (h : Step.close v w = (.ok r, w')) :
    ∃ closed, r = some closed ∧ closed.discarded = c.goesWith v w.state.env.settings ∧
      (c.goesWith v w.state.env.settings = false → closed.leftover = none) ∧
      (w.state.forest.Apart c →
        closed.leftover =
          (if c.goesWith v w.state.env.settings then w.state.cursorRest c else none) ∧
        ∀ k : ItemClass, w.state.units k = w'.state.units k + k.unitsIn closed.leftover) := by
  obtain ⟨d, hd, hv⟩ := hw.openContainer_eq_some_iff.mp ho
  rw [hc] at hd
  cases hd
  rw [Step.close_of_some ho hc] at h
  obtain ⟨closed, u, hafter, hpure⟩ := Step.bind_eq_ok h
  cases hpure
  obtain ⟨u, _, hstate, _, _, hrest⟩ := afterLeaving_announced hafter
  obtain ⟨leftover, u', hdiscard, hpure⟩ := Step.bind_eq_ok hrest
  cases hpure
  have hleft : ∀ k : ItemClass, u.state.units k = w.state.units k := by
    intro k
    rw [hstate]
    exact State.units_congr k (w.slot_leave v id)
  refine ⟨_, rfl, rfl, ?_⟩
  change (_ → leftover = none) ∧ (_ → leftover = _ ∧ ∀ k : ItemClass, _ = _ + k.unitsIn leftover)
  change (if c.goesWith v w.state.env.settings then Step.discard id else pure none) u = _
    at hdiscard
  cases hgoes : c.goesWith v w.state.env.settings with
  | false =>
    rw [hgoes] at hdiscard
    cases hdiscard
    exact ⟨fun _ => rfl, fun _ => ⟨rfl, fun k => (hleft k).symm⟩⟩
  | true =>
    refine ⟨nofun, fun ha => ?_⟩
    rw [hgoes] at hdiscard
    have hsound : u.state.Sound := by
      rw [hstate]
      exact hw.leave hc hv
    have hdetached : u.state.forest.container? id = some (c.detach v) := by
      rw [hstate]
      exact Step.container?_leave hc
    have hapart : u.state.forest.Apart (c.detach v) := by
      rw [hstate]
      exact World.apart_leave ha v id
    obtain ⟨hrest, hunits⟩ := Step.discard_units hsound hdetached hapart hdiscard
    refine ⟨?_, fun k => ?_⟩
    · rw [hrest, hstate, World.cursorRest_leave]
      rfl
    · rw [← hleft, hunits]

theorem Step.units_attach (v : ViewerId) (id : NodeId) (c : Container) (w : World) (k : ItemClass) :
    (Step.attach v id c w).2.state.units k = w.state.units k := by
  rw [Step.attach_eq, (Step.quiet_afterEntering v id (w.enter v id c)).state_eq]
  exact State.units_congr k (w.slot_enter v id c)

end Steps

section Close
variable {past : List World} {w : World} {v : ViewerId} {id : NodeId}

/-- Closing returns while listeners are isolated, and hands something back only when the container
goes. It keeps all units, those handed back included, and hands back what the bottom inventory does
not take of the cursor, if the cursor is none of the slots that are filled below. That is so unless
the generations of the bottom's place started again. -/
theorem units_after_close (h : Run past w) (hopen : w.state.openContainer v = some id) :
    ∃ c, w.state.forest.container? id = some c ∧
      (Unwrapped c.bottom past w → c.cursor ∉ w.state.forest.fillOrder c.bottom) ∧
      (w.state.env.settings.isolateListenerPanics = true →
        ∃ r w', Step.close v w = (.ok r, w')) ∧
      ∀ r w', Step.close v w = (.ok r, w') → ∃ closed, r = some closed ∧
        (closed.leftover ≠ none → closed.discarded = true) ∧
        (c.cursor ∉ w.state.forest.fillOrder c.bottom →
          (∀ k : ItemClass, w.state.units k = w'.state.units k + k.unitsIn closed.leftover) ∧
          (closed.discarded = true → w.state.env.settings.returnCursorOnDiscard = true →
            closed.leftover = (w.state.contents c.cursor).bind (w.state.rejects c.bottom) ∧
            ∀ stack o u, Step.offerTo c.bottom stack w = (.ok o, u) →
              o.rejected = w.state.rejects c.bottom stack)) := by
  have hw := h.sound
  obtain ⟨c, hc, _⟩ := hw.openContainer_eq_some_iff.mp hopen
  refine ⟨c, hc, fun hu => h.cursor_away hu hc, ?_, ?_⟩
  · intro hisolated
    obtain ⟨r, w', hclose, _⟩ := Step.returns_close v w hisolated
    exact ⟨r, w', hclose⟩
  · intro r w' hclose
    obtain ⟨closed, hr, hdiscarded, hstays, hgoes⟩ := Step.close_ok hw hopen hc hclose
    refine ⟨closed, hr, ?_, ?_⟩
    · intro hsome
      by_contra hkept
      rw [hdiscarded] at hkept
      exact hsome (hstays (Bool.eq_false_iff.mpr hkept))
    · intro haway
      have ha : w.state.forest.Apart c := ⟨h.nodup_fillOrder c.bottom, haway⟩
      obtain ⟨hleftover, hunits⟩ := hgoes ha
      refine ⟨hunits, fun hgone hreturns => ⟨?_, ?_⟩⟩
      · rw [hdiscarded] at hgone
        rw [hleftover, if_pos hgone]
        unfold State.cursorRest
        simp only [hreturns, if_true]
      · intro stack o u hoffer
        exact (Step.offerTo_ok hw ha.nodup hoffer).1

end Close

def Operation.fullHands : List Operation :=
  chest ++ [.set ⟨2, 0⟩ (some (.new ⟨"minecraft:apple"⟩ 5)),
    .set ⟨1, 0⟩ (some (.single ⟨"minecraft:dirt"⟩))]

def Operation.fullHandsOpen : List Operation := fullHands ++ [.openContainer ⟨3, 0⟩ ⟨7⟩]

def ItemClass.apple : ItemClass := ⟨⟨"minecraft:apple"⟩, []⟩

theorem units_after_close_fullHands :
    (World.reached Operation.fullHandsOpen).2.state.units .apple = 5 ∧
    ∃ closed w', Step.close ⟨7⟩ (World.reached Operation.fullHandsOpen).2 =
        (.ok (some closed), w') ∧
      (World.reached Operation.fullHandsOpen).2.state.units .apple =
        w'.state.units .apple + ItemClass.apple.unitsIn closed.leftover := by
  have hrun := Run.reached Operation.fullHandsOpen
  obtain ⟨c, _, haway, hreturns, hunits⟩ :=
    @units_after_close _ _ ⟨7⟩ ⟨3, 0⟩ hrun (by decide +kernel)
  obtain ⟨r, w', hclose⟩ := hreturns (by decide +kernel)
  obtain ⟨closed, hr, _, hkept⟩ := hunits r w' hclose
  rw [hr] at hclose
  exact ⟨by decide +kernel, closed, w', hclose,
    (hkept (haway (unwrapped_of_length (by decide +kernel)))).1 .apple⟩

section Losses

def Operation.startledHands : List Operation :=
  chest ++ [.onSlotChange ⟨2, 0⟩ (fun _ e => if e.after.isNone then .panic none else .ok),
    .openContainer ⟨3, 0⟩ ⟨7⟩, .set ⟨2, 0⟩ (some (.new ⟨"minecraft:apple"⟩ 5))]

def Operation.cursorShown : List Operation :=
  chest ++ [.createContainer ⟨0, 0⟩ ⟨2, 0⟩, .remove ⟨3, 0⟩,
    .instantiate .anySlot Archetype.anySlot_made]

def Operation.cursorBound : List Operation :=
  [.remove ⟨3, 1⟩, .createContainer ⟨4, 0⟩ ⟨4, 0⟩, .openContainer ⟨5, 0⟩ ⟨7⟩,
    .set ⟨4, 0⟩ (some (.new ⟨"minecraft:apple"⟩ 64))]

/-- The first of these is done, a place is used until its generations start again, and then the
others are done. -/
def World.cursorBelow : World :=
  (Operation.through [] ⟨(World.reached Operation.cursorShown).2.state.atGeneration 2 0,
    (World.reached Operation.cursorShown).2.trace⟩ Operation.cursorBound).2

theorem Run.cursorBelow : ∃ past w, Run past w ∧
    w.state.env.settings.isolateListenerPanics = true ∧ w.Twin World.cursorBelow := by
  have hrun := Run.reached Operation.cursorShown
  have hgeneration :
      (World.reached Operation.cursorShown).2.state.forest.nodes.generationAt 2 = 1 := by
    decide +kernel
  have hfree : ∀ m < generations - 1,
      (World.reached Operation.cursorShown).2.state.showing [⟨2, (1 + m) % generations⟩] =
        none := by
    intro m hm
    refine State.showing_eq_none fun id c hc => ?_
    have hid := (hrun.sound.mem_containers id).mpr ⟨c, hc⟩
    have hold : ∀ id ∈ (World.reached Operation.cursorShown).2.state.containers,
        ((World.reached Operation.cursorShown).2.state.forest.container? id).all (fun c =>
          c.top.generation = 0 ∧ c.bottom.generation = 0) = true := by decide +kernel
    have hzero := hold id hid
    rw [hc, Option.all_some, decide_eq_true_eq] at hzero
    have hlater : (1 + m) % generations ≠ 0 := by
      unfold generations at hm ⊢
      omega
    exact ⟨fun he => hlater (by rw [← hzero.1, he]), fun he => hlater (by rw [← hzero.2, he])⟩
  have hvacant : (World.reached Operation.cursorShown).2.state.forest.nodes.vacant = [2] := by
    decide +kernel
  rw [← hgeneration] at hfree
  obtain ⟨past, w, hw, hisolated, htwin⟩ := hrun.resumed (by decide +kernel) hvacant
    (List.isEmpty_iff.mp (by decide +kernel)) (by decide +kernel) hfree
    (show ∀ op ∈ Operation.cursorBound, op.plain = true by
      simp [Operation.cursorBound, Operation.plain])
  rw [hgeneration] at htwin
  exact ⟨past, w, hw, hisolated, htwin⟩

theorem Step.close_startledHands : ∃ e w',
    Step.close ⟨7⟩ (Operation.through [] World.exposed Operation.startledHands).2 =
      (.error e, w') ∧ w'.state.units .apple = 0 := by
  rcases hclose : Step.close ⟨7⟩
    (Operation.through [] World.exposed Operation.startledHands).2 with ⟨r, w'⟩
  have hafter : (Step.close ⟨7⟩
      (Operation.through [] World.exposed Operation.startledHands).2).2.state.units .apple = 0 := by
    decide +kernel
  have hescapes : (Step.close ⟨7⟩
      (Operation.through [] World.exposed Operation.startledHands).2).1.isOk = false := by
    decide +kernel
  rw [hclose] at hafter hescapes
  cases r with
  | ok r => cases hescapes
  | error e => exact ⟨e, w', rfl, hafter⟩

theorem Step.close_cursorBelow :
    (Step.close ⟨7⟩ World.cursorBelow).1.toOption = some (some ⟨⟨5, 0⟩, true, none⟩) ∧
      (Step.close ⟨7⟩ World.cursorBelow).2.state.units .apple = 0 :=
  ⟨by decide +kernel, by decide +kernel⟩

/-- Closing can destroy units. A listener's panic may escape when the cursor was emptied already;
and when generations started again, the bottom of a container can be one that binds its cursor,
which is put into itself and goes. -/
theorem close_loses_units :
    (∃ past w v id e w', Run past w ∧ w.state.openContainer v = some id ∧
      Step.close v w = (.error e, w') ∧ w.state.units .apple = 5 ∧ w'.state.units .apple = 0) ∧
    ∃ past w v id c closed w', Run past w ∧ w.state.openContainer v = some id ∧
      w.state.forest.container? id = some c ∧ Step.close v w = (.ok (some closed), w') ∧
      closed.discarded = true ∧ w.state.units .apple = 64 ∧ w'.state.units .apple = 0 ∧
      closed.leftover = none ∧ (w.state.contents c.cursor).bind (w.state.rejects c.bottom) =
        some (.new ⟨"minecraft:apple"⟩ 64) := by
  refine ⟨?_, ?_⟩
  · have hrun := (Run.start World.exposed.state.env .live .absent).through
      Operation.startledHands
    obtain ⟨e, w', hclose, hafter⟩ := Step.close_startledHands
    exact ⟨_, _, ⟨7⟩, ⟨3, 0⟩, e, w', hrun, by decide +kernel, hclose, by decide +kernel, hafter⟩
  · obtain ⟨past, w, hrun, hisolated, htwin⟩ := Run.cursorBelow
    obtain ⟨r, w', u, hclose, hclosed, htwin', _⟩ :=
      (Step.deaf_close ⟨7⟩).twin htwin hisolated
    obtain ⟨hanswer, hafter⟩ := Step.close_cursorBelow
    rw [hclosed] at hanswer hafter
    obtain rfl := Option.some.inj hanswer
    have hread : ∀ {α : Type} (f : State → α),
        (∀ s l o, f { s with listeners := l, diagnostics := o } = f s) →
          f w.state = f World.cursorBelow.state := fun f hf => (htwin.state.read hf).symm
    have hbefore : World.cursorBelow.state.units .apple = 64 := by decide +kernel
    have hrejects : (World.cursorBelow.state.contents ⟨4, 0⟩).bind
        (World.cursorBelow.state.rejects ⟨2, 0⟩) = some (.new ⟨"minecraft:apple"⟩ 64) := by
      decide +kernel
    have hopen : World.cursorBelow.state.openContainer ⟨7⟩ = some ⟨5, 0⟩ := by decide +kernel
    have hshown : (World.cursorBelow.state.forest.container? ⟨5, 0⟩).any (fun c =>
        c.cursor = ⟨4, 0⟩ ∧ c.bottom = ⟨2, 0⟩) = true := by decide +kernel
    obtain ⟨c, hc, hparts⟩ := (Option.any_eq_true _ _).mp hshown
    obtain ⟨hcursor, hbottom⟩ := of_decide_eq_true hparts
    refine ⟨past, w, ⟨7⟩, ⟨5, 0⟩, c, _, w', hrun, ?_, ?_, hclose, rfl, ?_, ?_, rfl, ?_⟩
    · rw [← hopen]
      exact hread (fun s => s.openContainer ⟨7⟩) fun _ _ _ => rfl
    · rw [← hc]
      exact hread (fun s => s.forest.container? ⟨5, 0⟩) fun _ _ _ => rfl
    · rw [← hbefore]
      exact hread (fun s => s.units .apple) fun _ _ _ => rfl
    · rw [← hafter]
      exact (htwin'.state.read (f := fun s => s.units .apple) fun _ _ _ => rfl).symm
    · rw [hcursor, hbottom, ← hrejects]
      exact hread (fun s => (s.contents ⟨4, 0⟩).bind (s.rejects ⟨2, 0⟩)) fun _ _ _ => rfl

end Losses

section Open
variable {past : List World} {w w' : World} {v : ViewerId} {id : NodeId}

theorem Step.close_units {r : Option Closed} (h : Run past w) (hu : ∀ x, Unwrapped x past w)
    (hclose : Step.close v w = (.ok r, w')) (k : ItemClass) :
    w.state.units k = w'.state.units k + k.unitsIn (w.state.closingRest v) := by
  have hw := h.sound
  unfold State.closingRest
  cases ho : w.state.openContainer v with
  | none =>
    rw [Step.close_of_none ho] at hclose
    cases hclose
    rfl
  | some x =>
    obtain ⟨c, hc, _⟩ := hw.openContainer_eq_some_iff.mp ho
    obtain ⟨closed, _, _, _, hgoes⟩ := Step.close_ok hw ho hc hclose
    obtain ⟨hleftover, hunits⟩ := hgoes (h.apart (hu _) hc)
    rw [Option.bind_some, hc, Option.bind_some, ← hleftover]
    exact hunits k

theorem Step.openContainer_ok {r : Except Refusal Unit}
    (h : Step.openContainer id v w = (.ok r, w')) :
    (w' = w ∧ (w.state.forest.container? id = none ∨ w.state.openContainer v = some id)) ∨
    ∃ closed u, Step.close v w = (.ok closed, u) ∧ (w.state.forest.container? id).isSome = true ∧
      w.state.openContainer v ≠ some id ∧ ∀ k : ItemClass, w'.state.units k = u.state.units k := by
  unfold Step.openContainer at h
  rw [Step.state_bind] at h
  cases hat : w.state.containerAt id with
  | error e =>
    rw [hat] at h
    cases h
    refine Or.inl ⟨rfl, Or.inl ?_⟩
    cases hc : w.state.forest.container? id with
    | none => rfl
    | some c =>
      rw [Step.containerAt_eq_ok_iff.mpr hc] at hat
      cases hat
  | ok c =>
    rw [hat] at h
    dsimp only at h
    split at h
    · rename_i hsame
      cases h
      exact Or.inl ⟨rfl, Or.inr hsame⟩
    · rename_i hother
      obtain ⟨closed, u, hclose, h⟩ := Step.bind_eq_ok h
      refine Or.inr ⟨closed, u, hclose, ?_, hother, ?_⟩
      · rw [Step.containerAt_eq_ok_iff.mp hat]
        rfl
      · intro k
        rw [Step.state_bind] at h
        cases hagain : u.state.containerAt id with
        | error e =>
          rw [hagain] at h
          cases h
          rfl
        | ok d =>
          rw [hagain] at h
          obtain ⟨_, u', hattach, hpure⟩ := Step.bind_eq_ok h
          cases hpure
          have hsame := Step.units_attach v id d u k
          rwa [hattach] at hsame

/-- Opening loses just the units that closing would have handed back. -/
theorem units_after_open {r : Except Refusal Unit} (h : Run past w) (hu : ∀ x, Unwrapped x past w)
    (hopen : Step.openContainer id v w = (.ok r, w')) (k : ItemClass) :
    w.state.units k = w'.state.units k + k.unitsIn (w.state.abandoned id v) := by
  rcases Step.openContainer_ok hopen with
    ⟨rfl, hnone | hsame⟩ | ⟨closed, u, hclose, hlive, hne, hkept⟩
  · simp [State.abandoned, hnone]
  · simp [State.abandoned, hsame]
  · have hrest : w.state.abandoned id v = w.state.closingRest v := by
      rw [Option.isSome_iff_ne_none, ne_eq, ← Option.isNone_iff_eq_none] at hlive
      simp [State.abandoned, hlive, hne]
    rw [hkept, hrest]
    exact Step.close_units h hu hclose k

end Open

section Remove
variable {past : List World} {w w' : World} {id : NodeId} {c : Container}

theorem Step.remove_eq (hw : w.state.Sound) (hc : w.state.forest.container? id = some c)
    (hviewers : c.viewers = []) :
    Step.remove id w = (Step.discard id >>= fun _ => pure (.ok ())) w := by
  obtain ⟨n, hn, hcontent⟩ := Forest.container?_eq_some_iff.mp hc
  have hparent : n.parent = none := by
    have hroot := hw.forest.parent_container hc
    unfold Forest.parent at hroot
    rwa [hn] at hroot
  unfold Step.remove
  rw [Step.state_bind, hn]
  simp only [hparent, Option.isSome_none, Bool.false_eq_true, if_false, hcontent,
    Step.removeContainer, hviewers, List.isEmpty_nil, if_true]

/-- Removing a container loses just the units of the cursor that were not put back. -/
theorem units_after_remove {r : Except Refusal Unit} (h : Run past w)
    (hu : Unwrapped c.bottom past w) (hc : w.state.forest.container? id = some c)
    (hviewers : c.viewers = []) (hremove : Step.remove id w = (.ok r, w')) :
    r = .ok () ∧ ∀ k : ItemClass,
      w.state.units k = w'.state.units k + k.unitsIn (w.state.cursorRest c) := by
  have hw := h.sound
  rw [Step.remove_eq hw hc hviewers] at hremove
  obtain ⟨leftover, u, hdiscard, hpure⟩ := Step.bind_eq_ok hremove
  cases hpure
  obtain ⟨hrest, hunits⟩ := Step.discard_units hw hc (h.apart hu hc) hdiscard
  exact ⟨rfl, fun k => by rw [hunits k, hrest]⟩

end Remove

theorem Step.exists_ok {α : Type} {m : Step α} {w : World} (h : (m w).1.isOk = true) :
    ∃ a, m w = (.ok a, (m w).2) := by
  rcases hm : m w with ⟨r, w'⟩
  rw [hm] at h
  cases r with
  | error e => cases h
  | ok a => exact ⟨a, rfl⟩

def Operation.fullHandsBeside : List Operation :=
  fullHandsOpen ++ [.createContainer ⟨0, 0⟩ ⟨1, 0⟩]

theorem units_after_open_fullHands :
    (World.reached Operation.fullHandsBeside).2.state.units .apple =
      (Step.openContainer ⟨5, 0⟩ ⟨7⟩ (World.reached Operation.fullHandsBeside).2).2.state.units
        .apple + ItemClass.apple.unitsIn
          ((World.reached Operation.fullHandsBeside).2.state.abandoned ⟨5, 0⟩ ⟨7⟩) := by
  have hrun := Run.reached Operation.fullHandsBeside
  have hunwrapped : ∀ x, Unwrapped x (World.reached Operation.fullHandsBeside).1
      (World.reached Operation.fullHandsBeside).2 :=
    fun x => unwrapped_of_length (by decide +kernel)
  obtain ⟨r, hopen⟩ := @Step.exists_ok _ (Step.openContainer ⟨5, 0⟩ ⟨7⟩)
    (World.reached Operation.fullHandsBeside).2 (by decide +kernel)
  exact units_after_open hrun hunwrapped hopen .apple

/-- Opening a container can destroy units. -/
theorem open_loses_units :
    ¬ ∀ (past : List World) (w w' : World) (id : NodeId) (v : ViewerId) (r : Except Refusal Unit),
      Run past w → Step.openContainer id v w = (.ok r, w') →
        ∀ k : ItemClass, w'.state.units k = w.state.units k := by
  intro h
  have hrun := Run.reached Operation.fullHandsBeside
  obtain ⟨r, hopen⟩ := @Step.exists_ok _ (Step.openContainer ⟨5, 0⟩ ⟨7⟩)
    (World.reached Operation.fullHandsBeside).2 (by decide +kernel)
  have hsame := h _ _ _ _ _ _ hrun hopen .apple
  have hbefore : (World.reached Operation.fullHandsBeside).2.state.units .apple = 5 := by
    decide +kernel
  have hafter : (Step.openContainer ⟨5, 0⟩ ⟨7⟩
      (World.reached Operation.fullHandsBeside).2).2.state.units .apple = 0 := by decide +kernel
  rw [hbefore, hafter] at hsame
  cases hsame

theorem units_after_remove_fullHands :
    ∃ c, (World.reached Operation.fullHands).2.state.forest.container? ⟨3, 0⟩ = some c ∧
      (World.reached Operation.fullHands).2.state.units .apple =
        (Step.remove ⟨3, 0⟩ (World.reached Operation.fullHands).2).2.state.units .apple +
          ItemClass.apple.unitsIn ((World.reached Operation.fullHands).2.state.cursorRest c) := by
  have hrun := Run.reached Operation.fullHands
  obtain ⟨r, hremove⟩ := @Step.exists_ok _ (Step.remove ⟨3, 0⟩)
    (World.reached Operation.fullHands).2 (by decide +kernel)
  have hthere : ((World.reached Operation.fullHands).2.state.forest.container? ⟨3, 0⟩).any
      (fun c => c.viewers.isEmpty) = true := by decide +kernel
  obtain ⟨c, hc, hempty⟩ := (Option.any_eq_true _ _).mp hthere
  have hunwrapped := @unwrapped_of_length (World.reached Operation.fullHands).1
    (World.reached Operation.fullHands).2 c.bottom (by decide +kernel)
  exact ⟨c, hc, (units_after_remove hrun hunwrapped hc (List.isEmpty_iff.mp hempty) hremove).2 _⟩

/-- Removing a container without viewers can destroy units. -/
theorem remove_loses_units :
    ¬ ∀ (past : List World) (w w' : World) (id : NodeId) (c : Container), Run past w →
      w.state.forest.container? id = some c → c.viewers = [] →
        Step.remove id w = (.ok (.ok ()), w') →
          ∀ k : ItemClass, w'.state.units k = w.state.units k := by
  intro h
  have hrun := Run.reached Operation.fullHands
  obtain ⟨r, hremove⟩ := @Step.exists_ok _ (Step.remove ⟨3, 0⟩)
    (World.reached Operation.fullHands).2 (by decide +kernel)
  have hthere : ((World.reached Operation.fullHands).2.state.forest.container? ⟨3, 0⟩).any
      (fun c => c.viewers.isEmpty) = true := by decide +kernel
  obtain ⟨c, hc, hempty⟩ := (Option.any_eq_true _ _).mp hthere
  have hgranted := hremove
  rw [Step.remove_eq hrun.sound hc (List.isEmpty_iff.mp hempty)] at hgranted
  obtain ⟨leftover, u, _, hpure⟩ := Step.bind_eq_ok hgranted
  have hr : r = .ok () := (Except.ok.inj (congrArg Prod.fst hpure)).symm
  rw [hr] at hremove
  have hsame := h _ _ _ _ _ hrun hc (List.isEmpty_iff.mp hempty) hremove .apple
  have hafter : (Step.remove ⟨3, 0⟩ (World.reached Operation.fullHands).2).2.state.units .apple =
      0 := by decide +kernel
  have hbefore : (World.reached Operation.fullHands).2.state.units .apple = 5 := by decide +kernel
  rw [hbefore, hafter] at hsame
  cases hsame

end Stowage
