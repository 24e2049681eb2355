import Stowage.Proofs.Operation

/-!
# What containers refer to

A container refers to the two inventories that it shows, to its cursor and to the slots that it
binds. Whole inventories go only when no container shows a part of them. A container goes together
with its cursor, though, and the cursor may be what another container shows.
-/

namespace Stowage

set_option autoImplicit false

namespace Forest

structure Carries (f : Forest) (c : Container) : Prop where
  top : f.Showable c.top
  bottom : f.Showable c.bottom
  slots : ∀ x ∈ c.slots, x ∈ f.slots c.top ∨ x ∈ f.slots c.bottom

def Anchored (f : Forest) : Prop := ∀ {id c}, f.container? id = some c → f.Carries c

structure Thinned (f g : Forest) : Prop where
  contains : ∀ {x}, g.contains x = true → f.contains x = true
  container? : ∀ {x}, g.contains x = true →
    (g.container? x).map Container.bare = (f.container? x).map Container.bare
  slots : ∀ {x}, g.contains x = true → g.slots x = f.slots x
  gone : ∀ {x}, f.contains x = true → g.contains x = false →
    ∃ id c, f.container? id = some c ∧ g.contains id = false ∧ (x = id ∨ x = c.cursor)
  cursor : ∀ {id c}, f.container? id = some c → g.contains id = false →
    g.contains c.cursor = false

section Carries
variable {f g : Forest} {c d : Container} {x : NodeId}

theorem Carries.congr (h : f.Carries c) (hbare : d.bare = c.bare)
    (hkeep : ∀ x, f.Showable x → x = c.top ∨ x = c.bottom →
      g.Showable x ∧ g.slots x = f.slots x) : g.Carries d := by
  obtain ⟨htop, hbottom, _, hslots⟩ := Container.of_bare_eq hbare
  obtain ⟨ht, hts⟩ := hkeep c.top h.top (Or.inl rfl)
  obtain ⟨hb, hbs⟩ := hkeep c.bottom h.bottom (Or.inr rfl)
  refine ⟨?_, ?_, ?_⟩
  · rw [htop]
    exact ht
  · rw [hbottom]
    exact hb
  · intro x hx
    rw [hslots] at hx
    rw [htop, hbottom, hts, hbs]
    exact h.slots x hx

theorem Carries.live (hf : f.Sound) (h : f.Carries c) (hx : x ∈ c.slots) :
    f.contains x = true := by
  have hslot : (f.slot x).isSome = true := by
    rcases h.slots x hx with hx | hx
    · exact (hf.under_of_mem_slots h.top.plain hx).2
    · exact (hf.under_of_mem_slots h.bottom.plain hx).2
  obtain ⟨s, hs⟩ := Option.isSome_iff_exists.mp hslot
  exact contains_of_slot hs

theorem SameContent.showable (h : SameContent f g x) (hx : f.Showable x) : g.Showable x := by
  refine ⟨?_, ?_⟩
  · rw [h.contains]
    exact hx.live
  · rw [h.container?]
    exact hx.plain

theorem Carries.kept (h : f.Carries c) (hkeep : ∀ x, f.contains x = true → SameContent f g x) :
    g.Carries c := by
  refine h.congr rfl ?_
  intro x hx _
  exact ⟨(hkeep x hx.live).showable hx, (hkeep x hx.live).slots⟩

theorem anchored_empty : Forest.empty.Anchored := by
  intro id c hc
  simp [container?, node?_empty] at hc

theorem Anchored.grown (h : f.Anchored) (hg : Grown f g) : g.Anchored := by
  intro id c hc
  rw [hg.container?] at hc
  exact (h hc).kept hg.content

theorem Anchored.framed (h : f.Anchored) {top bottom cursor id : NodeId}
    (ht : f.Showable top) (hb : f.Showable bottom)
    (hg : Framed f g id (f.containerOver top bottom cursor)) : g.Anchored := by
  intro x c hc
  rw [hg.container?] at hc
  split at hc
  · have hcarries : f.Carries (f.containerOver top bottom cursor) :=
      ⟨ht, hb, fun y hy => mem_containerOver_slots hy⟩
    cases hc
    exact hcarries.kept hg.content
  · exact (h hc).kept hg.content

end Carries

namespace Thinned
variable {f g h : Forest}

theorem of_sameOutline (hfg : SameOutline f g) : Thinned f g where
  contains := by
    intro x hx
    rwa [hfg.contains] at hx
  container? := fun _ => hfg.container? _
  slots := fun _ => hfg.slots _
  gone := by
    intro x hf hg
    rw [hfg.contains, hf] at hg
    cases hg
  cursor := by
    intro id c hc hg
    rw [hfg.contains, contains_of_container? hc] at hg
    cases hg

theorem refl (f : Forest) : Thinned f f := of_sameOutline fun _ => rfl

theorem modifyContainer (f : Forest) (id : NodeId) (change : Container → Container)
    (h : ∀ c, (change c).bare = c.bare) : Thinned f (f.modifyContainer id change) :=
  of_sameOutline (f.alike_modifyContainer id change h).sameOutline

theorem exists_container? (hfg : Thinned f g) {id : NodeId} {d : Container}
    (hd : g.container? id = some d) : ∃ c, f.container? id = some c ∧ c.bare = d.bare := by
  have hbare := hfg.container? (contains_of_container? hd)
  rw [hd, Option.map_some] at hbare
  exact Option.map_eq_some_iff.mp hbare.symm

theorem exists_container?' (hfg : Thinned f g) {id : NodeId} {c : Container}
    (hc : f.container? id = some c) (hid : g.contains id = true) :
    ∃ d, g.container? id = some d ∧ d.bare = c.bare := by
  have hbare := hfg.container? hid
  rw [hc, Option.map_some] at hbare
  exact Option.map_eq_some_iff.mp hbare

theorem dead (hfg : Thinned f g) {x : NodeId} (hx : f.contains x = false) :
    g.contains x = false := by
  rw [Bool.eq_false_iff]
  intro hg
  rw [hfg.contains hg] at hx
  cases hx

theorem trans (hfg : Thinned f g) (hgh : Thinned g h) : Thinned f h where
  contains := fun hx => hfg.contains (hgh.contains hx)
  container? := fun hx => (hgh.container? hx).trans (hfg.container? (hgh.contains hx))
  slots := fun hx => (hgh.slots hx).trans (hfg.slots (hgh.contains hx))
  gone := by
    intro x hf hh
    cases hg : g.contains x with
    | false =>
      obtain ⟨id, c, hc, hid, hx⟩ := hfg.gone hf hg
      exact ⟨id, c, hc, hgh.dead hid, hx⟩
    | true =>
      obtain ⟨id, d, hd, hid, hx⟩ := hgh.gone hg hh
      obtain ⟨c, hc, hbare⟩ := hfg.exists_container? hd
      rw [← (Container.of_bare_eq hbare).2.2.1] at hx
      exact ⟨id, c, hc, hid, hx⟩
  cursor := by
    intro id c hc hid
    cases hg : g.contains id with
    | false => exact hgh.dead (hfg.cursor hc hg)
    | true =>
      obtain ⟨d, hd, hbare⟩ := hfg.exists_container?' hc hg
      rw [← (Container.of_bare_eq hbare).2.2.1]
      exact hgh.cursor hd hid

theorem dropped (hf : f.Sound) {id : NodeId} {c : Container} (hc : f.container? id = some c) :
    Thinned f ([c.cursor, id].foldl Forest.remove f) where
  contains := fun hx => (contains_removed_iff.mp hx).1
  container? := by
    intro x hx
    rw [container?_removed, if_neg (contains_removed_iff.mp hx).2]
  slots := fun hx => slots_removed (contains_removed_iff.mp hx).2
  gone := by
    intro x hlive hgone
    refine ⟨id, c, hc, contains_removed_of_mem (by simp), ?_⟩
    by_contra hne
    have hx : x ∉ [c.cursor, id] := by
      intro hmem
      simp only [List.mem_cons, List.not_mem_nil, or_false] at hmem
      exact hne hmem.symm
    rw [contains_removed_iff.mpr ⟨hlive, hx⟩] at hgone
    cases hgone
  cursor := by
    intro x d hd hx
    have hmem : x ∈ [c.cursor, id] := by
      by_contra hmem
      rw [contains_removed_iff.mpr ⟨contains_of_container? hd, hmem⟩] at hx
      cases hx
    exact contains_removed_of_mem (((hf.closed_container hc).cursor hd).mp hmem)

end Thinned

end Forest

section Moving
variable {w w' : World}

theorem Move.thinned (h : Move w w') (hw : w.state.Sound) :
    Forest.Thinned w.state.forest w'.state.forest := by
  cases h with
  | touch h => exact .of_sameOutline h.kept.alike.sameOutline
  | announce h => exact .refl _
  | @leave v id c hc hv =>
    exact .modifyContainer w.state.forest id (fun c => c.detach v) fun _ => rfl
  | drop hc hv => exact .dropped hw.forest hc

theorem Moves.thinned (h : Moves w w') (hw : w.state.Sound) :
    Forest.Thinned w.state.forest w'.state.forest := by
  induction h with
  | refl => exact .refl _
  | tail hmoves hstep ih => exact ih.trans (hstep.thinned (Moves.sound hmoves hw))

theorem Forest.Thinned.entered (w : World) (v : ViewerId) (id : NodeId) (c : Container) :
    Forest.Thinned w.state.forest (w.enter v id c).state.forest :=
  .modifyContainer w.state.forest id (fun d => d.attach v (w.state.freshView c)) fun _ => rfl

end Moving

namespace State

def Intact (s : State) : Prop :=
  ∀ {id c}, s.forest.container? id = some c →
    s.forest.contains c.top = true ∧ s.forest.contains c.bottom = true ∧
    s.forest.contains c.cursor = true ∧ ∀ x ∈ c.slots, s.forest.contains x = true

/-- From `s` to `t` a container went whose cursor is shown by one that stays. -/
def Uproots (s t : State) : Prop :=
  ∃ id c x d, s.forest.container? id = some c ∧ t.forest.contains id = false ∧
    t.forest.container? x = some d ∧ (d.top = c.cursor ∨ d.bottom = c.cursor)

variable {s t : State}

theorem Sound.intact (hs : s.Sound) (h : s.forest.Anchored) : s.Intact := by
  intro id c hc
  obtain ⟨k, hk⟩ := Option.isSome_iff_exists.mp (hs.forest.slot_cursor hc)
  exact ⟨(h hc).top.live, (h hc).bottom.live, Forest.contains_of_slot hk,
    fun x hx => (h hc).live hs.forest hx⟩

/-- An inventory that a container shows can only go as the cursor of another container. -/
theorem anchored_of_thinned (h : s.forest.Anchored) (hst : Forest.Thinned s.forest t.forest)
    (hfirm : ¬ s.Uproots t) : t.forest.Anchored := by
  intro x d hd
  obtain ⟨c, hc, hbare⟩ := hst.exists_container? hd
  obtain ⟨htop, hbottom, _, _⟩ := Container.of_bare_eq hbare
  refine (h hc).congr hbare.symm ?_
  intro y hy hshown
  have hlive : t.forest.contains y = true := by
    by_contra hdead
    obtain ⟨id, k, hk, hid, he⟩ := hst.gone hy.live (Bool.eq_false_iff.mpr hdead)
    rcases he with he | he
    · rw [← he, hy.plain] at hk
      cases hk
    · refine hfirm ⟨id, k, x, d, hk, hid, hd, ?_⟩
      rw [← htop, ← hbottom, ← he]
      exact hshown.imp Eq.symm Eq.symm
  refine ⟨⟨hlive, ?_⟩, hst.slots hlive⟩
  have hplain := hst.container? hlive
  rw [hy.plain] at hplain
  exact Option.map_eq_none_iff.mp hplain

theorem Sound.not_mem_of_showing (hs : s.Sound) {nodes : List NodeId}
    (hfree : s.showing nodes = none) {id : NodeId} {c : Container}
    (hc : s.forest.container? id = some c) : c.top ∉ nodes ∧ c.bottom ∉ nodes := by
  have hid := List.find?_eq_none.mp hfree id ((hs.mem_containers id).mpr ⟨c, hc⟩)
  simp only [hc, Option.any_some, Bool.or_eq_true, List.contains_iff_mem, not_or] at hid
  exact hid

theorem Sound.anchored_dropNodes (hs : s.Sound) (h : s.forest.Anchored) {nodes : List NodeId}
    (hfree : s.showing nodes = none) : (s.dropNodes nodes).forest.Anchored := by
  intro id c hc
  obtain ⟨_, hc⟩ := Forest.of_container?_removed hc
  obtain ⟨htop, hbottom⟩ := hs.not_mem_of_showing hfree hc
  refine (h hc).congr rfl ?_
  intro x hx hshown
  have hmem : x ∉ nodes := by
    rcases hshown with rfl | rfl
    · exact htop
    · exact hbottom
  refine ⟨⟨Forest.contains_removed_iff.mpr ⟨hx.live, hmem⟩, ?_⟩, Forest.slots_removed hmem⟩
  change (nodes.foldl Forest.remove s.forest).container? x = none
  rw [Forest.container?_removed, if_neg hmem]
  exact hx.plain

end State

section Advance
variable {calm : Prop} {w w' : World}

theorem Advance.cursor_gone (h : Advance calm w w') (hw : w.state.Sound) {id : NodeId}
    {c : Container} (hc : w.state.forest.container? id = some c)
    (hgone : w'.state.forest.contains id = false) : w'.state.forest.contains c.cursor = false := by
  have hlive := Forest.contains_of_container? hc
  cases h with
  | moves h _ => exact (h.thinned hw).cursor hc hgone
  | listen l =>
    rw [hlive] at hgone
    cases hgone
  | rewire t d =>
    rw [hlive] at hgone
    cases hgone
  | grow hg hq =>
    rw [hq.state_eq] at hgone
    rw [(hg.content id hlive).contains, hlive] at hgone
    cases hgone
  | @frame g x top bottom _ ht hb hg hq =>
    rw [hq.state_eq] at hgone
    change g.contains id = false at hgone
    rw [(hg.content id hlive).contains, hlive] at hgone
    cases hgone
  | @raze r _ hr hn hfree hq =>
    rw [hq.state_eq] at *
    change Forest.contains (List.foldl Forest.remove w.state.forest _) id = false at hgone
    change Forest.contains (List.foldl Forest.remove w.state.forest _) c.cursor = false
    apply Forest.contains_removed_of_mem
    apply ((hw.forest.closed_tree hr hn).cursor hc).mp
    by_contra hid
    rw [Forest.contains_removed_iff.mpr ⟨hlive, hid⟩] at hgone
    cases hgone
  | @enter u w' v x d hm _ _ hv hq =>
    rw [hq.state_eq] at *
    exact ((hm.thinned hw).trans (.entered u v x d)).cursor hc hgone

/-- What is anchored stays so unless a container is uprooted. -/
theorem Advance.anchored (h : Advance calm w w') (hw : w.state.Sound)
    (ha : w.state.forest.Anchored) (hfirm : ¬ w.state.Uproots w'.state) :
    w'.state.forest.Anchored := by
  cases h with
  | moves h _ => exact State.anchored_of_thinned ha (h.thinned hw) hfirm
  | listen l => exact ha
  | rewire t d => exact ha
  | grow hg hq =>
    rw [hq.state_eq]
    exact ha.grown hg
  | frame ht hb hg hq =>
    rw [hq.state_eq]
    exact ha.framed ht hb hg
  | raze hr hn hfree hq =>
    rw [hq.state_eq]
    exact hw.anchored_dropNodes ha hfree
  | @enter u w' v id c hm _ _ hv hq =>
    refine State.anchored_of_thinned ha ?_ hfirm
    rw [hq.state_eq]
    exact (hm.thinned hw).trans (.entered u v id c)

end Advance

section Run
variable {past : List World} {w : World}

theorem Advance.not_intact {calm : Prop} {w' : World} (h : Advance calm w w')
    (hw : w.state.Sound) (hup : w.state.Uproots w'.state) : ¬ w'.state.Intact := by
  obtain ⟨id, c, x, d, hc, hgone, hd, hshown⟩ := hup
  intro hintact
  obtain ⟨htop, hbottom, _, _⟩ := hintact hd
  have hdead := h.cursor_gone hw hc hgone
  rcases hshown with he | he
  · rw [he, hdead] at htop
    cases htop
  · rw [he, hdead] at hbottom
    cases hbottom

/-- No operation of the run takes a container away whose cursor is shown by one that stays. -/
def Firm (past : List World) (w : World) : Prop :=
  (w :: past).IsChain fun later earlier => ¬ earlier.state.Uproots later.state

theorem Run.anchored (h : Run past w) (hfirm : Firm past w) : w.state.forest.Anchored := by
  induction h with
  | start env transport diagnostics => exact Forest.anchored_empty
  | @step past w op before ih =>
    obtain ⟨hlast, hrest⟩ := List.isChain_cons_cons.mp hfirm
    exact (op.advances before.sound).anchored before.sound (ih hrest) hlast

theorem Run.firm (h : Run past w) (hintact : ∀ u ∈ w :: past, u.state.Intact) : Firm past w := by
  induction h with
  | start env transport diagnostics => exact .singleton _
  | @step past w op before ih =>
    refine .cons_cons ?_ (ih fun u hu => hintact u (List.mem_cons_of_mem _ hu))
    intro hup
    exact (op.advances before.sound).not_intact before.sound hup (hintact _ List.mem_cons_self)

end Run

/-- Throughout a run all that the containers refer to is there, just when the run is firm. -/
theorem references_live_iff {past : List World} {w : World} (h : Run past w) :
    (∀ u ∈ w :: past, u.state.Intact) ↔ Firm past w := by
  refine ⟨h.firm, ?_⟩
  intro hfirm
  induction h with
  | start env transport diagnostics =>
    intro u hu
    rw [List.mem_singleton.mp hu]
    exact (State.sound_new env transport diagnostics).intact Forest.anchored_empty
  | @step past w op before ih =>
    intro u hu
    rcases List.mem_cons.mp hu with hu | hu
    · rw [hu]
      exact (before.step op).sound.intact ((before.step op).anchored hfirm)
    · exact ih (List.isChain_cons_cons.mp hfirm).2 u hu

def Operation.uprooting : List Operation :=
  chest ++ [.createContainer ⟨2, 0⟩ ⟨1, 0⟩, .remove ⟨3, 0⟩]

theorem uprooting_top_dead :
    ((World.reached Operation.uprooting).2.state.forest.container? ⟨5, 0⟩).any (fun c =>
      !(World.reached Operation.uprooting).2.state.forest.contains c.top) = true := by
  decide +kernel

theorem uprooting_not_intact : ¬ (World.reached Operation.uprooting).2.state.Intact := by
  intro hintact
  obtain ⟨c, hc, hdead⟩ := (Option.any_eq_true _ _).mp uprooting_top_dead
  rw [(hintact hc).1] at hdead
  cases hdead

theorem not_firm_uprooting :
    ¬ Firm (World.reached Operation.uprooting).1 (World.reached Operation.uprooting).2 := by
  intro hfirm
  have hrun := Run.reached Operation.uprooting
  exact uprooting_not_intact ((references_live_iff hrun).mpr hfirm _ List.mem_cons_self)

/-- Removing a container can leave another one without the inventory that it shows. -/
theorem exists_run_not_intact :
    ¬ ∀ (past : List World) (w : World), Run past w → w.state.Intact := by
  intro h
  have hrun := Run.reached Operation.uprooting
  exact uprooting_not_intact (h _ _ hrun)

end Stowage
