import Stowage.Lifecycle
import Stowage.Proofs.Container.Audience
import Stowage.Proofs.Forest.Framing
import Stowage.Proofs.Forest.Growth
import Stowage.Proofs.Forest.Removal

/-!
# Sound states

Three records tell who looks into what: the sessions, the viewers that each container keeps, and the
list of containers. In a sound state they agree, and every view has a row for every bound slot.
-/

namespace Stowage.State

set_option autoImplicit false

structure Sound (s : State) : Prop where
  forest : s.forest.Sound
  nodup_containers : s.containers.Nodup
  mem_containers : ∀ id, id ∈ s.containers ↔ ∃ c, s.forest.container? id = some c
  nodup_sessions : (s.sessions.map Prod.fst).Nodup
  session_iff : ∀ v id, (v, id) ∈ s.sessions ↔
    ∃ c, s.forest.container? id = some c ∧ v ∈ c.viewers.map Prod.fst
  ordered : ∀ {id : NodeId} {c : Container}, s.forest.container? id = some c → c.Ordered
  bound : ∀ {id : NodeId} {c : Container} {p : ViewerId × ClientView},
    s.forest.container? id = some c → p ∈ c.viewers → p.2.bindings = c.bindings

theorem sound_new (env : Environment) (transport : Transport) (diagnostics : DiagnosticsOutlet) :
    (new env transport diagnostics).Sound := by
  have hnone : ∀ id, (new env transport diagnostics).forest.container? id = none := by
    intro id
    simp [new, Forest.container?, Forest.node?_empty]
  refine ⟨Forest.sound_empty, List.nodup_nil, ?_, List.nodup_nil, ?_, ?_, ?_⟩
  · intro id
    rw [hnone]
    simp [new]
  · intro v id
    rw [hnone]
    simp [new]
  · intro id c hc
    rw [hnone] at hc
    cases hc
  · intro id c p hc
    rw [hnone] at hc
    cases hc

section Reading
variable {s : State} (h : s.Sound)
include h

theorem Sound.openContainer_iff {v : ViewerId} {id : NodeId} :
    s.openContainer v = some id ↔ (v, id) ∈ s.sessions :=
  lookup_eq_some_iff_mem h.nodup_sessions

/-- The session of a viewer and the viewers of a container are two records of one fact. -/
theorem Sound.openContainer_eq_some_iff {v : ViewerId} {id : NodeId} :
    s.openContainer v = some id ↔
      ∃ c, s.forest.container? id = some c ∧ v ∈ c.viewers.map Prod.fst := by
  rw [h.openContainer_iff, h.session_iff]

theorem Sound.openContainer_of_view {v : ViewerId} {id : NodeId} {c : Container}
    {view : ClientView} (hc : s.forest.container? id = some c) (hv : (v, view) ∈ c.viewers) :
    s.openContainer v = some id :=
  h.openContainer_eq_some_iff.mpr ⟨c, hc, List.mem_map_of_mem hv⟩

theorem Sound.container_unique {v : ViewerId} {x y : NodeId} {c d : Container}
    (hx : s.forest.container? x = some c) (hc : v ∈ c.viewers.map Prod.fst)
    (hy : s.forest.container? y = some d) (hd : v ∈ d.viewers.map Prod.fst) : x = y := by
  have hopen := h.openContainer_eq_some_iff.mpr ⟨c, hx, hc⟩
  rw [h.openContainer_eq_some_iff.mpr ⟨d, hy, hd⟩] at hopen
  exact (Option.some.inj hopen).symm

theorem Sound.not_viewer_of_none {v : ViewerId} {id : NodeId} {c : Container}
    (hv : s.openContainer v = none) (hc : s.forest.container? id = some c) :
    v ∉ c.viewers.map Prod.fst := by
  intro hmem
  rw [h.openContainer_eq_some_iff.mpr ⟨c, hc, hmem⟩] at hv
  cases hv

theorem Sound.viewOf_iff {v : ViewerId} {id : NodeId} {c : Container} {view : ClientView}
    (hc : s.forest.container? id = some c) : c.viewOf v = some view ↔ (v, view) ∈ c.viewers :=
  lookup_eq_some_iff_mem (h.ordered hc).nodup

end Reading

section Changing
variable {s t : State}

theorem Sound.congr (h : s.Sound) (hf : t.forest.Sound) (hcontainers : t.containers = s.containers)
    (hsessions : t.sessions = s.sessions)
    (hframe : ∀ id, (t.forest.container? id).map Container.frame =
      (s.forest.container? id).map Container.frame) : t.Sound := by
  have hback : ∀ {id c}, t.forest.container? id = some c →
      ∃ d, s.forest.container? id = some d ∧ d.frame = c.frame := by
    intro id c hc
    have hid := hframe id
    rw [hc] at hid
    exact Option.map_eq_some_iff.mp hid.symm
  have hforth : ∀ {id c}, s.forest.container? id = some c →
      ∃ d, t.forest.container? id = some d ∧ d.frame = c.frame := by
    intro id c hc
    have hid := hframe id
    rw [hc] at hid
    exact Option.map_eq_some_iff.mp hid
  refine ⟨hf, ?_, ?_, ?_, ?_, ?_, ?_⟩
  · rw [hcontainers]
    exact h.nodup_containers
  · intro id
    rw [hcontainers, h.mem_containers]
    constructor
    · intro hc
      obtain ⟨c, hc⟩ := hc
      obtain ⟨d, hd, _⟩ := hforth hc
      exact ⟨d, hd⟩
    · intro hc
      obtain ⟨c, hc⟩ := hc
      obtain ⟨d, hd, _⟩ := hback hc
      exact ⟨d, hd⟩
  · rw [hsessions]
    exact h.nodup_sessions
  · intro v id
    rw [hsessions, h.session_iff]
    constructor
    · intro hc
      obtain ⟨c, hc, hv⟩ := hc
      obtain ⟨d, hd, he⟩ := hforth hc
      exact ⟨d, hd, by rwa [Container.viewers_fst_of_frame_eq he]⟩
    · intro hc
      obtain ⟨c, hc, hv⟩ := hc
      obtain ⟨d, hd, he⟩ := hback hc
      exact ⟨d, hd, by rwa [Container.viewers_fst_of_frame_eq he]⟩
  · intro id c hc
    obtain ⟨d, hd, he⟩ := hback hc
    unfold Container.Ordered
    rw [← Container.viewers_fst_of_frame_eq he]
    exact h.ordered hd
  · intro id c p hc hp
    obtain ⟨d, hd, he⟩ := hback hc
    have hmem : (p.1, p.2.bindings) ∈ d.audience := by
      rw [Container.audience_of_frame_eq he]
      exact List.mem_map.mpr ⟨p, hp, rfl⟩
    obtain ⟨q, hq, hqp⟩ := List.mem_map.mp hmem
    have hsame : q.2.bindings = p.2.bindings := congrArg Prod.snd hqp
    rw [← hsame, h.bound hd hq]
    exact Container.bindings_of_bare_eq (Container.bare_of_frame_eq he)

theorem Sound.grow (h : s.Sound) {g : Forest} (hg : Forest.Grown s.forest g) :
    ({ s with forest := g } : State).Sound := by
  refine h.congr hg.sound rfl rfl ?_
  intro id
  exact congrArg _ (hg.container? id)

def leave (s : State) (v : ViewerId) (id : NodeId) : State :=
  { s with
    sessions := s.sessions.filter fun p => p.1 ≠ v
    forest := s.forest.modifyContainer id fun c => c.detach v }

def enter (s : State) (v : ViewerId) (id : NodeId) (view : ClientView) : State :=
  { s with
    forest := s.forest.modifyContainer id fun c => c.attach v view
    sessions := s.sessions ++ [(v, id)] }

def drop (s : State) (id : NodeId) (cursor : SlotId) : State :=
  { s with
    forest := (s.forest.remove cursor).remove id
    listeners := (s.listeners.forget cursor).forget id
    containers := s.containers.filter fun c => c ≠ id
    sessions := s.sessions.filter fun p => p.2 ≠ id }

def frame (s : State) (g : Forest) (id : NodeId) : State :=
  { s with forest := g, containers := s.containers ++ [id] }

theorem sound_modifyContainer {f : Forest} (hf : f.Sound) (id : NodeId)
    (change : Container → Container) (h : ∀ c, (change c).bare = c.bare) :
    (f.modifyContainer id change).Sound :=
  hf.congr (f.alike_modifyContainer id change h).sameOutline (hf.arena.modify _ _)

theorem container?_leave (s : State) (v : ViewerId) (id x : NodeId) :
    (s.leave v id).forest.container? x =
      if x = id then (s.forest.container? id).map fun c => c.detach v
      else s.forest.container? x := s.forest.container?_modifyContainer id x _

theorem container?_enter (s : State) (v : ViewerId) (id x : NodeId) (view : ClientView) :
    (s.enter v id view).forest.container? x =
      if x = id then (s.forest.container? id).map fun c => c.attach v view
      else s.forest.container? x := s.forest.container?_modifyContainer id x _

theorem forest_drop (s : State) (id : NodeId) (cursor : SlotId) :
    (s.drop id cursor).forest = [cursor, id].foldl Forest.remove s.forest := rfl

theorem container?_drop (h : s.forest.Sound) {id : NodeId} {c : Container}
    (hc : s.forest.container? id = some c) (x : NodeId) :
    (s.drop id c.cursor).forest.container? x =
      if x = id then none else s.forest.container? x := by
  rw [forest_drop, Forest.container?_removed]
  by_cases hx : x = id
  · simp [hx]
  · by_cases hcursor : x = c.cursor
    · simp [hcursor, h.container?_cursor hc]
    · simp [hx, hcursor]

theorem of_container?_drop (h : s.forest.Sound) {id x : NodeId} {c d : Container}
    (hc : s.forest.container? id = some c)
    (hd : (s.drop id c.cursor).forest.container? x = some d) :
    x ≠ id ∧ s.forest.container? x = some d := by
  rw [container?_drop h hc] at hd
  split at hd
  · cases hd
  · rename_i hx
    exact ⟨hx, hd⟩

theorem mem_sessions_leave {u v : ViewerId} {id x : NodeId} :
    (u, x) ∈ (s.leave v id).sessions ↔ (u, x) ∈ s.sessions ∧ u ≠ v := by
  simp [leave, List.mem_filter]

theorem mem_sessions_enter {u v : ViewerId} {id x : NodeId} {view : ClientView} :
    (u, x) ∈ (s.enter v id view).sessions ↔ (u, x) ∈ s.sessions ∨ u = v ∧ x = id := by
  simp [enter]

theorem mem_sessions_drop {v : ViewerId} {id x : NodeId} {cursor : SlotId} :
    (v, x) ∈ (s.drop id cursor).sessions ↔ (v, x) ∈ s.sessions ∧ x ≠ id := by
  simp [drop, List.mem_filter]

theorem Sound.leave (h : s.Sound) {v : ViewerId} {id : NodeId} {c : Container}
    (hc : s.forest.container? id = some c) (hv : v ∈ c.viewers.map Prod.fst) :
    (s.leave v id).Sound := by
  have hat : ∀ {x d}, (s.leave v id).forest.container? x = some d →
      ∃ k, s.forest.container? x = some k ∧ d = if x = id then k.detach v else k :=
    Forest.of_container?_modifyContainer
  refine ⟨sound_modifyContainer h.forest id _ fun _ => rfl, h.nodup_containers, ?_, ?_, ?_, ?_, ?_⟩
  · intro x
    exact (h.mem_containers x).trans Forest.exists_container?_modifyContainer_iff.symm
  · exact h.nodup_sessions.sublist (List.filter_sublist.map _)
  · intro u x
    rw [mem_sessions_leave, h.session_iff, container?_leave]
    split
    · rename_i hx
      simp only [hx, hc, Option.map_some, Option.some.injEq, exists_eq_left',
        Container.mem_viewers_detach_iff]
    · rename_i hx
      rw [and_iff_left_iff_imp]
      intro hu he
      obtain ⟨d, hd, hud⟩ := hu
      rw [he] at hud
      exact hx (h.container_unique hd hud hc hv)
  · intro x d hd
    obtain ⟨k, hk, rfl⟩ := hat hd
    split
    · exact (h.ordered hk).detach v
    · exact h.ordered hk
  · intro x d p hd hp
    obtain ⟨k, hk, rfl⟩ := hat hd
    split at hp
    · rename_i hx
      rw [if_pos hx]
      change p.2.bindings = k.bindings
      exact h.bound hk (Container.mem_detach_iff.mp hp).1
    · rename_i hx
      rw [if_neg hx]
      exact h.bound hk hp

theorem Sound.drop (h : s.Sound) {id : NodeId} {c : Container}
    (hc : s.forest.container? id = some c) : (s.drop id c.cursor).Sound := by
  have hat := container?_drop h.forest hc
  have hcontainers : ∀ x, x ∈ (s.drop id c.cursor).containers ↔ x ∈ s.containers ∧ x ≠ id := by
    intro x
    simp [State.drop, List.mem_filter]
  refine ⟨h.forest.removeAll (h.forest.closed_container hc), h.nodup_containers.filter _, ?_, ?_,
    ?_, ?_, ?_⟩
  · intro x
    rw [hat, hcontainers, h.mem_containers]
    by_cases hx : x = id <;> simp [hx]
  · exact h.nodup_sessions.sublist (List.filter_sublist.map _)
  · intro v x
    rw [hat, mem_sessions_drop, h.session_iff]
    by_cases hx : x = id <;> simp [hx]
  · intro x d hd
    exact h.ordered (of_container?_drop h.forest hc hd).2
  · intro x d p hd hp
    exact h.bound (of_container?_drop h.forest hc hd).2 hp

theorem Sound.enter (h : s.Sound) {v : ViewerId} {id : NodeId} {c : Container} {view : ClientView}
    (hc : s.forest.container? id = some c) (hv : s.openContainer v = none)
    (hview : view.bindings = c.bindings) : (s.enter v id view).Sound := by
  have hfree : ∀ {x d}, s.forest.container? x = some d → v ∉ d.viewers.map Prod.fst :=
    h.not_viewer_of_none hv
  have hnew : v ∉ s.sessions.map Prod.fst := by
    intro hmem
    obtain ⟨p, hp, rfl⟩ := List.mem_map.mp hmem
    rw [h.openContainer_iff.mpr hp] at hv
    cases hv
  have hat : ∀ {x d}, (s.enter v id view).forest.container? x = some d →
      ∃ k, s.forest.container? x = some k ∧ d = if x = id then k.attach v view else k :=
    Forest.of_container?_modifyContainer
  refine ⟨sound_modifyContainer h.forest id _ fun _ => rfl, h.nodup_containers, ?_, ?_, ?_, ?_, ?_⟩
  · intro x
    exact (h.mem_containers x).trans Forest.exists_container?_modifyContainer_iff.symm
  · simp only [State.enter, List.map_append, List.map_cons, List.map_nil]
    refine List.nodup_append.mpr ⟨h.nodup_sessions, List.nodup_singleton _, ?_⟩
    intro a ha b hb hab
    rw [hab, List.mem_singleton.mp hb] at ha
    exact hnew ha
  · intro u x
    rw [mem_sessions_enter, h.session_iff, container?_enter]
    split
    · rename_i hx
      simp only [hx, hc, Option.map_some, Option.some.injEq, exists_eq_left', and_true,
        Container.mem_viewers_attach_iff (hfree hc)]
    · rename_i hx
      simp [hx]
  · intro x d hd
    obtain ⟨k, hk, rfl⟩ := hat hd
    split
    · exact (h.ordered hk).attach v view
    · exact h.ordered hk
  · intro x d p hd hp
    obtain ⟨k, hk, rfl⟩ := hat hd
    split at hp
    · rename_i hx
      rw [if_pos hx]
      change p.2.bindings = k.bindings
      rcases (Container.mem_attach_iff (hfree hk)).mp hp with hold | hnew
      · exact h.bound hk hold
      · rw [hx, hc] at hk
        rw [hnew, ← Option.some.inj hk]
        exact hview
    · rename_i hx
      rw [if_neg hx]
      exact h.bound hk hp

theorem Sound.frame (h : s.Sound) {g : Forest} {id : NodeId} {c : Container}
    (hg : Forest.Framed s.forest g id c) (hviewers : c.viewers = []) : (s.frame g id).Sound := by
  have hat : ∀ {x d}, g.container? x = some d → x = id ∧ d = c ∨
      s.forest.container? x = some d := by
    intro x d hd
    rw [hg.container?] at hd
    split at hd
    · rename_i hx
      cases hd
      exact Or.inl ⟨hx, rfl⟩
    · exact Or.inr hd
  have hnone : s.forest.container? id = none := by
    cases hc : s.forest.container? id with
    | none => rfl
    | some d =>
      have hlive := Forest.contains_of_container? hc
      rw [hg.fresh] at hlive
      cases hlive
  have hnew : id ∉ s.containers := by
    rw [h.mem_containers, hnone]
    simp
  refine ⟨hg.sound, ?_, ?_, h.nodup_sessions, ?_, ?_, ?_⟩
  · refine List.nodup_append.mpr ⟨h.nodup_containers, List.nodup_singleton _, ?_⟩
    intro a ha b hb hab
    rw [hab, List.mem_singleton.mp hb] at ha
    exact hnew ha
  · intro x
    simp only [State.frame, List.mem_append, List.mem_singleton, h.mem_containers, hg.container?]
    by_cases hx : x = id <;> simp [hx]
  · intro v x
    simp only [State.frame, h.session_iff, hg.container?]
    by_cases hx : x = id
    · simp [hx, hnone, hviewers]
    · simp [hx]
  · intro x d hd
    rcases hat hd with ⟨_, hdc⟩ | hd
    · unfold Container.Ordered
      rw [hdc, hviewers]
      exact List.Pairwise.nil
    · exact h.ordered hd
  · intro x d p hd hp
    rcases hat hd with ⟨_, hdc⟩ | hd
    · rw [hdc, hviewers] at hp
      cases hp
    · exact h.bound hd hp

/-- A whole inventory can go: none of its nodes is a container. -/
theorem Sound.dropNodes (h : s.Sound) {r : NodeId} (hr : s.forest.parent r = none)
    (hn : s.forest.container? r = none) :
    (s.dropNodes (s.forest.descendants r ++ [r])).Sound := by
  have hclosed := h.forest.closed_tree hr hn
  refine h.congr (h.forest.removeAll hclosed) rfl rfl ?_
  intro id
  change Option.map _ (Forest.container? (List.foldl Forest.remove s.forest _) id) = _
  rw [Forest.container?_removed]
  split
  · rename_i hmem
    have hnone : s.forest.container? id = none := by
      rcases List.mem_append.mp hmem with hmem | hmem
      · obtain ⟨m, hu⟩ := (h.forest.mem_descendants_iff hn).mp hmem
        obtain ⟨b, _, hb⟩ := hu.last
        exact h.forest.container?_of_lists hb
      · rw [List.mem_singleton.mp hmem]
        exact hn
    rw [hnone]
  · rfl

end Changing

end Stowage.State
