import Stowage.Proofs.Forest.Framing
import Stowage.Proofs.Forest.Growth
import Stowage.Proofs.Forest.Removal
import Mathlib.Data.List.Chain

/-!
# Ways upwards

Parents rank above their children, so every way upwards is finite and ends at a node without parent.
The root that is kept at a node is the end of its way, as long as each node agrees with its parent;
making, joining and framing inventories restore that for the nodes they touch.
-/

namespace Stowage.Forest

set_option autoImplicit false

def RootedAt (f : Forest) (x : NodeId) : Prop :=
  f.root x = match f.parent x with
    | none => some x
    | some p => f.root p

def Rooted (f : Forest) : Prop := ∀ x, f.contains x = true → f.RootedAt x

/-- The way upwards from `x`: each node is followed by its parent, none comes twice, and at the end
is the node without parent that `x` keeps as its root. -/
structure Rises (f : Forest) (x : NodeId) : Prop where
  head : (f.ancestors x).head? = some x
  chain : (f.ancestors x).IsChain fun a b => f.parent a = some b
  nodup : (f.ancestors x).Nodup
  top : ∃ r, (f.ancestors x).getLast? = some r ∧ f.parent r = none ∧ f.root x = some r

section Climb
variable {f : Forest} {x p : NodeId}

theorem RootedAt.of_top (h : f.RootedAt x) (hp : f.parent x = none) : f.root x = some x := by
  unfold RootedAt at h
  rw [h, hp]

theorem RootedAt.of_parent (h : f.RootedAt x) (hp : f.parent x = some p) :
    f.root x = f.root p := by
  unfold RootedAt at h
  rw [h, hp]

theorem ancestorsUpTo_of_top (n : Nat) (hx : f.contains x = true) (hp : f.parent x = none) :
    f.ancestorsUpTo (n + 1) x = [x] := by
  obtain ⟨e, he⟩ := contains_iff.mp hx
  have hp : e.parent = none := by simpa [parent, he] using hp
  simp only [ancestorsUpTo, he, hp]

theorem ancestorsUpTo_of_parent (n : Nat) (hp : f.parent x = some p) :
    f.ancestorsUpTo (n + 1) x = x :: f.ancestorsUpTo n p := by
  obtain ⟨e, he, hp⟩ := Option.bind_eq_some_iff.mp hp
  have he : f.node? x = some e := he
  simp only [ancestorsUpTo, he, hp]

theorem ancestorsUpTo_of_dead (n : Nat) (hx : f.contains x = false) : f.ancestorsUpTo n x = [] := by
  have hnone : f.node? x = none := Option.not_isSome_iff_eq_none.mp (Bool.eq_false_iff.mp hx)
  cases n with
  | zero => rfl
  | succ n => simp only [ancestorsUpTo, hnone]

theorem SameOutline.ancestorsUpTo {g : Forest} (h : SameOutline f g) (n : Nat) (x : NodeId) :
    g.ancestorsUpTo n x = f.ancestorsUpTo n x := by
  induction n generalizing x with
  | zero => rfl
  | succ n ih =>
    have hsame := h.contains x
    have hparent := h.parent x
    cases hx : f.contains x with
    | false =>
      rw [hx] at hsame
      rw [ancestorsUpTo_of_dead _ hx, ancestorsUpTo_of_dead _ hsame]
    | true =>
      rw [hx] at hsame
      cases hp : f.parent x with
      | none =>
        rw [hp] at hparent
        rw [ancestorsUpTo_of_top n hx hp, ancestorsUpTo_of_top n hsame hparent]
      | some p =>
        rw [hp] at hparent
        rw [ancestorsUpTo_of_parent n hp, ancestorsUpTo_of_parent n hparent, ih]

theorem reach_modify (f : Forest) (id : NodeId) (change : Node → Node) :
    (f.modify id change).reach = f.reach := by
  unfold reach modify Arena.modify
  dsimp only
  split
  · exact Array.size_modify
  · rfl

theorem reach_eq_succ (hx : f.contains x = true) : ∃ n, f.reach = n + 1 := by
  obtain ⟨n, hn⟩ := contains_iff.mp hx
  exact Nat.exists_eq_succ_of_ne_zero
    (Nat.ne_of_gt (Nat.zero_lt_of_lt (Arena.index_lt_of_get? hn)))

theorem head?_ancestorsUpTo (n : Nat) (hx : f.contains x = true) :
    (f.ancestorsUpTo (n + 1) x).head? = some x := by
  cases hp : f.parent x with
  | none => rw [ancestorsUpTo_of_top n hx hp, List.head?_cons]
  | some p => rw [ancestorsUpTo_of_parent n hp, List.head?_cons]

theorem Sound.contains_parent (hf : f.Sound) (h : f.parent x = some p) : f.contains p = true := by
  rcases hf.cases_of_parent h with hl | ⟨k, hk, _⟩
  · exact (hf.contains_of_lists hl).1
  · exact contains_of_container? hk

theorem Sound.ranked_up (hf : f.Sound) :
    ∃ rank : NodeId → Nat, ∀ x p, f.parent x = some p → rank x < rank p := by
  obtain ⟨rank, hr⟩ := hf.ranked
  refine ⟨fun y => ((f.container? y).map fun k => rank k.cursor + 1).getD (rank y), ?_⟩
  intro x p h
  rcases hf.cases_of_parent h with hl | ⟨k, hk, hcursor⟩
  · have hx := hf.container?_of_lists hl
    have hp : f.container? p = none := by
      obtain ⟨k, hk, _⟩ := hl
      exact container?_of_composite? hk
    simp only [hx, hp, Option.map_none, Option.getD_none]
    exact hr p x hl
  · have hx := hf.container?_cursor hk
    rw [hcursor] at hx
    simp only [hx, hk, hcursor, Option.map_none, Option.getD_none, Option.map_some,
      Option.getD_some]
    exact Nat.lt_succ_self _

theorem Sound.contains_of_mem_ancestorsUpTo (hf : f.Sound) {n : Nat} (hx : f.contains x = true)
    {y : NodeId} (hy : y ∈ f.ancestorsUpTo n x) : f.contains y = true := by
  induction n generalizing x with
  | zero => cases hy
  | succ n ih =>
    cases hp : f.parent x with
    | none =>
      rw [ancestorsUpTo_of_top n hx hp] at hy
      rwa [List.mem_singleton.mp hy]
    | some p =>
      rw [ancestorsUpTo_of_parent n hp] at hy
      rcases List.mem_cons.mp hy with rfl | hy
      · exact hx
      · exact ih (hf.contains_parent hp) hy

theorem Sound.isChain_ancestorsUpTo (hf : f.Sound) (n : Nat) (hx : f.contains x = true) :
    (f.ancestorsUpTo n x).IsChain fun a b => f.parent a = some b := by
  induction n generalizing x with
  | zero => exact .nil
  | succ n ih =>
    cases hp : f.parent x with
    | none =>
      rw [ancestorsUpTo_of_top n hx hp]
      exact .singleton x
    | some p =>
      have hlive := hf.contains_parent hp
      rw [ancestorsUpTo_of_parent n hp, List.isChain_cons]
      refine ⟨?_, ih hlive⟩
      intro y hy
      cases n with
      | zero => cases hy
      | succ n =>
        rw [head?_ancestorsUpTo n hlive] at hy
        cases hy
        exact hp

theorem Sound.nodup_of_isChain (hf : f.Sound) {way : List NodeId}
    (h : way.IsChain fun a b => f.parent a = some b) : way.Nodup := by
  obtain ⟨rank, hr⟩ := hf.ranked_up
  have hless : way.IsChain fun a b => rank a < rank b := h.imp fun a b hab => hr a b hab
  have htrans : IsTrans NodeId fun a b => rank a < rank b := ⟨fun _ _ _ => Nat.lt_trans⟩
  refine List.Pairwise.imp ?_ hless.pairwise
  intro a b hab he
  rw [he] at hab
  exact Nat.lt_irrefl _ hab

/-- A walk upwards stops at a node without parent, or because it is as long as it may be. -/
theorem Sound.ancestorsUpTo_stops (hf : f.Sound) (n : Nat) (hx : f.contains x = true) :
    (∃ r, (f.ancestorsUpTo n x).getLast? = some r ∧ f.parent r = none) ∨
      (f.ancestorsUpTo n x).length = n := by
  induction n generalizing x with
  | zero => exact Or.inr rfl
  | succ n ih =>
    cases hp : f.parent x with
    | none =>
      rw [ancestorsUpTo_of_top n hx hp]
      exact Or.inl ⟨x, rfl, hp⟩
    | some p =>
      rw [ancestorsUpTo_of_parent n hp]
      rcases ih (hf.contains_parent hp) with ⟨r, hr, htop⟩ | hlen
      · refine Or.inl ⟨r, ?_, htop⟩
        rw [List.getLast?_cons, hr]
        rfl
      · exact Or.inr (congrArg (· + 1) hlen)

theorem Sound.exists_top (hf : f.Sound) (hx : f.contains x = true) :
    ∃ r, (f.ancestors x).getLast? = some r ∧ f.parent r = none := by
  rcases hf.ancestorsUpTo_stops f.reach hx with htop | hlen
  · exact htop
  obtain ⟨r, hr⟩ : ∃ r, (f.ancestors x).getLast? = some r := by
    obtain ⟨n, hn⟩ := reach_eq_succ hx
    have hlen : (f.ancestors x).length = n + 1 := hlen.trans hn
    exact ⟨_, List.getLast?_eq_some_getLast (List.ne_nil_of_length_eq_add_one hlen)⟩
  refine ⟨r, hr, ?_⟩
  cases hp : f.parent r with
  | none => rfl
  | some p =>
    have hrlive := hf.contains_of_mem_ancestorsUpTo hx (List.mem_of_getLast? hr)
    have hchain : (f.ancestors x ++ [p]).IsChain fun a b => f.parent a = some b := by
      refine List.isChain_append.mpr ⟨hf.isChain_ancestorsUpTo _ hx, .singleton p, ?_⟩
      intro a ha b hb
      rw [Option.mem_def, hr] at ha
      cases ha
      cases hb
      exact hp
    have hle : (f.ancestors x ++ [p]).length ≤ f.reach := by
      refine Sound.length_le_reach (hf.nodup_of_isChain hchain) ?_
      intro y hy
      rcases List.mem_append.mp hy with hy | hy
      · exact hf.contains_of_mem_ancestorsUpTo hx hy
      · rw [List.mem_singleton.mp hy]
        exact hf.contains_parent hp
    rw [List.length_append, List.length_singleton] at hle
    have hlen : (f.ancestors x).length = f.reach := hlen
    omega

theorem Rooted.root_getLast (h : f.Rooted) (hf : f.Sound) {n : Nat} {r : NodeId}
    (hx : f.contains x = true) (hr : (f.ancestorsUpTo n x).getLast? = some r) :
    f.root x = f.root r := by
  induction n generalizing x with
  | zero => cases hr
  | succ n ih =>
    cases hp : f.parent x with
    | none =>
      rw [ancestorsUpTo_of_top n hx hp] at hr
      cases hr
      rfl
    | some p =>
      rw [ancestorsUpTo_of_parent n hp, List.getLast?_cons] at hr
      cases hlast : (f.ancestorsUpTo n p).getLast? with
      | none =>
        rw [hlast] at hr
        cases hr
        rfl
      | some s =>
        rw [hlast] at hr
        cases hr
        rw [(h x hx).of_parent hp]
        exact ih (hf.contains_parent hp) hlast

theorem Rooted.rises (h : f.Rooted) (hf : f.Sound) (hx : f.contains x = true) : f.Rises x := by
  have hchain := hf.isChain_ancestorsUpTo f.reach hx
  obtain ⟨r, hr, htop⟩ := hf.exists_top hx
  have hrlive := hf.contains_of_mem_ancestorsUpTo hx (List.mem_of_getLast? hr)
  refine ⟨?_, hchain, hf.nodup_of_isChain hchain, r, hr, htop, ?_⟩
  · obtain ⟨n, hn⟩ := reach_eq_succ hx
    unfold ancestors
    rw [hn, head?_ancestorsUpTo n hx]
  · rw [h.root_getLast hf hx hr, (h r hrlive).of_top htop]

end Climb

section SetRoot
variable {f : Forest} {r x : NodeId}

theorem parent_setRoot (f : Forest) (r x : NodeId) : (f.setRoot r).parent x = f.parent x :=
  (sameOutline_setRoot f r).parent x

theorem contains_setRoot (f : Forest) (r x : NodeId) :
    (f.setRoot r).contains x = f.contains x := (sameContent_setRoot f r x).contains

theorem root_setRoot_of_mem (hx : f.contains x = true) (h : x ∈ r :: f.descendants r) :
    (f.setRoot r).root x = some r := by
  obtain ⟨n, hn⟩ := contains_iff.mp hx
  unfold root
  rw [node?_setRoot, if_pos h, hn]
  rfl

theorem root_setRoot_of_not_mem (h : x ∉ r :: f.descendants r) :
    (f.setRoot r).root x = f.root x := by
  unfold root
  rw [node?_setRoot, if_neg h]

theorem Sound.mem_tree_iff_of_parent (hf : f.Sound) (hr : f.parent r = none)
    (hc : f.container? r = none) {p : NodeId} (hp : f.parent x = some p) :
    x ∈ r :: f.descendants r ↔ p ∈ r :: f.descendants r := by
  rw [List.mem_cons, List.mem_cons, hf.eq_or_mem_descendants_iff hc,
    hf.eq_or_mem_descendants_iff hc]
  constructor
  · rintro ⟨n, hu⟩
    cases n with
    | zero =>
      rw [← hu.eq_of_zero, hr] at hp
      cases hp
    | succ n =>
      obtain ⟨b, hb, hl⟩ := hu.last
      rw [hf.parent_of_lists hl] at hp
      cases hp
      exact ⟨n, hb⟩
  · rintro ⟨n, hu⟩
    rcases hf.cases_of_parent hp with hl | ⟨k, hk, _⟩
    · have hlast := hu.trans (.single hl)
      exact ⟨1 + n, hlast⟩
    · cases n with
      | zero =>
        rw [← hu.eq_of_zero, hc] at hk
        cases hk
      | succ n =>
        obtain ⟨b, _, hb⟩ := hu.last
        rw [hf.container?_of_lists hb] at hk
        cases hk

/-- Once a tree keeps its topmost node as root, only the nodes outside matter. -/
theorem rooted_setRoot (hf : f.Sound) (hr : f.parent r = none) (hc : f.container? r = none)
    (hrest : ∀ x, f.contains x = true → x ∉ r :: f.descendants r → f.RootedAt x) :
    (f.setRoot r).Rooted := by
  intro x hx
  rw [contains_setRoot] at hx
  unfold RootedAt
  rw [parent_setRoot]
  by_cases hmem : x ∈ r :: f.descendants r
  · rw [root_setRoot_of_mem hx hmem]
    cases hp : f.parent x with
    | none =>
      obtain ⟨n, hu⟩ := (hf.eq_or_mem_descendants_iff hc).mp (List.mem_cons.mp hmem)
      cases n with
      | zero => rw [hu.eq_of_zero]
      | succ n =>
        obtain ⟨b, _, hb⟩ := hu.last
        rw [hf.parent_of_lists hb] at hp
        cases hp
    | some p =>
      have hpmem := (hf.mem_tree_iff_of_parent hr hc hp).mp hmem
      exact (root_setRoot_of_mem (hf.contains_parent hp) hpmem).symm
  · rw [root_setRoot_of_not_mem hmem]
    cases hp : f.parent x with
    | none => exact (hrest x hx hmem).of_top hp
    | some p =>
      have hpmem := fun h => hmem ((hf.mem_tree_iff_of_parent hr hc hp).mpr h)
      rw [(hrest x hx hmem).of_parent hp]
      exact (root_setRoot_of_not_mem hpmem).symm

end SetRoot

section Below
variable {f g : Forest} {a d : NodeId} {n : Nat}

theorem Under.mono (hfg : ∀ p c, f.Lists p c → g.Lists p c) (h : f.Under n a d) :
    g.Under n a d := by
  induction h with
  | refl a => exact .refl a
  | down hl _ ih => exact .down (hfg _ _ hl) ih

theorem Raised.lists (h : Raised f g) {p c : NodeId} (hl : f.Lists p c) : g.Lists p c := by
  obtain ⟨k, hk, hc⟩ := hl
  refine ⟨k, ?_, hc⟩
  rw [(SameContent.of_node? (h.node? p (contains_of_composite? hk))).composite?]
  exact hk

theorem Under.plant (hf : f.Sound) {node : NodeId → Node} {content : Content} {cs : List NodeId}
    (hj : f.Joins content cs) (hcontent : (node f.nextId).content = content)
    (h : f.Under n a d) : (f.plant node cs).Under n a d := by
  refine h.mono fun p c hl => ?_
  rw [lists_plant hf hj hcontent, if_neg (hf.lists_ne_nextId hl).1]
  exact hl

theorem contains_plant (hf : f.Sound) {node : NodeId → Node} {cs : List NodeId}
    (hfree : ∀ c ∈ cs, f.Free c) {x : NodeId} (hx : (f.plant node cs).contains x = true) :
    x = f.nextId ∨ f.contains x = true := by
  by_cases hnext : x = f.nextId
  · exact Or.inl hnext
  · rw [(sameContent_plant hf hfree hnext).contains] at hx
    exact Or.inr hx

mutual

theorem grow_under (limit : Nat) {f : Forest} (hf : f.Sound) :
    (a : Archetype) → a.Fits → ∀ x, (grow limit f a).1.contains x = true →
      f.contains x = true ∨ ∃ n, (grow limit f a).1.Under n (grow limit f a).2 x
  | .frozen id draft shape children, ha => by
    obtain ⟨hbelow, hhere, horder⟩ : (∀ c ∈ children, c.2.Fits) ∧ shape.Fits children ∧
        draft.Ordered shape.slotCount := by
      cases ha with
      | frozen below here order => exact ⟨below, here, order⟩
    have h := growAll_offspring limit hf children hbelow
    have hg := h.raised.sound
    have hj := h.joins hhere limit horder
    intro x hx
    simp only [grow, insert_snd] at hx ⊢
    rcases contains_plant hg hj.free hx with hnext | hold
    · rw [hnext]
      exact Or.inr ⟨0, .refl _⟩
    · rcases growAll_under limit hf children hbelow x hold with hold | ⟨e, he, n, hu⟩
      · exact Or.inl hold
      · refine Or.inr ⟨n + 1, .down ((lists_plant hg hj rfl).mpr ?_) (hu.plant hg hj rfl)⟩
        rw [if_pos rfl]
        exact List.mem_map_of_mem he

theorem growAll_under (limit : Nat) {f : Forest} (hf : f.Sound) :
    (children : List (Placing × Archetype)) → (∀ c ∈ children, c.2.Fits) →
      ∀ x, (growAll limit f children).1.contains x = true → f.contains x = true ∨
        ∃ e ∈ (growAll limit f children).2, ∃ n,
          (growAll limit f children).1.Under n e.2.node x
  | [], _ => fun _ hx => Or.inl hx
  | (p, a) :: rest, hc => by
    have ha := hc (p, a) List.mem_cons_self
    have hrest : ∀ c ∈ rest, c.2.Fits := fun c h => hc c (List.mem_cons_of_mem _ h)
    have hsound := (grow_sprouted limit hf a ha).raised.sound
    have hraised := (growAll_offspring limit hsound rest hrest).raised
    intro x hx
    simp only [growAll] at hx ⊢
    rcases growAll_under limit hsound rest hrest x hx with hold | ⟨e, he, hu⟩
    · rcases grow_under limit hf a ha x hold with hold | ⟨n, hu⟩
      · exact Or.inl hold
      · exact Or.inr ⟨_, List.mem_cons_self, n, hu.mono fun _ _ => hraised.lists⟩
    · exact Or.inr ⟨e, List.mem_cons_of_mem _ he, hu⟩

end

end Below

section Operations
variable {f g : Forest} {x : NodeId}

theorem RootedAt.of_old (h : f.RootedAt x) (hparent : g.parent x = f.parent x)
    (hroot : ∀ y, y = x ∨ f.parent x = some y → g.root y = f.root y) : g.RootedAt x := by
  unfold RootedAt at *
  rw [hparent, hroot x (Or.inl rfl), h]
  cases hp : f.parent x with
  | none => rfl
  | some p => exact (hroot p (Or.inr hp)).symm

/-- The root and the parent of the nodes that stay are what they were. -/
theorem Rooted.of_lasts (h : f.Rooted) (hg : g.Sound)
    (hfg : ∀ x, g.contains x = true →
      f.contains x = true ∧ g.parent x = f.parent x ∧ g.root x = f.root x) : g.Rooted := by
  intro x hx
  obtain ⟨hlive, hparent, hroot⟩ := hfg x hx
  refine (h x hlive).of_old hparent ?_
  rintro y (rfl | hp)
  · exact hroot
  · rw [← hparent] at hp
    exact (hfg y (hg.contains_parent hp)).2.2

theorem instantiate_rooted (limit : Nat) (hf : f.Sound) (h : f.Rooted) {a : Archetype}
    (ha : a.Fits) : (f.instantiate limit a).1.Rooted := by
  have hsprout := grow_sprouted limit hf a ha
  have hg := hsprout.raised.sound
  simp only [instantiate]
  refine rooted_setRoot hg hsprout.free.parent hsprout.free.container ?_
  intro x hx hmem
  have hold : f.contains x = true := by
    rcases grow_under limit hf a ha x hx with hold | hu
    · exact hold
    · exact absurd (List.mem_cons.mpr
        ((hg.eq_or_mem_descendants_iff hsprout.free.container).mpr hu)) hmem
  have hsame := hsprout.raised.node?
  refine (h x hold).of_old ?_ ?_
  · unfold parent
    rw [hsame x hold]
  · rintro y (rfl | hp)
    · unfold root
      rw [hsame y hold]
    · unfold root
      rw [hsame y (hf.contains_parent hp)]

theorem root_plant (hf : f.Sound) {node : NodeId → Node} {cs : List NodeId}
    (hfree : ∀ c ∈ cs, f.Free c) {y : NodeId} (hy : y ≠ f.nextId) :
    (f.plant node cs).root y = f.root y := by
  unfold root
  rw [node?_plant hf hfree, if_neg hy]
  split
  · rw [Option.map_map]
    rfl
  · rfl

theorem plant_rooted (hf : f.Sound) (h : f.Rooted) {node : NodeId → Node} {content : Content}
    {cs : List NodeId} (hj : f.Joins content cs) (hcontent : (node f.nextId).content = content)
    (hroot : (node f.nextId).parent = none) : ((f.plant node cs).setRoot f.nextId).Rooted := by
  have hold : ∀ y, f.contains y = true → y ≠ f.nextId := by
    intro y hy
    obtain ⟨n, hn⟩ := contains_iff.mp hy
    exact ne_nextId hf.arena hn
  have hnew : f.nextId ∉ cs := fun hc => hold _ (hj.free _ hc).live rfl
  have hplanted := hf.plant hj hcontent hroot
  have hparent := parent_plant hf hj.free hroot
  have hcontainer : (f.plant node cs).container? f.nextId = none := by
    rw [container?_plant hf hj hcontent]
    simp [container?, node?_nextId hf.arena]
  refine rooted_setRoot hplanted ?_ hcontainer ?_
  · rw [hparent, if_neg hnew]
    simp [parent, node?_nextId hf.arena]
  · intro x hx hmem
    rw [List.mem_cons, hplanted.eq_or_mem_descendants_iff hcontainer] at hmem
    have hlive : f.contains x = true := by
      rcases contains_plant hf hj.free hx with hnext | hlive
      · rw [hnext] at hmem
        exact absurd ⟨0, .refl _⟩ hmem
      · exact hlive
    have hx : x ∉ cs := by
      intro hc
      refine hmem ⟨1, .single ((lists_plant hf hj hcontent).mpr ?_)⟩
      rwa [if_pos rfl]
    refine (h x hlive).of_old ?_ ?_
    · rw [hparent, if_neg hx]
    · rintro y (rfl | hp)
      · exact root_plant hf hj.free (hold y hlive)
      · exact root_plant hf hj.free (hold y (hf.contains_parent hp))

theorem compose_rooted (hf : f.Sound) (h : f.Rooted) {children : List (NodeId × Int)} {id : NodeId}
    (hg : f.compose children = .ok (g, id)) : g.Rooted := by
  obtain ⟨entries, hj, rfl⟩ := compose_planted hf hg
  exact plant_rooted hf h hj rfl rfl

theorem root_addContainer (hf : f.Sound) (limit : Nat) (top bottom x : NodeId) :
    (f.addContainer limit top bottom).1.root x =
      if x = f.nextId ∨ x = f.frameId limit then some (f.frameId limit) else f.root x := by
  unfold root
  rw [node?_addContainer hf]
  by_cases hcursor : x = f.nextId
  · simp [hcursor]
  · by_cases hid : x = f.frameId limit
    · simp [hid, (frameId_ne hf limit).symm, Node.plain]
    · simp [hcursor, hid]

theorem addContainer_rooted (hf : f.Sound) (h : f.Rooted) (limit : Nat) (top bottom : NodeId) :
    (f.addContainer limit top bottom).1.Rooted := by
  have hroot := root_addContainer hf limit top bottom
  have hparent := parent_addContainer hf limit top bottom
  have hold : ∀ y, f.contains y = true → ¬ (y = f.nextId ∨ y = f.frameId limit) := by
    intro y hy hnew
    obtain ⟨n, hn⟩ := contains_iff.mp hy
    rcases hnew with rfl | rfl
    · exact ne_nextId hf.arena hn rfl
    · rw [node?_frameId hf] at hn
      cases hn
  intro x hx
  by_cases hcursor : x = f.nextId
  · unfold RootedAt
    rw [hparent, if_pos hcursor, hroot, if_pos (Or.inl hcursor)]
    exact ((hroot _).trans (if_pos (Or.inr rfl))).symm
  · by_cases hid : x = f.frameId limit
    · unfold RootedAt
      rw [hparent, if_neg hcursor, hroot, if_pos (Or.inr hid), hid]
      simp [parent, node?_frameId hf]
    · have hlive : f.contains x = true := by
        rwa [contains_iff, node?_addContainer hf, if_neg hcursor, if_neg hid, ← contains_iff] at hx
      refine (h x hlive).of_old ?_ ?_
      · rw [hparent, if_neg hcursor]
      · rintro y (rfl | hp)
        · rw [hroot, if_neg (hold y hlive)]
        · rw [hroot, if_neg (hold y (hf.contains_parent hp))]

end Operations

end Stowage.Forest
