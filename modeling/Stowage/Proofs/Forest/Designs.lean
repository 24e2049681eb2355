import Stowage.Proofs.Changes

/-!
# What nodes have from their archetypes

A node made from an archetype has its properties from there, and each of its children stands where
the archetype places it and comes with what the archetype tells of it. All other nodes have no
properties, and none of them is a grid. No property that an archetype has of its own is one that
follows from the shape.
-/

namespace Stowage

set_option autoImplicit false

def PropertyStore.Plain (s : PropertyStore) : Prop :=
  ∀ q ∈ s.entries, q.kind.isStructural = false

section Plain
variable {s : PropertyStore}

theorem PropertyStore.plain_empty : PropertyStore.empty.Plain := by
  intro q hq
  cases hq

theorem Property.mem_insertInto {p q : Property} {l : List Property} (h : q ∈ p.insertInto l) :
    q = p ∨ q ∈ l := by
  induction l with
  | nil => exact Or.inl (List.mem_singleton.mp h)
  | cons r rest ih =>
    unfold insertInto at h
    split at h
    · exact (List.mem_cons.mp h).imp_right (List.mem_cons_of_mem r)
    · split at h
      · exact List.mem_cons.mp h
      · rcases List.mem_cons.mp h with h | h
        · exact Or.inr (List.mem_cons.mpr (Or.inl h))
        · exact (ih h).imp_right (List.mem_cons_of_mem r)

theorem PropertyStore.Plain.insertKeyed (h : s.Plain) {kind : PropertyKind}
    (hkind : kind.isStructural = false) (key : String) (value : PropertyValue) :
    (s.insertKeyed kind key value).Plain := by
  intro q hq
  rcases Property.mem_insertInto hq with rfl | hq
  · exact hkind
  · exact h q hq

theorem PropertyStore.Plain.all_eq_nil (h : s.Plain) {kind : PropertyKind}
    (hkind : kind.isStructural = true) : s.all kind = [] := by
  unfold all
  rw [List.map_eq_nil_iff, List.filter_eq_nil_iff]
  intro q hq hsame
  have hplain := h q hq
  rw [of_decide_eq_true hsame, hkind] at hplain
  cases hplain

end Plain

theorem Builder.properties_misused (b : Builder) (m : Misuse) :
    (b.misused m).draft.properties = b.draft.properties := by
  unfold misused
  split <;> rfl

mutual

theorem Builder.Written.plain {b : Builder} : b.Written → b.draft.properties.Plain
  | .unset => PropertyStore.plain_empty
  | .rows columns => PropertyStore.plain_empty
  | .ofArchetype h => h.plain
  | .kind k h => h.plain
  | .name key h => h.plain
  | @Builder.Written.propertyKeyed b kind key value h => by
    unfold Builder.propertyKeyed
    split
    · rw [Builder.properties_misused]
      exact h.plain
    · rename_i hkind
      exact h.plain.insertKeyed (Bool.eq_false_iff.mpr hkind) key value
  | .filter f h => h.plain
  | .maxStackSize n h => h.plain
  | .capacity n h => h.plain
  | .place placement priority h _ => h.plain
  | @Builder.Written.insert b a position priority h _ => by
    unfold Builder.insert
    split
    · rw [Builder.properties_misused]
      exact h.plain
    · exact h.plain
  | @Builder.Written.childProperty b position kind value h => by
    unfold Builder.childProperty
    split
    · exact h.plain
    · rw [Builder.properties_misused]
      exact h.plain
  | .fillOrder order h => h.plain
  | .shiftClick behavior h => h.plain

theorem Archetype.Made.plain {a : Archetype} : a.Made → a.properties.Plain
  | .frozen h hf => by
    obtain ⟨_, _, _, _, rfl⟩ := Builder.freeze_ok hf
    exact h.plain

end

structure Content.Houses (c : Content) (a : Archetype)
    (entries : List (Placement × ChildEntry)) : Prop where
  placings : (entries.map fun e => (⟨e.1, e.2.priority, e.2.relative⟩ : Placing)).Perm
    (a.children.map Prod.fst)
  children : ∀ {k : Composite}, c.composite? = some k → k.children = entries.map Prod.snd
  origins : ∀ {g : GridComposite}, c = .grid g → g.origins = entries.map fun e => e.1.origin

structure Node.From (n : Node) (a : Archetype) (entries : List (Placement × ChildEntry)) :
    Prop where
  made : a.Made
  archetype : n.archetype = a.id
  properties : n.properties = a.properties
  houses : n.content.Houses a entries

/-- The node is made from an archetype, or has no properties and is no grid. -/
def Node.Designed (n : Node) : Prop :=
  (∃ a entries, n.From a entries) ∨ (n.properties = .empty ∧ ∀ g, n.content ≠ .grid g)

def Forest.Designed (f : Forest) : Prop := ∀ x n, f.node? x = some n → n.Designed

section Node
variable {n m : Node} {a : Archetype} {entries : List (Placement × ChildEntry)}

theorem Content.Houses.congr {c d : Content} (h : c.Houses a entries) (hcd : d.bare = c.bare) :
    d.Houses a entries where
  placings := h.placings
  children := by
    intro k hk
    rw [← Forest.OutlineAt.composite?_bare, hcd, Forest.OutlineAt.composite?_bare] at hk
    exact h.children hk
  origins := by
    rintro g rfl
    refine h.origins ?_
    cases c <;> cases hcd
    rfl

theorem Node.plain_of_designed (h : n.Designed) : n.properties.Plain := by
  rcases h with ⟨a, entries, h⟩ | ⟨h, _⟩
  · rw [h.properties]
    exact h.made.plain
  · rw [h]
    exact PropertyStore.plain_empty

theorem Node.Designed.congr (h : n.Designed) (hcontent : m.content.bare = n.content.bare)
    (harchetype : m.archetype = n.archetype) (hproperties : m.properties = n.properties) :
    m.Designed := by
  rcases h with ⟨a, entries, h⟩ | ⟨hempty, hgrid⟩
  · refine Or.inl ⟨a, entries, h.made, ?_, ?_, h.houses.congr hcontent⟩
    · rw [harchetype, h.archetype]
    · rw [hproperties, h.properties]
  · refine Or.inr ⟨by rw [hproperties, hempty], ?_⟩
    intro g hg
    rw [hg] at hcontent
    cases hn : n.content <;> rw [hn] at hcontent <;> cases hcontent
    exact hgrid g hn

theorem Node.designed_plain (id : NodeId) {content : Content} (h : ∀ g, content ≠ .grid g) :
    (Node.plain id content).Designed := Or.inr ⟨rfl, h⟩

end Node

namespace Forest

variable {f g : Forest}

theorem Designed.setRoot (h : f.Designed) (r : NodeId) : (f.setRoot r).Designed := by
  intro x n hn
  rw [node?_setRoot] at hn
  split at hn
  · obtain ⟨m, hm, rfl⟩ := Option.map_eq_some_iff.mp hn
    exact (h x m hm).congr rfl rfl rfl
  · exact h x n hn

theorem Designed.plant (h : f.Designed) (hf : f.Sound) {node : NodeId → Node} {cs : List NodeId}
    (hfree : ∀ c ∈ cs, f.Free c) (hnode : (node f.nextId).Designed) :
    (f.plant node cs).Designed := by
  intro x n hn
  rw [node?_plant hf hfree] at hn
  split at hn
  · cases hn
    exact hnode
  · split at hn
    · obtain ⟨m, hm, rfl⟩ := Option.map_eq_some_iff.mp hn
      exact (h x m hm).congr rfl rfl rfl
    · exact h x n hn

theorem Designed.lasts (h : f.Designed) (hfg : Lasts f g) : g.Designed := by
  intro x n hn
  have hsame := hfg x (contains_iff.mpr ⟨n, hn⟩)
  rw [hn, Option.map_some] at hsame
  obtain ⟨m, hm, hbare⟩ := Option.map_eq_some_iff.mp hsame.symm
  obtain ⟨hcontent, _, _, hproperties⟩ := Node.of_bare_eq hbare.symm
  have harchetype : n.bare.archetype = m.bare.archetype := congrArg Node.archetype hbare.symm
  exact (h x m hm).congr hcontent harchetype hproperties

theorem Designed.addContainer (h : f.Designed) (hf : f.Sound) (limit : Nat)
    (top bottom : NodeId) : (f.addContainer limit top bottom).1.Designed := by
  intro x n hn
  rw [node?_addContainer hf] at hn
  split at hn
  · cases hn
    exact (Node.designed_plain f.nextId (by rintro g ⟨⟩)).congr rfl rfl rfl
  · split at hn
    · cases hn
      exact (Node.designed_plain (f.frameId limit) (by rintro g ⟨⟩)).congr rfl rfl rfl
    · exact h x n hn

section Grow

theorem growAll_placings (limit : Nat) (f : Forest) (children : List (Placing × Archetype)) :
    ((growAll limit f children).2.map fun e => (⟨e.1, e.2.priority, e.2.relative⟩ : Placing)) =
      children.map Prod.fst := by
  induction children generalizing f with
  | nil => rfl
  | cons c rest ih =>
    obtain ⟨p, a⟩ := c
    simp only [growAll, List.map_cons, ih]

theorem houses_contentOf (f : Forest) (limit : Nat) {id : Option ArchetypeId} {draft : Draft}
    {shape : Shape} {children : List (Placing × Archetype)}
    {entries : List (Placement × ChildEntry)}
    (h : (entries.map fun e => (⟨e.1, e.2.priority, e.2.relative⟩ : Placing)) =
      children.map Prod.fst) : ∃ placed : List (Placement × ChildEntry),
      (f.contentOf limit draft shape entries).Houses (.frozen id draft shape children) placed := by
  unfold contentOf
  cases shape.kind with
  | slot => exact ⟨entries, .of_eq h, nofun, nofun⟩
  | ordered =>
    refine ⟨entries, .of_eq h, ?_, nofun⟩
    rintro k ⟨⟩
    rfl
  | grid columns rows =>
    have hperm := (stableSort_perm (fun a b : Placement × ChildEntry =>
      cellBefore a.1.origin b.1.origin) entries).map
        fun e => (⟨e.1, e.2.priority, e.2.relative⟩ : Placing)
    refine ⟨_, hperm.trans (.of_eq h), ?_, ?_⟩
    · rintro k ⟨⟩
      rfl
    · rintro g ⟨⟩
      rfl

mutual

theorem grow_designed (limit : Nat) {f : Forest} (hf : f.Sound) (h : f.Designed) :
    (a : Archetype) → a.Made → (grow limit f a).1.Designed
  | .frozen id draft shape children, ha => by
    have hgrown := growAll_designed limit hf h children ha.children_made
    obtain ⟨hbelow, hhere, horder⟩ : (∀ c ∈ children, c.2.Fits) ∧ shape.Fits children ∧
        draft.Ordered shape.slotCount := by
      cases ha.fits with
      | frozen below here order => exact ⟨below, here, order⟩
    have hoffspring := growAll_offspring limit hf children hbelow
    have hj := hoffspring.joins hhere limit horder
    obtain ⟨placed, hhouses⟩ : ∃ placed : List (Placement × ChildEntry),
        ((growAll limit f children).1.contentOf limit draft shape
          (growAll limit f children).2).Houses (.frozen id draft shape children) placed :=
      houses_contentOf _ limit (growAll_placings limit f children)
    simp only [grow, insert_snd]
    refine hgrown.plant hoffspring.raised.sound hj.free ?_
    exact Or.inl ⟨.frozen id draft shape children, placed, ha, rfl, rfl, hhouses⟩

theorem growAll_designed (limit : Nat) {f : Forest} (hf : f.Sound) (h : f.Designed) :
    (children : List (Placing × Archetype)) → (∀ c ∈ children, c.2.Made) →
      (growAll limit f children).1.Designed
  | [], _ => h
  | (p, a) :: rest, hc => by
    have ha := hc (p, a) List.mem_cons_self
    have hsound := (grow_sprouted limit hf a ha.fits).raised.sound
    simp only [growAll]
    exact growAll_designed limit hsound (grow_designed limit hf h a ha) rest
      fun c hcr => hc c (List.mem_cons_of_mem _ hcr)

end

end Grow

theorem Change.designed {limit : Nat} {new : List (NodeId × Draft)} (h : Change limit f new g)
    (hf : f.Sound) (hd : f.Designed) : g.Designed := by
  cases h with
  | lasts h => exact hd.lasts h
  | @grow a made => exact (grow_designed limit hf hd a made).setRoot _
  | join h =>
    obtain ⟨entries, hj, rfl⟩ := compose_planted hf h
    exact (hd.plant hf hj.free (Node.designed_plain _ (by rintro g ⟨⟩))).setRoot _
  | frame ht hb => exact hd.addContainer hf limit _ _

end Forest

/-- Throughout a run nodes are as their archetypes have them. -/
theorem Run.designed {past : List World} {w : World} (h : Run past w) :
    w.state.forest.Designed := by
  refine h.forest_induction ?_ fun hchange hf _ hd => hchange.designed hf hd
  intro x n hn
  rw [Forest.node?_empty] at hn
  cases hn

end Stowage
