import Stowage.Proofs.Grids
import Mathlib.Data.String.Basic

/-!
# Which value of a property counts

A store lists its entries by their keys, and the default key comes before all others. So the value
that is found without a key is the first of all values, whatever a node and its parent have stored
under whatever keys: the own values come first, then those that the parent keeps, both in key order.
-/

namespace Stowage

set_option autoImplicit false

def Property.Before (p q : Property) : Prop := p.key < q.key ∨ p.key = q.key ∧ p.kind ≠ q.kind

namespace PropertyStore

/-- A store as insertions leave it. -/
inductive Filled : PropertyStore → Prop where
  | empty : Filled .empty
  | insertKeyed {s : PropertyStore} (h : Filled s) (kind : PropertyKind) (key : String)
      (value : PropertyValue) : Filled (s.insertKeyed kind key value)

def Lists (s : PropertyStore) (kind : PropertyKind) (values : List PropertyValue) : Prop :=
  ∃ pairs : List (String × PropertyValue), pairs.Pairwise (fun p q => p.1 < q.1) ∧
    (∀ key v, (key, v) ∈ pairs ↔ s.lookup kind key = some v) ∧ values = pairs.map Prod.snd

end PropertyStore

section Order
variable {p q : Property} {l : List Property}

theorem Property.Before.le (h : p.Before q) : p.key ≤ q.key := by
  rcases h with hlt | ⟨heq, _⟩
  · exact le_of_lt hlt
  · exact le_of_eq heq

theorem Property.Before.lt_of_kind_eq (h : p.Before q) (hkind : p.kind = q.kind) :
    p.key < q.key := h.resolve_right fun hsame => hsame.2 hkind

theorem Property.pairwise_insertInto (p : Property) (h : l.Pairwise Property.Before) :
    (p.insertInto l).Pairwise Property.Before := by
  induction l with
  | nil => exact List.pairwise_singleton _ _
  | cons q rest ih =>
    obtain ⟨hq, hrest⟩ := List.pairwise_cons.mp h
    unfold insertInto
    split
    · rename_i hsame
      refine List.pairwise_cons.mpr ⟨?_, hrest⟩
      intro r hr
      unfold Before
      rw [← hsame.1, ← hsame.2]
      exact hq r hr
    · rename_i hother
      split
      · rename_i hlt
        refine List.pairwise_cons.mpr ⟨?_, h⟩
        intro r hr
        rcases List.mem_cons.mp hr with rfl | hr
        · exact Or.inl hlt
        · exact Or.inl (lt_of_lt_of_le hlt (hq r hr).le)
      · rename_i hge
        refine List.pairwise_cons.mpr ⟨?_, ih hrest⟩
        intro r hr
        rcases mem_insertInto hr with rfl | hr
        · rcases lt_or_eq_of_le (not_lt.mp hge) with hlt | heq
          · exact Or.inl hlt
          · exact Or.inr ⟨heq, fun hkind => hother ⟨hkind, heq⟩⟩
        · exact hq r hr

end Order

namespace PropertyStore

section Filled
variable {s : PropertyStore} {kind : PropertyKind}

theorem Filled.ordered (h : s.Filled) : s.entries.Pairwise Property.Before := by
  induction h with
  | empty => exact .nil
  | insertKeyed _ kind key value ih => exact Property.pairwise_insertInto _ ih

def entriesOf (s : PropertyStore) (kind : PropertyKind) : List Property :=
  s.entries.filter fun p => p.kind = kind

theorem mem_entriesOf {p : Property} : p ∈ s.entriesOf kind ↔ p ∈ s.entries ∧ p.kind = kind := by
  unfold entriesOf
  rw [List.mem_filter, decide_eq_true_eq]

theorem Filled.keys_increase (h : s.Filled) (kind : PropertyKind) :
    (s.entriesOf kind).Pairwise fun p q => p.key < q.key := by
  have hordered : (s.entriesOf kind).Pairwise Property.Before := h.ordered.filter _
  refine hordered.imp_of_mem ?_
  intro p q hp hq hbefore
  exact hbefore.lt_of_kind_eq ((mem_entriesOf.mp hp).2.trans (mem_entriesOf.mp hq).2.symm)

theorem of_find? {key : String} {p : Property}
    (h : (s.entries.find? fun p => p.kind = kind ∧ p.key = key) = some p) :
    p.kind = kind ∧ p.key = key := by
  have hfound := List.find?_some h
  rwa [decide_eq_true_eq] at hfound

/-- What is found under a key is the one entry of the kind that has the key. -/
theorem Filled.lookup_eq_some_iff (h : s.Filled) {key : String} {v : PropertyValue} :
    s.lookup kind key = some v ↔ ⟨kind, key, v⟩ ∈ s.entries := by
  unfold lookup
  rw [Option.map_eq_some_iff]
  constructor
  · rintro ⟨q, hq, rfl⟩
    obtain ⟨rfl, rfl⟩ := of_find? hq
    exact List.mem_of_find?_eq_some hq
  · intro hmem
    cases hq : s.entries.find? fun p => p.kind = kind ∧ p.key = key with
    | none => exact absurd (decide_eq_true ⟨rfl, rfl⟩) (List.find?_eq_none.mp hq _ hmem)
    | some q =>
      have hsame := of_find? hq
      have hqmem := mem_entriesOf.mpr ⟨List.mem_of_find?_eq_some hq, hsame.1⟩
      have hnew : (⟨kind, key, v⟩ : Property) ∈ s.entriesOf kind := mem_entriesOf.mpr ⟨hmem, rfl⟩
      have hkeys : ((s.entriesOf kind).map Property.key).Nodup :=
        List.pairwise_map.mpr ((h.keys_increase kind).imp fun hlt => ne_of_lt hlt)
      exact ⟨q, rfl, congrArg Property.value
        (List.inj_on_of_nodup_map hkeys hqmem hnew hsame.2)⟩

theorem Filled.lists_all (h : s.Filled) (kind : PropertyKind) : s.Lists kind (s.all kind) := by
  refine ⟨(s.entriesOf kind).map fun p => (p.key, p.value), ?_, ?_, ?_⟩
  · exact List.pairwise_map.mpr (h.keys_increase kind)
  · intro key v
    rw [h.lookup_eq_some_iff, List.mem_map]
    constructor
    · rintro ⟨p, hp, hpair⟩
      cases hpair
      obtain ⟨hentry, rfl⟩ := mem_entriesOf.mp hp
      exact hentry
    · intro hp
      exact ⟨_, mem_entriesOf.mpr ⟨hp, rfl⟩, rfl⟩
  · unfold all entriesOf
    rw [List.map_map]
    rfl

theorem Filled.get_none (h : s.Filled) (kind : PropertyKind) :
    s.get kind none = (s.all kind).head? := by
  unfold get
  cases hdefault : s.lookup kind defaultKey with
  | none => rfl
  | some v =>
    have hmem := mem_entriesOf.mpr ⟨h.lookup_eq_some_iff.mp hdefault, rfl⟩
    have hkeys := h.keys_increase kind
    change some v = ((s.entriesOf kind).map Property.value).head?
    cases hentries : s.entriesOf kind with
    | nil =>
      rw [hentries] at hmem
      cases hmem
    | cons p rest =>
      rw [hentries] at hmem hkeys
      rcases List.mem_cons.mp hmem with hp | hp
      · rw [← hp]
        rfl
      · exact absurd ((List.pairwise_cons.mp hkeys).1 _ hp) (List.not_lt_nil _)

end Filled

end PropertyStore

def FilledStores (own : PropertyStore) (children : List (Placing × Archetype)) : Prop :=
  own.Filled ∧ ∀ c ∈ children, c.1.relative.Filled

theorem Builder.filledStores_misused {b : Builder} (h : FilledStores b.draft.properties b.children)
    (m : Misuse) : FilledStores (b.misused m).draft.properties (b.misused m).children := by
  unfold misused
  split <;> exact h

mutual

theorem Builder.Written.filledStores {b : Builder} :
    b.Written → FilledStores b.draft.properties b.children
  | .unset => ⟨.empty, by simp [Builder.unset]⟩
  | .rows columns => ⟨.empty, by simp [Builder.rows, Builder.grid, Builder.kind, Builder.unset]⟩
  | .ofArchetype h => h.filledStores
  | .kind k h => h.filledStores
  | .name key h => h.filledStores
  | @Builder.Written.propertyKeyed b kind key value h => by
    unfold Builder.propertyKeyed
    split
    · exact Builder.filledStores_misused h.filledStores _
    · exact ⟨h.filledStores.1.insertKeyed kind key value, h.filledStores.2⟩
  | .filter f h => h.filledStores
  | .maxStackSize n h => h.filledStores
  | .capacity n h => h.filledStores
  | @Builder.Written.place b a placement priority h _ => by
    refine ⟨h.filledStores.1, ?_⟩
    intro c hc
    rcases List.mem_append.mp hc with hc | hc
    · exact h.filledStores.2 c hc
    · rw [List.mem_singleton.mp hc]
      exact .empty
  | @Builder.Written.insert b a position priority h _ => by
    unfold Builder.insert
    split
    · exact Builder.filledStores_misused h.filledStores _
    · rename_i hposition
      refine ⟨h.filledStores.1, ?_⟩
      intro c hc
      rcases (List.mem_insertIdx (by omega)).mp hc with hc | hc
      · rw [hc]
        exact .empty
      · exact h.filledStores.2 c hc
  | @Builder.Written.childProperty b position kind value h => by
    unfold Builder.childProperty
    split
    · refine ⟨h.filledStores.1, ?_⟩
      intro c hc
      obtain ⟨i, hi⟩ := List.mem_iff_getElem?.mp hc
      rw [List.getElem?_modify] at hi
      obtain ⟨d, hd, rfl⟩ := Option.map_eq_some_iff.mp hi
      have hfilled := h.filledStores.2 d (List.mem_iff_getElem?.mpr ⟨i, hd⟩)
      split
      · exact hfilled.insertKeyed kind defaultKey value
      · exact hfilled
    · exact Builder.filledStores_misused h.filledStores _
  | .fillOrder order h => h.filledStores
  | .shiftClick behavior h => h.filledStores

theorem Archetype.Made.filledStores {a : Archetype} :
    a.Made → FilledStores a.properties a.children
  | .frozen h hf => by
    obtain ⟨_, _, _, _, rfl⟩ := Builder.freeze_ok hf
    exact h.filledStores

end

structure Node.Filled (n : Node) : Prop where
  own : n.properties.Filled
  kept : ∀ k, n.content.composite? = some k → ∀ e ∈ k.children, e.relative.Filled

theorem Node.Filled.congr {n m : Node} (h : n.Filled) (hcontent : m.content.bare = n.content.bare)
    (hproperties : m.properties = n.properties) : m.Filled where
  own := by
    rw [hproperties]
    exact h.own
  kept := by
    intro k hk
    rw [← Forest.OutlineAt.composite?_bare, hcontent, Forest.OutlineAt.composite?_bare] at hk
    exact h.kept k hk

namespace Forest

/-- All stores in the forest were filled by insertions. -/
def Filled (f : Forest) : Prop := ∀ x n, f.node? x = some n → n.Filled

section Filled
variable {f g : Forest} {x : NodeId} {n : Node}

theorem Realises.filled {limit : Nat} {a : Archetype} (h : f.Realises limit a x) (ha : a.Made)
    (hn : f.node? x = some n) : n.Filled := by
  obtain @⟨_, _, seated, here, _, _⟩ := h
  obtain ⟨m, hm, hshows⟩ := here.node
  rw [hn] at hm
  cases hm
  obtain ⟨hown, hkept⟩ := ha.filledStores
  refine ⟨by rwa [hshows.properties], ?_⟩
  intro k hk e he
  rw [hshows.content.entries hk] at he
  obtain ⟨s, hs, rfl⟩ := List.mem_map.mp he
  exact hkept s.seat.1 (List.mem_of_getElem? (here.getElem?_number hs))

theorem Filled.setRoot (h : f.Filled) (r : NodeId) : (f.setRoot r).Filled := by
  intro x n hn
  rw [node?_setRoot] at hn
  split at hn
  · obtain ⟨m, hm, rfl⟩ := Option.map_eq_some_iff.mp hn
    exact (h x m hm).congr rfl rfl
  · exact h x n hn

theorem Filled.plant (h : f.Filled) (hf : f.Sound) {node : NodeId → Node} {cs : List NodeId}
    (hfree : ∀ c ∈ cs, f.Free c) (hnode : (node f.nextId).Filled) : (f.plant node cs).Filled := by
  intro x n hn
  rw [node?_plant hf hfree] at hn
  split at hn
  · cases hn
    exact hnode
  · split at hn
    · obtain ⟨m, hm, rfl⟩ := Option.map_eq_some_iff.mp hn
      exact (h x m hm).congr rfl rfl
    · exact h x n hn

theorem Filled.compose (h : f.Filled) (hf : f.Sound) {children : List (NodeId × Int)} {id : NodeId}
    (hg : f.compose children = .ok (g, id)) : g.Filled := by
  unfold Forest.compose at hg
  split at hg
  · cases hg
  · rename_i hjoin
    simp only [insert_snd] at hg
    cases hg
    refine (h.plant hf (fun c hc => ((free_of_joinRefusal hjoin).2 c hc).1) ?_).setRoot _
    refine ⟨.empty, ?_⟩
    rintro k ⟨⟩ e he
    obtain ⟨c, _, rfl⟩ := List.mem_map.mp he
    exact .empty

theorem Change.filled {limit : Nat} {new : List (NodeId × Draft)} (h : Change limit f new g)
    (hf : f.Sound) (hg : g.Sound) (hfilled : f.Filled) : g.Filled := by
  cases h with
  | lasts h =>
    intro x n hn
    have hsame := h x (contains_iff.mpr ⟨n, hn⟩)
    rw [hn, Option.map_some] at hsame
    obtain ⟨m, hm, hbare⟩ := Option.map_eq_some_iff.mp hsame.symm
    obtain ⟨hcontent, _, _, hproperties⟩ := Node.of_bare_eq hbare.symm
    exact (hfilled x m hm).congr hcontent hproperties
  | grow made =>
    intro x n hn
    rcases instantiate_cases hf hg made hn with hkept | ⟨b, hb, hreal⟩
    · exact hfilled x n hkept
    · exact hreal.filled hb hn
  | join h => exact hfilled.compose hf h
  | frame ht hb =>
    intro x n hn
    rw [node?_addContainer hf] at hn
    split at hn
    · cases hn
      exact ⟨.empty, by rintro k ⟨⟩⟩
    · split at hn
      · cases hn
        exact ⟨.empty, by rintro k ⟨⟩⟩
      · exact hfilled x n hn

end Filled

end Forest

/-- Throughout a run all stores are as insertions leave them. -/
theorem Run.filled {past : List World} {w : World} (h : Run past w) : w.state.forest.Filled := by
  refine h.forest_induction ?_ fun hchange hf hg hfilled => hchange.filled hf hg hfilled
  intro x n hn
  rw [Forest.node?_empty] at hn
  cases hn

namespace Forest

def ownOf (f : Forest) (x : NodeId) : PropertyStore :=
  ((f.node? x).map Node.properties).getD .empty

/-- Without a key the first of all values counts. All values are the own ones and then those that
the parent keeps, both in key order; where there are none, a title is told all the same. -/
structure Resolves (env : Environment) (f : Forest) (x : NodeId) (kind : PropertyKind) : Prop where
  first : f.property env x kind none = (f.properties env x kind).head?
  listed : ∃ own kept, (f.ownOf x).Lists kind own ∧ (f.keptFor x).Lists kind kept ∧
    (own ++ kept ≠ [] → f.properties env x kind = own ++ kept) ∧
    (own ++ kept = [] → f.properties env x kind ≠ [] → kind = .title)

section Resolves
variable {env : Environment} {f : Forest} {x : NodeId} {n : Node} {kind : PropertyKind}

theorem Filled.keptFor (h : f.Filled) (hn : f.node? x = some n) : (f.keptFor x).Filled := by
  rw [keptFor_of_node? hn]
  cases hs : f.relativeStore x n with
  | none => exact .empty
  | some s =>
    obtain ⟨p, _, hs⟩ := Option.bind_eq_some_iff.mp hs
    obtain ⟨k, hk, hs⟩ := Option.bind_eq_some_iff.mp hs
    obtain ⟨e, he, rfl⟩ := Option.map_eq_some_iff.mp hs
    obtain ⟨m, hm, hk⟩ := composite?_eq_some_iff.mp hk
    exact (h p m hm).kept k hk e (List.mem_of_find?_eq_some he)

theorem relativeProperty_of_plain (hn : f.node? x = some n) (hkind : kind.isStructural = false) :
    f.relativeProperty x n kind none = (f.keptFor x).get kind none := by
  have hstored : f.relativeProperty x n kind none =
      (f.relativeStore x n).bind fun s => s.get kind none := by
    unfold relativeProperty
    cases kind <;> cases hkind <;> rfl
  rw [hstored, keptFor_of_node? hn]
  cases f.relativeStore x n with
  | none => rfl
  | some s => rfl

theorem ownOf_of_node? (hn : f.node? x = some n) : f.ownOf x = n.properties := by
  unfold ownOf
  rw [hn]
  rfl

theorem properties_of_plain (hn : f.node? x = some n) (hkind : kind.isStructural = false) :
    f.properties env x kind =
      if (f.ownOf x).all kind ++ (f.keptFor x).all kind = [] then
        (f.structuralProperty (titleOfNode env f) x n kind).toList
      else (f.ownOf x).all kind ++ (f.keptFor x).all kind := by
  unfold properties
  rw [hn, ownOf_of_node? hn, all_keptFor hn]
  simp only [List.isEmpty_iff]
  split
  · rename_i hnone
    rw [← all_keptFor hn] at hnone
    rw [relativeProperty_of_plain hn hkind,
      PropertyStore.get_of_all_nil (List.append_eq_nil_iff.mp hnone).2 none]
  · rfl

theorem property_of_plain (h : f.Filled) (hn : f.node? x = some n)
    (hkind : kind.isStructural = false) : f.property env x kind none =
      (((f.ownOf x).all kind).head? <|> ((f.keptFor x).all kind).head? <|>
        f.structuralProperty (titleOfNode env f) x n kind) := by
  unfold property propertyFrom
  rw [hn, Option.bind_some, ownOf_of_node? hn, relativeProperty_of_plain hn hkind,
    (h x n hn).own.get_none, (h.keptFor hn).get_none]
  cases (n.properties.all kind).head? with
  | some v => rfl
  | none =>
    cases ((f.keptFor x).all kind).head? <;> rfl

theorem Filled.resolves (h : f.Filled) (hx : f.contains x = true)
    (hkind : kind.isStructural = false) (env : Environment) : f.Resolves env x kind := by
  obtain ⟨n, hn⟩ := contains_iff.mp hx
  have hall : f.properties env x kind = _ := properties_of_plain hn hkind
  have hown : (f.ownOf x).Filled := by
    rw [ownOf_of_node? hn]
    exact (h x n hn).own
  refine ⟨?_, _, _, hown.lists_all kind, (h.keptFor hn).lists_all kind, ?_, ?_⟩
  · rw [property_of_plain h hn hkind, hall]
    cases (f.ownOf x).all kind with
    | cons v rest => rfl
    | nil =>
      cases (f.keptFor x).all kind with
      | cons v rest => rfl
      | nil => exact Option.head?_toList.symm
  · intro hsome
    rw [hall, if_neg hsome]
  · intro hnone htold
    rw [hall, if_pos hnone] at htold
    cases kind with
    | title => rfl
    | capacity => cases hkind
    | slotIndex => exact absurd rfl htold
    | slotPosition => exact absurd rfl htold
    | equipmentSlot => exact absurd rfl htold
    | armorSlot => exact absurd rfl htold
    | custom name => exact absurd rfl htold

end Resolves

end Forest

/-- In every state that is reached a property without a key is the first of all values of it, and
so it is in every forest whose stores were filled by insertions, whatever was put into the own store
and the store of the parent under whatever keys. -/
theorem first_value_counts {kind : PropertyKind} (hkind : kind.isStructural = false) :
    (∀ (past : List World) (w : World) (x : NodeId), Run past w →
      w.state.forest.contains x = true → w.state.forest.Resolves w.state.env x kind) ∧
    ∀ (env : Environment) (f : Forest) (x : NodeId), f.Filled → f.contains x = true →
      f.Resolves env x kind :=
  ⟨fun _ _ _ h hx => h.filled.resolves hx hkind _, fun env _ _ h hx => h.resolves hx hkind env⟩

section Badged

def Builder.badged : Builder :=
  (Builder.slot.propertyKeyed (.custom "badge") "late" (.int 2)).propertyKeyed (.custom "badge")
    "early" (.int 1)

def Archetype.badged : Archetype := .frozen none Builder.badged.draft ⟨.slot, 1, []⟩ []

theorem Archetype.badged_made : badged.Made :=
  .frozen (.propertyKeyed _ _ _ (.propertyKeyed _ _ _ (.kind .slot .unset)))
    (show Builder.badged.freeze none = .ok badged from rfl)

def Builder.badgeRow : Builder :=
  (Builder.ordered.add .badged 0).childProperty 0 (.custom "badge") (.int 3)

def Archetype.badgeRow : Archetype :=
  .frozen none Builder.badgeRow.draft ⟨.ordered, 1, []⟩ Builder.badgeRow.children

theorem Archetype.badgeRow_made : badgeRow.Made :=
  .frozen (.childProperty _ _ _ (.place _ _ (.kind .ordered .unset) badged_made))
    (show Builder.badgeRow.freeze none = .ok badgeRow from rfl)

def Operation.badged : List Operation := [.instantiate .badgeRow Archetype.badgeRow_made]

theorem first_value_counts_badged :
    (PropertyKind.custom "badge").isStructural = false ∧
    (World.reached Operation.badged).2.state.forest.contains ⟨0, 0⟩ = true ∧
    (World.reached Operation.badged).2.state.properties ⟨0, 0⟩ (.custom "badge") =
      [.int 1, .int 2, .int 3] ∧
    (World.reached Operation.badged).2.state.property ⟨0, 0⟩ (.custom "badge") none =
      some (.int 1) := by
  have hlive : (World.reached Operation.badged).2.state.forest.contains ⟨0, 0⟩ = true := by
    decide +kernel
  have hall : (World.reached Operation.badged).2.state.properties ⟨0, 0⟩ (.custom "badge") =
      [.int 1, .int 2, .int 3] := by
    decide +kernel
  have hkind : (PropertyKind.custom "badge").isStructural = false := rfl
  have hresolves := (first_value_counts hkind).1 _ _ ⟨0, 0⟩ (Run.reached Operation.badged) hlive
  refine ⟨hkind, hlive, hall, ?_⟩
  exact hresolves.first.trans (congrArg List.head? hall)

end Badged

end Stowage
