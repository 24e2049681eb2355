import Stowage.Proofs.Forest.Outermost

/-!
# Walks as loops

A walk is also a loop: upwards it follows parents until there is none, downwards it keeps the nodes
that still wait on a stack, and a tree gets its root by such a loop as well. Each of these loops
comes to its end, and there it has what the bounded walks give.
-/

namespace Stowage

set_option autoImplicit false

/-- A loop whose body gives the next state, or nothing when the loop is left, ends in `b`. -/
inductive Ends {α : Type} (body : α → Option α) : α → α → Prop where
  | leave {a : α} : body a = none → Ends body a a
  | again {a b c : α} : body a = some b → Ends body b c → Ends body a c

/-- The body of a loop over a stack, whose top comes first: the top is visited, and what comes below
it is laid on the stack instead. -/
def sweep {σ : Type} (visit : σ → NodeId → σ) (below : σ → NodeId → List NodeId) :
    σ × List NodeId → Option (σ × List NodeId)
  | (_, []) => none
  | (s, id :: waiting) => some (visit s id, below s id ++ waiting)

namespace Forest

def goUp (f : Forest) : List NodeId × Option NodeId → Option (List NodeId × Option NodeId)
  | (_, none) => none
  | (passed, some id) => (f.node? id).map fun n => (passed ++ [id], n.parent)

def below (f : Forest) (id : NodeId) : List NodeId :=
  if f.kind id = some .container then [] else f.children id

def goDown (f : Forest) : List NodeId × List NodeId → Option (List NodeId × List NodeId) :=
  sweep (fun passed id => passed ++ [id]) fun _ id => f.below id

def giveRoot (root : NodeId) (f : Forest) (id : NodeId) : Forest :=
  f.modify id fun n => { n with root := root }

def lastFirst (f : Forest) (id : NodeId) : List NodeId :=
  ((f.composite? id).map fun k => (k.children.map ChildEntry.node).reverse).getD []

def spreadRoot (root : NodeId) : Forest × List NodeId → Option (Forest × List NodeId) :=
  sweep (giveRoot root) lastFirst

def stepFromFirst (f : Forest) (id : NodeId) : Nat → Option NodeId
  | 0 => f.first id
  | i + 1 => (f.stepFromFirst id i).bind f.next

def tree (f : Forest) (id : NodeId) : List NodeId := id :: f.descendants id

section Tree
variable {f : Forest} {a c d : NodeId}

/-- What holds of a node as soon as it holds of its children holds of all nodes but containers. -/
theorem Sound.down_induction (hf : f.Sound) {P : NodeId → Prop}
    (step : ∀ a, f.container? a = none → (∀ c ∈ f.children a, f.container? c = none ∧ P c) → P a)
    (ha : f.container? a = none) : P a := by
  obtain ⟨rank, hr⟩ := hf.ranked
  induction hn : rank a using Nat.strongRecOn generalizing a with
  | ind r ih =>
    refine step a ha fun c hc => ?_
    have hl := (Sound.mem_children_iff ha).mp hc
    have hlt := hr _ _ hl
    have hplain := hf.container?_of_lists hl
    exact ⟨hplain, ih (rank c) (by omega) hplain rfl⟩

theorem kind_of_plain (ha : f.container? a = none) : f.kind a ≠ some .container := by
  intro h
  obtain ⟨k, hk⟩ := kind_eq_container_iff.mp h
  rw [ha] at hk
  cases hk

theorem Sound.descendantsUpTo_eq (hf : f.Sound) {n m : Nat} (ha : f.container? a = none)
    (hdeep : ∀ k d, f.Under k a d → k ≤ n) (hnm : n ≤ m) :
    f.descendantsUpTo m a = f.descendantsUpTo n a := by
  induction n generalizing a m with
  | zero =>
    have hnone : f.children a = [] := by
      rw [List.eq_nil_iff_forall_not_mem]
      intro c hc
      have hle := hdeep 1 c (.single ((Sound.mem_children_iff ha).mp hc))
      omega
    cases m with
    | zero => rfl
    | succ m => simp only [descendantsUpTo, hnone, List.flatMap_nil]
  | succ n ih =>
    obtain ⟨m, rfl⟩ := Nat.exists_eq_add_of_le' (Nat.le_trans (Nat.le_add_left 1 n) hnm)
    unfold descendantsUpTo
    refine List.flatMap_congr fun c hc => ?_
    have hl := (Sound.mem_children_iff ha).mp hc
    have hplain := hf.container?_of_lists hl
    rw [if_neg (kind_of_plain hplain), if_neg (kind_of_plain hplain)]
    refine congrArg _ (ih hplain ?_ (by omega))
    intro k d hu
    have hle := hdeep (k + 1) d (.down hl hu)
    omega

theorem Sound.descendants_eq (hf : f.Sound) (ha : f.container? a = none) :
    f.descendants a = (f.children a).flatMap f.tree := by
  have hdeep : ∀ c, f.Lists a c → ∀ k d, f.Under k c d → k + 1 ≤ f.reach :=
    fun c hl k d hu => hf.under_le_reach (.down hl hu)
  unfold descendants
  cases hreach : f.reach with
  | zero =>
    have hnone : f.children a = [] := by
      rw [List.eq_nil_iff_forall_not_mem]
      intro c hc
      have hle := hdeep c ((Sound.mem_children_iff ha).mp hc) 0 c (.refl c)
      omega
    rw [hnone]
    rfl
  | succ n =>
    unfold descendantsUpTo
    refine List.flatMap_congr fun c hc => ?_
    have hl := (Sound.mem_children_iff ha).mp hc
    have hplain := hf.container?_of_lists hl
    rw [if_neg (kind_of_plain hplain)]
    unfold tree descendants
    rw [hreach]
    refine congrArg _ (hf.descendantsUpTo_eq hplain ?_ (Nat.le_succ n)).symm
    intro k d hu
    have hle := hdeep c hl k d hu
    omega

theorem Sound.tree_eq (hf : f.Sound) (ha : f.container? a = none) :
    f.tree a = a :: (f.children a).flatMap f.tree := by
  unfold tree
  rw [hf.descendants_eq ha]
  rfl

theorem Sound.mem_tree_iff (hf : f.Sound) (ha : f.container? a = none) :
    d ∈ f.tree a ↔ ∃ n, f.Under n a d := by
  unfold tree
  rw [List.mem_cons, hf.eq_or_mem_descendants_iff ha]

theorem Sound.mem_descendants_iff_isWithin (hf : f.Sound) (ha : f.container? a = none) :
    d ∈ f.descendants a ↔ d ≠ a ∧ f.contains d = true ∧ f.isWithin a d = true := by
  rw [hf.mem_descendants_iff ha, hf.isWithin_iff ha]
  constructor
  · rintro ⟨m, hu⟩
    obtain ⟨b, hab, hbd⟩ := hu.last
    have hlive := (hf.contains_of_lists hbd).2
    refine ⟨?_, hlive, hlive, m + 1, hu⟩
    rintro rfl
    exact hf.not_under_parent hbd hab
  · rintro ⟨hne, _, _, n, hu⟩
    cases n with
    | zero => exact absurd hu.eq_of_zero.symm hne
    | succ n => exact ⟨n, hu⟩

theorem Sound.nodup_tree (hf : f.Sound) (ha : f.container? a = none) : (f.tree a).Nodup := by
  refine hf.down_induction (P := fun a => (f.tree a).Nodup) ?_ ha
  intro a ha ih
  have hlists : ∀ c ∈ f.children a, f.Lists a c := fun c hc => (Sound.mem_children_iff ha).mp hc
  have hbelow : ((f.children a).flatMap f.tree).Nodup := by
    refine List.nodup_flatMap.mpr ⟨fun c hc => (ih c hc).2, ?_⟩
    refine (hf.nodup_of_children ha).imp_of_mem ?_
    intro b c hb hc hbc d hdb hdc
    obtain ⟨m, hu⟩ := (hf.mem_tree_iff (ih b hb).1).mp hdb
    obtain ⟨n, hv⟩ := (hf.mem_tree_iff (ih c hc).1).mp hdc
    exact hbc (hf.child_unique (hlists b hb) (hlists c hc) hu hv)
  rw [hf.tree_eq ha, List.nodup_cons]
  refine ⟨?_, hbelow⟩
  rw [← hf.descendants_eq ha, hf.mem_descendants_iff_isWithin ha]
  exact fun h => h.1 rfl

theorem tree_isInfix_flatMap {ids : List NodeId} (hc : c ∈ ids) :
    f.tree c <:+: ids.flatMap f.tree := by
  obtain ⟨before, after, hsplit⟩ := List.append_of_mem hc
  rw [hsplit, List.flatMap_append, List.flatMap_cons]
  exact ⟨_, _, List.append_assoc _ _ _⟩

theorem Sound.tree_isInfix (hf : f.Sound) (ha : f.container? a = none) :
    ∀ d ∈ f.tree a, f.tree d <:+: f.tree a := by
  refine hf.down_induction (P := fun a => ∀ d ∈ f.tree a, f.tree d <:+: f.tree a) ?_ ha
  intro a ha ih d hd
  rw [hf.tree_eq ha] at hd
  rcases List.mem_cons.mp hd with rfl | hd
  · exact List.infix_rfl
  · obtain ⟨c, hc, hdc⟩ := List.mem_flatMap.mp hd
    have hchild := ((ih c hc).2 d hdc).trans (tree_isInfix_flatMap hc)
    rw [hf.tree_eq ha]
    exact hchild.trans (List.suffix_cons a _).isInfix

theorem Sound.tree_isInfix_descendants (hf : f.Sound) (ha : f.container? a = none)
    (hd : d ∈ f.descendants a) : f.tree d <:+: f.descendants a := by
  rw [hf.descendants_eq ha] at hd ⊢
  obtain ⟨c, hc, hdc⟩ := List.mem_flatMap.mp hd
  have hplain := hf.container?_of_lists ((Sound.mem_children_iff ha).mp hc)
  exact (hf.tree_isInfix hplain d hdc).trans (tree_isInfix_flatMap hc)

theorem leaf_of_plain (ha : f.container? a = none) (hk : f.composite? a = none) :
    f.children a = [] ∧ f.slots a = [a].filter fun d => (f.slot d).isSome := by
  unfold children slots slot container? composite? at *
  cases hn : f.node? a with
  | none => simp [hn]
  | some n =>
    cases hc : n.content <;>
      simp_all [Content.slot?, Content.composite?, Content.container?]

theorem slot_of_composite? {k : Composite} (hk : f.composite? a = some k) : f.slot a = none := by
  obtain ⟨n, hn, hcontent⟩ := composite?_eq_some_iff.mp hk
  unfold slot
  rw [hn]
  cases hc : n.content <;> simp_all [Content.slot?, Content.composite?]

/-- The slots of a node are those in its tree, as long as composites have the slots of their
children in a row. -/
theorem Sound.filter_tree (hf : f.Sound)
    (hrow : ∀ {x k}, f.composite? x = some k → f.slots x = (f.children x).flatMap f.slots)
    (ha : f.container? a = none) :
    (f.tree a).filter (fun d => (f.slot d).isSome) = f.slots a := by
  refine hf.down_induction
    (P := fun a => (f.tree a).filter (fun d => (f.slot d).isSome) = f.slots a) ?_ ha
  intro a ha ih
  cases hk : f.composite? a with
  | some k =>
    have hno : ¬ (f.slot a).isSome = true := by
      rw [slot_of_composite? hk]
      exact Bool.false_ne_true
    rw [hf.tree_eq ha, List.filter_cons_of_neg (by exact hno), List.filter_flatMap,
      List.flatMap_congr fun c hc => (ih c hc).2, hrow hk]
  | none =>
    obtain ⟨hchildren, hslots⟩ := leaf_of_plain ha hk
    rw [hf.tree_eq ha, hchildren, hslots, List.flatMap_nil]

end Tree

/-- Whatever the loop has done once the nodes waiting on top are passed, it does by visiting the
nodes of `order` in turn. -/
def Passes {σ : Type} (visit : σ → NodeId → σ) (below : σ → NodeId → List NodeId) (I : σ → Prop)
    (ids order : List NodeId) : Prop :=
  ∀ s waiting t, I s → Ends (sweep visit below) (order.foldl visit s, waiting) t →
    Ends (sweep visit below) (s, ids ++ waiting) t

section Loops
variable {σ : Type} {visit : σ → NodeId → σ} {below : σ → NodeId → List NodeId} {I : σ → Prop}
variable {ids ids' order order' : List NodeId} {c : NodeId}

theorem Passes.nil : Passes visit below I [] [] := fun _ _ _ _ h => h

theorem Passes.append (hI : ∀ s id, I s → I (visit s id)) (h : Passes visit below I ids order)
    (h' : Passes visit below I ids' order') :
    Passes visit below I (ids ++ ids') (order ++ order') := by
  intro s waiting t hs hend
  have hkept : I (order.foldl visit s) :=
    List.foldlRecOn order visit hs fun s hs id _ => hI s id hs
  rw [List.foldl_append] at hend
  rw [List.append_assoc]
  exact h s _ t hs (h' _ waiting t hkept hend)

theorem Passes.flatMap (hI : ∀ s id, I s → I (visit s id)) {order : NodeId → List NodeId}
    (h : ∀ c ∈ ids, Passes visit below I [c] (order c)) :
    Passes visit below I ids (ids.flatMap order) := by
  induction ids with
  | nil => exact .nil
  | cons c rest ih =>
    have hrest := ih fun b hb => h b (List.mem_cons_of_mem c hb)
    exact (h c List.mem_cons_self).append hI hrest

/-- One turn of the loop. -/
theorem Passes.turn (hI : ∀ s id, I s → I (visit s id)) (hbelow : ∀ s, I s → below s c = ids)
    (h : Passes visit below I ids order) : Passes visit below I [c] (c :: order) := by
  intro s waiting t hs hend
  refine .again (b := (visit s c, ids ++ waiting)) ?_ (h _ waiting t (hI s c hs) hend)
  rw [← hbelow s hs]
  rfl

theorem Passes.ends (h : Passes visit below I ids order) {s : σ} (hs : I s) :
    Ends (sweep visit below) (s, ids) (order.foldl visit s, []) := by
  have hend := h s [] _ hs (.leave rfl)
  rwa [List.append_nil] at hend

end Loops

section Ends
variable {f : Forest} {a x : NodeId}

theorem goUp_ends_of_top {n : Nat} (hf : f.Sound) {r : NodeId} (hx : f.contains x = true)
    (hr : (f.ancestorsUpTo n x).getLast? = some r) (htop : f.parent r = none)
    (passed : List NodeId) :
    Ends f.goUp (passed, some x) (passed ++ f.ancestorsUpTo n x, none) := by
  induction n generalizing x passed with
  | zero => cases hr
  | succ n ih =>
    obtain ⟨e, he⟩ := contains_iff.mp hx
    have hturn : f.goUp (passed, some x) = some (passed ++ [x], e.parent) := by
      simp only [goUp, he, Option.map_some]
    have hparent := parent_of_node? he
    cases hp : e.parent with
    | none =>
      rw [hp] at hturn hparent
      rw [ancestorsUpTo_of_top n hx hparent]
      exact .again hturn (.leave rfl)
    | some p =>
      rw [hp] at hturn hparent
      rw [ancestorsUpTo_of_parent n hparent] at hr ⊢
      have hlast : (f.ancestorsUpTo n p).getLast? = some r := by
        cases hup : (f.ancestorsUpTo n p).getLast? with
        | some s => simpa [List.getLast?_cons, hup] using hr
        | none =>
          have hrx : x = r := by simpa [List.getLast?_cons, hup] using hr
          rw [hrx, htop] at hparent
          cases hparent
      have hrest := ih (hf.contains_parent hparent) hlast (passed ++ [x])
      rw [List.append_assoc] at hrest
      exact .again hturn hrest

theorem Sound.goUp_ends (hf : f.Sound) (hx : f.contains x = true) :
    Ends f.goUp ([], some x) (f.ancestors x, none) := by
  obtain ⟨r, hr, htop⟩ := hf.exists_top hx
  exact goUp_ends_of_top hf hx hr htop []

theorem below_of_plain (ha : f.container? a = none) : f.below a = f.children a :=
  if_neg (kind_of_plain ha)

theorem Sound.goDown_passes (hf : f.Sound) (ha : f.container? a = none) :
    Passes (fun passed id => passed ++ [id]) (fun _ id => f.below id) (fun _ => True) [a]
      (f.tree a) := by
  refine hf.down_induction (P := fun a => Passes (fun passed id => passed ++ [id])
    (fun _ id => f.below id) (fun _ => True) [a] (f.tree a)) ?_ ha
  intro a ha ih
  rw [hf.tree_eq ha]
  refine Passes.turn (fun _ _ _ => trivial) (fun _ _ => below_of_plain ha) ?_
  exact Passes.flatMap (fun _ _ _ => trivial) fun c hc => (ih c hc).2

theorem Sound.goDown_ends (hf : f.Sound) (ha : f.container? a = none) :
    Ends f.goDown ([], f.children a) (f.descendants a, []) := by
  have hpasses : Passes (fun passed id => passed ++ [id]) (fun _ id => f.below id)
      (fun _ => True) (f.children a) ((f.children a).flatMap f.tree) := by
    refine Passes.flatMap (fun _ _ _ => trivial) fun c hc => ?_
    exact hf.goDown_passes (hf.container?_of_lists ((Sound.mem_children_iff ha).mp hc))
  have hend := hpasses.ends (s := []) trivial
  rw [List.foldl_append_eq_append, ← List.flatMap_def, List.flatMap_singleton', List.nil_append,
    ← hf.descendants_eq ha] at hend
  exact hend

theorem composite?_giveRoot (r : NodeId) (g : Forest) (id x : NodeId) :
    (giveRoot r g id).composite? x = g.composite? x := by
  unfold giveRoot composite?
  rw [node?_modify]
  split
  · rename_i hx
    subst hx
    cases g.node? x <;> rfl
  · rfl

theorem lastFirst_of_plain (ha : f.container? a = none) {g : Forest}
    (hg : ∀ x, g.composite? x = f.composite? x) : g.lastFirst a = (f.children a).reverse := by
  unfold lastFirst
  rw [hg]
  cases hk : f.composite? a with
  | some k => rw [children_of_composite? hk, Option.map_some, Option.getD_some]
  | none =>
    rw [(leaf_of_plain ha hk).1]
    rfl

theorem Sound.spreadRoot_passes (hf : f.Sound) (r : NodeId) (ha : f.container? a = none) :
    ∃ order, order.Perm (f.tree a) ∧
      Passes (giveRoot r) lastFirst (fun g => ∀ x, g.composite? x = f.composite? x) [a] order := by
  refine hf.down_induction (P := fun a => ∃ order, order.Perm (f.tree a) ∧
    Passes (giveRoot r) lastFirst (fun g => ∀ x, g.composite? x = f.composite? x) [a] order) ?_ ha
  intro a ha ih
  have hkeep : ∀ g id, (∀ x, g.composite? x = f.composite? x) →
      ∀ x, (giveRoot r g id).composite? x = f.composite? x :=
    fun g id hg x => (composite?_giveRoot r g id x).trans (hg x)
  choose! order hperm hpasses using fun c hc => (ih c hc).2
  refine ⟨a :: (f.children a).reverse.flatMap order, ?_, ?_⟩
  · rw [hf.tree_eq ha]
    refine List.Perm.cons a (.trans ?_ ((List.reverse_perm (f.children a)).flatMap_right f.tree))
    exact List.Perm.flatMap_left _ fun c hc => hperm c (List.mem_reverse.mp hc)
  · refine Passes.turn hkeep (fun g hg => lastFirst_of_plain ha hg) ?_
    exact Passes.flatMap hkeep fun c hc => hpasses c (List.mem_reverse.mp hc)

theorem giveRoot_comm (r : NodeId) (g : Forest) (x y : NodeId) :
    giveRoot r (giveRoot r g x) y = giveRoot r (giveRoot r g y) x :=
  congrArg Forest.mk (g.nodes.modify_comm x y _)

theorem Sound.spreadRoot_ends (hf : f.Sound) (ha : f.container? a = none) :
    Ends (spreadRoot a) (f, [a]) (f.setRoot a, []) := by
  obtain ⟨order, hperm, hpasses⟩ := hf.spreadRoot_passes a ha
  have hsame : order.foldl (giveRoot a) f = f.setRoot a :=
    hperm.foldl_eq' (fun x _ y _ g => giveRoot_comm a g x y) f
  rw [← hsame]
  exact hpasses.ends fun _ => rfl

end Ends

section Siblings
variable {f : Forest} {a c : NodeId}

theorem Sound.next_of_getElem? (hf : f.Sound) (ha : f.container? a = none) {i : Nat}
    (hc : (f.children a)[i]? = some c) : f.next c = (f.children a)[i + 1]? := by
  obtain ⟨k, hk, hmem⟩ := (Sound.mem_children_iff ha).mp (List.mem_of_getElem? hc)
  have hparent := hf.parent_of_lists ⟨k, hk, hmem⟩
  rw [children_of_composite? hk, List.getElem?_map] at hc
  obtain ⟨e, he, rfl⟩ := Option.map_eq_some_iff.mp hc
  have hposition := Composite.positionOf_of_getElem? (hf.nodup_children hk) he
  unfold next
  rw [hparent, Option.bind_some, hk, Option.bind_some, hposition, Option.bind_some,
    children_of_composite? hk, List.getElem?_map]

theorem Sound.stepFromFirst_eq (hf : f.Sound) (ha : f.container? a = none) (i : Nat) :
    f.stepFromFirst a i = (f.children a)[i]? := by
  induction i with
  | zero => exact List.head?_eq_getElem?
  | succ i ih =>
    unfold stepFromFirst
    rw [ih]
    cases hc : (f.children a)[i]? with
    | some c => exact hf.next_of_getElem? ha hc
    | none =>
      have hle := List.getElem?_eq_none_iff.mp hc
      exact (List.getElem?_eq_none (Nat.le_succ_of_le hle)).symm

end Siblings

end Forest

end Stowage
