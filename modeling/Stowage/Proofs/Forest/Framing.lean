import Stowage.Container.Session
import Stowage.Proofs.Forest.Planting

/-!
# Adding a container

A container over live inventories comes with a cursor of its own. It binds each slot once, and no
node that was there before changes.
-/

namespace Stowage.Forest

set_option autoImplicit false

/-- The forest `g` has all contents of `f` and the new container `id`. -/
structure Framed (f g : Forest) (id : NodeId) (c : Container) : Prop where
  sound : g.Sound
  arena : f.nodes.Extends g.nodes
  content : ∀ x, f.contains x = true → SameContent f g x
  fresh : f.contains id = false
  container? : ∀ x, g.container? x = if x = id then some c else f.container? x

structure Showable (f : Forest) (x : NodeId) : Prop where
  live : f.contains x = true
  plain : f.container? x = none

theorem showable_of_showRefusal {f : Forest} {x : NodeId} (h : f.showRefusal x = none) :
    f.Showable x := by
  unfold showRefusal at h
  split at h
  · cases h
  · cases h
  · rename_i k hk hkind
    obtain ⟨n, hn, _⟩ := Option.map_eq_some_iff.mp hkind
    refine ⟨contains_iff.mpr ⟨n, hn⟩, ?_⟩
    cases hc : f.container? x with
    | none => rfl
    | some c =>
      rw [kind_eq_container_iff.mpr ⟨c, hc⟩] at hkind
      cases hkind
      exact absurd rfl hk

section Bound
variable {f : Forest} {top bottom : NodeId}

theorem mem_followedBy {first second bound : List SlotId} {x : SlotId}
    (h : x ∈ followedBy first second bound) : x ∈ first ∨ x ∈ second := by
  rcases List.mem_append.mp h with h | h
  · exact Or.inl h
  · exact Or.inr (List.mem_filter.mp h).1

theorem nodup_followedBy {first second : List SlotId} (hf : first.Nodup) (hs : second.Nodup) :
    (followedBy first second first).Nodup := by
  refine List.nodup_append.mpr ⟨hf, hs.filter _, ?_⟩
  intro x hx y hy hxy
  have hnot := (List.mem_filter.mp hy).2
  rw [← hxy] at hnot
  simp [hx] at hnot

theorem mem_containerOver_slots {cursor x : SlotId}
    (h : x ∈ (f.containerOver top bottom cursor).slots) :
    x ∈ f.slots top ∨ x ∈ f.slots bottom := by
  simp only [containerOver] at h
  split at h
  · exact Or.inl h
  · exact mem_followedBy h

theorem Sound.nodup_containerOver (hf : f.Sound) (ht : f.Showable top) (hb : f.Showable bottom) :
    ((f.containerOver top bottom f.nextId).cursor ::
      (f.containerOver top bottom f.nextId).slots).Nodup := by
  rw [List.nodup_cons]
  constructor
  · intro hmem
    have hslot : (f.slot f.nextId).isSome = true := by
      rcases mem_containerOver_slots hmem with h | h
      · exact (hf.under_of_mem_slots ht.plain h).2
      · exact (hf.under_of_mem_slots hb.plain h).2
    simp [slot, node?_nextId hf.arena] at hslot
  · simp only [containerOver]
    split
    · exact hf.nodup_slots ht.plain
    · exact nodup_followedBy (hf.nodup_slots ht.plain) (hf.nodup_slots hb.plain)

end Bound

section Frame
variable {f : Forest} (hf : f.Sound) (limit : Nat) (top bottom : NodeId)
include hf

def frameId (f : Forest) (limit : Nat) : NodeId :=
  (f.insert fun id => Node.plain id (.slot (Slot.new .any limit))).1.nextId

omit hf in
theorem addContainer_snd : (f.addContainer limit top bottom).2 = f.frameId limit := by
  simp [addContainer, frameId]

theorem frameId_ne : f.nextId ≠ f.frameId limit := by
  have hins := node?_insert hf.arena (fun id => Node.plain id (.slot (Slot.new .any limit)))
    f.nextId
  rw [if_pos rfl] at hins
  exact ne_nextId (sound_insert hf.arena _) hins

theorem node?_frameId : f.node? (f.frameId limit) = none := by
  have hnew := node?_nextId
    (sound_insert hf.arena fun id => Node.plain id (.slot (Slot.new .any limit)))
  rw [node?_insert hf.arena] at hnew
  split at hnew
  · cases hnew
  · exact hnew

theorem node?_addContainer (x : NodeId) :
    (f.addContainer limit top bottom).1.node? x =
      if x = f.nextId then
        some { Node.plain f.nextId (.slot (Slot.new .any limit)) with
          parent := some (f.frameId limit), root := f.frameId limit }
      else if x = f.frameId limit then
        some { Node.plain (f.frameId limit) (.container (f.containerOver top bottom f.nextId)) with
          name := f.name top }
      else f.node? x := by
  have hne := frameId_ne hf limit
  have hcursor := node?_insert hf.arena fun id => Node.plain id (.slot (Slot.new .any limit))
  have hsound := sound_insert hf.arena fun id => Node.plain id (.slot (Slot.new .any limit))
  simp only [addContainer, insert_snd, node?_modify, node?_insert hsound, hcursor]
  change (if x = f.nextId then _ else if x = f.frameId limit then _ else _) = _
  by_cases hx : x = f.nextId
  · rw [if_pos hx, if_pos hx]
    change Option.map _ (if f.nextId = f.frameId limit then _ else _) = _
    rw [if_neg hne]
    rfl
  · rw [if_neg hx, if_neg hx, if_neg hx]
    rfl

theorem node?_addContainer_of_live {x : NodeId} (hx : f.contains x = true) :
    (f.addContainer limit top bottom).1.node? x = f.node? x := by
  obtain ⟨n, hn⟩ := contains_iff.mp hx
  rw [node?_addContainer hf, if_neg (ne_nextId hf.arena hn), if_neg]
  intro he
  rw [he, node?_frameId hf] at hn
  cases hn

theorem container?_addContainer (x : NodeId) :
    (f.addContainer limit top bottom).1.container? x =
      if x = f.frameId limit then some (f.containerOver top bottom f.nextId)
      else f.container? x := by
  unfold container?
  rw [node?_addContainer hf]
  by_cases hx : x = f.nextId
  · have hne : x ≠ f.frameId limit := by
      rw [hx]
      exact frameId_ne hf limit
    rw [if_pos hx, if_neg hne, hx, node?_nextId hf.arena]
    rfl
  · rw [if_neg hx]
    split <;> rfl

theorem composite?_addContainer (x : NodeId) :
    (f.addContainer limit top bottom).1.composite? x = f.composite? x := by
  unfold composite?
  rw [node?_addContainer hf]
  split
  · rename_i hx
    rw [hx, node?_nextId hf.arena]
    rfl
  · split
    · rename_i hx
      rw [hx, node?_frameId hf]
      rfl
    · rfl

theorem lists_addContainer {p c : NodeId} :
    (f.addContainer limit top bottom).1.Lists p c ↔ f.Lists p c := by
  simp only [Lists, composite?_addContainer hf]

theorem parent_addContainer (x : NodeId) :
    (f.addContainer limit top bottom).1.parent x =
      if x = f.nextId then some (f.frameId limit) else f.parent x := by
  unfold parent
  rw [node?_addContainer hf]
  split
  · rfl
  · split
    · rename_i hx
      rw [hx, node?_frameId hf]
      rfl
    · rfl

theorem arena_addContainer : (f.addContainer limit top bottom).1.nodes.Sound := by
  simp only [addContainer]
  apply Arena.Sound.modify
  apply sound_insert
  apply sound_insert
  exact hf.arena

theorem extends_addContainer : f.nodes.Extends (f.addContainer limit top bottom).1.nodes := by
  simp only [addContainer]
  have hcursor := extends_insert hf.arena fun id => Node.plain id (.slot (Slot.new .any limit))
  have hid := extends_insert
    (sound_insert hf.arena fun id => Node.plain id (.slot (Slot.new .any limit)))
  exact (hcursor.trans (hid _)).trans (Arena.extends_modify _ _ _)

/-- The new container stands beside all others, with its cursor below it. -/
theorem Sound.addContainer (ht : f.Showable top) (hb : f.Showable bottom) :
    (f.addContainer limit top bottom).1.Sound where
  arena := arena_addContainer hf limit top bottom
  parent_of_lists := by
    intro p c h
    have hparent := hf.parent_of_lists ((lists_addContainer hf limit top bottom).mp h)
    obtain ⟨n, hn⟩ := contains_iff.mp (contains_of_parent hparent)
    rw [parent_addContainer hf, if_neg (ne_nextId hf.arena hn)]
    exact hparent
  cases_of_parent := by
    intro p c h
    rw [parent_addContainer hf] at h
    split at h
    · rename_i hc
      cases h
      refine Or.inr ⟨f.containerOver top bottom f.nextId, ?_, hc.symm⟩
      rw [container?_addContainer hf, if_pos rfl]
    · rcases hf.cases_of_parent h with hl | ⟨k, hk, hcursor⟩
      · exact Or.inl ((lists_addContainer hf limit top bottom).mpr hl)
      · refine Or.inr ⟨k, ?_, hcursor⟩
        obtain ⟨n, hn, _⟩ := container?_eq_some_iff.mp hk
        rw [container?_addContainer hf, if_neg]
        · exact hk
        · intro he
          rw [he, node?_frameId hf] at hn
          cases hn
  nodup_children := by
    intro p k hk
    rw [composite?_addContainer hf] at hk
    exact hf.nodup_children hk
  slots_perm := by
    intro p k hk
    rw [composite?_addContainer hf] at hk
    have hsame : ∀ e ∈ k.children,
        (f.addContainer limit top bottom).1.slots e.node = f.slots e.node := by
      intro e he
      have hlive := (hf.contains_of_lists ⟨k, hk, List.mem_map_of_mem he⟩).2
      exact (SameContent.of_node? (node?_addContainer_of_live hf limit top bottom hlive)).slots
    rw [List.flatMap_congr hsame]
    exact hf.slots_perm hk
  fill_perm := by
    intro p k hk
    rw [composite?_addContainer hf] at hk
    exact hf.fill_perm hk
  ranked := by
    obtain ⟨rank, hr⟩ := hf.ranked
    exact ⟨rank, fun p c h => hr p c ((lists_addContainer hf limit top bottom).mp h)⟩
  parent_container := by
    intro p k hk
    rw [container?_addContainer hf] at hk
    rw [parent_addContainer hf]
    split at hk
    · rename_i hp
      rw [hp, if_neg (frameId_ne hf limit).symm]
      simp [parent, node?_frameId hf]
    · obtain ⟨n, hn, _⟩ := container?_eq_some_iff.mp hk
      rw [if_neg (ne_nextId hf.arena hn)]
      exact hf.parent_container hk
  parent_cursor := by
    intro p k hk
    rw [container?_addContainer hf] at hk
    rw [parent_addContainer hf]
    split at hk
    · rename_i hp
      cases hk
      rw [hp]
      exact if_pos rfl
    · have hparent := hf.parent_cursor hk
      obtain ⟨n, hn⟩ := contains_iff.mp (contains_of_parent hparent)
      rw [if_neg (ne_nextId hf.arena hn)]
      exact hparent
  slot_cursor := by
    intro p k hk
    rw [container?_addContainer hf] at hk
    split at hk
    · cases hk
      unfold slot
      rw [node?_addContainer hf]
      simp [containerOver, Node.plain, Content.slot?]
    · have hlive := contains_of_parent (hf.parent_cursor hk)
      rw [(SameContent.of_node? (node?_addContainer_of_live hf limit top bottom hlive)).slot]
      exact hf.slot_cursor hk
  nodup_bound := by
    intro p k hk
    rw [container?_addContainer hf] at hk
    split at hk
    · cases hk
      exact hf.nodup_containerOver ht hb
    · exact hf.nodup_bound hk

theorem addContainer_framed (ht : f.Showable top) (hb : f.Showable bottom) :
    Framed f (f.addContainer limit top bottom).1 (f.addContainer limit top bottom).2
      (f.containerOver top bottom f.nextId) := by
  rw [addContainer_snd]
  refine ⟨hf.addContainer limit top bottom ht hb, extends_addContainer hf limit top bottom, ?_, ?_,
    container?_addContainer hf limit top bottom⟩
  · intro x hx
    exact .of_node? (node?_addContainer_of_live hf limit top bottom hx)
  · cases hc : f.contains (f.frameId limit) with
    | false => rfl
    | true =>
      obtain ⟨n, hn⟩ := contains_iff.mp hc
      rw [node?_frameId hf] at hn
      cases hn

end Frame

end Stowage.Forest
