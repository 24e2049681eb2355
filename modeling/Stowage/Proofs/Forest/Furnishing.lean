import Stowage.Proofs.Forest.Framing
import Stowage.Proofs.Forest.Growth
import Stowage.Proofs.Forest.Removal

/-!
# New slots are unused

Making, joining and framing inventories adds slots that hold nothing and whose limits are
quantities, as long as the limits of the archetypes are. The slots that stay are as they were.
-/

namespace Stowage

set_option autoImplicit false

inductive Archetype.InRange : Archetype → Prop where
  | frozen {id : Option ArchetypeId} {draft : Draft} {shape : Shape}
      {children : List (Placing × Archetype)} (below : ∀ c ∈ children, Archetype.InRange c.2)
      (here : ∀ n, draft.maxStackSize = some n → n ≤ maxQuantity) :
      Archetype.InRange (.frozen id draft shape children)

structure Slot.Unused (s : Slot) : Prop where
  empty : s.contents = none
  limit : s.maxStackSize ≤ maxQuantity

theorem Slot.unused_new (filter : Filter) {n : Nat} (h : n ≤ maxQuantity) :
    (Slot.new filter n).Unused := by
  have hone : 1 ≤ maxQuantity := by decide
  exact ⟨rfl, Nat.max_le.mpr ⟨h, hone⟩⟩

namespace Forest

def Furnished (f g : Forest) : Prop :=
  ∀ x slot, g.slot x = some slot → f.slot x = some slot ∨ slot.Unused

namespace Furnished
variable {f g h : Forest}

theorem of_slot_eq (hfg : ∀ x, g.slot x = f.slot x) : Furnished f g := by
  intro x slot hslot
  rw [hfg] at hslot
  exact Or.inl hslot

theorem refl (f : Forest) : Furnished f f := of_slot_eq fun _ => rfl

theorem trans (hfg : Furnished f g) (hgh : Furnished g h) : Furnished f h := by
  intro x slot hslot
  rcases hgh x slot hslot with hold | hnew
  · exact hfg x slot hold
  · exact Or.inr hnew

theorem removed (f : Forest) (ids : List NodeId) : Furnished f (ids.foldl Forest.remove f) := by
  intro x slot hslot
  have hlive := (contains_removed_iff.mp (contains_of_slot hslot)).2
  rw [slot_removed hlive] at hslot
  exact Or.inl hslot

theorem insert (hf : f.nodes.Sound) {node : NodeId → Node}
    (hnode : ∀ slot, (node f.nextId).content.slot? = some slot → slot.Unused) :
    Furnished f (f.insert node).1 := by
  intro x slot hslot
  unfold Forest.slot at hslot
  rw [node?_insert hf] at hslot
  split at hslot
  · exact Or.inr (hnode slot hslot)
  · exact Or.inl hslot

end Furnished

section Grow
variable {f : Forest} {limit : Nat}

theorem slot_adopt (f : Forest) (p : NodeId) (cs : List NodeId) (x : SlotId) :
    (f.adopt p cs).slot x = f.slot x := by
  unfold slot
  rw [node?_adopt]
  split
  · cases f.node? x <;> rfl
  · rfl

theorem slot_setRoot (f : Forest) (r : NodeId) (x : SlotId) : (f.setRoot r).slot x = f.slot x :=
  (sameContent_setRoot f r x).slot

theorem unused_of_contentOf (hlimit : limit ≤ maxQuantity) {draft : Draft}
    (hdraft : ∀ n, draft.maxStackSize = some n → n ≤ maxQuantity) {shape : Shape}
    {entries : List (Placement × ChildEntry)} {slot : Slot}
    (h : (f.contentOf limit draft shape entries).slot? = some slot) : slot.Unused := by
  unfold contentOf at h
  cases hkind : shape.kind with
  | slot =>
    rw [hkind] at h
    cases h
    refine Slot.unused_new _ ?_
    cases hmax : draft.maxStackSize with
    | none => exact hlimit
    | some n => exact hdraft n hmax
  | ordered =>
    rw [hkind] at h
    cases h
  | grid columns rows =>
    rw [hkind] at h
    cases h

mutual

theorem grow_furnished (hlimit : limit ≤ maxQuantity) {f : Forest} (hf : f.Sound) :
    (a : Archetype) → a.Fits → a.InRange → Furnished f (grow limit f a).1
  | .frozen id draft shape children, ha, hr => by
    have hfits : ∀ c ∈ children, c.2.Fits := by
      cases ha with
      | frozen below here order => exact below
    obtain ⟨hbelow, hhere⟩ : (∀ c ∈ children, c.2.InRange) ∧
        ∀ n, draft.maxStackSize = some n → n ≤ maxQuantity := by
      cases hr with
      | frozen below here => exact ⟨below, here⟩
    have hchildren := growAll_furnished hlimit hf children hfits hbelow
    have hsound := (growAll_offspring limit hf children hfits).raised.sound
    simp only [grow]
    refine (hchildren.trans ?_).trans (.of_slot_eq (slot_adopt _ _ _))
    exact .insert hsound.arena fun slot hslot => unused_of_contentOf hlimit hhere hslot

theorem growAll_furnished (hlimit : limit ≤ maxQuantity) {f : Forest} (hf : f.Sound) :
    (children : List (Placing × Archetype)) → (∀ c ∈ children, c.2.Fits) →
      (∀ c ∈ children, c.2.InRange) → Furnished f (growAll limit f children).1
  | [], _, _ => .refl f
  | (p, a) :: rest, hc, hr => by
    have hfirst := grow_furnished hlimit hf a (hc (p, a) List.mem_cons_self)
      (hr (p, a) List.mem_cons_self)
    have hsound := (grow_sprouted limit hf a (hc (p, a) List.mem_cons_self)).raised.sound
    simp only [growAll]
    exact hfirst.trans (growAll_furnished hlimit hsound rest
      (fun c h => hc c (List.mem_cons_of_mem _ h)) fun c h => hr c (List.mem_cons_of_mem _ h))

end

theorem instantiate_furnished (hlimit : limit ≤ maxQuantity) (hf : f.Sound) {a : Archetype}
    (ha : a.Fits) (hr : a.InRange) : Furnished f (f.instantiate limit a).1 :=
  (grow_furnished hlimit hf a ha hr).trans (.of_slot_eq (slot_setRoot _ _))

theorem compose_furnished (hf : f.Sound) {children : List (NodeId × Int)} {g : Forest}
    {id : NodeId} (h : f.compose children = .ok (g, id)) : Furnished f g := by
  unfold compose at h
  split at h
  · cases h
  · simp only [insert_snd] at h
    cases h
    refine .trans (.trans ?_ (.of_slot_eq (slot_adopt _ _ _))) (.of_slot_eq (slot_setRoot _ _))
    refine .insert hf.arena ?_
    intro slot hslot
    cases hslot

theorem addContainer_furnished (hlimit : limit ≤ maxQuantity) (hf : f.Sound)
    (top bottom : NodeId) : Furnished f (f.addContainer limit top bottom).1 := by
  intro x slot hslot
  unfold Forest.slot at hslot
  rw [node?_addContainer hf] at hslot
  split at hslot
  · cases hslot
    exact Or.inr (Slot.unused_new _ hlimit)
  · split at hslot
    · cases hslot
    · exact Or.inl hslot

end Grow

end Forest

end Stowage
