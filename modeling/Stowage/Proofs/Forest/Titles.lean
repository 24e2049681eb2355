import Stowage.Container.Snapshot
import Stowage.Proofs.Forest.Outline

/-!
# Titles

A title is read from names and properties. It stays the same whatever slots hold and whoever looks
into containers.
-/

namespace Stowage.Forest

set_option autoImplicit false

section
variable {f g : Forest} {env : Environment}

theorem Alike.relativeStore (h : Alike f g) (id : NodeId) {n m : Node} (hp : m.parent = n.parent) :
    g.relativeStore id m = f.relativeStore id n := by
  unfold Forest.relativeStore
  rw [hp]
  congr 1
  funext p
  rw [h.sameOutline.composite?]

theorem propertyFrom_title (f : Forest) (title : Node → String) (id : NodeId) :
    f.propertyFrom title id .title none = (f.node? id).bind fun n =>
      match n.properties.get .title none with
      | some v => some v
      | none => match (f.relativeStore id n).bind fun s => s.get .title none with
        | some v => some v
        | none => some (.text (title n)) := rfl

theorem Alike.titleFrom (h : Alike f g) {own own' : Node → String}
    (hown : ∀ n m : Node, m.bare = n.bare → own' m = own n) (id : NodeId) :
    Forest.titleFrom env g own' id = Forest.titleFrom env f own id := by
  unfold Forest.titleFrom
  rw [propertyFrom_title, propertyFrom_title]
  have hid := h id
  cases hf : f.node? id with
  | none =>
    rw [hf, Option.map_none, Option.map_eq_none_iff] at hid
    rw [hid]
    rfl
  | some n =>
    rw [hf, Option.map_some, Option.map_eq_some_iff] at hid
    obtain ⟨m, hm, hbare⟩ := hid
    obtain ⟨_, hparent, _, hproperties⟩ := Node.of_bare_eq hbare
    rw [hm, Option.bind_some, Option.bind_some, hproperties, h.relativeStore id hparent,
      hown n m hbare]

theorem ownTitle_of_bare_eq {n m : Node} (h : m.bare = n.bare) :
    ownTitle env m = ownTitle env n := by
  unfold ownTitle
  rw [(Node.of_bare_eq h).2.2.1]

theorem Alike.title (h : Alike f g) (id : NodeId) : g.title env id = f.title env id := by
  apply h.titleFrom
  intro n m hbare
  have hcontent := (Node.of_bare_eq hbare).1
  unfold titleOfNode
  cases hm : m.content <;> cases hn : n.content <;> rw [hm, hn] at hcontent <;>
    first
    | exact ownTitle_of_bare_eq hbare
    | cases hcontent
    | skip
  rename_i d c
  have htop : d.top = c.top := (Container.of_bare_eq (Content.container.inj hcontent)).1
  dsimp only
  rw [htop]
  exact h.titleFrom (fun _ _ => ownTitle_of_bare_eq) c.top

theorem Alike.archetype (h : Alike f g) (id : NodeId) : g.archetype id = f.archetype id := by
  have hid := congrArg (fun o => o.bind fun k : Node => k.archetype) (h id)
  simpa [Option.bind_map, Function.comp_def, Node.bare, Forest.archetype] using hid

end

end Stowage.Forest
