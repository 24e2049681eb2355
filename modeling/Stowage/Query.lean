import Stowage.State

/-!
# Queries

A query looks at the contents of slots, or at the kind, a property, the name, the origin or the
identity of a node.
-/

namespace Stowage

set_option autoImplicit false

inductive Query where
  | itemKind (kind : ItemKind)
  | stack (s : Stack)
  | mergeable (s : Stack)
  | matching (p : Stack → Bool)
  | nodeKind (kind : NodeKind)
  | property (kind : PropertyKind) (key : Option String) (value : PropertyValue)
  | name (key : String)
  | identity (node : NodeId)
  | archetype (id : ArchetypeId)
  | equipment (e : Equipment)
deriving Inhabited

namespace Query

def readsContents : Query → Bool
  | itemKind _ | stack _ | mergeable _ | matching _ => true
  | _ => false

def accepts : Query → Stack → Bool
  | itemKind k, t => t.kind = k
  | stack s, t => t = s
  | mergeable s, t => t.mergesWith s
  | matching p, t => p t
  | _, _ => false

end Query

/-- Written as in `StackRecord { kind: ItemKind("stone"), quantity: 3, aux: AuxData([1, 2]) }`. -/
def Stack.describeFields (s : Stack) : String :=
  let bytes := ", ".intercalate (s.aux.map fun b => toString b.toNat)
  s!"StackRecord \x7b kind: {s.kind.describe}, quantity: {s.quantity}, aux: AuxData([{bytes}]) \x7d"

def ArchetypeId.describeFields (a : ArchetypeId) : String :=
  s!"ArchetypeId \x7b namespace: {Text.quoted a.group}, id: {Text.quoted a.id} \x7d"

def Query.describe : Query → String
  | itemKind k => s!"ByItemKind({k.describe})"
  | stack s => s!"ByStack({s.describeFields})"
  | mergeable s => s!"ByStackAny({s.describeFields})"
  | matching _ => "ByStackMatching(..)"
  | nodeKind k => s!"ByChildType({k.name})"
  | property k key v =>
    let keyText := match key with
      | none => "None"
      | some t => s!"Some({Text.quoted t})"
    s!"ByProperty \x7b kind: {k.describe}, key: {keyText}, value: {v.describe} \x7d"
  | name n => s!"ByName({Text.quoted n})"
  | identity id => s!"ByIdentity(NodeId({id.describe}))"
  | archetype a => s!"ByArchetype({a.describeFields})"
  | equipment e => s!"ByEquipment({e.name})"

/-- Whether a node matches a query. A query on contents is matched by a node when any of its slots
matches. -/
def State.satisfies (s : State) (node : NodeId) : Query → Bool
  | .nodeKind k => s.kind node = some k
  | .property k (some key) v => s.property node k (some key) = some v
  | .property k none v => (s.properties node k).contains v
  | .name n => s.forest.name node = some n
  | .identity id => node = id
  | .archetype a => s.forest.archetype node = some a
  | .equipment e => (s.equipmentTypes node).any fun t => e.includes t || t.includes e
  | q => (s.forest.slots node).any fun id => (s.contents id).any fun t => q.accepts t

end Stowage
