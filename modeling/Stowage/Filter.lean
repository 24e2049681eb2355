import Stowage.Stack
import Stowage.Equipment
import Stowage.Text.Quoted

/-!
# Slot filters and item rules

A filter decides which stacks a slot takes. What it needs to know of an item (its equipment type,
its tags) it asks the item rules, which also bound the size of a stack.
-/

namespace Stowage

set_option autoImplicit false

inductive Filter where
  | any
  | kinds (kinds : List ItemKind)
  | equipment (e : Equipment)
  | tag (tag : String)
  | custom (accepts : Stack → Bool)
deriving Inhabited

/-- A condition on item kinds that item rules turn into a filter. -/
inductive ItemPredicate where
  | any
  | kinds (kinds : List ItemKind)
  | equipment (e : Equipment)
  | tag (tag : String)
deriving DecidableEq, Repr, Inhabited

def Filter.ofPredicate : ItemPredicate → Filter
  | .any => .any
  | .kinds ks => .kinds ks
  | .equipment e => .equipment e
  | .tag t => .tag t

/-- What is known of items: a limit on a stack, an equipment type, tags. -/
structure ItemRules where
  maxStack : ItemKind → Option Nat
  equipment : ItemKind → Option Equipment
  hasTag : ItemKind → String → Bool
  resolve : ItemPredicate → Filter

/-- Rules that know of no limit, no equipment and no tag. -/
def ItemRules.unrestricted : ItemRules where
  maxStack _ := none
  equipment _ := none
  hasTag _ _ := false
  resolve := Filter.ofPredicate

instance : Inhabited ItemRules := ⟨ItemRules.unrestricted⟩

namespace Filter

def test (rules : ItemRules) (s : Stack) : Filter → Bool
  | any => true
  | kinds ks => ks.contains s.kind
  | equipment e => match rules.equipment s.kind with
    | none => false
    | some f => e.includes f
  | tag t => rules.hasTag s.kind t
  | custom accepts => accepts s

end Filter

def ItemKind.describe (k : ItemKind) : String := s!"ItemKind({Text.quoted k.id})"

def Filter.describe : Filter → String
  | any => "Any"
  | kinds ks =>
    let listed := ", ".intercalate (ks.map ItemKind.describe)
    s!"Kinds([{listed}])"
  | equipment e => s!"Equipment({e.name})"
  | tag t => s!"Tag({Text.quoted t})"
  | custom _ => "Custom(..)"

structure ItemFacts where
  maxStack : Option Nat
  equipment : Option Equipment
  tags : List String
deriving DecidableEq, Repr, Inhabited

structure ItemCatalog where
  facts : List (ItemKind × ItemFacts)
deriving DecidableEq, Repr, Inhabited

namespace ItemCatalog

def empty : ItemCatalog := ⟨[]⟩

def factsOf (c : ItemCatalog) (k : ItemKind) : ItemFacts :=
  (c.facts.lookup k).getD ⟨none, none, []⟩

/-- Newer facts of an item stand before older ones. -/
def record (c : ItemCatalog) (k : ItemKind) (f : ItemFacts) : ItemCatalog := ⟨(k, f) :: c.facts⟩

/-- A limit of zero is raised to one. -/
def recordMaxStack (c : ItemCatalog) (k : ItemKind) (n : Nat) : ItemCatalog :=
  c.record k { c.factsOf k with maxStack := some (max n 1) }

def recordEquipment (c : ItemCatalog) (k : ItemKind) (e : Equipment) : ItemCatalog :=
  c.record k { c.factsOf k with equipment := some e }

def recordTag (c : ItemCatalog) (k : ItemKind) (t : String) : ItemCatalog :=
  c.record k { c.factsOf k with tags := t :: (c.factsOf k).tags }

def rules (c : ItemCatalog) : ItemRules where
  maxStack k := (c.factsOf k).maxStack
  equipment k := (c.factsOf k).equipment
  hasTag k t := (c.factsOf k).tags.contains t
  resolve := Filter.ofPredicate

end ItemCatalog

/-- Texts by key; a key without a text stands for itself. -/
structure Phrasebook where
  entries : List (String × String)
deriving DecidableEq, Repr, Inhabited

/-- The newest entry of a key counts. -/
def Phrasebook.add (p : Phrasebook) (key text : String) : Phrasebook := ⟨(key, text) :: p.entries⟩

def Phrasebook.phrase (p : Phrasebook) (key : String) : String := (p.entries.lookup key).getD key

end Stowage
