import Metamodel.NameMap
import Metamodel.Settings
import Metamodel.Event

/-!
# Metamodel.Registry

Raw definitions, kept by name within their category.

A registration is `added` when the name was free, `unchanged` when the very same definition holds
it, and otherwise refused or `ignored` as the duplicate policy says; only an added definition
changes the registry.
-/

namespace Metamodel

/-- Outcome of a registration that was not refused. -/
inductive Registration where
  | added
  | unchanged
  | ignored
deriving DecidableEq

def Registration.name : Registration → String
  | .added => "Added"
  | .unchanged => "Unchanged"
  | .ignored => "Ignored"

/-- Definitions by category. Each stands under its own name, whatever was registered before it. -/
structure Registry where
  policy : DuplicatePolicy := .reject
  label : String := ""
  entities : NameMap EntityDef := ∅
  relationships : NameMap RelationshipDef := ∅
  classifications : NameMap ClassificationDef := ∅
  enums : NameMap EnumDef := ∅
  entities_keyed : entities.KeyedBy EntityDef.name := by exact NameMap.keyedBy_empty
  relationships_keyed : relationships.KeyedBy RelationshipDef.name := by exact NameMap.keyedBy_empty
  classifications_keyed : classifications.KeyedBy ClassificationDef.name := by
    exact NameMap.keyedBy_empty
  enums_keyed : enums.KeyedBy EnumDef.name := by exact NameMap.keyedBy_empty
deriving DecidableEq

namespace Registry

/-- The definition stored under a name of a category. -/
def find? (r : Registry) (c : Category) (name : String) : Option TypeDef :=
  match c with
  | .entity => (r.entities.get? name).map .entity
  | .relationship => (r.relationships.get? name).map .relationship
  | .classification => (r.classifications.get? name).map .classification
  | .enumeration => (r.enums.get? name).map .enumeration

/-- Store a definition under its own name and category. -/
def put (r : Registry) : TypeDef → Registry
  | .entity d =>
    { r with
      entities := r.entities.insert d.name d
      entities_keyed := r.entities_keyed.insert d }
  | .relationship d =>
    { r with
      relationships := r.relationships.insert d.name d
      relationships_keyed := r.relationships_keyed.insert d }
  | .classification d =>
    { r with
      classifications := r.classifications.insert d.name d
      classifications_keyed := r.classifications_keyed.insert d }
  | .enumeration d =>
    { r with
      enums := r.enums.insert d.name d
      enums_keyed := r.enums_keyed.insert d }

def count (r : Registry) : Category → Nat
  | .entity => r.entities.size
  | .relationship => r.relationships.size
  | .classification => r.classifications.size
  | .enumeration => r.enums.size

def isEmpty (r : Registry) : Bool :=
  r.entities.isEmpty && r.relationships.isEmpty && r.classifications.isEmpty && r.enums.isEmpty

/-- Warning that a definition lost against an earlier one of the same name. -/
def ignoredEvent (c : Category) (name label : String) : Event :=
  .note .warn "ignoring conflicting re-registration"
    [(Vocabulary.typeCategory, c.name), (Vocabulary.typeName, name), (Vocabulary.source, label)]

/-- Register a definition under the duplicate policy. -/
def register (r : Registry) (d : TypeDef) : Registry × Traced Fault Registration :=
  match r.find? d.category d.name with
  | none => (r.put d, .ok .added)
  | some stored =>
    if stored = d then (r, .ok .unchanged)
    else match r.policy with
      | .reject => (r, .fail (.duplicateDefinition d.category d.name r.label))
      | .firstWriteWins =>
        (r, { result := .ok .ignored, events := [ignoredEvent d.category d.name r.label] })

/-- A stored definition is found again, and nothing else moves. -/
theorem find?_put (r : Registry) (d : TypeDef) (c : Category) (n : String) :
    (r.put d).find? c n = if d.category = c ∧ d.name = n then some d else r.find? c n := by
  cases d <;> cases c <;>
    simp only [find?, put, TypeDef.category, TypeDef.name, NameMap.get?_insert] <;> (try split) <;>
    simp_all

end Registry

end Metamodel
