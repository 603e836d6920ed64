import Metamodel.GuidIndex
import Metamodel.Resolution.Passes

/-!
# Metamodel.Model

The resolved model of a type system, and the questions it answers.

A model comes only from a successful resolution (`Draft.resolve`). Unknown names are no errors:
their chains are empty, their lookups absent, and yes/no questions about them answered with no.
-/

namespace Metamodel

structure Model where
  label : String
  entities : EntityArena
  relationships : RelationshipArena
  classifications : ClassificationArena
  enums : NameMap EnumDef
  guids : GuidIndex

structure Summary where
  entities : Nat
  relationships : Nat
  classifications : Nat
  enums : Nat
deriving DecidableEq

/-- Names on the supertype chain of a type, the type first. A chain without repetition has at most
`bound` members when `bound` is the number of types. -/
def chainNames {δ ε : Type} [SupertypedDef δ] (t : Arena (ResolvedType δ ε)) :
    (bound : Nat) → String → List String
  | 0, _ => []
  | bound + 1, name =>
    match t.get? name with
    | none => []
    | some d =>
      d.name :: (match d.supertypeName? with
        | none => []
        | some s => chainNames t bound s)

namespace Model

def ofResolved (label : String) (r : Resolved) (guids : GuidIndex) : Model :=
  { label
    entities := r.entities
    relationships := r.relationships
    classifications := r.classifications
    enums := r.enums
    guids }

def summary (m : Model) : Summary :=
  { entities := m.entities.size
    relationships := m.relationships.size
    classifications := m.classifications.size
    enums := m.enums.size }

def names (m : Model) : Category → List String
  | .entity => m.entities.names
  | .relationship => m.relationships.names
  | .classification => m.classifications.names
  | .enumeration => m.enums.keys

/-! ## Types by name -/

def entity? (m : Model) (name : String) : Option ResolvedEntity := m.entities.get? name

def relationship? (m : Model) (name : String) : Option RelationshipDef := m.relationships.get? name

def classification? (m : Model) (name : String) : Option ResolvedClassification :=
  m.classifications.get? name

def enum? (m : Model) (name : String) : Option EnumDef := m.enums.get? name

/-! ## Names and guids -/

def entityGuid? (m : Model) (name : String) : Option String := m.guids.entities.guid? name

def entityName? (m : Model) (guid : String) : Option String := m.guids.entities.name? guid

def relationshipGuid? (m : Model) (name : String) : Option String :=
  m.guids.relationships.guid? name

def relationshipName? (m : Model) (guid : String) : Option String :=
  m.guids.relationships.name? guid

/-- The guid of a name and the category it was found in, entity types before relationship
types. -/
def guidOf? (m : Model) (name : String) : Option (String × Category) :=
  (m.entityGuid? name).map (·, .entity) <|> (m.relationshipGuid? name).map (·, .relationship)

/-- The name of a guid and the category it was found in, entity types before relationship types. -/
def nameOf? (m : Model) (guid : String) : Option (String × Category) :=
  (m.entityName? guid).map (·, .entity) <|> (m.relationshipName? guid).map (·, .relationship)

/-! ## Hierarchy -/

def entityChain (m : Model) (name : String) : List String :=
  chainNames m.entities m.entities.size name

def classificationChain (m : Model) (name : String) : List String :=
  chainNames m.classifications m.classifications.size name

/-- Is `sub` a direct or indirect entity subtype of `sup`? -/
def isSubtypeOf (m : Model) (sub sup : String) : Bool :=
  match m.entity? sup with
  | none => false
  | some d => sub ∈ d.subtypes

/-- Is `name` the entity type `candidate` or one of its subtypes? -/
def isTypeOf (m : Model) (name candidate : String) : Bool :=
  (name = candidate && (m.entity? name).isSome) || m.isSubtypeOf name candidate

/-! ## Applicability -/

/-- Relationships that may be anchored on an entity type, inherited ones included. -/
def relationshipsOf? (m : Model) (entity : String) : Option NameSet :=
  (m.entity? entity).map (·.applicability.relationships)

/-- Classifications that may be attached to an entity type, inherited ones included. -/
def classificationsOf? (m : Model) (entity : String) : Option NameSet :=
  (m.entity? entity).map (·.applicability.classifications)

/-- Entity types a classification may be attached to. -/
def validEntitiesOf? (m : Model) (classification : String) : Option NameSet :=
  (m.classification? classification).map (·.validEntities)

def isClassificationValidFor (m : Model) (classification entity : String) : Bool :=
  match m.classificationsOf? entity with
  | none => false
  | some s => classification ∈ s

def isRelationshipValidFor (m : Model) (relationship entity : String) : Bool :=
  match m.relationshipsOf? entity with
  | none => false
  | some s => relationship ∈ s

/-- Entity types at the two ends of a relationship type. -/
def endTypes? (m : Model) (name : String) : Option (String × String) := do
  let r ← m.relationship? name
  let a ← r.endTarget? .end1
  let b ← r.endTarget? .end2
  return (a, b)

end Model

end Metamodel
