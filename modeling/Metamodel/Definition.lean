/-!
# Metamodel.Definition

Raw type definitions as a metadata repository supplies them.

* `EntityDef`, `ClassificationDef` — types with attributes and at most one supertype.
* `RelationshipDef`                — a type with two ends, each anchored on an entity type.
* `EnumDef`                        — a mapping between ordinals and symbols.
* `TypeDef`                        — a definition of any of the four categories.

Types refer to one another by `TypeLink`. Resolution follows a link by its name only, and a link
without a name, or with an empty one, refers to nothing (`TypeLink.target?`).
-/

namespace Metamodel

/-- Category of a type definition. Names are unique within a category, not across categories. -/
inductive Category where
  | entity
  | relationship
  | classification
  | enumeration
deriving DecidableEq

namespace Category

def name : Category → String
  | .entity => "entity"
  | .relationship => "relationship"
  | .classification => "classification"
  | .enumeration => "enum"

def all : List Category := [.entity, .relationship, .classification, .enumeration]

end Category

/-! ## Links -/

/-- Reference to another type. Repositories may supply either part, both, or neither. -/
structure TypeLink where
  name : Option String := none
  guid : Option String := none
deriving DecidableEq

namespace TypeLink

def named (name : String) : TypeLink := { name := some name }

/-- The name a link refers to; an empty name counts as absent. -/
def target? (l : TypeLink) : Option String := l.name.filter (· ≠ "")

@[simp] theorem target?_eq_some {l : TypeLink} {n : String} :
    l.target? = some n ↔ l.name = some n ∧ n ≠ "" := by
  simp [target?]

end TypeLink

/-! ## Attributes -/

inductive AttributeCardinality where
  | atMostOne
  | exactlyOne
  | atLeastOne
  | anyNumber
  | unknown
deriving DecidableEq

namespace AttributeCardinality

def name : AttributeCardinality → String
  | .atMostOne => "at_most_one"
  | .exactlyOne => "exactly_one"
  | .atLeastOne => "at_least_one"
  | .anyNumber => "any_number"
  | .unknown => "unknown"

def all : List AttributeCardinality :=
  [.atMostOne, .exactlyOne, .atLeastOne, .anyNumber, .unknown]

end AttributeCardinality

/-- Attribute declared by an entity or classification type. Resolution only copies attributes. -/
structure AttributeDef where
  name : String
  typeName : String
  cardinality : AttributeCardinality := .unknown
  description : Option String := none
deriving DecidableEq

/-- An attribute that holds at most one value. -/
def AttributeDef.single (name typeName : String) : AttributeDef :=
  { name, typeName, cardinality := .atMostOne }

/-! ## Types with a supertype -/

structure EntityDef where
  name : String
  guid : String
  supertype : Option TypeLink := none
  attributes : List AttributeDef := []
  description : Option String := none
deriving DecidableEq

namespace EntityDef

def withSupertype (d : EntityDef) (l : TypeLink) : EntityDef := { d with supertype := some l }

def withAttribute (d : EntityDef) (a : AttributeDef) : EntityDef :=
  { d with attributes := d.attributes ++ [a] }

def withDescription (d : EntityDef) (s : String) : EntityDef := { d with description := some s }

end EntityDef

/-- `validEntityTypes` lists the entity types the classification may be attached to; their
subtypes are covered without being listed. -/
structure ClassificationDef where
  name : String
  guid : String
  supertype : Option TypeLink := none
  attributes : List AttributeDef := []
  validEntityTypes : List TypeLink := []
  description : Option String := none
deriving DecidableEq

namespace ClassificationDef

def withSupertype (d : ClassificationDef) (l : TypeLink) : ClassificationDef :=
  { d with supertype := some l }

def withAttribute (d : ClassificationDef) (a : AttributeDef) : ClassificationDef :=
  { d with attributes := d.attributes ++ [a] }

def withValidEntity (d : ClassificationDef) (l : TypeLink) : ClassificationDef :=
  { d with validEntityTypes := d.validEntityTypes ++ [l] }

end ClassificationDef

/-- The two categories whose types specialise one another. -/
inductive Hierarchy where
  | entities
  | classifications
deriving DecidableEq

def Hierarchy.category : Hierarchy → Category
  | .entities => .entity
  | .classifications => .classification

/-- What a specialisation hierarchy needs to know of a definition. -/
class SupertypedDef (δ : Type) where
  hierarchy : Hierarchy
  name : δ → String
  supertype : δ → Option TypeLink
  attributes : δ → List AttributeDef

instance : SupertypedDef EntityDef where
  hierarchy := .entities
  name := EntityDef.name
  supertype := EntityDef.supertype
  attributes := EntityDef.attributes

instance : SupertypedDef ClassificationDef where
  hierarchy := .classifications
  name := ClassificationDef.name
  supertype := ClassificationDef.supertype
  attributes := ClassificationDef.attributes

namespace SupertypedDef

@[simp] theorem hierarchy_entity : hierarchy EntityDef = .entities := rfl

@[simp] theorem name_entity (d : EntityDef) : name d = d.name := rfl

@[simp] theorem supertype_entity (d : EntityDef) : supertype d = d.supertype := rfl

@[simp] theorem attributes_entity (d : EntityDef) : attributes d = d.attributes := rfl

@[simp] theorem hierarchy_classification : hierarchy ClassificationDef = .classifications := rfl

@[simp] theorem name_classification (d : ClassificationDef) : name d = d.name := rfl

@[simp] theorem supertype_classification (d : ClassificationDef) : supertype d = d.supertype := rfl

@[simp] theorem attributes_classification (d : ClassificationDef) :
    attributes d = d.attributes := rfl

end SupertypedDef

/-! ## Relationships -/

/-- How many relationships of one type may meet at an end. -/
inductive EndCardinality where
  | atMostOne
  | anyNumber
deriving DecidableEq

namespace EndCardinality

def name : EndCardinality → String
  | .atMostOne => "at_most_one"
  | .anyNumber => "any_number"

def all : List EndCardinality := [.atMostOne, .anyNumber]

end EndCardinality

inductive EndPosition where
  | end1
  | end2
deriving DecidableEq

namespace EndPosition

def name : EndPosition → String
  | .end1 => "end1"
  | .end2 => "end2"

def all : List EndPosition := [.end1, .end2]

end EndPosition

/-- One end of a relationship type, anchored on an entity type. -/
structure RelationshipEnd where
  entityType : TypeLink
  attributeName : Option String := none
  cardinality : EndCardinality := .anyNumber
deriving DecidableEq

structure RelationshipDef where
  name : String
  guid : String
  end1 : RelationshipEnd
  end2 : RelationshipEnd
  description : Option String := none
deriving DecidableEq

namespace RelationshipDef

def between (name guid entity1 entity2 : String) : RelationshipDef :=
  { name, guid, end1 := { entityType := .named entity1 }, end2 := { entityType := .named entity2 } }

def endAt (d : RelationshipDef) : EndPosition → RelationshipEnd
  | .end1 => d.end1
  | .end2 => d.end2

@[simp] theorem endAt_end1 (d : RelationshipDef) : d.endAt .end1 = d.end1 := rfl

@[simp] theorem endAt_end2 (d : RelationshipDef) : d.endAt .end2 = d.end2 := rfl

/-- Name of the entity type anchored at an end, if its link carries one. -/
def endTarget? (d : RelationshipDef) (p : EndPosition) : Option String :=
  (d.endAt p).entityType.target?

end RelationshipDef

/-! ## Enumerations -/

structure EnumElement where
  ordinal : Int32
  value : String
  description : Option String := none
deriving DecidableEq

/-- Enumerations take no part in resolution; they are carried through for lookup. -/
structure EnumDef where
  name : String
  guid : String
  elements : List EnumElement := []
  defaultOrdinal : Option Int32 := none
deriving DecidableEq

namespace EnumDef

def withElement (d : EnumDef) (ordinal : Int32) (value : String) : EnumDef :=
  { d with elements := d.elements ++ [{ ordinal, value }] }

def withDefault (d : EnumDef) (ordinal : Int32) : EnumDef :=
  { d with defaultOrdinal := some ordinal }

/-- Symbol of the first element with the given ordinal. -/
def symbolFor? (d : EnumDef) (ordinal : Int32) : Option String :=
  (d.elements.find? (·.ordinal = ordinal)).map (·.value)

/-- Ordinal of the first element with the given symbol. -/
def ordinalFor? (d : EnumDef) (symbol : String) : Option Int32 :=
  (d.elements.find? (·.value = symbol)).map (·.ordinal)

def defaultValue? (d : EnumDef) : Option String := d.defaultOrdinal.bind d.symbolFor?

end EnumDef

/-! ## Any definition -/

inductive TypeDef where
  | entity (d : EntityDef)
  | relationship (d : RelationshipDef)
  | classification (d : ClassificationDef)
  | enumeration (d : EnumDef)
deriving DecidableEq

namespace TypeDef

def category : TypeDef → Category
  | .entity _ => .entity
  | .relationship _ => .relationship
  | .classification _ => .classification
  | .enumeration _ => .enumeration

def name : TypeDef → String
  | .entity d => d.name
  | .relationship d => d.name
  | .classification d => d.name
  | .enumeration d => d.name

def guid : TypeDef → String
  | .entity d => d.guid
  | .relationship d => d.guid
  | .classification d => d.guid
  | .enumeration d => d.guid

end TypeDef

end Metamodel
