import Metamodel.Definition

/-!
# Metamodel.Inventory

Inventories: the types of one source, as a document lists them.

An inventory has records of its own for types and their parts. A record stands for a definition
(`Inventory.Entity.toDef` and so on), field by field. Order and repetition in the lists are those of
the document. Whether names are sensible is checked by validation (`Inventory.validate`), whether
references lead anywhere only by resolution.
-/

namespace Metamodel
namespace Inventory

/-! ## Records -/

structure Link where
  name : Option String := none
  guid : Option String := none
deriving DecidableEq

namespace Link

def named (name : String) : Link := { name := some name }

def toDef (l : Link) : TypeLink := { name := l.name, guid := l.guid }

end Link

structure Attribute where
  name : String
  typeName : String
  cardinality : AttributeCardinality := .unknown
  description : Option String := none
deriving DecidableEq

def Attribute.toDef (a : Attribute) : AttributeDef :=
  { name := a.name
    typeName := a.typeName
    cardinality := a.cardinality
    description := a.description }

structure Entity where
  name : String
  guid : String := ""
  supertype : Option Link := none
  attributes : List Attribute := []
  description : Option String := none
deriving DecidableEq

def Entity.toDef (r : Entity) : EntityDef :=
  { name := r.name
    guid := r.guid
    supertype := r.supertype.map Link.toDef
    attributes := r.attributes.map Attribute.toDef
    description := r.description }

structure End where
  entityType : Link
  attributeName : Option String := none
  cardinality : EndCardinality := .anyNumber
deriving DecidableEq

def End.toDef (e : End) : RelationshipEnd :=
  { entityType := e.entityType.toDef
    attributeName := e.attributeName
    cardinality := e.cardinality }

structure Relationship where
  name : String
  guid : String := ""
  end1 : End
  end2 : End
  description : Option String := none
deriving DecidableEq

def Relationship.toDef (r : Relationship) : RelationshipDef :=
  { name := r.name
    guid := r.guid
    end1 := r.end1.toDef
    end2 := r.end2.toDef
    description := r.description }

structure Classification where
  name : String
  guid : String := ""
  supertype : Option Link := none
  attributes : List Attribute := []
  validEntityTypes : List Link := []
  description : Option String := none
deriving DecidableEq

def Classification.toDef (r : Classification) : ClassificationDef :=
  { name := r.name
    guid := r.guid
    supertype := r.supertype.map Link.toDef
    attributes := r.attributes.map Attribute.toDef
    validEntityTypes := r.validEntityTypes.map Link.toDef
    description := r.description }

structure Element where
  ordinal : Int32
  value : String
  description : Option String := none
deriving DecidableEq

def Element.toDef (e : Element) : EnumElement :=
  { ordinal := e.ordinal, value := e.value, description := e.description }

structure Enum where
  name : String
  guid : String := ""
  elements : List Element := []
  defaultOrdinal : Option Int32 := none
deriving DecidableEq

def Enum.toDef (r : Enum) : EnumDef :=
  { name := r.name
    guid := r.guid
    elements := r.elements.map Element.toDef
    defaultOrdinal := r.defaultOrdinal }

end Inventory

/-! ## The document -/

structure Inventory where
  schemaVersion : UInt32
  /-- The label of the repository that the definitions were fetched from. -/
  source : Option String := none
  entityRecords : List Inventory.Entity := []
  relationshipRecords : List Inventory.Relationship := []
  classificationRecords : List Inventory.Classification := []
  enumRecords : List Inventory.Enum := []
deriving DecidableEq

namespace Inventory

def supportedVersion : UInt32 := 0

def entities (v : Inventory) : List EntityDef := v.entityRecords.map Entity.toDef

def relationships (v : Inventory) : List RelationshipDef :=
  v.relationshipRecords.map Relationship.toDef

def classifications (v : Inventory) : List ClassificationDef :=
  v.classificationRecords.map Classification.toDef

def enums (v : Inventory) : List EnumDef := v.enumRecords.map Enum.toDef

/-- The number of listed records of a category. -/
def count (v : Inventory) : Category → Nat
  | .entity => v.entityRecords.length
  | .relationship => v.relationshipRecords.length
  | .classification => v.classificationRecords.length
  | .enumeration => v.enumRecords.length

end Inventory

end Metamodel
