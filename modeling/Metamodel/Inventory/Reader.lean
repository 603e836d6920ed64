import Metamodel.Definition.Reader
import Metamodel.Inventory.Layout

/-!
# Metamodel.Inventory.Reader

Reading inventories from any data format. Field names are in snake case.

Apart from their spelling, records are read as definitions are, with two differences: a guid may be
left out, and a link may be just a name.
-/

namespace Metamodel
namespace Inventory

open Datum

variable {α : Type} [Datum α]

def fieldsOf? (fields : List (String × Layout)) (a : α) : Option (List (String × α)) :=
  fields? (fields.map (·.1)) a

/-- A name or guid within a link. The last one counts, and may be null again. -/
def readPart? (fields : List (String × α)) (key : String) : Option (Option String) :=
  (fields.filter (·.1 = key)).foldl
    (fun found e => do
      let _ ← found
      match ← present? e.2 with
      | none => return none
      | some a => return some (← text? a))
    (some none)

/-- A link is a name, or a map with a name, a guid, both or neither. -/
def readLink? (a : α) : Option Link :=
  if isMarked a then none
  else
    match word? a with
    | some name => some (.named name)
    | none => do
      let fields ← entries? a
      return { name := ← readPart? fields "name", guid := ← readPart? fields "guid" }

def readAttribute? (a : α) : Option Attribute := do
  let fs ← fieldsOf? attributeFields a
  return {
    name := ← required fs "name" text?
    typeName := ← required fs "type" text?
    cardinality := ← defaulted fs "cardinality" AttributeCardinality.read? .unknown
    description := ← optional fs "description" text? }

def readEntity? (a : α) : Option Entity := do
  let fs ← fieldsOf? entityFields a
  return {
    name := ← required fs "name" text?
    guid := ← defaulted fs "guid" text? ""
    supertype := ← optional fs "supertype" readLink?
    attributes := ← defaulted fs "attributes" (listOf readAttribute?) []
    description := ← optional fs "description" text? }

def readClassification? (a : α) : Option Classification := do
  let fs ← fieldsOf? classificationFields a
  return {
    name := ← required fs "name" text?
    guid := ← defaulted fs "guid" text? ""
    supertype := ← optional fs "supertype" readLink?
    attributes := ← defaulted fs "attributes" (listOf readAttribute?) []
    validEntityTypes := ← defaulted fs "valid_entity_types" (listOf readLink?) []
    description := ← optional fs "description" text? }

def readEnd? (a : α) : Option End := do
  let fs ← fieldsOf? endFields a
  return {
    entityType := ← required fs "entity_type" readLink?
    attributeName := ← optional fs "attribute_name" text?
    cardinality := ← defaulted fs "cardinality" EndCardinality.read? .anyNumber }

def readRelationship? (a : α) : Option Relationship := do
  let fs ← fieldsOf? relationshipFields a
  return {
    name := ← required fs "name" text?
    guid := ← defaulted fs "guid" text? ""
    end1 := ← required fs "end1" readEnd?
    end2 := ← required fs "end2" readEnd?
    description := ← optional fs "description" text? }

def readElement? (a : α) : Option Element := do
  let fs ← fieldsOf? elementFields a
  return {
    ordinal := ← required fs "ordinal" int32?
    value := ← required fs "value" text?
    description := ← optional fs "description" text? }

def readEnum? (a : α) : Option Enum := do
  let fs ← fieldsOf? enumFields a
  return {
    name := ← required fs "name" text?
    guid := ← defaulted fs "guid" text? ""
    elements := ← defaulted fs "elements" (listOf readElement?) []
    defaultOrdinal := ← optional fs "default_ordinal" int32? }

def read? (a : α) : Option Inventory := do
  let fs ← fieldsOf? documentFields a
  return {
    schemaVersion := ← required fs "schema_version" uint32?
    source := ← optional fs "source" text?
    entityRecords := ← defaulted fs "entity_defs" (listOf readEntity?) []
    relationshipRecords := ← defaulted fs "relationship_defs" (listOf readRelationship?) []
    classificationRecords := ← defaulted fs "classification_defs" (listOf readClassification?) []
    enumRecords := ← defaulted fs "enum_defs" (listOf readEnum?) [] }

end Inventory
end Metamodel
