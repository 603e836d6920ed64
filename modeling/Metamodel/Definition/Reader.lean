import Metamodel.Datum
import Metamodel.Definition

/-!
# Metamodel.Definition.Reader

Reading definitions from any data format. Field names are in camel case.
-/

namespace Metamodel

open Datum

variable {α : Type} [Datum α]

namespace TypeLink

def read? (a : α) : Option TypeLink := do
  let fs ← fields? ["name", "guid"] a
  return { name := ← optional fs "name" text?, guid := ← optional fs "guid" text? }

end TypeLink

def AttributeCardinality.read? (a : α) : Option AttributeCardinality :=
  oneOf AttributeCardinality.all AttributeCardinality.name a

def EndCardinality.read? (a : α) : Option EndCardinality :=
  oneOf EndCardinality.all EndCardinality.name a

def EndPosition.read? (a : α) : Option EndPosition := oneOf EndPosition.all EndPosition.name a

def Category.read? (a : α) : Option Category := oneOf Category.all Category.name a

namespace AttributeDef

def read? (a : α) : Option AttributeDef := do
  let fs ← fields? ["name", "typeName", "cardinality", "description"] a
  return {
    name := ← required fs "name" text?
    typeName := ← required fs "typeName" text?
    cardinality := ← defaulted fs "cardinality" AttributeCardinality.read? .unknown
    description := ← optional fs "description" text? }

end AttributeDef

namespace EntityDef

def fieldNames : List String := ["name", "guid", "supertype", "attributes", "description"]

def read? (a : α) : Option EntityDef := do
  let fs ← fields? fieldNames a
  return {
    name := ← required fs "name" text?
    guid := ← required fs "guid" text?
    supertype := ← optional fs "supertype" TypeLink.read?
    attributes := ← defaulted fs "attributes" (listOf AttributeDef.read?) []
    description := ← optional fs "description" text? }

end EntityDef

namespace ClassificationDef

def fieldNames : List String :=
  ["name", "guid", "supertype", "attributes", "validEntityTypes", "description"]

def read? (a : α) : Option ClassificationDef := do
  let fs ← fields? fieldNames a
  return {
    name := ← required fs "name" text?
    guid := ← required fs "guid" text?
    supertype := ← optional fs "supertype" TypeLink.read?
    attributes := ← defaulted fs "attributes" (listOf AttributeDef.read?) []
    validEntityTypes := ← defaulted fs "validEntityTypes" (listOf TypeLink.read?) []
    description := ← optional fs "description" text? }

end ClassificationDef

namespace RelationshipEnd

def read? (a : α) : Option RelationshipEnd := do
  let fs ← fields? ["entityType", "attributeName", "cardinality"] a
  return {
    entityType := ← required fs "entityType" TypeLink.read?
    attributeName := ← optional fs "attributeName" text?
    cardinality := ← defaulted fs "cardinality" EndCardinality.read? .anyNumber }

end RelationshipEnd

namespace RelationshipDef

def fieldNames : List String := ["name", "guid", "end1", "end2", "description"]

def read? (a : α) : Option RelationshipDef := do
  let fs ← fields? fieldNames a
  return {
    name := ← required fs "name" text?
    guid := ← required fs "guid" text?
    end1 := ← required fs "end1" RelationshipEnd.read?
    end2 := ← required fs "end2" RelationshipEnd.read?
    description := ← optional fs "description" text? }

end RelationshipDef

namespace EnumElement

def read? (a : α) : Option EnumElement := do
  let fs ← fields? ["ordinal", "value", "description"] a
  return {
    ordinal := ← required fs "ordinal" int32?
    value := ← required fs "value" text?
    description := ← optional fs "description" text? }

end EnumElement

namespace EnumDef

def fieldNames : List String := ["name", "guid", "elements", "defaultOrdinal"]

def read? (a : α) : Option EnumDef := do
  let fs ← fields? fieldNames a
  return {
    name := ← required fs "name" text?
    guid := ← required fs "guid" text?
    elements := ← defaulted fs "elements" (listOf EnumElement.read?) []
    defaultOrdinal := ← optional fs "defaultOrdinal" int32? }

end EnumDef

end Metamodel
