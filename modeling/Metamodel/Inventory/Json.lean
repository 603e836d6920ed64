import Metamodel.Inventory
import Metamodel.Json

/-!
# Metamodel.Inventory.Json

Inventories as JSON.

Lists, guids and cardinalities are always written. Absent values are left out, in links too: a link
is an object with the parts it has.
-/

namespace Metamodel
namespace Inventory

open Json (whenPresent)

def linkToJson (l : Link) : Json :=
  .obj (whenPresent "name" .str l.name ++ whenPresent "guid" .str l.guid)

def attributeToJson (a : Attribute) : Json :=
  .obj ([("name", .str a.name), ("type", .str a.typeName), ("cardinality", .str a.cardinality.name)]
    ++ whenPresent "description" .str a.description)

def entityToJson (d : Entity) : Json :=
  .obj ([("name", .str d.name), ("guid", .str d.guid)]
    ++ whenPresent "supertype" linkToJson d.supertype
    ++ [("attributes", .arr (d.attributes.map attributeToJson))]
    ++ whenPresent "description" .str d.description)

def classificationToJson (d : Classification) : Json :=
  .obj ([("name", .str d.name), ("guid", .str d.guid)]
    ++ whenPresent "supertype" linkToJson d.supertype
    ++ [("attributes", .arr (d.attributes.map attributeToJson)),
      ("valid_entity_types", .arr (d.validEntityTypes.map linkToJson))]
    ++ whenPresent "description" .str d.description)

def endToJson (e : End) : Json :=
  .obj ([("entity_type", linkToJson e.entityType)]
    ++ whenPresent "attribute_name" .str e.attributeName
    ++ [("cardinality", .str e.cardinality.name)])

def relationshipToJson (d : Relationship) : Json :=
  .obj ([("name", .str d.name), ("guid", .str d.guid), ("end1", endToJson d.end1),
      ("end2", endToJson d.end2)]
    ++ whenPresent "description" .str d.description)

def elementToJson (e : Element) : Json :=
  .obj ([("ordinal", .int e.ordinal.toInt), ("value", .str e.value)]
    ++ whenPresent "description" .str e.description)

def enumToJson (d : Enum) : Json :=
  .obj ([("name", .str d.name), ("guid", .str d.guid),
      ("elements", .arr (d.elements.map elementToJson))]
    ++ whenPresent "default_ordinal" (fun o => .int o.toInt) d.defaultOrdinal)

def toJson (v : Inventory) : Json :=
  .obj ([("schema_version", .nat v.schemaVersion.toNat)]
    ++ whenPresent "source" .str v.source
    ++ [("entity_defs", .arr (v.entityRecords.map entityToJson)),
      ("relationship_defs", .arr (v.relationshipRecords.map relationshipToJson)),
      ("classification_defs", .arr (v.classificationRecords.map classificationToJson)),
      ("enum_defs", .arr (v.enumRecords.map enumToJson))])

end Inventory
end Metamodel
