import Metamodel.Datum
import Metamodel.Inventory

/-!
# Metamodel.Inventory.Layout

The fields of an inventory and of what is listed in it, in their declared order.
-/

namespace Metamodel
namespace Inventory

open Layout

def linkFields : List (String × Layout) := [("name", leaf), ("guid", leaf)]

def attributeFields : List (String × Layout) :=
  [("name", leaf), ("type", leaf), ("cardinality", leaf), ("description", leaf)]

def entityFields : List (String × Layout) :=
  [("name", leaf), ("guid", leaf), ("supertype", record linkFields),
    ("attributes", listOf (record attributeFields)), ("description", leaf)]

def classificationFields : List (String × Layout) :=
  [("name", leaf), ("guid", leaf), ("supertype", record linkFields),
    ("attributes", listOf (record attributeFields)),
    ("valid_entity_types", listOf (record linkFields)), ("description", leaf)]

def endFields : List (String × Layout) :=
  [("entity_type", record linkFields), ("attribute_name", leaf), ("cardinality", leaf)]

def relationshipFields : List (String × Layout) :=
  [("name", leaf), ("guid", leaf), ("end1", record endFields), ("end2", record endFields),
    ("description", leaf)]

def elementFields : List (String × Layout) :=
  [("ordinal", leaf), ("value", leaf), ("description", leaf)]

def enumFields : List (String × Layout) :=
  [("name", leaf), ("guid", leaf), ("elements", listOf (record elementFields)),
    ("default_ordinal", leaf)]

def documentFields : List (String × Layout) :=
  [("schema_version", leaf), ("source", leaf), ("entity_defs", listOf (record entityFields)),
    ("relationship_defs", listOf (record relationshipFields)),
    ("classification_defs", listOf (record classificationFields)),
    ("enum_defs", listOf (record enumFields))]

def layout : Layout := record documentFields

end Inventory
end Metamodel
