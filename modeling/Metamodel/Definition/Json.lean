import Metamodel.Definition.Reader
import Metamodel.Json.Datum
import Metamodel.Json.Reader

/-!
# Metamodel.Definition.Json

Definitions as JSON.

Both parts of a link are always written, `null` when absent, and so are lists and cardinalities;
other absent values are left out. A `TypeDef` is the object of its definition with one more entry,
its category.
-/

namespace Metamodel

open Json (whenPresent)

def TypeLink.toEntries (l : TypeLink) : List (String × Json) :=
  [("name", .ofOption .str l.name), ("guid", .ofOption .str l.guid)]

def TypeLink.toJson (l : TypeLink) : Json := .obj l.toEntries

def AttributeDef.toEntries (a : AttributeDef) : List (String × Json) :=
  [("name", .str a.name), ("typeName", .str a.typeName), ("cardinality", .str a.cardinality.name)]
    ++ whenPresent "description" .str a.description

def AttributeDef.toJson (a : AttributeDef) : Json := .obj a.toEntries

def EntityDef.toEntries (d : EntityDef) : List (String × Json) :=
  [("name", .str d.name), ("guid", .str d.guid)]
    ++ whenPresent "supertype" TypeLink.toJson d.supertype
    ++ [("attributes", .arr (d.attributes.map AttributeDef.toJson))]
    ++ whenPresent "description" .str d.description

def ClassificationDef.toEntries (d : ClassificationDef) : List (String × Json) :=
  [("name", .str d.name), ("guid", .str d.guid)]
    ++ whenPresent "supertype" TypeLink.toJson d.supertype
    ++ [("attributes", .arr (d.attributes.map AttributeDef.toJson)),
      ("validEntityTypes", .arr (d.validEntityTypes.map TypeLink.toJson))]
    ++ whenPresent "description" .str d.description

def RelationshipEnd.toEntries (e : RelationshipEnd) : List (String × Json) :=
  [("entityType", e.entityType.toJson)]
    ++ whenPresent "attributeName" .str e.attributeName
    ++ [("cardinality", .str e.cardinality.name)]

def RelationshipEnd.toJson (e : RelationshipEnd) : Json := .obj e.toEntries

def RelationshipDef.toEntries (d : RelationshipDef) : List (String × Json) :=
  [("name", .str d.name), ("guid", .str d.guid), ("end1", d.end1.toJson), ("end2", d.end2.toJson)]
    ++ whenPresent "description" .str d.description

def EnumElement.toEntries (e : EnumElement) : List (String × Json) :=
  [("ordinal", .int e.ordinal.toInt), ("value", .str e.value)]
    ++ whenPresent "description" .str e.description

def EnumElement.toJson (e : EnumElement) : Json := .obj e.toEntries

def EnumDef.toEntries (d : EnumDef) : List (String × Json) :=
  [("name", .str d.name), ("guid", .str d.guid),
    ("elements", .arr (d.elements.map EnumElement.toJson))]
    ++ whenPresent "defaultOrdinal" (fun o => .int o.toInt) d.defaultOrdinal

def EntityDef.toJson (d : EntityDef) : Json := .obj d.toEntries

def ClassificationDef.toJson (d : ClassificationDef) : Json := .obj d.toEntries

def RelationshipDef.toJson (d : RelationshipDef) : Json := .obj d.toEntries

def EnumDef.toJson (d : EnumDef) : Json := .obj d.toEntries

namespace TypeDef

/-- The entry that says which category a definition is of. -/
def tag : String := "category"

/-- The entries of the definition alone, without its category. -/
def toEntries : TypeDef → List (String × Json)
  | .entity d => d.toEntries
  | .relationship d => d.toEntries
  | .classification d => d.toEntries
  | .enumeration d => d.toEntries

def toJson (d : TypeDef) : Json := .obj ((tag, .str d.category.name) :: d.toEntries)

def readAs? {α : Type} [Datum α] (a : α) : Category → Option TypeDef
  | .entity => (EntityDef.read? a).map .entity
  | .relationship => (RelationshipDef.read? a).map .relationship
  | .classification => (ClassificationDef.read? a).map .classification
  | .enumeration => (EnumDef.read? a).map .enumeration

def categoryNamed? (name : String) : Option Category := Category.all.find? (·.name = name)

/-- Read a definition that carries its category: as one entry among the others, or at the head of
a row. All of it is held before it is understood. -/
def ofJson? (j : Json) : Option TypeDef := do
  if !j.isHoldable Json.nestingLimit then none
  else
    match j with
    | .obj entries =>
      match entries.filter (·.1 = tag) with
      | [(_, .str name)] =>
        readAs? (TaggedJson.mk (.obj (entries.filter (·.1 ≠ tag)))) (← categoryNamed? name)
      | _ => none
    | .arr (.str name :: row) => readAs? (TaggedJson.mk (.arr row)) (← categoryNamed? name)
    | _ => none

end TypeDef

end Metamodel
