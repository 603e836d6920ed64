import Metamodel.Json
import Metamodel.Model

/-!
# Metamodel.View

What a resolved type looks like to a reader.

* `Model.view?`  — the view of one type as JSON, its entries in key order.
* `View.render`  — a view as lines of text. Any JSON value can be rendered; parts that a view should
  have and the value lacks come out empty.
-/

namespace Metamodel

namespace View

def attributeLine (a : AttributeDef) : String := a.name ++ ": " ++ a.typeName

def elementLine (e : EnumElement) : String := toString e.ordinal.toInt ++ "=" ++ e.value

def ofEntity (m : Model) (d : ResolvedEntity) : Json :=
  .obj [("attributes", .strs (d.attributes.map attributeLine)),
    ("category", .str Category.entity.name),
    ("classifications", .strs d.applicability.classifications.toList),
    ("guid", .str d.definition.guid),
    ("name", .str d.definition.name),
    ("relationships", .strs d.applicability.relationships.toList),
    ("subTypes", .strs d.subtypes.toList),
    ("supertypeChain", .strs (m.entityChain d.definition.name))]

def ofClassification (m : Model) (d : ResolvedClassification) : Json :=
  .obj [("attributes", .strs (d.attributes.map attributeLine)),
    ("category", .str Category.classification.name),
    ("guid", .str d.definition.guid),
    ("name", .str d.definition.name),
    ("subTypes", .strs d.subtypes.toList),
    ("supertypeChain", .strs (m.classificationChain d.definition.name)),
    ("validEntityTypes", .strs d.validEntities.toList)]

def ofRelationship (m : Model) (d : RelationshipDef) : Json :=
  let (end1, end2) := (m.endTypes? d.name).getD ("", "")
  .obj [("category", .str Category.relationship.name),
    ("end1", .str end1),
    ("end2", .str end2),
    ("guid", .str d.guid),
    ("name", .str d.name)]

def ofEnum (d : EnumDef) : Json :=
  .obj [("category", .str Category.enumeration.name),
    ("default", .ofOption .str d.defaultValue?),
    ("elements", .strs (d.elements.map elementLine)),
    ("guid", .str d.guid),
    ("name", .str d.name)]

end View

/-- The view of a type. A name in several categories is that of the entity first, then of the
classification, then of the relationship, then of the enumeration. -/
def Model.view? (m : Model) (name : String) : Option Json :=
  (m.entity? name).map (View.ofEntity m)
    <|> (m.classification? name).map (View.ofClassification m)
    <|> (m.relationship? name).map (View.ofRelationship m)
    <|> (m.enum? name).map View.ofEnum

namespace View

/-! ## Rendering -/

/-- The text at a key, empty if there is none. -/
def textAt (view : Json) (key : String) : String := ((view.get? key).bind Json.str?).getD ""

/-- The texts of the list at a key, in its order; other values in it are skipped. -/
def textsAt (view : Json) (key : String) : List String :=
  (((view.get? key).bind Json.items?).getD []).filterMap Json.str?

/-- Names of a set, in order and each once. -/
def nameLine (names : NameSet) : String :=
  if names.isEmpty then "(none)" else String.intercalate ", " names.toList

def namesAt (view : Json) (key : String) : String := nameLine (.ofList (textsAt view key))

def bodyLines (view : Json) : List String :=
  let hierarchy :=
    ["  supertypes:   " ++ String.intercalate " -> " (textsAt view "supertypeChain"),
      "  subtypes:     " ++ namesAt view "subTypes",
      "  attributes:"] ++ (textsAt view "attributes").map ("    " ++ ·)
  match (view.get? "category").bind Json.str? with
  | some "entity" =>
    hierarchy ++ ["  relationships:   " ++ namesAt view "relationships",
      "  classifications: " ++ namesAt view "classifications"]
  | some "classification" => hierarchy ++ ["  valid for:    " ++ namesAt view "validEntityTypes"]
  | some "relationship" => ["  end1: " ++ textAt view "end1", "  end2: " ++ textAt view "end2"]
  | _ =>
    (textsAt view "elements").map ("  " ++ ·)
      ++ (((view.get? "default").bind Json.str?).map ("  default: " ++ ·)).toList

def headLine (view : Json) : String :=
  textAt view "category" ++ " type: " ++ textAt view "name"
    ++ " (guid: " ++ textAt view "guid" ++ ")"

def ofLines (lines : List String) : String := String.join (lines.map (· ++ "\n"))

def render (view : Json) : String := ofLines (headLine view :: bodyLines view)

end View

end Metamodel
