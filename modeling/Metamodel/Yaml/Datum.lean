import Metamodel.Datum
import Metamodel.Yaml.Document
import Metamodel.Yaml.Scalar

/-!
# Metamodel.Yaml.Datum

YAML as a data format for definitions.

A scalar is a text wherever one is wanted, however it is written; only where several forms are
allowed does it matter what a plain scalar looks like. A node with a tag of its own is marked.
-/

namespace Metamodel
namespace Yaml

/-- A node, with the anchored nodes of its document. -/
structure Value where
  node : Node
  anchored : List (Nat × Node)

def Document.value (d : Document) : Value := ⟨d.root, d.anchored⟩

namespace Value

/-- The node itself, or the one that an alias stands for. -/
def target (v : Value) : Node :=
  match v.node with
  | .alias a => (v.anchored.lookup a).getD v.node
  | n => n

def within (v : Value) (n : Node) : Value := { v with node := n }

def text? (v : Value) : Option String :=
  match v.target with
  | .scalar s _ _ => some s
  | _ => none

def tag? (v : Value) : Option Tag :=
  match v.target with
  | .scalar _ _ tag => tag
  | .list _ tag => tag
  | .map _ tag => tag
  | .alias _ => none

/-- The name of the kind that the document has marked a node with. -/
def ownName? (v : Value) : Option String := v.tag?.bind Tag.ownName?

/-- Is there nothing written? Where a list is wanted, that is the empty list. -/
def isAbsent (v : Value) : Bool :=
  match v.target with
  | .scalar "" .plain _ => true
  | _ => false

/-- Plain scalars without a tag may stand for nothing. One that is tagged as null has to. -/
def present? (v : Value) : Option (Option Value) :=
  match v.target with
  | .scalar s .plain none => some (if s = "" || isNullWord s then none else some v)
  | .scalar s .plain (some tag) =>
    if tag ≠ .standard "null" then some (some v) else if isNullWord s then some none else none
  | _ => some (some v)

/-- Tags that make a scalar something else than a text. -/
def typedTags : List Tag := ["bool", "int", "float", "null"].map .standard

/-- A plain scalar is told by its looks, unless a tag says that it is a text. -/
def word? (v : Value) : Option String :=
  match v.target with
  | .scalar s style tag =>
    if tag.any (· ∈ typedTags) || v.ownName?.isSome then none
    else if style = .plain && tag.all Tag.isOwn then if isWord s then some s else none
    else some s
  | _ => none

/-- The text of a scalar that may be an integer: plain, or literal and tagged as one. -/
def number? (v : Value) : Option String :=
  match v.target with
  | .scalar s .plain _ => some s
  | .scalar s .literal (some tag) => if tag = .standard "int" then some s else none
  | _ => none

/-- A member of a fixed set is a scalar, or a tag of its own on nothing. -/
def choice? (v : Value) : Option String :=
  match v.ownName? with
  | some t =>
    match v.target with
    | .scalar s .plain _ => if s = "" || isNullWord s then some t else none
    | _ => none
  | none => v.text?

def items? (v : Value) : Option (List Value) :=
  match v.target with
  | .list items _ => some (items.map v.within)
  | _ => if v.isAbsent then some [] else none

def entries? (v : Value) : Option (List (String × Value)) :=
  match v.target with
  | .map entries _ => entries.mapM fun e => do return (← (v.within e.1).text?, v.within e.2)
  | _ => none

instance : Datum Value where
  text? := text?
  word? := word?
  present? := present?
  int? v := v.number?.bind signed?
  nat? v := v.number?.bind unsigned?
  choice? := choice?
  items? := items?
  entries? := entries?
  row? _ := none
  isMarked v := v.ownName?.isSome

end Value

end Yaml
end Metamodel
