import Metamodel.Yaml.Datum

/-!
# Metamodel.Yaml.Reach

How many aliases are followed when a document is read.

A short document may unfold into a huge one, by aliases of nodes with aliases in them. So no more
aliases are followed than a fixed multiple of the size of the document. Only what is read counts:
what stands under unknown keys is passed over, aliases and all.
-/

namespace Metamodel
namespace Yaml

mutual

/-- How large a node is: one for a scalar or an alias, and for a collection its beginning and its
end besides its parts. -/
def Node.size : Node → Nat
  | .scalar .. => 1
  | .alias _ => 1
  | .list items _ => itemsSize items + 2
  | .map entries _ => entriesSize entries + 2

def itemsSize : List Node → Nat
  | [] => 0
  | n :: ns => n.size + itemsSize ns

def entriesSize : List (Node × Node) → Nat
  | [] => 0
  | (k, v) :: es => k.size + v.size + entriesSize es

end

namespace Value

/-- What is left of a number of aliases after looking at a node itself. -/
def spend (v : Value) (left : Nat) : Option Nat :=
  match v.node, left with
  | .alias _, 0 => none
  | .alias _, left + 1 => some left
  | _, left => some left

mutual

/-- What is left of a number of aliases after reading a value of some layout; nothing if it is not
enough. -/
def follow (v : Value) : Layout → (left : Nat) → Option Nat
  | .leaf, left => v.spend left
  | .listOf item, left => do
    let left ← v.spend left
    match v.target with
    | .list items _ => items.foldlM (fun left n => follow (v.within n) item left) left
    | _ => return left
  | .record fields, left => do
    let left ← v.spend left
    match v.target with
    | .map entries _ =>
      entries.foldlM
        (fun left e => do
          let key := v.within e.1
          followField (v.within e.2) key.text? fields (← key.spend left))
        left
    | _ => return left

/-- The same for the value of a key, which is passed over unless it is one of the known fields. -/
def followField (v : Value) (key : Option String) :
    List (String × Layout) → (left : Nat) → Option Nat
  | [], left => some left
  | (name, layout) :: fields, left =>
    if key = some name then follow v layout left else followField v key fields left

end

end Value

/-- How often aliases are followed for every part of a document. -/
def followLimit : Nat := 100

/-- Does a document of some layout stay within the limit? -/
def Document.isWithinReach (d : Document) (layout : Layout) : Bool :=
  (d.value.follow layout (followLimit * d.root.size)).isSome

end Yaml
end Metamodel
