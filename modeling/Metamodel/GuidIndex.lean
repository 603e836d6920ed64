import Metamodel.NameMap
import Metamodel.Event

/-!
# Metamodel.GuidIndex

Translation between names and guids of entity and relationship types.

A `Pairing` holds two maps that are inverse to one another: a pair is taken only if neither its
name nor its guid is taken already, so the first pair wins and later ones leave no trace here. A
pair with an empty part is never indexed.
-/

namespace Metamodel

structure Pairing where
  guids : NameMap String := ∅
  names : NameMap String := ∅
deriving DecidableEq

namespace Pairing

def guid? (p : Pairing) (name : String) : Option String := p.guids.get? name

def name? (p : Pairing) (guid : String) : Option String := p.names.get? guid

def indexable (name guid : String) : Bool := name ≠ "" && guid ≠ ""

def taken (p : Pairing) (name guid : String) : Bool :=
  p.guids.contains name || p.names.contains guid

def register (p : Pairing) (name guid : String) : Pairing :=
  if indexable name guid && !p.taken name guid then
    { guids := p.guids.insert name guid, names := p.names.insert guid name }
  else p

def skippedEvent (c : Category) (name guid : String) : Event :=
  .note .warn "lookup pair not indexed: name or guid already mapped"
    [(Vocabulary.typeCategory, c.name), (Vocabulary.typeName, name), (Vocabulary.guid, guid)]

/-- An indexable pair that clashes with an earlier one is reported. -/
def registerEvents (p : Pairing) (c : Category) (name guid : String) : List Event :=
  if indexable name guid && p.taken name guid then [skippedEvent c name guid] else []

end Pairing

/-- Entity and relationship types are indexed apart from one another. -/
structure GuidIndex where
  entities : Pairing := {}
  relationships : Pairing := {}
deriving DecidableEq

namespace GuidIndex

/-- Index a definition. Classifications and enumerations are not indexed. -/
def register (x : GuidIndex) : TypeDef → GuidIndex × List Event
  | .entity d =>
    ({ x with entities := x.entities.register d.name d.guid },
      x.entities.registerEvents .entity d.name d.guid)
  | .relationship d =>
    ({ x with relationships := x.relationships.register d.name d.guid },
      x.relationships.registerEvents .relationship d.name d.guid)
  | .classification _ => (x, [])
  | .enumeration _ => (x, [])

end GuidIndex

end Metamodel
