import Metamodel.Draft
import Metamodel.Inventory

/-!
# Metamodel.Inventory.Registration

From an inventory to a draft of a type system.

Every record is registered with a fresh draft, category by category and in document order; the
duplicate policy decides on names listed twice. A label in the settings wins over the inventory's
own.
-/

namespace Metamodel

/-- Add what the records of a list stand for, one by one; a refusal ends it. -/
def Draft.addRecords {α : Type} (toDef : α → TypeDef) (b : Draft) : List α → Traced Fault Draft
  | [] => return b
  | r :: rs => do
    let (b, outcome) := b.add (toDef r)
    let _ ← outcome
    addRecords toDef b rs

namespace Inventory

/-- The settings with the inventory's label filled in where they have none. -/
def settingsFor (v : Inventory) (s : Settings) : Settings :=
  { s with sourceLabel := s.sourceLabel <|> v.source }

def registeredEvent (label : String) : Event :=
  .note .debug "inventory registered" [(Vocabulary.source, label)]

/-- Register all records. Nothing is resolved yet. -/
def toDraft (v : Inventory) (s : Settings) : Traced Fault Draft := do
  let b := Draft.ofSettings (v.settingsFor s)
  let b ← b.addRecords (fun r => .entity r.toDef) v.entityRecords
  let b ← b.addRecords (fun r => .relationship r.toDef) v.relationshipRecords
  let b ← b.addRecords (fun r => .classification r.toDef) v.classificationRecords
  let b ← b.addRecords (fun r => .enumeration r.toDef) v.enumRecords
  Traced.emit (registeredEvent b.label)
  return b

/-- Register and resolve. -/
def toModel (v : Inventory) (s : Settings) : Traced Fault Model := do
  let draft ← v.toDraft s
  draft.resolve

end Inventory
end Metamodel
