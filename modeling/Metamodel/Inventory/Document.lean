import Metamodel.Event
import Metamodel.Inventory.Reader
import Metamodel.Inventory.Validation
import Metamodel.Yaml.Reach

/-!
# Metamodel.Inventory.Document

Reading and validating the text of an inventory, which is written in YAML.

The reading is traced: it opens with a start event and closes with the numbers of listed
definitions, or with the kind of what went wrong.
-/

namespace Metamodel
namespace Inventory

def component : String := "typex_inventory::inventory::parser"

def parseOperation : String := "inventory_parse"

/-- A text that is no inventory. -/
def malformed (reason : String) : Diagnosis :=
  { kind := .serialization, op := some parseOperation, message := "YAML parse error: " ++ reason }

/-- The inventory that a text holds, whatever is in it. -/
def ofYaml (text : String) : Except Diagnosis Inventory :=
  match Yaml.parse? text with
  | none => .error (malformed "not a single well-formed document")
  | some d =>
    if !d.isWithinReach layout then .error (malformed "too many aliases are followed")
    else
      match read? d.value with
      | none => .error (malformed "the document is not laid out as an inventory")
      | some v => .ok v

/-- Read and validate. -/
def ofText (text : String) : Except Diagnosis Inventory := do
  let v ← ofYaml text
  v.validate
  return v

def closingEvent : Except Diagnosis Inventory → Event
  | .ok v => .ended component parseOperation (Event.counts v.count)
  | .error d => .failed component parseOperation d.kind []

def parse (text : String) : Traced Diagnosis Inventory :=
  let result := ofText text
  ⟨result, [.started component parseOperation [], closingEvent result]⟩

end Inventory
end Metamodel
