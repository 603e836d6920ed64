import Metamodel.File
import Metamodel.Inventory.Document
import Metamodel.Inventory.Registration

/-!
# Metamodel.Inventory.File

From the file of an inventory to a model.

What is done with a text is a parameter: `parseFileWith` and `loadWith` work with any reader of
inventories, `parseFile` and `load` with the one for YAML.
-/

namespace Metamodel
namespace Inventory

def readOperation : String := "inventory_read"

def unreadable (reason : String) : Diagnosis :=
  { kind := .io, op := some readOperation, message := reason }

def parseFileWith (read : String → Traced Diagnosis Inventory) (f : File) :
    Traced Diagnosis Inventory :=
  match f.text with
  | .error reason => .fail (unreadable reason)
  | .ok text => read text

def loadWith (read : String → Traced Diagnosis Inventory) (f : File) (s : Settings) :
    Traced Diagnosis Model := do
  let v ← parseFileWith read f
  (v.toModel s).mapError Fault.diagnose

def parseFile (f : File) : Traced Diagnosis Inventory := parseFileWith parse f

def load (f : File) (s : Settings) : Traced Diagnosis Model := loadWith parse f s

end Inventory
end Metamodel
