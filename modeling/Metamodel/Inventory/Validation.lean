import Metamodel.Blank
import Metamodel.Diagnosis
import Metamodel.Inventory

/-!
# Metamodel.Inventory.Validation

What makes an inventory unacceptable before any of it is registered.

`Inventory.check` goes through a document from its version to its last enumeration and stops at the
first flaw; validation reports that one. References between types are not looked at here.
-/

namespace Metamodel
namespace Inventory

inductive Flaw where
  | unsupportedVersion (version : UInt32)
  | emptySource
  | blankName (category : Category)
  | blankAttributeName (owner : String)
  | duplicateOrdinal (ordinal : Int32) (enum : String)
  | unknownDefault (ordinal : Int32) (enum : String)
deriving DecidableEq

def Flaw.message : Flaw → String
  | .unsupportedVersion version =>
    "Unsupported schema_version: " ++ toString version.toNat ++ ". Expected 0"
  | .emptySource => "source label must not be empty"
  | .blankName category => category.name ++ " type with empty name"
  | .blankAttributeName owner => "Attribute with empty name on type " ++ owner
  | .duplicateOrdinal ordinal enum =>
    "Duplicate ordinal " ++ toString ordinal.toInt ++ " in enum " ++ enum
  | .unknownDefault ordinal enum =>
    "Default ordinal " ++ toString ordinal.toInt ++ " is not an element of enum " ++ enum

/-! ## Checks of one record -/

/-- Fail with a flaw where there is one. -/
def rejectIf (p : Prop) [Decidable p] (f : Flaw) : Except Flaw Unit := if p then .error f else .ok ()

def requireName (c : Category) (name : String) : Except Flaw Unit :=
  rejectIf (isBlank name) (.blankName c)

def requireAttributeNames (owner : String) (as : List Attribute) : Except Flaw Unit :=
  rejectIf (as.any (isBlank ·.name)) (.blankAttributeName owner)

/-- A type's own name comes before those of its attributes. -/
def checkNames (c : Category) (name : String) (as : List Attribute) : Except Flaw Unit := do
  requireName c name
  requireAttributeNames name as

def checkEntity (r : Entity) : Except Flaw Unit := checkNames .entity r.name r.attributes

def checkRelationship (r : Relationship) : Except Flaw Unit := requireName .relationship r.name

def checkClassification (r : Classification) : Except Flaw Unit :=
  checkNames .classification r.name r.attributes

/-- The ordinals of the elements together with those seen before, unless one is there twice. -/
def collectOrdinals (enum : String) : (seen : List Int32) → List Element → Except Flaw (List Int32)
  | seen, [] => return seen
  | seen, e :: es => do
    rejectIf (e.ordinal ∈ seen) (.duplicateOrdinal e.ordinal enum)
    collectOrdinals enum (e.ordinal :: seen) es

def checkDefault (enum : String) (ordinals : List Int32) : Option Int32 → Except Flaw Unit
  | none => return ()
  | some o => rejectIf (o ∉ ordinals) (.unknownDefault o enum)

def checkEnum (r : Enum) : Except Flaw Unit := do
  requireName .enumeration r.name
  let ordinals ← collectOrdinals r.name [] r.elements
  checkDefault r.name ordinals r.defaultOrdinal

/-! ## Validation -/

def check (v : Inventory) : Except Flaw Unit := do
  rejectIf (v.schemaVersion ≠ supportedVersion) (.unsupportedVersion v.schemaVersion)
  rejectIf (v.source = some "") .emptySource
  forM v.entityRecords checkEntity
  forM v.relationshipRecords checkRelationship
  forM v.classificationRecords checkClassification
  forM v.enumRecords checkEnum

def validateOperation : String := "inventory_validate"

def Flaw.diagnose (f : Flaw) : Diagnosis :=
  { kind := .invalidInput, op := some validateOperation, message := f.message }

def validate (v : Inventory) : Except Diagnosis Unit := v.check.mapError Flaw.diagnose

end Inventory
end Metamodel
