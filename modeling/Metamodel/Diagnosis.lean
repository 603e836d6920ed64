import Metamodel.Fault

/-!
# Metamodel.Diagnosis

Errors as they are reported to callers of every layer.

A `Diagnosis` says what kind of error arose, in which operation, at which type and reference, and
for which source. `Fault.diagnose` reports a registration or resolution fault this way; reading
and validating inventories reports diagnoses of its own.
-/

namespace Metamodel

structure Diagnosis where
  kind : FaultKind
  op : Option String := none
  typeName : Option String := none
  referencedName : Option String := none
  reference : Option ReferenceKind := none
  sourceLabel : Option String := none
  message : String := ""
  /-- Errors reported together with this one. -/
  related : List Diagnosis := []

namespace Diagnosis

def code (d : Diagnosis) : String := d.kind.code

/-- Text set off by what comes before and after it, or nothing. -/
def clause (before : String) (text : Option String) (after : String) : String :=
  match text with
  | none => ""
  | some t => before ++ t ++ after

/-- One line: the code, then whatever else is known. -/
def display (d : Diagnosis) : String :=
  "[" ++ d.code ++ "]"
    ++ clause " in operation '" d.op "'"
    ++ (if d.message = "" then "" else ": " ++ d.message)
    ++ clause " (type: " d.typeName ")"
    ++ (match d.reference with
        | none => ""
        | some r => " (" ++ r.text ++ clause ": " d.referencedName "" ++ ")")
    ++ clause " (source: " d.sourceLabel ")"

end Diagnosis

/-- The operation named by a report of several resolution errors. -/
def resolveOperation : String := "resolve"

mutual

/-- Report a fault; the members of a failed resolution become related reports, in order. -/
def Fault.diagnose : Fault → Diagnosis
  | .resolutionFailed label members =>
    { kind := .resolutionFailed
      op := some resolveOperation
      sourceLabel := some label
      message := (Fault.resolutionFailed label members).message
      related := Fault.diagnoseAll members }
  | .defect d =>
    { kind := d.kind
      typeName := some d.typeName
      referencedName := d.referencedName?
      reference := some d.reference
      sourceLabel := some d.label
      message := d.message }
  | .duplicateDefinition category name label =>
    { kind := .duplicateDefinition
      typeName := some name
      sourceLabel := some label
      message := (Fault.duplicateDefinition category name label).message }
  | .invalidInput reason =>
    { kind := .invalidInput
      message := (Fault.invalidInput reason).message }

def Fault.diagnoseAll : List Fault → List Diagnosis
  | [] => []
  | f :: fs => f.diagnose :: Fault.diagnoseAll fs

end

theorem Fault.diagnoseAll_eq_map (fs : List Fault) :
    Fault.diagnoseAll fs = fs.map Fault.diagnose := by
  induction fs with
  | nil => simp [Fault.diagnoseAll]
  | cons f fs ih => simp [Fault.diagnoseAll, ih]

end Metamodel
