import Metamodel.Definition

/-!
# Metamodel.Fault

What can go wrong while types are registered and resolved.

* `Defect` — one structural inconsistency of a type system: a reference that leads nowhere, or a
  supertype chain that loops.
* `Fault`  — what registration and resolution fail with: a defect, several of them together, a
  conflicting definition, or unusable input.

Each carries the label of the source the definitions came from, for messages only.
-/

namespace Metamodel

/-- Kind of an error. Each kind has a stable code, so callers need not read messages. -/
inductive FaultKind where
  | missingSupertypeName
  | missingSupertypeDef
  | missingClassificationSupertypeName
  | missingClassificationSupertypeDef
  | supertypeCycle
  | missingEndDef
  | missingValidEntityName
  | missingValidEntityDef
  | duplicateDefinition
  | resolutionFailed
  | invalidInput
  | io
  | serialization
deriving DecidableEq

namespace FaultKind

def name : FaultKind → String
  | .missingSupertypeName => "MissingSupertypeName"
  | .missingSupertypeDef => "MissingSupertypeDef"
  | .missingClassificationSupertypeName => "MissingClassificationSupertypeName"
  | .missingClassificationSupertypeDef => "MissingClassificationSupertypeDef"
  | .supertypeCycle => "SupertypeCycle"
  | .missingEndDef => "MissingEndDef"
  | .missingValidEntityName => "MissingValidEntityName"
  | .missingValidEntityDef => "MissingValidEntityDef"
  | .duplicateDefinition => "DuplicateDefinition"
  | .resolutionFailed => "ResolutionFailed"
  | .invalidInput => "InvalidInput"
  | .io => "Io"
  | .serialization => "Serialization"

def code : FaultKind → String
  | .missingSupertypeName => "ERR_MISSING_SUPERTYPE_NAME"
  | .missingSupertypeDef => "ERR_MISSING_SUPERTYPE_DEF"
  | .missingClassificationSupertypeName => "ERR_MISSING_CLASSIFICATION_SUPERTYPE_NAME"
  | .missingClassificationSupertypeDef => "ERR_MISSING_CLASSIFICATION_SUPERTYPE_DEF"
  | .supertypeCycle => "ERR_SUPERTYPE_CYCLE"
  | .missingEndDef => "ERR_MISSING_END_DEF"
  | .missingValidEntityName => "ERR_MISSING_VALID_ENTITY_NAME"
  | .missingValidEntityDef => "ERR_MISSING_VALID_ENTITY_DEF"
  | .duplicateDefinition => "ERR_DUPLICATE_DEFINITION"
  | .resolutionFailed => "ERR_RESOLUTION_FAILED"
  | .invalidInput => "ERR_INVALID_INPUT"
  | .io => "ERR_IO"
  | .serialization => "ERR_SERIALIZATION"

def all : List FaultKind :=
  [.missingSupertypeName, .missingSupertypeDef, .missingClassificationSupertypeName,
   .missingClassificationSupertypeDef, .supertypeCycle, .missingEndDef, .missingValidEntityName,
   .missingValidEntityDef, .duplicateDefinition, .resolutionFailed, .invalidInput, .io,
   .serialization]

/-- Kinds that resolution raises against an inconsistent type system. -/
def isStructural : FaultKind → Bool
  | .duplicateDefinition | .invalidInput | .io | .serialization => false
  | _ => true

end FaultKind

inductive ReferenceKind where
  | supertype
  | relationshipEnd
  | validEntity
deriving DecidableEq

def ReferenceKind.text : ReferenceKind → String
  | .supertype => "supertype"
  | .relationshipEnd => "relationship end"
  | .validEntity => "valid entity"

/-! ## Defects -/

/-- One structural inconsistency, blamed on the type that holds the failing reference. -/
inductive Defect where
  /-- A supertype link without a name. -/
  | missingSupertypeName (hierarchy : Hierarchy) (holder label : String)
  /-- A supertype link to a name that is not registered in the holder's category. -/
  | missingSupertypeDef (hierarchy : Hierarchy) (holder target label : String)
  /-- A supertype chain that returns to itself, blamed on the least name on the loop. -/
  | supertypeCycle (category : Category) (member label : String)
  /-- A relationship end without a name, or naming no registered entity type. -/
  | missingEndDef (relationship : String) (position : EndPosition) (target : Option String)
      (label : String)
  /-- A valid-entity link without a name. -/
  | missingValidEntityName (classification label : String)
  /-- A valid-entity link to a name that is no registered entity type. -/
  | missingValidEntityDef (classification target label : String)
deriving DecidableEq

namespace Defect

def kind : Defect → FaultKind
  | .missingSupertypeName .entities .. => .missingSupertypeName
  | .missingSupertypeName .classifications .. => .missingClassificationSupertypeName
  | .missingSupertypeDef .entities .. => .missingSupertypeDef
  | .missingSupertypeDef .classifications .. => .missingClassificationSupertypeDef
  | .supertypeCycle .. => .supertypeCycle
  | .missingEndDef .. => .missingEndDef
  | .missingValidEntityName .. => .missingValidEntityName
  | .missingValidEntityDef .. => .missingValidEntityDef

/-- The type that holds the failing reference. -/
def typeName : Defect → String
  | .missingSupertypeName _ holder _ => holder
  | .missingSupertypeDef _ holder _ _ => holder
  | .supertypeCycle _ member _ => member
  | .missingEndDef relationship _ _ _ => relationship
  | .missingValidEntityName classification _ => classification
  | .missingValidEntityDef classification _ _ => classification

/-- The name that the failing reference points at, if it has one. -/
def referencedName? : Defect → Option String
  | .missingSupertypeDef _ _ target _ => some target
  | .missingEndDef _ _ target _ => target
  | .missingValidEntityDef _ target _ => some target
  | _ => none

def reference : Defect → ReferenceKind
  | .missingSupertypeName .. | .missingSupertypeDef .. | .supertypeCycle .. => .supertype
  | .missingEndDef .. => .relationshipEnd
  | .missingValidEntityName .. | .missingValidEntityDef .. => .validEntity

def label : Defect → String
  | .missingSupertypeName _ _ label => label
  | .missingSupertypeDef _ _ _ label => label
  | .supertypeCycle _ _ label => label
  | .missingEndDef _ _ _ label => label
  | .missingValidEntityName _ label => label
  | .missingValidEntityDef _ _ label => label

theorem kind_ne_resolutionFailed (d : Defect) : d.kind ≠ .resolutionFailed := by
  cases d with
  | missingSupertypeName h _ _ => cases h <;> simp [kind]
  | missingSupertypeDef h _ _ _ => cases h <;> simp [kind]
  | _ => simp [kind]

def title : Hierarchy → String
  | .entities => "Entity type "
  | .classifications => "Classification type "

def message : Defect → String
  | .missingSupertypeName h holder label =>
    title h ++ holder ++ " from " ++ label ++ " has a supertype link with no name"
  | .missingSupertypeDef h holder target label =>
    title h ++ holder ++ " from " ++ label ++ " declares unknown supertype " ++ target
  | .supertypeCycle category member label =>
    "Supertype chain of " ++ category.name ++ " type " ++ member ++ " from " ++ label
      ++ " contains a cycle"
  | .missingEndDef relationship position target label =>
    "Relationship type " ++ relationship ++ " from " ++ label ++ ": " ++ position.name
      ++ " references unknown entity type " ++ target.getD "<unnamed>"
  | .missingValidEntityName classification label =>
    "Classification type " ++ classification ++ " from " ++ label
      ++ " has a valid entity link with no name"
  | .missingValidEntityDef classification target label =>
    "Classification type " ++ classification ++ " from " ++ label
      ++ " is valid for unknown entity type " ++ target

end Defect

/-! ## Faults -/

/-- What registration and resolution fail with. -/
inductive Fault where
  | defect (d : Defect)
  /-- A different definition already holds the name in its category. -/
  | duplicateDefinition (category : Category) (name label : String)
  /-- Several errors of one resolution, reported together. -/
  | resolutionFailed (label : String) (members : List Fault)
  | invalidInput (reason : String)

namespace Fault

def kind : Fault → FaultKind
  | .defect d => d.kind
  | .duplicateDefinition .. => .duplicateDefinition
  | .resolutionFailed .. => .resolutionFailed
  | .invalidInput _ => .invalidInput

def typeName? : Fault → Option String
  | .defect d => some d.typeName
  | .duplicateDefinition _ name _ => some name
  | .resolutionFailed .. | .invalidInput _ => none

def referencedName? : Fault → Option String
  | .defect d => d.referencedName?
  | _ => none

def reference? : Fault → Option ReferenceKind
  | .defect d => some d.reference
  | _ => none

def label? : Fault → Option String
  | .defect d => some d.label
  | .duplicateDefinition _ _ label => some label
  | .resolutionFailed label _ => some label
  | .invalidInput _ => none

/-- Errors reported together by a failed resolution. -/
def members : Fault → List Fault
  | .resolutionFailed _ members => members
  | _ => []

/-- Every error this one stands for: the members of a failed resolution, else the error itself. -/
def constituents : Fault → List Fault
  | .resolutionFailed _ members => members
  | f => [f]

theorem mem_constituents {f g : Fault} :
    g ∈ f.constituents ↔ g ∈ f.members ∨ (f.kind ≠ .resolutionFailed ∧ g = f) := by
  cases f with
  | defect d =>
    have hkind : d.kind ≠ .resolutionFailed := d.kind_ne_resolutionFailed
    simp [constituents, members, kind, hkind]
  | _ => simp [constituents, members, kind]

def message : Fault → String
  | .defect d => d.message
  | .duplicateDefinition category name label =>
    "Conflicting " ++ category.name ++ " type definition " ++ name ++ " from " ++ label
  | .resolutionFailed label members =>
    "Resolution of types from " ++ label ++ " failed with " ++ toString members.length
      ++ " structural errors"
  | .invalidInput reason => "Invalid input: " ++ reason

end Fault

end Metamodel
