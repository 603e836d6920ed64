import Metamodel.Settings

/-!
# Metamodel.Vocabulary

Names of the fields and phases of structured events. Readers of a log rely on these texts.
-/

namespace Metamodel
namespace Vocabulary

/-! ## Field names -/

def component : String := "component"
def op : String := "op"
def event : String := "event"
def durationMs : String := "duration_ms"
def source : String := "source"
def typeName : String := "type_name"
def typeCategory : String := "type_category"
def referencedName : String := "referenced_name"
def entityCount : String := "entity_count"
def relationshipCount : String := "relationship_count"
def classificationCount : String := "classification_count"
def enumCount : String := "enum_count"
def errKind : String := "err.kind"
def errCode : String := "err.code"
def message : String := "message"
def guid : String := "guid"

/-! ## Phases of an operation -/

def started : String := "start"
def ended : String := "end"
def failed : String := "end_error"

/-- The published vocabulary, field names before phases, and the label of an unnamed source. -/
def all : List String :=
  [component, op, event, durationMs, source, typeName, typeCategory, referencedName, entityCount,
   relationshipCount, classificationCount, enumCount, errKind, errCode, started, ended, failed,
   defaultSourceLabel]

end Vocabulary
end Metamodel
