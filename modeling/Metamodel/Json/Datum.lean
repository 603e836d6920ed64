import Metamodel.Datum
import Metamodel.Json

/-!
# Metamodel.Json.Datum

JSON as a data format for definitions.

JSON is strict: a number is never a text, nor `null` a list. A member of a fixed set is a string,
or an object with the member as its only key and nothing in it.
-/

namespace Metamodel
namespace Json

def int? : Json → Option Int
  | .int i => some i
  | _ => none

def entries? : Json → Option (List (String × Json))
  | .obj entries => some entries
  | _ => none

/-- Any value but `null`. -/
def nonNull? : Json → Option Json
  | .null => none
  | j => some j

def choice? : Json → Option String
  | .str s => some s
  | .obj [(s, .null)] => some s
  | _ => none

instance : Datum Json where
  text? := str?
  word? := str?
  present? j := some j.nonNull?
  int? := int?
  nat? j := (int? j).bind Int.toNat?
  choice? := choice?
  items? := items?
  entries? := entries?
  row? := items?

end Json

/-- JSON inside a definition that carries its category. There a member of a fixed set may also
hold an empty object. -/
structure TaggedJson where
  json : Json

namespace TaggedJson

def choice? (j : TaggedJson) : Option String :=
  match j.json with
  | .obj [(s, .obj [])] => some s
  | _ => j.json.choice?

instance : Datum TaggedJson where
  text? j := j.json.str?
  word? j := j.json.str?
  present? j := some (j.json.nonNull?.map TaggedJson.mk)
  int? j := j.json.int?
  nat? j := j.json.int?.bind Int.toNat?
  choice? := choice?
  items? j := j.json.items?.map (·.map TaggedJson.mk)
  entries? j := j.json.entries?.map (·.map fun e => (e.1, ⟨e.2⟩))
  row? j := j.json.items?.map (·.map TaggedJson.mk)

end TaggedJson

end Metamodel
