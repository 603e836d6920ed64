import Metamodel.Datum
import Metamodel.Json
import Metamodel.Settings

/-!
# Metamodel.Settings.Reader

Settings in any data format. Every field may be left out.
-/

namespace Metamodel

open Datum

variable {α : Type} [Datum α]

def DuplicatePolicy.read? (a : α) : Option DuplicatePolicy :=
  oneOf DuplicatePolicy.all DuplicatePolicy.name a

def ErrorMode.read? (a : α) : Option ErrorMode := oneOf ErrorMode.all ErrorMode.name a

namespace Settings

def read? (a : α) : Option Settings := do
  let fs ← fields? ["source_label", "duplicate_policy", "error_mode"] a
  return {
    sourceLabel := ← optional fs "source_label" text?
    duplicatePolicy := ← defaulted fs "duplicate_policy" DuplicatePolicy.read? .reject
    errorMode := ← defaulted fs "error_mode" ErrorMode.read? .failFast }

def toJson (s : Settings) : Json :=
  .obj [("source_label", .ofOption .str s.sourceLabel),
    ("duplicate_policy", .str s.duplicatePolicy.name), ("error_mode", .str s.errorMode.name)]

end Settings

end Metamodel
