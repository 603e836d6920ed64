import Metamodel.File
import Metamodel.Settings.Reader
import Metamodel.Toml.Datum

/-!
# Metamodel.Settings.File

Settings from a file, and from options that are stronger than the file.

How the text of a file is read is a parameter of `ofFile`; `ofToml?` reads TOML.
-/

namespace Metamodel
namespace Settings

inductive FileError where
  | unreadable (path reason : String)
  | invalid (path : String)
deriving DecidableEq

def FileError.message : FileError → String
  | .unreadable path reason => "Failed to read config " ++ path ++ ": " ++ reason
  | .invalid path => "Invalid config " ++ path

def ofToml? (text : String) : Option Settings := do
  let entries ← Toml.parse? text
  read? (Toml.Item.table .header entries)

/-- The settings of a file, with any reader of their text. -/
def ofFile (read? : String → Option Settings) (path : String) (f : File) :
    Except FileError Settings :=
  match f.text with
  | .error reason => .error (.unreadable path reason)
  | .ok text =>
    match read? text with
    | none => .error (.invalid path)
    | some s => .ok s

/-- Options that overrule a settings file. -/
structure Overrides where
  source : Option String := none
  collectAll : Bool := false
deriving DecidableEq

def override (s : Settings) (o : Overrides) : Settings :=
  { s with
    sourceLabel := o.source <|> s.sourceLabel
    errorMode := if o.collectAll then .collectAll else s.errorMode }

end Settings
end Metamodel
