import Metamodel.CommandLine.Arguments
import Metamodel.Inventory.File
import Metamodel.Json.Writer
import Metamodel.View

/-!
# Metamodel.CommandLine.Outcome

Running commands.

A command reads its settings and its inventory, resolves, and answers one question. Its outcome is
what it prints and an exit code: 0 for a positive answer, 1 for a negative one and for errors, 2 for
arguments that make no command.
-/

namespace Metamodel
namespace CommandLine

structure Outcome where
  code : Nat := 0
  stdout : String := ""
  stderr : String := ""
  events : List Event := []

namespace Outcome

def positive (stdout : String) : Outcome := { stdout }

def error (message : String) : Outcome := { code := 1, stderr := "Error: " ++ message ++ "\n" }

end Outcome

/-! ## Answers -/

/-- The number of types of each category, under a head line. -/
def summaryText (m : Model) (file : String) : String :=
  let s := m.summary
  View.ofLines
    ["Resolved " ++ file ++ " (source: " ++ m.label ++ ")",
      "  entity types:         " ++ toString s.entities,
      "  relationship types:   " ++ toString s.relationships,
      "  classification types: " ++ toString s.classifications,
      "  enum types:           " ++ toString s.enums]

def showOutcome (m : Model) (type : String) (asJson : Bool) : Outcome :=
  match m.view? type with
  | none => .error ("Unknown type: " ++ type)
  | some view => .positive (if asJson then view.pretty 0 ++ "\n" else View.render view)

def checkOutcome (m : Model) (classification entity : String) : Outcome :=
  if (m.entity? entity).isNone then .error ("Unknown entity type: " ++ entity)
  else if (m.classification? classification).isNone then
    .error ("Unknown classification type: " ++ classification)
  else if m.isClassificationValidFor classification entity then
    .positive (classification ++ " is valid for " ++ entity ++ "\n")
  else { code := 1, stdout := classification ++ " is not valid for " ++ entity ++ "\n" }

def LookupKey.text : LookupKey → String
  | .name s => s
  | .guid s => s

/-- What stands at the other side of a key, and the category it was found in. -/
def LookupKey.find? (m : Model) : LookupKey → Option (String × Category)
  | .name s => m.guidOf? s
  | .guid s => m.nameOf? s

def lookupOutcome (m : Model) (key : LookupKey) : Outcome :=
  match key.find? m with
  | some (found, category) => .positive (found ++ " (" ++ category.name ++ ")\n")
  | none =>
    { code := 1, stderr := "No entity or relationship type found for " ++ key.text ++ "\n" }

def Query.outcome (q : Query) (m : Model) (file : String) : Outcome :=
  match q with
  | .resolve => .positive (summaryText m file)
  | .show type asJson => showOutcome m type asJson
  | .check classification entity => checkOutcome m classification entity
  | .lookup key => lookupOutcome m key

/-! ## Running -/

/-- How the texts of files are read. -/
structure Formats where
  inventory : String → Traced Diagnosis Inventory
  settings? : String → Option Settings

/-- Inventories are written in YAML and settings in TOML. -/
def Formats.standard : Formats where
  inventory := Inventory.parse
  settings? := Settings.ofToml?

/-- The settings of a file, if one is named, with the options above them. -/
def Source.settingsWith (s : Source) (formats : Formats) (read : String → File) :
    Except String Settings := do
  let settings ←
    match s.config with
    | none => .ok {}
    | some path =>
      (Settings.ofFile formats.settings? path (read path)).mapError Settings.FileError.message
  return settings.override s.overrides

def Source.settings (s : Source) (read : String → File) : Except String Settings :=
  s.settingsWith .standard read

/-- Settings are read before the inventory. -/
def Source.loadWith (s : Source) (formats : Formats) (read : String → File) :
    Traced String Model := do
  let settings ← .ofExcept (s.settingsWith formats read)
  (Inventory.loadWith formats.inventory (read s.file) settings).mapError Diagnosis.display

/-- Run a command on files in any formats; `read` finds files by their paths. -/
def Command.runWith (c : Command) (formats : Formats) (read : String → File) : Outcome :=
  let loaded := c.source.loadWith formats read
  let outcome : Outcome :=
    match loaded.result with
    | .error message => .error message
    | .ok m => c.query.outcome m c.source.file
  { outcome with events := loaded.events }

def Command.run (c : Command) (read : String → File) : Outcome := c.runWith .standard read

def Command.paths (c : Command) : List String := c.source.config.toList ++ [c.source.file]

def usageText : String :=
  View.ofLines
    ["Usage: metamodel [-v] <COMMAND> <FILE> [--config F] [--source L] [--collect-all]",
      "",
      "Commands:",
      "  resolve <FILE>                                  print type counts",
      "  show <FILE> <TYPE> [--json]                     print one resolved type",
      "  check <FILE> --classification C --entity E      may C be attached to E?",
      "  lookup <FILE> (--name N | --guid G)             translate names and guids"]

def Refusal.outcome : Refusal → Outcome
  | .help => .positive usageText
  | .usage => { code := 2, stderr := usageText }

end CommandLine
end Metamodel
