import Metamodel.CommandLine.Outcome

/-!
# Metamodel.Main

The command line program: finds the files, runs the command, prints the outcome.
-/

namespace Metamodel

def File.find (path : String) : IO File := do
  try
    return .bytes (← IO.FS.readBinFile path)
  catch e =>
    match e with
    | .noFileOrDirectory .. => return .missing
    | .inappropriateType .. => return .directory
    | e => return .unreadable (toString e)

def Event.line (e : Event) : String :=
  e.level.name ++ String.join (e.fields.map fun f => " " ++ f.1 ++ "=" ++ f.2)

end Metamodel

open Metamodel CommandLine

def main (args : List String) : IO UInt32 := do
  let (outcome, verbose) ←
    match Command.parse args with
    | .error refusal => pure (refusal.outcome, false)
    | .ok command => do
      let files ← command.paths.mapM fun path => return (path, ← File.find path)
      pure (command.run fun path => (files.lookup path).getD .missing, command.verbose)
  if verbose then
    for e in outcome.events do
      IO.eprintln e.line
  IO.print outcome.stdout
  IO.eprint outcome.stderr
  return UInt32.ofNat outcome.code
