import Metamodel.Settings.File

/-!
# Metamodel.CommandLine.Arguments

What a command line asks for.

A verb comes first, then the file of an inventory, with options anywhere among the rest. The value
of an option stands behind an equals sign or in the next argument; an argument that begins with a
dash is no value, except for the dash alone. After `--` no argument is an option.
-/

namespace Metamodel
namespace CommandLine

inductive LookupKey where
  | name (s : String)
  | guid (s : String)
deriving DecidableEq

inductive Query where
  | resolve
  | show (type : String) (asJson : Bool)
  | check (classification entity : String)
  | lookup (key : LookupKey)
deriving DecidableEq

structure Source where
  file : String
  config : Option String := none
  overrides : Settings.Overrides := {}
deriving DecidableEq

structure Command where
  source : Source
  query : Query
  verbose : Bool := false
deriving DecidableEq

inductive Refusal where
  | help
  | usage
deriving DecidableEq

/-! ## Options -/

inductive Opt where
  | verbose
  | help
  | config
  | source
  | collectAll
  | json
  | classification
  | entity
  | name
  | guid
deriving DecidableEq

namespace Opt

def word : Opt → String
  | .verbose => "verbose"
  | .help => "help"
  | .config => "config"
  | .source => "source"
  | .collectAll => "collect-all"
  | .json => "json"
  | .classification => "classification"
  | .entity => "entity"
  | .name => "name"
  | .guid => "guid"

def letter? : Opt → Option Char
  | .verbose => some 'v'
  | .help => some 'h'
  | _ => none

def takesValue : Opt → Bool
  | .verbose | .help | .collectAll | .json => false
  | _ => true

/-- A path must not be empty. -/
def admits (o : Opt) (value : String) : Bool := o ≠ .config || value ≠ ""

end Opt

inductive Verb where
  | resolve
  | show
  | check
  | lookup
deriving DecidableEq

namespace Verb

def word : Verb → String
  | .resolve => "resolve"
  | .show => "show"
  | .check => "check"
  | .lookup => "lookup"

def all : List Verb := [.resolve, .show, .check, .lookup]

def commonOptions : List Opt := [.verbose, .help]

def options : Verb → List Opt
  | .resolve => commonOptions ++ [.config, .source, .collectAll]
  | .show => commonOptions ++ [.config, .source, .collectAll, .json]
  | .check => commonOptions ++ [.config, .source, .collectAll, .classification, .entity]
  | .lookup => commonOptions ++ [.config, .source, .collectAll, .name, .guid]

def arity : Verb → Nat
  | .show => 2
  | _ => 1

end Verb

/-! ## Reading -/

structure Arguments where
  values : List (Opt × String) := []
  operands : List String := []
deriving DecidableEq

namespace Arguments

def has (a : Arguments) (o : Opt) : Bool := a.values.any (·.1 = o)

def value? (a : Arguments) (o : Opt) : Option String := a.values.lookup o

/-- Add an option. None may be given twice. -/
def give (a : Arguments) (o : Opt) (value : String) : Except Refusal Arguments :=
  if o = .help then .error .help
  else if a.has o || !o.admits value then .error .usage
  else .ok { a with values := (o, value) :: a.values }

/-- Add an operand. The first one is a path. -/
def operand (a : Arguments) (arity : Nat) (s : String) : Except Refusal Arguments :=
  if arity ≤ a.operands.length || (a.operands = [] && s = "") then .error .usage
  else .ok { a with operands := a.operands ++ [s] }

def giveLetters (options : List Opt) (a : Arguments) : List Char → Except Refusal Arguments
  | [] => .ok a
  | c :: cs =>
    match options.find? (·.letter? = some c) with
    | none => .error .usage
    | some o => do giveLetters options (← a.give o "") cs

end Arguments

inductive Form where
  /-- Two dashes and nothing else. -/
  | dashes
  /-- Two dashes and a word, perhaps with a value behind an equals sign. -/
  | long (word : String) (value : Option String)
  /-- A dash and letters. -/
  | letters (cs : List Char)
  | operand

def splitValue (cs : List Char) : String × Option String :=
  match cs.span (· ≠ '=') with
  | (word, '=' :: value) => (String.ofList word, some (String.ofList value))
  | (word, _) => (String.ofList word, none)

def formOf (arg : String) : Form :=
  match arg.toList with
  | ['-', '-'] => .dashes
  | '-' :: '-' :: cs =>
    let (word, value) := splitValue cs
    .long word value
  | ['-'] => .operand
  | '-' :: cs => .letters cs
  | _ => .operand

/-- May an argument be the value of the option before it? -/
def isValue (arg : String) : Bool :=
  match formOf arg with
  | .operand => true
  | _ => false

/-- Sort the arguments of a verb. An option may be waiting for its value. -/
def readArguments (options : List Opt) (arity : Nat) :
    (waiting : Option Opt) → List String → Arguments → Except Refusal Arguments
  | none, [], a => .ok a
  | some _, [], _ => .error .usage
  | some o, arg :: rest, a =>
    if isValue arg then do readArguments options arity none rest (← a.give o arg)
    else .error .usage
  | none, arg :: rest, a =>
    match formOf arg with
    | .dashes => rest.foldlM (·.operand arity ·) a
    | .operand => do readArguments options arity none rest (← a.operand arity arg)
    | .letters cs => do readArguments options arity none rest (← a.giveLetters options cs)
    | .long word value =>
      match options.find? (·.word = word) with
      | none => .error .usage
      | some o =>
        if o.takesValue then
          match value with
          | some v => do readArguments options arity none rest (← a.give o v)
          | none => readArguments options arity (some o) rest a
        else if value.isSome then .error .usage
        else do readArguments options arity none rest (← a.give o "")

/-- What a verb asks, once its arguments are known. -/
def Verb.query? (v : Verb) (a : Arguments) : Option Query :=
  match v with
  | .resolve => some .resolve
  | .show => (a.operands[1]?).map (.show · (a.has .json))
  | .check => do return .check (← a.value? .classification) (← a.value? .entity)
  | .lookup =>
    match a.value? .name, a.value? .guid with
    | some name, none => some (.lookup (.name name))
    | none, some guid => some (.lookup (.guid guid))
    | _, _ => none

def Arguments.source? (a : Arguments) : Option Source := do
  return {
    file := ← a.operands.head?
    config := a.value? .config
    overrides := { source := a.value? .source, collectAll := a.has .collectAll } }

def readHelp : List String → Refusal
  | [] => .help
  | [verb] => if verb = "help" || Verb.all.any (·.word = verb) then .help else .usage
  | _ => .usage

/-- Options before the verb: those of every command. The word `help` asks for help too. -/
def readVerb : List String → Arguments → Except Refusal (Verb × Bool × List String)
  | [], _ => .error .usage
  | arg :: rest, a =>
    match formOf arg with
    | .dashes => .error .usage
    | .operand =>
      if arg = "help" then .error (readHelp rest)
      else
        match Verb.all.find? (·.word = arg) with
        | none => .error .usage
        | some v => .ok (v, a.has .verbose, rest)
    | .letters cs => do readVerb rest (← a.giveLetters Verb.commonOptions cs)
    | .long word value =>
      match Verb.commonOptions.find? (·.word = word) with
      | none => .error .usage
      | some o => if value.isSome then .error .usage else do readVerb rest (← a.give o "")

def Command.parse (args : List String) : Except Refusal Command := do
  let (verb, verbose, rest) ← readVerb args {}
  let a ← readArguments verb.options verb.arity none rest {}
  match a.source?, verb.query? a with
  | some source, some query => return { source, query, verbose := verbose || a.has .verbose }
  | _, _ => .error .usage

end CommandLine
end Metamodel
