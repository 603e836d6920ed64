/-!
# Metamodel.Settings

How repeated registrations are treated and how resolution reports defects.
-/

namespace Metamodel

/-- What to do when a name is registered twice within one category. Registering the same
definition again is harmless under both policies. -/
inductive DuplicatePolicy where
  /-- A different definition under a taken name is refused. -/
  | reject
  /-- The first definition is kept and later ones are ignored. -/
  | firstWriteWins
deriving DecidableEq

namespace DuplicatePolicy

def name : DuplicatePolicy → String
  | .reject => "reject"
  | .firstWriteWins => "first_write_wins"

def all : List DuplicatePolicy := [.reject, .firstWriteWins]

end DuplicatePolicy

inductive ErrorMode where
  /-- The first defect alone. -/
  | failFast
  /-- Every defect of the failing pass, each once. -/
  | collectAll
deriving DecidableEq

namespace ErrorMode

def name : ErrorMode → String
  | .failFast => "fail_fast"
  | .collectAll => "collect_all"

def all : List ErrorMode := [.failFast, .collectAll]

end ErrorMode

def defaultSourceLabel : String := "unknown"

/-- Settings of a resolution. Without a label of its own, the input may name its source. -/
structure Settings where
  sourceLabel : Option String := none
  duplicatePolicy : DuplicatePolicy := .reject
  errorMode : ErrorMode := .failFast
deriving DecidableEq

namespace Settings

def withSource (label : String) : Settings := { sourceLabel := some label }

def label (s : Settings) : String := s.sourceLabel.getD defaultSourceLabel

end Settings

end Metamodel
