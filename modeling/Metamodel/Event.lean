import Metamodel.Fault
import Metamodel.Vocabulary

/-!
# Metamodel.Event

Structured events, and computations that leave a trace of them.

An operation opens with a `start` event and closes with `end` or `end_error`; notes may stand in
between. `Traced ε α` is a computation that may fail with `ε` and has left a list of events either
way: what was emitted before a failure is not lost.
-/

namespace Metamodel

inductive Level where
  | debug
  | info
  | warn
  | error
deriving DecidableEq

def Level.name : Level → String
  | .debug => "DEBUG"
  | .info => "INFO"
  | .warn => "WARN"
  | .error => "ERROR"

structure Event where
  level : Level
  fields : List (String × String)
deriving DecidableEq

namespace Event

def field? (e : Event) (name : String) : Option String := e.fields.lookup name

def component? (e : Event) : Option String := e.field? Vocabulary.component

def op? (e : Event) : Option String := e.field? Vocabulary.op

def phase? (e : Event) : Option String := e.field? Vocabulary.event

def errCode? (e : Event) : Option String := e.field? Vocabulary.errCode

/-- Stands in the place of every duration: times are not part of this theory. -/
def unmeasured : String := "*"

def phase (component op phase : String) : List (String × String) :=
  [(Vocabulary.component, component), (Vocabulary.op, op), (Vocabulary.event, phase)]

def started (component op : String) (more : List (String × String)) : Event :=
  ⟨.info, phase component op Vocabulary.started ++ more⟩

def ended (component op : String) (more : List (String × String)) : Event :=
  ⟨.info, phase component op Vocabulary.ended ++ (Vocabulary.durationMs, unmeasured) :: more⟩

def failed (component op : String) (kind : FaultKind) (more : List (String × String)) : Event :=
  ⟨.error, phase component op Vocabulary.failed
    ++ (Vocabulary.durationMs, unmeasured) :: (Vocabulary.errKind, kind.name)
    :: (Vocabulary.errCode, kind.code) :: more⟩

/-- A message that belongs to no phase of an operation. -/
def note (level : Level) (message : String) (more : List (String × String)) : Event :=
  ⟨level, (Vocabulary.message, message) :: more⟩

/-- The number of definitions of each category, as event fields. -/
def counts (count : Category → Nat) : List (String × String) :=
  [(Vocabulary.entityCount, toString (count .entity)),
   (Vocabulary.relationshipCount, toString (count .relationship)),
   (Vocabulary.classificationCount, toString (count .classification)),
   (Vocabulary.enumCount, toString (count .enumeration))]

/-- Is this the event of the given operation and phase? -/
def belongsTo (e : Event) (op phase : String) : Bool :=
  e.op? = some op && e.phase? = some phase

end Event

def eventsFor (es : List Event) (op phase : String) : List Event :=
  es.filter (·.belongsTo op phase)

/-- The complaint that no event of an operation and phase was captured, if there is none. -/
def missingEvent? (es : List Event) (op phase : String) : Option String :=
  if es.any (·.belongsTo op phase) then none
  else some ("Expected event op=" ++ op ++ " event=" ++ phase ++ " not found in "
    ++ toString es.length ++ " captured events")

/-! ## Traced computations -/

/-- A result, or a failure, with the events emitted on the way. -/
structure Traced (ε α : Type) where
  result : Except ε α
  events : List Event := []

namespace Traced

variable {ε α β : Type}

def ok (a : α) : Traced ε α := { result := .ok a }

def fail (e : ε) : Traced ε α := { result := .error e }

def emit (e : Event) : Traced ε Unit := { result := .ok (), events := [e] }

def ofExcept (r : Except ε α) : Traced ε α := { result := r }

/-- Run a computation after another one that succeeded; the trace of both is kept in order. -/
def andThen (x : Traced ε α) (f : α → Traced ε β) : Traced ε β :=
  match x.result with
  | .error e => ⟨.error e, x.events⟩
  | .ok a => ⟨(f a).result, x.events ++ (f a).events⟩

instance : Monad (Traced ε) where
  pure := ok
  bind := andThen

def mapError {ε' : Type} (f : ε → ε') (x : Traced ε α) : Traced ε' α :=
  ⟨x.result.mapError f, x.events⟩

@[simp] theorem result_pure {a : α} : (pure a : Traced ε α).result = .ok a := rfl

@[simp] theorem events_pure {a : α} : (pure a : Traced ε α).events = [] := rfl

theorem bind_of_error {x : Traced ε α} {f : α → Traced ε β} {e : ε} (h : x.result = .error e) :
    x >>= f = ⟨.error e, x.events⟩ := by
  simp [bind, andThen, h]

theorem bind_of_ok {x : Traced ε α} {f : α → Traced ε β} {a : α} (h : x.result = .ok a) :
    x >>= f = ⟨(f a).result, x.events ++ (f a).events⟩ := by
  simp [bind, andThen, h]

end Traced

end Metamodel
