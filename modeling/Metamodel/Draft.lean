import Metamodel.Model

/-!
# Metamodel.Draft

A type system under construction.

Definitions are added in any order; a supertype need not come before its subtypes. Added entity
and relationship types are indexed by guid at once, and `Draft.resolve` turns the definitions into
a model.
-/

namespace Metamodel

structure Draft where
  registry : Registry := {}
  guids : GuidIndex := {}
  mode : ErrorMode := .failFast
deriving DecidableEq

namespace Draft

def ofSettings (s : Settings) : Draft :=
  { registry := { policy := s.duplicatePolicy, label := s.label }, mode := s.errorMode }

def withSource (label : String) : Draft := ofSettings (.withSource label)

def label (b : Draft) : String := b.registry.label

/-- Register a definition, and index it if it is new. -/
def add (b : Draft) (d : TypeDef) : Draft × Traced Fault Registration :=
  let (registry, outcome) := b.registry.register d
  match outcome.result with
  | .ok .added =>
    let (guids, skipped) := b.guids.register d
    ({ b with registry, guids }, { outcome with events := outcome.events ++ skipped })
  | _ => ({ b with registry }, outcome)

/-- Add definitions one by one until one is refused; those before it stay. -/
def addAll (b : Draft) : List TypeDef → Draft × Traced Fault Unit
  | [] => (b, .ok ())
  | d :: ds =>
    let (b', first) := b.add d
    match first.result with
    | .error f => (b', ⟨.error f, first.events⟩)
    | .ok _ =>
      let (b'', rest) := addAll b' ds
      (b'', ⟨rest.result, first.events ++ rest.events⟩)

/-! ## Resolution -/

def component : String := "typex_core::ops::builder"

def operation : String := "type_explorer_resolve"

def startEvent (b : Draft) : Event :=
  .started component operation ((Vocabulary.source, b.label) :: Event.counts b.registry.count)

def endEvent (b : Draft) : Event :=
  .ended component operation [(Vocabulary.source, b.label)]

def failEvent (b : Draft) (f : Fault) : Event :=
  .failed component operation f.kind [(Vocabulary.source, b.label)]

/-- Resolve the definitions into a model, between an opening and a closing event. -/
def resolve (b : Draft) : Traced Fault Model :=
  let run := b.registry.resolve b.mode
  match run.result with
  | .error f => ⟨.error f, b.startEvent :: run.events ++ [b.failEvent f]⟩
  | .ok r => ⟨.ok (.ofResolved b.label r b.guids), b.startEvent :: run.events ++ [b.endEvent]⟩

end Draft

end Metamodel
