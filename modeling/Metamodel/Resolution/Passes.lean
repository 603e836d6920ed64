import Metamodel.Registry
import Metamodel.Resolution.Lineage
import Metamodel.Resolution.Applicability

/-!
# Metamodel.Resolution.Passes

Resolution of a registry, in three passes.

1. Entities: subtypes, then attributes.
2. Relationships: applicability to entity types.
3. Classifications: applicability to entity types, then their own subtypes and attributes.

Each pass relies on the completed state of the ones before it, so a pass with defects is the last
one that runs, and no partial result is ever returned.
-/

namespace Metamodel

structure Resolved where
  entities : EntityArena
  relationships : RelationshipArena
  classifications : ClassificationArena
  enums : NameMap EnumDef

def passEvent (message field : String) (count : Nat) : Event :=
  .note .debug message [(field, toString count)]

def entitiesResolvedEvent (count : Nat) : Event :=
  passEvent "entity hierarchy resolved" Vocabulary.entityCount count

def relationshipsResolvedEvent (count : Nat) : Event :=
  passEvent "relationship applicability resolved" Vocabulary.relationshipCount count

def classificationsResolvedEvent (count : Nat) : Event :=
  passEvent "classification applicability resolved" Vocabulary.classificationCount count

/-- Subtypes, then attributes of one hierarchy. The climbs for the attributes are checked like the
first ones, though they meet nothing new. -/
def resolveHierarchy {δ ε : Type} [SupertypedDef δ] (t : Arena (ResolvedType δ ε))
    (found : Findings) : Except Fault (Arena (ResolvedType δ ε) × Findings) := do
  let (linked, found) ← t.linkSubtypes found
  found.checkpoint
  let (inherited, found) ← linked.inheritAttributes found
  found.checkpoint
  return (inherited, found)

/-- The resolved types of one category before any pass. -/
def unresolved {δ ε : Type} [EmptyCollection ε] (m : NameMap δ) : Arena (ResolvedType δ ε) :=
  m.toList.foldl (fun t e => (t.insert e.1 (.ofDefinition e.2)).1) ∅

namespace Registry

/-- Pass 1. -/
def entityPass (r : Registry) (found : Findings) : Traced Fault (EntityArena × Findings) := do
  let (entities, found) ← .ofExcept (resolveHierarchy (unresolved r.entities) found)
  .emit (entitiesResolvedEvent entities.size)
  return (entities, found)

/-- Pass 2. -/
def relationshipPass (r : Registry) (entities : EntityArena) (found : Findings) :
    Traced Fault (RelationshipArena × EntityArena × Findings) := do
  let relationships := Arena.ofMap r.relationships
  let (entities, found) ← .ofExcept (applyRelationships relationships entities found)
  .ofExcept found.checkpoint
  .emit (relationshipsResolvedEvent relationships.size)
  return (relationships, entities, found)

/-- Pass 3. The defects of valid-entity links and those of the hierarchy share a checkpoint. -/
def classificationPass (r : Registry) (entities : EntityArena) (found : Findings) :
    Traced Fault (ClassificationArena × EntityArena × Findings) := do
  let ((applied, entities), found) ←
    .ofExcept (applyValidEntities (unresolved r.classifications) entities found)
  let (classifications, found) ← .ofExcept (resolveHierarchy applied found)
  .emit (classificationsResolvedEvent classifications.size)
  return (classifications, entities, found)

/-- All passes, with an event after each one that is completed. -/
def resolve (r : Registry) (mode : ErrorMode) : Traced Fault Resolved := do
  let (entities, found) ← r.entityPass { mode, label := r.label }
  let (relationships, entities, found) ← r.relationshipPass entities found
  let (classifications, entities, _) ← r.classificationPass entities found
  return { entities, relationships, classifications, enums := r.enums }

end Registry

end Metamodel
