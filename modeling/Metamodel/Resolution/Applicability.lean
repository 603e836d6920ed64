import Metamodel.Resolution.Findings
import Metamodel.Resolution.Sweep

/-!
# Metamodel.Resolution.Applicability

Where relationships and classifications apply.

A relationship applies to the entity types at its two ends and to their subtypes, a classification
to the entity types it lists and to their subtypes. A reference that leads nowhere is noted: a
relationship with such an end leaves no mark at all, and neither does such a valid-entity link.
-/

namespace Metamodel

abbrev EntityArena := Arena ResolvedEntity
abbrev RelationshipArena := Arena RelationshipDef
abbrev ClassificationArena := Arena ResolvedClassification

/-! ## Relationships -/

/-- The slot of the entity type at an end, or the defect of an end that leads to none. -/
def RelationshipDef.endSlot (r : RelationshipDef) (entities : EntityArena) (label : String)
    (p : EndPosition) : Except Defect Nat :=
  match (r.endTarget? p).bind entities.slotOf? with
  | some slot => .ok slot
  | none => .error (.missingEndDef r.name p (r.endTarget? p) label)

/-- The slots at the ends that lead to an entity type; the first end comes first. -/
def RelationshipDef.endSlots (r : RelationshipDef) (entities : EntityArena) (found : Findings) :
    Except Fault (List Nat × Findings) :=
  EndPosition.all.foldlM
    (fun s p => s.2.orNote (r.endSlot entities s.2.label p) s.1 fun slot => s.1 ++ [slot])
    ([], found)

/-- Attach a relationship to an entity type and everything below it. -/
def anchorRelationship (name : String) (entities : EntityArena) (slot : Nat) : EntityArena :=
  ((entities.update slot (ResolvedEntity.addDirectRelationship name)).sweep slot
    (ResolvedEntity.addRelationship name)).1

/-- Attach a relationship at both ends, if both lead somewhere. -/
def applyRelationship (s : EntityArena × Findings) (r : RelationshipDef) :
    Except Fault (EntityArena × Findings) := do
  let (slots, found) ← r.endSlots s.1 s.2
  if slots.length = EndPosition.all.length then
    return (slots.foldl (anchorRelationship r.name) s.1, found)
  else
    return (s.1, found)

/-- Attach the relationships in name order. -/
def applyRelationships (relationships : RelationshipArena) (entities : EntityArena)
    (found : Findings) : Except Fault (EntityArena × Findings) :=
  relationships.values.foldlM applyRelationship (entities, found)

/-! ## Classifications -/

/-- The slot of the entity type a link of a classification names, or the defect of the link. -/
def validEntitySlot (entities : EntityArena) (label holder : String) (l : TypeLink) :
    Except Defect Nat :=
  match l.target? with
  | none => .error (.missingValidEntityName holder label)
  | some target =>
    match entities.slotOf? target with
    | none => .error (.missingValidEntityDef holder target label)
    | some slot => .ok slot

/-- Attach a classification to an entity type and everything below it. The slots reached are
added to those `covered` before. -/
def anchorClassification (name : String) (s : EntityArena × List Nat) (slot : Nat) :
    EntityArena × List Nat :=
  let swept := (s.1.update slot (ResolvedEntity.addDirectClassification name)).sweep slot
    (ResolvedEntity.addClassification name)
  (swept.1, s.2 ++ swept.2)

/-- Attach a classification along its links, as listed. -/
def applyLinks (name : String) (links : List TypeLink) (entities : EntityArena)
    (found : Findings) : Except Fault ((EntityArena × List Nat) × Findings) :=
  links.foldlM
    (fun s l =>
      s.2.orNote (validEntitySlot s.1.1 s.2.label name l) s.1 (anchorClassification name s.1))
    ((entities, []), found)

/-- Tell the classification in a slot the entity types it covers. -/
def coverEntities (classifications : ClassificationArena) (slot : Nat)
    (s : EntityArena × List Nat) : ClassificationArena × EntityArena :=
  let names := s.2.filterMap fun e => (s.1.at? e).map (·.definition.name)
  (classifications.update slot (ResolvedClassification.addValidEntities names), s.1)

/-- Attach the classification in a slot, and tell it the entity types it covers. -/
def applyClassification (s : (ClassificationArena × EntityArena) × Findings) (slot : Nat) :
    Except Fault ((ClassificationArena × EntityArena) × Findings) :=
  match s.1.1.at? slot with
  | none => .ok s
  | some c =>
    (applyLinks c.definition.name c.definition.validEntityTypes s.1.2 s.2).map fun s' =>
      (coverEntities s.1.1 slot s'.1, s'.2)

/-- Attach the classifications in name order. -/
def applyValidEntities (classifications : ClassificationArena) (entities : EntityArena)
    (found : Findings) : Except Fault ((ClassificationArena × EntityArena) × Findings) :=
  classifications.slotsByName.foldlM applyClassification ((classifications, entities), found)

end Metamodel
