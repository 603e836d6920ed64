import Mathlib.Data.List.Forall2
import Metamodel.Inventory

/-!
# Metamodel.Proofs.Conversions

What the records of an inventory become, field by field.

* `Inventory.Entity.Becomes` and so on — the fields of a record and of a definition agree.
* `Inventory.Entity.becomes_iff` and so on — a record becomes the definition it stands for, and no
  other one.
-/

namespace Metamodel
namespace Inventory

section Parts

variable {α β : Type} {R : α → β → Prop} {f : α → β}

theorem rel_iff (h : ∀ a b, R a b ↔ f a = b) {x : Option α} {y : Option β} :
    Option.Rel R x y ↔ x.map f = y := by
  constructor
  · rintro (hab | -)
    · exact congrArg some ((h _ _).mp hab)
    · rfl
  · rintro rfl
    cases x with
    | none => exact .none
    | some a => exact .some ((h _ _).mpr rfl)

theorem forall₂_iff (h : ∀ a b, R a b ↔ f a = b) {as : List α} {bs : List β} :
    List.Forall₂ R as bs ↔ as.map f = bs := by
  induction as generalizing bs with
  | nil => simp [eq_comm]
  | cons a as ih =>
    cases bs with
    | nil => simp
    | cons b bs => simp [h, ih]

end Parts

/-! ## Parts of records -/

structure Link.Becomes (l : Link) (d : TypeLink) : Prop where
  name : d.name = l.name
  guid : d.guid = l.guid

theorem Link.becomes_iff (l : Link) (d : TypeLink) : l.Becomes d ↔ l.toDef = d := by
  constructor
  · intro h
    cases d
    simp [toDef, ← h.name, ← h.guid]
  · rintro rfl
    exact ⟨rfl, rfl⟩

structure Attribute.Becomes (a : Attribute) (d : AttributeDef) : Prop where
  name : d.name = a.name
  typeName : d.typeName = a.typeName
  cardinality : d.cardinality = a.cardinality
  description : d.description = a.description

theorem Attribute.becomes_iff (a : Attribute) (d : AttributeDef) : a.Becomes d ↔ a.toDef = d := by
  constructor
  · intro h
    cases d
    simp [toDef, ← h.name, ← h.typeName, ← h.cardinality, ← h.description]
  · rintro rfl
    exact ⟨rfl, rfl, rfl, rfl⟩

structure End.Becomes (e : End) (d : RelationshipEnd) : Prop where
  entityType : e.entityType.Becomes d.entityType
  attributeName : d.attributeName = e.attributeName
  cardinality : d.cardinality = e.cardinality

theorem End.becomes_iff (e : End) (d : RelationshipEnd) : e.Becomes d ↔ e.toDef = d := by
  constructor
  · intro h
    cases d
    simp [toDef, (Link.becomes_iff _ _).mp h.entityType, ← h.attributeName, ← h.cardinality]
  · rintro rfl
    exact ⟨(Link.becomes_iff _ _).mpr rfl, rfl, rfl⟩

structure Element.Becomes (e : Element) (d : EnumElement) : Prop where
  ordinal : d.ordinal = e.ordinal
  value : d.value = e.value
  description : d.description = e.description

theorem Element.becomes_iff (e : Element) (d : EnumElement) : e.Becomes d ↔ e.toDef = d := by
  constructor
  · intro h
    cases d
    simp [toDef, ← h.ordinal, ← h.value, ← h.description]
  · rintro rfl
    exact ⟨rfl, rfl, rfl⟩

/-! ## Records -/

structure Entity.Becomes (r : Entity) (d : EntityDef) : Prop where
  name : d.name = r.name
  guid : d.guid = r.guid
  supertype : Option.Rel Link.Becomes r.supertype d.supertype
  attributes : List.Forall₂ Attribute.Becomes r.attributes d.attributes
  description : d.description = r.description

theorem Entity.becomes_iff (r : Entity) (d : EntityDef) : r.Becomes d ↔ r.toDef = d := by
  constructor
  · intro h
    have hsupertype := (rel_iff Link.becomes_iff).mp h.supertype
    have hattributes := (forall₂_iff Attribute.becomes_iff).mp h.attributes
    cases d
    simp [toDef, ← h.name, ← h.guid, hsupertype, hattributes, ← h.description]
  · rintro rfl
    exact ⟨rfl, rfl, (rel_iff Link.becomes_iff).mpr rfl, (forall₂_iff Attribute.becomes_iff).mpr rfl,
      rfl⟩

structure Relationship.Becomes (r : Relationship) (d : RelationshipDef) : Prop where
  name : d.name = r.name
  guid : d.guid = r.guid
  end1 : r.end1.Becomes d.end1
  end2 : r.end2.Becomes d.end2
  description : d.description = r.description

theorem Relationship.becomes_iff (r : Relationship) (d : RelationshipDef) :
    r.Becomes d ↔ r.toDef = d := by
  constructor
  · intro h
    have hend1 := (End.becomes_iff _ _).mp h.end1
    have hend2 := (End.becomes_iff _ _).mp h.end2
    cases d
    simp [toDef, ← h.name, ← h.guid, hend1, hend2, ← h.description]
  · rintro rfl
    exact ⟨rfl, rfl, (End.becomes_iff _ _).mpr rfl, (End.becomes_iff _ _).mpr rfl, rfl⟩

structure Classification.Becomes (r : Classification) (d : ClassificationDef) : Prop where
  name : d.name = r.name
  guid : d.guid = r.guid
  supertype : Option.Rel Link.Becomes r.supertype d.supertype
  attributes : List.Forall₂ Attribute.Becomes r.attributes d.attributes
  validEntityTypes : List.Forall₂ Link.Becomes r.validEntityTypes d.validEntityTypes
  description : d.description = r.description

theorem Classification.becomes_iff (r : Classification) (d : ClassificationDef) :
    r.Becomes d ↔ r.toDef = d := by
  constructor
  · intro h
    have hsupertype := (rel_iff Link.becomes_iff).mp h.supertype
    have hattributes := (forall₂_iff Attribute.becomes_iff).mp h.attributes
    have hvalid := (forall₂_iff Link.becomes_iff).mp h.validEntityTypes
    cases d
    simp [toDef, ← h.name, ← h.guid, hsupertype, hattributes, hvalid, ← h.description]
  · rintro rfl
    exact ⟨rfl, rfl, (rel_iff Link.becomes_iff).mpr rfl, (forall₂_iff Attribute.becomes_iff).mpr rfl,
      (forall₂_iff Link.becomes_iff).mpr rfl, rfl⟩

structure Enum.Becomes (r : Enum) (d : EnumDef) : Prop where
  name : d.name = r.name
  guid : d.guid = r.guid
  elements : List.Forall₂ Element.Becomes r.elements d.elements
  defaultOrdinal : d.defaultOrdinal = r.defaultOrdinal

theorem Enum.becomes_iff (r : Enum) (d : EnumDef) : r.Becomes d ↔ r.toDef = d := by
  constructor
  · intro h
    have helements := (forall₂_iff Element.becomes_iff).mp h.elements
    cases d
    simp [toDef, ← h.name, ← h.guid, helements, ← h.defaultOrdinal]
  · rintro rfl
    exact ⟨rfl, rfl, (forall₂_iff Element.becomes_iff).mpr rfl, rfl⟩

end Inventory
end Metamodel
