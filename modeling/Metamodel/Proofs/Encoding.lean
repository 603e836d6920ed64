import Metamodel.Proofs.Records

/-!
# Metamodel.Proofs.Encoding

Definitions survive being written as JSON.

* `TypeLink.read?_toJson`, …, `EnumDef.read?_toJson` — each record is read as it was written, alone
  or inside a definition that carries its category.
* `TypeDef.isHoldable_toJson` — what is written for a definition can be held.
* `definitions_read_back`     — what is written for a definition is read as that definition.
-/

namespace Metamodel

open Json (isHoldable areHoldableEntries keys_whenPresent)
open Datum

variable {α : Type} [Datum α] {carry : Json → α}

/-! ## Reading what was written

In each proof the entries of the record are looked up one by one. -/

namespace TypeLink

theorem toJson_ne_null (l : TypeLink) : l.toJson ≠ .null := by
  simp [toJson]

theorem read?_toJson (hc : Carries carry) (l : TypeLink) : read? (carry l.toJson) = some l := by
  have hfields : fields? ["name", "guid"] (carry l.toJson) = _ :=
    fields?_of_sublist hc (by decide) (.refl _)
  have hname : optional (carried carry l.toEntries) "name" text? = some l.name :=
    optional_eq_of_null hc (by simp [toEntries]) (by simp) hc.text
  have hguid : optional (carried carry l.toEntries) "guid" text? = some l.guid :=
    optional_eq_of_null hc (by simp [toEntries, List.lookup_cons]) (by simp) hc.text
  simp only [read?, hfields, hname, hguid, Option.bind_eq_bind, Option.bind_some]
  rfl

end TypeLink

theorem AttributeCardinality.read?_name (hc : Carries carry) (c : AttributeCardinality) :
    read? (carry (.str c.name)) = some c :=
  oneOf_eq hc (by cases c <;> rfl)

namespace AttributeDef

theorem keys_toEntries (a : AttributeDef) :
    (a.toEntries.map (·.1)).Sublist ["name", "typeName", "cardinality", "description"] := by
  simp only [toEntries, List.map_append]
  exact (List.Sublist.refl ["name", "typeName", "cardinality"]).append keys_whenPresent

theorem read?_toJson (hc : Carries carry) (a : AttributeDef) :
    read? (carry a.toJson) = some a := by
  have hfields : fields? _ (carry a.toJson) = _ :=
    fields?_of_sublist hc (by decide) a.keys_toEntries
  have hname : required (carried carry a.toEntries) "name" text? = some a.name :=
    required_text_eq hc (by simp [toEntries])
  have htypeName : required (carried carry a.toEntries) "typeName" text? = some a.typeName :=
    required_text_eq hc (by simp [toEntries, List.lookup_cons])
  have hcardinality : defaulted (carried carry a.toEntries) "cardinality"
      AttributeCardinality.read? .unknown = some a.cardinality :=
    defaulted_eq (by simp [toEntries, List.lookup_cons]) (AttributeCardinality.read?_name hc _)
  have hdescription : optional (carried carry a.toEntries) "description" text?
      = some a.description :=
    optional_text_eq hc (by simp [toEntries, List.lookup_cons])
  simp only [read?, hfields, hname, htypeName, hcardinality, hdescription, Option.bind_eq_bind,
    Option.bind_some]
  rfl

end AttributeDef

namespace EntityDef

theorem keys_toEntries (d : EntityDef) : (d.toEntries.map (·.1)).Sublist fieldNames := by
  simp only [toEntries, List.map_append]
  have hhead : List.Sublist ["name", "guid"] ["name", "guid"] := .refl _
  exact ((hhead.append keys_whenPresent).append (.refl ["attributes"])).append keys_whenPresent

theorem read?_toJson (hc : Carries carry) (d : EntityDef) : read? (carry d.toJson) = some d := by
  have hfields : fields? fieldNames (carry d.toJson) = _ :=
    fields?_of_sublist hc (by decide) d.keys_toEntries
  have hname : required (carried carry d.toEntries) "name" text? = some d.name :=
    required_text_eq hc (by simp [toEntries])
  have hguid : required (carried carry d.toEntries) "guid" text? = some d.guid :=
    required_text_eq hc (by simp [toEntries, List.lookup_cons])
  have hsupertype : optional (carried carry d.toEntries) "supertype" TypeLink.read?
      = some d.supertype :=
    optional_eq hc (by simp [toEntries, List.lookup_cons, List.lookup_append]) TypeLink.toJson_ne_null
      (TypeLink.read?_toJson hc)
  have hattributes : defaulted (carried carry d.toEntries) "attributes"
      (listOf AttributeDef.read?) [] = some d.attributes :=
    defaulted_listOf_eq hc (by simp [toEntries, List.lookup_cons, List.lookup_append])
      (AttributeDef.read?_toJson hc)
  have hdescription : optional (carried carry d.toEntries) "description" text?
      = some d.description :=
    optional_text_eq hc (by simp [toEntries, List.lookup_cons, List.lookup_append])
  simp only [read?, hfields, hname, hguid, hsupertype, hattributes, hdescription,
    Option.bind_eq_bind, Option.bind_some]
  rfl

end EntityDef

namespace ClassificationDef

theorem keys_toEntries (d : ClassificationDef) : (d.toEntries.map (·.1)).Sublist fieldNames := by
  simp only [toEntries, List.map_append]
  have hhead : List.Sublist ["name", "guid"] ["name", "guid"] := .refl _
  exact ((hhead.append keys_whenPresent).append (.refl ["attributes", "validEntityTypes"])).append
    keys_whenPresent

theorem read?_toJson (hc : Carries carry) (d : ClassificationDef) :
    read? (carry d.toJson) = some d := by
  have hfields : fields? fieldNames (carry d.toJson) = _ :=
    fields?_of_sublist hc (by decide) d.keys_toEntries
  have hname : required (carried carry d.toEntries) "name" text? = some d.name :=
    required_text_eq hc (by simp [toEntries])
  have hguid : required (carried carry d.toEntries) "guid" text? = some d.guid :=
    required_text_eq hc (by simp [toEntries, List.lookup_cons])
  have hsupertype : optional (carried carry d.toEntries) "supertype" TypeLink.read?
      = some d.supertype :=
    optional_eq hc (by simp [toEntries, List.lookup_cons, List.lookup_append]) TypeLink.toJson_ne_null
      (TypeLink.read?_toJson hc)
  have hattributes : defaulted (carried carry d.toEntries) "attributes"
      (listOf AttributeDef.read?) [] = some d.attributes :=
    defaulted_listOf_eq hc (by simp [toEntries, List.lookup_cons, List.lookup_append])
      (AttributeDef.read?_toJson hc)
  have hvalid : defaulted (carried carry d.toEntries) "validEntityTypes"
      (listOf TypeLink.read?) [] = some d.validEntityTypes :=
    defaulted_listOf_eq hc (by simp [toEntries, List.lookup_cons, List.lookup_append])
      (TypeLink.read?_toJson hc)
  have hdescription : optional (carried carry d.toEntries) "description" text?
      = some d.description :=
    optional_text_eq hc (by simp [toEntries, List.lookup_cons, List.lookup_append])
  simp only [read?, hfields, hname, hguid, hsupertype, hattributes, hvalid, hdescription,
    Option.bind_eq_bind, Option.bind_some]
  rfl

end ClassificationDef

theorem EndCardinality.read?_name (hc : Carries carry) (c : EndCardinality) :
    read? (carry (.str c.name)) = some c :=
  oneOf_eq hc (by cases c <;> rfl)

namespace RelationshipEnd

theorem keys_toEntries (e : RelationshipEnd) :
    (e.toEntries.map (·.1)).Sublist ["entityType", "attributeName", "cardinality"] := by
  simp only [toEntries, List.map_append]
  have hhead : List.Sublist ["entityType"] ["entityType"] := .refl _
  exact (hhead.append keys_whenPresent).append (.refl ["cardinality"])

theorem read?_toJson (hc : Carries carry) (e : RelationshipEnd) :
    read? (carry e.toJson) = some e := by
  have hfields : fields? _ (carry e.toJson) = _ :=
    fields?_of_sublist hc (by decide) e.keys_toEntries
  have hentityType : required (carried carry e.toEntries) "entityType" TypeLink.read?
      = some e.entityType :=
    required_eq (by simp [toEntries]) (TypeLink.read?_toJson hc _)
  have hattributeName : optional (carried carry e.toEntries) "attributeName" text?
      = some e.attributeName :=
    optional_text_eq hc (by simp [toEntries, List.lookup_cons, List.lookup_append])
  have hcardinality : defaulted (carried carry e.toEntries) "cardinality"
      EndCardinality.read? .anyNumber = some e.cardinality :=
    defaulted_eq (by simp [toEntries, List.lookup_cons, List.lookup_append])
      (EndCardinality.read?_name hc _)
  simp only [read?, hfields, hentityType, hattributeName, hcardinality, Option.bind_eq_bind,
    Option.bind_some]
  rfl

end RelationshipEnd

namespace RelationshipDef

theorem keys_toEntries (d : RelationshipDef) : (d.toEntries.map (·.1)).Sublist fieldNames := by
  simp only [toEntries, List.map_append]
  exact (List.Sublist.refl ["name", "guid", "end1", "end2"]).append keys_whenPresent

theorem read?_toJson (hc : Carries carry) (d : RelationshipDef) :
    read? (carry d.toJson) = some d := by
  have hfields : fields? fieldNames (carry d.toJson) = _ :=
    fields?_of_sublist hc (by decide) d.keys_toEntries
  have hname : required (carried carry d.toEntries) "name" text? = some d.name :=
    required_text_eq hc (by simp [toEntries])
  have hguid : required (carried carry d.toEntries) "guid" text? = some d.guid :=
    required_text_eq hc (by simp [toEntries, List.lookup_cons])
  have hend1 : required (carried carry d.toEntries) "end1" RelationshipEnd.read? = some d.end1 :=
    required_eq (by simp [toEntries, List.lookup_cons]) (RelationshipEnd.read?_toJson hc _)
  have hend2 : required (carried carry d.toEntries) "end2" RelationshipEnd.read? = some d.end2 :=
    required_eq (by simp [toEntries, List.lookup_cons]) (RelationshipEnd.read?_toJson hc _)
  have hdescription : optional (carried carry d.toEntries) "description" text?
      = some d.description :=
    optional_text_eq hc (by simp [toEntries, List.lookup_cons])
  simp only [read?, hfields, hname, hguid, hend1, hend2, hdescription, Option.bind_eq_bind,
    Option.bind_some]
  rfl

end RelationshipDef

namespace EnumElement

theorem keys_toEntries (e : EnumElement) :
    (e.toEntries.map (·.1)).Sublist ["ordinal", "value", "description"] := by
  simp only [toEntries, List.map_append]
  exact (List.Sublist.refl ["ordinal", "value"]).append keys_whenPresent

theorem read?_toJson (hc : Carries carry) (e : EnumElement) : read? (carry e.toJson) = some e := by
  have hfields : fields? _ (carry e.toJson) = _ :=
    fields?_of_sublist hc (by decide) e.keys_toEntries
  have hordinal : required (carried carry e.toEntries) "ordinal" int32? = some e.ordinal :=
    required_eq (by simp [toEntries]) (int32?_eq hc _)
  have hvalue : required (carried carry e.toEntries) "value" text? = some e.value :=
    required_text_eq hc (by simp [toEntries, List.lookup_cons])
  have hdescription : optional (carried carry e.toEntries) "description" text?
      = some e.description :=
    optional_text_eq hc (by simp [toEntries, List.lookup_cons])
  simp only [read?, hfields, hordinal, hvalue, hdescription, Option.bind_eq_bind, Option.bind_some]
  rfl

end EnumElement

namespace EnumDef

theorem keys_toEntries (d : EnumDef) : (d.toEntries.map (·.1)).Sublist fieldNames := by
  simp only [toEntries, List.map_append]
  exact (List.Sublist.refl ["name", "guid", "elements"]).append keys_whenPresent

theorem read?_toJson (hc : Carries carry) (d : EnumDef) : read? (carry d.toJson) = some d := by
  have hfields : fields? fieldNames (carry d.toJson) = _ :=
    fields?_of_sublist hc (by decide) d.keys_toEntries
  have hname : required (carried carry d.toEntries) "name" text? = some d.name :=
    required_text_eq hc (by simp [toEntries])
  have hguid : required (carried carry d.toEntries) "guid" text? = some d.guid :=
    required_text_eq hc (by simp [toEntries, List.lookup_cons])
  have helements : defaulted (carried carry d.toEntries) "elements" (listOf EnumElement.read?) []
      = some d.elements :=
    defaulted_listOf_eq hc (by simp [toEntries, List.lookup_cons]) (EnumElement.read?_toJson hc)
  have hdefault : optional (carried carry d.toEntries) "defaultOrdinal" int32?
      = some d.defaultOrdinal :=
    optional_eq hc (by simp [toEntries, List.lookup_cons]) (by simp) (int32?_eq hc)
  simp only [read?, hfields, hname, hguid, helements, hdefault, Option.bind_eq_bind,
    Option.bind_some]
  rfl

end EnumDef

/-! ## Holding what was written -/

section Holding

open Json

variable {n : Nat}

theorem TypeLink.isHoldable_toJson (l : TypeLink) : isHoldable (n + 1) l.toJson = true := by
  have hname := isHoldable_ofOption (n := n) isHoldable_str l.name
  have hguid := isHoldable_ofOption (n := n) isHoldable_str l.guid
  simp [toJson, toEntries, areHoldableEntries, hname, hguid]

theorem AttributeDef.isHoldable_toJson (a : AttributeDef) :
    isHoldable (n + 1) a.toJson = true := by
  have hdescription := areHoldableEntries_whenPresent (n := n) (k := "description")
    isHoldable_str a.description
  simp [toJson, toEntries, areHoldableEntries, hdescription]

theorem EnumElement.isHoldable_toJson (e : EnumElement) : isHoldable (n + 1) e.toJson = true := by
  have hdescription := areHoldableEntries_whenPresent (n := n) (k := "description")
    isHoldable_str e.description
  simp [toJson, toEntries, areHoldableEntries, isHoldable_int32, hdescription]

theorem RelationshipEnd.isHoldable_toJson (e : RelationshipEnd) :
    isHoldable (n + 2) e.toJson = true := by
  have hattributeName := areHoldableEntries_whenPresent (n := n + 1) (k := "attributeName")
    isHoldable_str e.attributeName
  simp [toJson, toEntries, areHoldableEntries, hattributeName, TypeLink.isHoldable_toJson]

namespace TypeDef

theorem areHoldable_toEntries (d : TypeDef) : areHoldableEntries (n + 2) d.toEntries = true := by
  have hdescription := fun x => areHoldableEntries_whenPresent (n := n + 2) (k := "description")
    isHoldable_str x
  have hsupertype := fun x => areHoldableEntries_whenPresent (n := n + 2) (k := "supertype")
    TypeLink.isHoldable_toJson x
  have hattributes := areHoldableItems_map (n := n + 1) AttributeDef.isHoldable_toJson
  cases d with
  | entity d =>
    simp [toEntries, EntityDef.toEntries, areHoldableEntries, hdescription, hsupertype, hattributes]
  | relationship d =>
    simp [toEntries, RelationshipDef.toEntries, areHoldableEntries, hdescription,
      RelationshipEnd.isHoldable_toJson]
  | classification d =>
    have hvalid := areHoldableItems_map (n := n + 1) TypeLink.isHoldable_toJson
    simp [toEntries, ClassificationDef.toEntries, areHoldableEntries, hdescription, hsupertype,
      hattributes, hvalid]
  | enumeration d =>
    have helements := areHoldableItems_map (n := n + 1) EnumElement.isHoldable_toJson
    have hdefault := areHoldableEntries_whenPresent (n := n + 2) (k := "defaultOrdinal")
      isHoldable_int32 d.defaultOrdinal
    simp [toEntries, EnumDef.toEntries, areHoldableEntries, helements, hdefault]

/-- A written definition is nested three levels deep. -/
theorem isHoldable_toJson (d : TypeDef) : isHoldable (n + 3) d.toJson = true := by
  simp [toJson, areHoldableEntries, areHoldable_toEntries]

end TypeDef

end Holding

/-! ## The category -/

namespace TypeDef

theorem categoryNamed?_name (c : Category) : categoryNamed? c.name = some c := by
  cases c <;> rfl

/-- No definition has a field named as the category is. -/
theorem tag_notMem_toEntries (d : TypeDef) : tag ∉ d.toEntries.map (·.1) := by
  cases d with
  | entity d => exact fun h => absurd (d.keys_toEntries.subset h) (by decide)
  | relationship d => exact fun h => absurd (d.keys_toEntries.subset h) (by decide)
  | classification d => exact fun h => absurd (d.keys_toEntries.subset h) (by decide)
  | enumeration d => exact fun h => absurd (d.keys_toEntries.subset h) (by decide)

theorem readAs?_category (hc : Carries carry) (d : TypeDef) :
    readAs? (carry (.obj d.toEntries)) d.category = some d := by
  cases d with
  | entity d => exact congrArg (Option.map TypeDef.entity) (EntityDef.read?_toJson hc d)
  | relationship d =>
    exact congrArg (Option.map TypeDef.relationship) (RelationshipDef.read?_toJson hc d)
  | classification d =>
    exact congrArg (Option.map TypeDef.classification) (ClassificationDef.read?_toJson hc d)
  | enumeration d => exact congrArg (Option.map TypeDef.enumeration) (EnumDef.read?_toJson hc d)

theorem ofJson?_toJson (d : TypeDef) : ofJson? d.toJson = some d := by
  have hother : ∀ e ∈ d.toEntries, e.1 ≠ tag := by
    intro e he htag
    exact d.tag_notMem_toEntries (List.mem_map.mpr ⟨e, he, htag⟩)
  have htagged : ((tag, Json.str d.category.name) :: d.toEntries).filter (·.1 = tag)
      = [(tag, .str d.category.name)] := by
    rw [List.filter_cons_of_pos (by simp), List.filter_eq_nil_iff.mpr (by simpa using hother)]
  have huntagged : ((tag, Json.str d.category.name) :: d.toEntries).filter (·.1 ≠ tag)
      = d.toEntries := by
    rw [List.filter_cons_of_neg (by simp), List.filter_eq_self.mpr (by simpa using hother)]
  have hholdable : d.toJson.isHoldable Json.nestingLimit = true := d.isHoldable_toJson
  unfold ofJson?
  rw [hholdable]
  simp only [toJson, htagged, huntagged, categoryNamed?_name, Bool.not_true, Bool.false_eq_true,
    if_false, Option.bind_eq_bind, Option.bind_some]
  exact readAs?_category carries_tagged d

theorem toJson_injective : Function.Injective toJson := by
  intro d e h
  have hread := ofJson?_toJson d
  rw [h, ofJson?_toJson] at hread
  exact (Option.some.inj hread).symm

end TypeDef

/-- What is written for a definition is read as that definition, with its category or without. So no
two definitions are written alike, not even one without a supertype and one that links to nothing. -/
theorem definitions_read_back :
    (∀ d : TypeDef, TypeDef.ofJson? d.toJson = some d) ∧
    (∀ d : EntityDef, EntityDef.read? d.toJson = some d) ∧
    (∀ d : RelationshipDef, RelationshipDef.read? d.toJson = some d) ∧
    (∀ d : ClassificationDef, ClassificationDef.read? d.toJson = some d) ∧
    (∀ d : EnumDef, EnumDef.read? d.toJson = some d) ∧
    (∀ d : EntityDef, (TypeDef.entity { d with supertype := none }).toJson
      ≠ (TypeDef.entity (d.withSupertype {})).toJson) ∧
    ∀ d : ClassificationDef, (TypeDef.classification { d with supertype := none }).toJson
      ≠ (TypeDef.classification (d.withSupertype {})).toJson := by
  refine ⟨TypeDef.ofJson?_toJson, EntityDef.read?_toJson carries_json,
    RelationshipDef.read?_toJson carries_json, ClassificationDef.read?_toJson carries_json,
    EnumDef.read?_toJson carries_json, fun d h => ?_, fun d h => ?_⟩
  · have heq := TypeDef.toJson_injective h
    simp [EntityDef.withSupertype] at heq
  · have heq := TypeDef.toJson_injective h
    simp [ClassificationDef.withSupertype] at heq

/-- The link is written although both its parts are absent. -/
example : ({ name := "table", guid := "", supertype := some {} } : EntityDef).toJson.get? "supertype"
    = some (.obj [("name", .null), ("guid", .null)]) := by rfl

end Metamodel
