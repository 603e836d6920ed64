import Metamodel.Proofs.Attributes
import Metamodel.Proofs.Models
import Metamodel.Proofs.Subtypes

/-!
# Metamodel.Proofs.Hierarchies

Both hierarchies as a resolution leaves them.

* `Arena.Settled`        — every type knows the types below it, and has the attributes along its
  chain. A hierarchy without defects is settled when it is completed, and what applicability adds
  to its types later does not unsettle it.
* `subtype_sets_exact`   — the subtype sets of a model are those of the registered definitions.
* `attributes_inherited` — a type has the attributes of its supertype and then its own.
-/

namespace Metamodel

open Relation

namespace Arena

variable {δ ε : Type} [SupertypedDef δ] {t t' : Arena (ResolvedType δ ε)} {m : NameMap δ}
  {label n k x : String} {a : Nat} {d : ResolvedType δ ε}

/-- A linked arena in which direct subtypes and attributes are filled in as well. -/
structure Settled (t : Arena (ResolvedType δ ε)) (m : NameMap δ) : Prop extends Linked t m where
  direct : ∀ {n a x}, t.slotOf? n = some a →
    (t.Holds ResolvedType.directSubtypes a x ↔ m.Extends x n)
  attributes : ∀ {a chain}, t.Climbs a chain → a < t.size → t.Carries a (t.attributesAlong chain)

theorem settled_completed [EmptyCollection ε]
    (ht : t.map ResolvedType.bare = (unresolved m : Arena (ResolvedType δ ε)).map ResolvedType.bare)
    (hm : m.KeyedBy SupertypedDef.name) (hnone : t.lineageDefects label = []) :
    (t.completed label).Settled m := by
  have hdef : t.definitions = ofMap m := (definitions_congr ht).trans (definitions_unresolved m)
  have hidx := indexed_of_definitions hdef
  have hsub : t.Holds ResolvedType.subtypes = (unresolved m).Holds ResolvedType.subtypes :=
    holds_congr (map_congr ht (·.subtypes))
  have hdirect : t.Holds ResolvedType.directSubtypes
      = (unresolved m).Holds ResolvedType.directSubtypes :=
    holds_congr (map_congr ht (·.directSubtypes))
  refine ⟨linked_completed hdef hm (fun s x => ?_) hnone, fun {n a x} hn => ?_,
    fun {a chain} hclimb ha => ?_⟩
  · rw [hsub]
    exact not_holds_unresolved fun _ => rfl
  · rw [slotOf?_congr definitions_completed] at hn
    refine holds_completed_direct hdef hm (fun s x => ?_) hnone hn
    rw [hdirect]
    exact not_holds_unresolved fun _ => rfl
  · -- attributes are gathered after the marks, which change no chain
    have hmarked : (t.markSubtypes label).definitions = (t.completed label).definitions :=
      definitions_markSubtypes.trans definitions_completed.symm
    have hidx' : (t.markSubtypes label).Indexed :=
      indexed_of_definitions (definitions_markSubtypes.trans hdef)
    have hsize : (t.completed label).size = (t.markSubtypes label).size := by
      simpa using (congrArg Arena.size hmarked).symm
    obtain ⟨n, hn⟩ := hidx'.covered (hsize ▸ ha)
    rw [attributesAlong_congr hmarked.symm]
    exact carries_gatherAttributes ((lineage_ok_iff hidx').mpr (hclimb.congr hmarked))
      (hsize ▸ ha) (mem_slotsByName.mpr ⟨n, hn⟩)

namespace Settled

theorem congr (h : t.Settled m) (hbare : t'.map ResolvedType.bare = t.map ResolvedType.bare) :
    t'.Settled m := by
  have hdef := definitions_congr hbare
  refine ⟨h.toLinked.congr hbare, fun {n a x} hn => ?_, fun {a chain} hclimb ha => ?_⟩
  · have hdirect : t'.Holds ResolvedType.directSubtypes = t.Holds ResolvedType.directSubtypes :=
      holds_congr (map_congr hbare (·.directSubtypes))
    rw [hdirect]
    exact h.direct (slotOf?_congr hdef n ▸ hn)
  · have hsize : t'.size = t.size := by simpa using congrArg Arena.size hdef
    obtain ⟨d, hd, has⟩ := h.attributes (hclimb.congr hdef.symm) (hsize ▸ ha)
    have hslot : (t'.map ResolvedType.bare).at? a = (t.map ResolvedType.bare).at? a := by
      rw [hbare]
    obtain ⟨d', hd'⟩ := at?_of_lt ha
    simp only [at?_map, hd', hd, Option.map_some, Option.some.injEq] at hslot
    have hattr : d'.attributes = d.attributes :=
      congrArg (fun e : ResolvedType δ Unit => e.attributes) hslot
    exact ⟨d', hd', by rw [hattr, has, attributesAlong_congr hdef]⟩

theorem mem_subtypes (h : t.Settled m) (hd : t.get? n = some d) :
    x ∈ d.subtypes ↔ TransGen m.Extends x n := by
  obtain ⟨a, ha, _⟩ := get?_eq_some_iff.mp hd
  rw [← h.subtypes ha, holds_of_get? ha hd]

theorem mem_directSubtypes (h : t.Settled m) (hd : t.get? n = some d) :
    x ∈ d.directSubtypes ↔ m.Extends x n := by
  obtain ⟨a, ha, _⟩ := get?_eq_some_iff.mp hd
  rw [← h.direct ha, holds_of_get? ha hd]

/-- The attributes of a type, by the names on its chain. -/
theorem attributes_eq (h : t.Settled m) (hm : m.KeyedBy SupertypedDef.name) (hg : m.Grounded)
    (hd : t.get? n = some d) :
    d.attributes = (chainNames t t.size n).reverse.flatMap m.ownAttributes := by
  obtain ⟨a, ha, hda⟩ := get?_eq_some_iff.mp hd
  have hlt := h.indexed.bounded ha
  obtain ⟨chain, hclimb⟩ := exists_climb h.definitions hm hg ha
  obtain ⟨d', hd', has⟩ := h.attributes hclimb hlt
  rw [hda] at hd'
  cases hd'
  rw [has, attributesAlong_eq h.definitions hm, chainNames_eq hclimb ha
    (hclimb.length_le h.indexed hlt)]

end Settled

end Arena

/-! ## Resolved hierarchies -/

namespace Registry

variable {r : Registry}

theorem settled_entities (h : r.defects = []) : r.resolved.entities.Settled r.entities := by
  have hnone : r.entityDefects = [] :=
    entityDefects_eq_nil.mpr (consistent_iff_no_defects.mpr h).entities
  have hcompleted : r.entitiesCompleted.Settled r.entities :=
    Arena.settled_completed rfl r.entities_keyed hnone
  have hrelated : r.entitiesRelated.Settled r.entities :=
    hcompleted.congr (map_spreadRelationships fun _ _ => ⟨rfl, rfl⟩)
  exact hrelated.congr (map_spreadClassifications fun _ _ => ⟨rfl, rfl⟩)

theorem settled_classifications (h : r.defects = []) :
    r.resolved.classifications.Settled r.classifications := by
  have hnone : r.classificationDefects = [] :=
    classificationDefects_eq_nil.mpr (consistent_iff_no_defects.mpr h).classifications
  have hbare : r.classified.1.map ResolvedType.bare
      = (unresolved r.classifications : ClassificationArena).map ResolvedType.bare :=
    map_spreadClassifications_told fun _ _ => rfl
  refine Arena.settled_completed hbare r.classifications_keyed ?_
  rw [Arena.lineageDefects_congr (Arena.definitions_congr hbare)]
  exact hnone

end Registry

namespace Arena

variable {δ ε : Type} [SupertypedDef δ] {t : Arena (ResolvedType δ ε)} {m : NameMap δ}
  {n k x : String}

/-- In a grounded hierarchy every supertype link that there is has the name it leads to. -/
theorem extends_iff_link (hg : m.Grounded) : m.Extends x n ↔
    ∃ c l, m.get? x = some c ∧ SupertypedDef.supertype c = some l ∧ l.name = some n := by
  constructor
  · rintro ⟨c, l, hc, hl, hn⟩
    exact ⟨c, l, hc, hl, (TypeLink.target?_eq_some.mp hn).1⟩
  · rintro ⟨c, l, hc, hl, hn⟩
    obtain ⟨k, _, hk, hne, _⟩ := hg.linked x c l hc hl
    rw [hn] at hk
    cases hk
    exact ⟨c, l, hc, hl, TypeLink.target?_eq_some.mpr ⟨hn, hne⟩⟩

/-! ## Subtype sets -/

/-- The subtype sets of a hierarchy are what its definitions make them. -/
structure SubtypesExact (t : Arena (ResolvedType δ ε)) (m : NameMap δ) : Prop where
  registered : ∀ n, (∃ d, t.get? n = some d) ↔ ∃ c, m.get? n = some c
  /-- The subtypes of a type are the other registered types that supertype links lead up from. -/
  subtypes : ∀ {n d}, t.get? n = some d → ∀ x,
    x ∈ d.subtypes ↔ (∃ c, m.get? x = some c) ∧ x ≠ n ∧ ReflTransGen m.Extends x n
  /-- They are the other types with this one on the chain that the model lists. -/
  chains : ∀ {n d}, t.get? n = some d → ∀ x,
    x ∈ d.subtypes ↔ x ≠ n ∧ n ∈ chainNames t t.size x
  /-- The direct subtypes are the registered types whose own link names the type. -/
  direct : ∀ {n d}, t.get? n = some d → ∀ x, x ∈ d.directSubtypes ↔
    ∃ c l, m.get? x = some c ∧ SupertypedDef.supertype c = some l ∧ l.name = some n
  direct_subset : ∀ {n d}, t.get? n = some d → ∀ x ∈ d.directSubtypes, x ∈ d.subtypes
  irreflexive : ∀ {n d}, t.get? n = some d → n ∉ d.subtypes
  /-- What is below a type is directly below it, or below something that is. -/
  union : ∀ {n d}, t.get? n = some d → ∀ x, x ∈ d.subtypes ↔
    ∃ k e, k ∈ d.directSubtypes ∧ t.get? k = some e ∧ (x = k ∨ x ∈ e.subtypes)

theorem Settled.subtypesExact (h : t.Settled m) (hm : m.KeyedBy SupertypedDef.name)
    (hg : m.Grounded) : t.SubtypesExact m := by
  refine
    { registered := fun n => exists_get?_iff h.definitions
      subtypes := fun hd x => (h.mem_subtypes hd).trans hg.transGen_iff
      chains := fun hd x => ?_
      direct := fun hd x => (h.mem_directSubtypes hd).trans (extends_iff_link hg)
      direct_subset := fun hd x hx =>
        (h.mem_subtypes hd).mpr (.single ((h.mem_directSubtypes hd).mp hx))
      irreflexive := fun {n d} hd hn => hg.acyclic n ((h.mem_subtypes hd).mp hn)
      union := fun {n d} hd x => ?_ }
  · rw [h.mem_subtypes hd, hg.transGen_iff, mem_chainNames_iff h.definitions hm hg]
    exact and_left_comm
  · rw [h.mem_subtypes hd, TransGen.tail'_iff]
    constructor
    · rintro ⟨k, hxk, hkn⟩
      obtain ⟨e, he⟩ := (exists_get?_iff h.definitions).mpr (NameMap.registered_of_extends hkn)
      refine ⟨k, e, (h.mem_directSubtypes hd).mpr hkn, he, ?_⟩
      rw [h.mem_subtypes he, eq_comm]
      exact reflTransGen_iff_eq_or_transGen.mp hxk
    · rintro ⟨k, e, hk, he, hx⟩
      rw [h.mem_subtypes he, eq_comm] at hx
      exact ⟨k, reflTransGen_iff_eq_or_transGen.mpr hx, (h.mem_directSubtypes hd).mp hk⟩

/-! ## Attributes -/

/-- Attributes come down the chains of a hierarchy, each list whole and in its own order. -/
structure AttributesInherited (t : Arena (ResolvedType δ ε)) (m : NameMap δ) : Prop where
  unchanged : ∀ n, (t.get? n).map (·.definition) = m.get? n
  /-- The own attributes of the types on the chain, those of the root first. -/
  along_chain : ∀ {n d}, t.get? n = some d →
    d.attributes = (chainNames t t.size n).reverse.flatMap m.ownAttributes
  root : ∀ {n d}, t.get? n = some d → d.supertype = none → d.attributes = d.ownAttributes
  extended : ∀ {n d l}, t.get? n = some d → d.supertype = some l →
    ∃ k e, l.name = some k ∧ t.get? k = some e ∧ d.attributes = e.attributes ++ d.ownAttributes
  initial : ∀ {n d k e}, t.get? n = some d → k ∈ chainNames t t.size n → t.get? k = some e →
    e.attributes <+: d.attributes

theorem Settled.attributes_root (h : t.Settled m) {d : ResolvedType δ ε} (hd : t.get? n = some d)
    (hroot : d.supertype = none) : d.attributes = d.ownAttributes := by
  obtain ⟨a, ha, hda⟩ := get?_eq_some_iff.mp hd
  have hclimb : t.Climbs a [a] := .root fun d' hd' => by
    rw [hda] at hd'
    cases hd'
    exact hroot
  obtain ⟨d', hd', has⟩ := h.attributes hclimb (h.indexed.bounded ha)
  rw [hda] at hd'
  cases hd'
  rw [has, attributesAlong_cons hda]
  rfl

theorem Settled.attributes_extended (h : t.Settled m) (hm : m.KeyedBy SupertypedDef.name)
    (hg : m.Grounded) {d e : ResolvedType δ ε} (hd : t.get? n = some d) (hnk : m.Extends n k)
    (he : t.get? k = some e) : d.attributes = e.attributes ++ d.ownAttributes := by
  obtain ⟨a, ha, hda⟩ := get?_eq_some_iff.mp hd
  obtain ⟨b, hb, heb⟩ := get?_eq_some_iff.mp he
  obtain ⟨chain, hclimb⟩ := exists_climb h.definitions hm hg hb
  have hab : t.Ascends a b := (ascends_iff h.definitions ha).mpr ⟨k, hb, hnk⟩
  obtain ⟨d', hd', has⟩ := h.attributes (.step hab hclimb) (h.indexed.bounded ha)
  obtain ⟨e', he', hes⟩ := h.attributes hclimb (h.indexed.bounded hb)
  rw [hda] at hd'
  cases hd'
  rw [heb] at he'
  cases he'
  rw [has, hes, attributesAlong_cons hda]

theorem Settled.attributesInherited (h : t.Settled m) (hm : m.KeyedBy SupertypedDef.name)
    (hg : m.Grounded) : t.AttributesInherited m := by
  refine
    { unchanged := get?_of_definitions h.definitions
      along_chain := h.attributes_eq hm hg
      root := h.attributes_root
      extended := fun {n d l} hd hl => ?_
      initial := fun {n d k e} hd hk he => ?_ }
  · have hreg : m.get? n = some d.definition := by rw [← get?_of_definitions h.definitions, hd]; rfl
    obtain ⟨k, c, hk, hne, hc⟩ := hg.linked n _ l hreg hl
    obtain ⟨e, he⟩ := (exists_get?_iff h.definitions).mpr ⟨c, hc⟩
    have hnk : m.Extends n k := ⟨_, l, hreg, hl, TypeLink.target?_eq_some.mpr ⟨hk, hne⟩⟩
    exact ⟨k, e, hk, he, h.attributes_extended hm hg hd hnk he⟩
  · obtain ⟨-, hnk⟩ := (mem_chainNames_iff h.definitions hm hg).mp hk
    -- by induction on the way up: each supertype has an initial segment of what its subtype has
    induction hnk using ReflTransGen.head_induction_on generalizing d with
    | refl =>
      rw [hd] at he
      cases he
      exact List.prefix_rfl
    | @head n j hnj hjk ih =>
      obtain ⟨c, hc⟩ := hg.registered ((exists_get?_iff h.definitions).mp ⟨d, hd⟩) (.single hnj)
      obtain ⟨f, hf⟩ := (exists_get?_iff h.definitions).mpr ⟨c, hc⟩
      have hstep := h.attributes_extended hm hg hd hnj hf
      have hin := (mem_chainNames_iff h.definitions hm hg).mpr ⟨⟨c, hc⟩, hjk⟩
      rw [hstep]
      exact (ih hf hin).trans (List.prefix_append _ _)

end Arena

/-! ## Models -/

section Models

variable {b : Draft} {m : Model}

/-- Entity types and classifications alike know what is below them, and nothing else. -/
theorem subtype_sets_exact (h : b.resolve.result = .ok m) :
    m.entities.SubtypesExact b.registry.entities ∧
      m.classifications.SubtypesExact b.registry.classifications := by
  obtain ⟨hnone, rfl⟩ := Draft.resolve_eq_ok_iff.mp h
  have hconsistent := Registry.consistent_iff_no_defects.mpr hnone
  exact
    ⟨(Registry.settled_entities hnone).subtypesExact b.registry.entities_keyed
        hconsistent.entities,
      (Registry.settled_classifications hnone).subtypesExact b.registry.classifications_keyed
        hconsistent.classifications⟩

/-- Entity types and classifications alike have the attributes of their ancestors and their own. -/
theorem attributes_inherited (h : b.resolve.result = .ok m) :
    m.entities.AttributesInherited b.registry.entities ∧
      m.classifications.AttributesInherited b.registry.classifications := by
  obtain ⟨hnone, rfl⟩ := Draft.resolve_eq_ok_iff.mp h
  have hconsistent := Registry.consistent_iff_no_defects.mpr hnone
  exact
    ⟨(Registry.settled_entities hnone).attributesInherited b.registry.entities_keyed
        hconsistent.entities,
      (Registry.settled_classifications hnone).attributesInherited
        b.registry.classifications_keyed hconsistent.classifications⟩

/-- Three levels of entity types and two of classifications, the lower ones registered first. The
lowest entity type declares an attribute of its ancestors again. -/
def levels : Draft where
  registry :=
    [.entity { name := "column", guid := "", supertype := some (.named "table"),
               attributes := [.single "id" "string"] },
      .classification { name := "secret", guid := "", supertype := some (.named "label"),
                        attributes := [.single "level" "int"] },
      .entity { name := "table", guid := "", supertype := some (.named "asset"),
                attributes := [.single "id" "int", .single "rows" "int"] },
      .entity { name := "asset", guid := "", attributes := [.single "id" "string"] },
      .classification { name := "label", guid := "",
                        attributes := [.single "owner" "string"] }].foldl Registry.put {}

theorem subtype_sets_exact_levels : ∃ m d c, levels.resolve.result = .ok m ∧
    m.entity? "asset" = some d ∧ "column" ∈ d.subtypes ∧ "column" ∉ d.directSubtypes ∧
      m.classification? "label" = some c ∧ "secret" ∈ c.directSubtypes := by
  have hnone : levels.registry.defects = [] := by decide +kernel
  have hrun := Draft.resolve_eq_ok_iff.mpr ⟨hnone, rfl⟩
  obtain ⟨hentities, hclassifications⟩ := subtype_sets_exact hrun
  have hcolumn : (levels.registry.entities.get? "column").bind EntityDef.supertype
      = some (.named "table") := by decide +kernel
  have htable : (levels.registry.entities.get? "table").bind EntityDef.supertype
      = some (.named "asset") := by decide +kernel
  have hsecret : (levels.registry.classifications.get? "secret").bind ClassificationDef.supertype
      = some (.named "label") := by decide +kernel
  obtain ⟨column, hcolumn, hcolumnUp⟩ := Option.bind_eq_some_iff.mp hcolumn
  obtain ⟨table, htable, htableUp⟩ := Option.bind_eq_some_iff.mp htable
  obtain ⟨secret, hsecret, hsecretUp⟩ := Option.bind_eq_some_iff.mp hsecret
  have hup : ReflTransGen levels.registry.entities.Extends "column" "asset" :=
    .head ⟨column, _, hcolumn, hcolumnUp, rfl⟩ (.single ⟨table, _, htable, htableUp, rfl⟩)
  obtain ⟨d, hd⟩ := (hentities.registered "asset").mpr
    ⟨{ name := "asset", guid := "", attributes := [.single "id" "string"] }, by decide +kernel⟩
  obtain ⟨c, hc⟩ := (hclassifications.registered "label").mpr
    ⟨{ name := "label", guid := "", attributes := [.single "owner" "string"] }, by decide +kernel⟩
  refine ⟨_, d, c, hrun, hd, ?_, ?_, hc, ?_⟩
  · exact (hentities.subtypes hd "column").mpr ⟨⟨_, hcolumn⟩, by decide, hup⟩
  · rw [hentities.direct hd]
    rintro ⟨e, l, he, hl, hname⟩
    rw [hcolumn] at he
    cases he
    cases hcolumnUp.symm.trans hl
    exact absurd hname (by decide)
  · exact (hclassifications.direct hc "secret").mpr ⟨secret, _, hsecret, hsecretUp, rfl⟩

theorem attributes_inherited_levels : ∃ m d c, levels.resolve.result = .ok m ∧
    m.entity? "column" = some d ∧ d.attributes = [.single "id" "string", .single "id" "int",
      .single "rows" "int", .single "id" "string"] ∧
    m.classification? "secret" = some c ∧
      c.attributes = [.single "owner" "string", .single "level" "int"] := by
  have hnone : levels.registry.defects = [] := by decide +kernel
  have hrun := Draft.resolve_eq_ok_iff.mpr ⟨hnone, rfl⟩
  obtain ⟨hentities, hclassifications⟩ := attributes_inherited hrun
  have hchain : chainNames levels.registry.resolved.entities
      levels.registry.resolved.entities.size "column" = ["column", "table", "asset"] := by
    decide +kernel
  have hown : ["column", "table", "asset"].reverse.flatMap levels.registry.entities.ownAttributes
      = [.single "id" "string", .single "id" "int", .single "rows" "int", .single "id" "string"] := by
    decide +kernel
  have hmarks : chainNames levels.registry.resolved.classifications
      levels.registry.resolved.classifications.size "secret" = ["secret", "label"] := by
    decide +kernel
  have hmarked : ["secret", "label"].reverse.flatMap levels.registry.classifications.ownAttributes
      = [.single "owner" "string", .single "level" "int"] := by
    decide +kernel
  have hcolumn : (levels.registry.entities.get? "column").isSome := by decide +kernel
  have hsecret : (levels.registry.classifications.get? "secret").isSome := by decide +kernel
  rw [← hentities.unchanged, Option.isSome_map, Option.isSome_iff_exists] at hcolumn
  rw [← hclassifications.unchanged, Option.isSome_map, Option.isSome_iff_exists] at hsecret
  obtain ⟨d, hd⟩ := hcolumn
  obtain ⟨c, hc⟩ := hsecret
  refine ⟨_, d, c, hrun, hd, ?_, hc, ?_⟩
  · rw [← hown, ← hchain]
    exact hentities.along_chain hd
  · rw [← hmarked, ← hmarks]
    exact hclassifications.along_chain hc

end Models

end Metamodel
