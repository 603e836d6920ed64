import Metamodel.Proofs.Outlines

/-!
# Metamodel.Proofs.Extension

More definitions change nothing that resolution said about the types that were there.

* `NameSet.IsTrace`            — a set is what another one has of the names that a map registers.
* `Arena.Settled.conserved`    — of a hierarchy, wherever its definitions are embedded.
* `Registry.Embeds.entity`, `Registry.Embeds.classification` — of everything computed about a type.
* `resolution_conservative`    — of what two models say and answer.
-/

namespace Metamodel

open Relation

/-! ## Traces -/

/-- The members of `s` are the members of `s'` that `m` registers. -/
def NameSet.IsTrace {α : Type} (s s' : NameSet) (m : NameMap α) : Prop :=
  ∀ x, x ∈ s ↔ x ∈ s' ∧ ∃ a, m.get? x = some a

theorem NameSet.IsTrace.decide_mem {α : Type} {s s' : NameSet} {m : NameMap α} {x : String}
    (h : s.IsTrace s' m) (hx : ∃ a, m.get? x = some a) : decide (x ∈ s') = decide (x ∈ s) := by
  rw [decide_eq_decide, h x, and_iff_left hx]

/-- What holds of a definition by what is seen of it, holds of the same names where they stand. -/
theorem NameMap.Embeds.exists_iff {α β : Type} {view : α → β} {m m' : NameMap α} {x : String}
    {P P' : α → Prop} (h : m.Embeds view m')
    (hP : ∀ a a', view a' = view a → (P' a' ↔ P a)) :
    (∃ a, m.get? x = some a ∧ P a) ↔
      (∃ a', m'.get? x = some a' ∧ P' a') ∧ ∃ a, m.get? x = some a := by
  constructor
  · rintro ⟨a, ha, hPa⟩
    obtain ⟨a', ha', hview⟩ := h.exists_get? ha
    exact ⟨⟨a', ha', (hP a a' hview).mpr hPa⟩, a, ha⟩
  · rintro ⟨⟨b, hb, hPb⟩, a, ha⟩
    obtain ⟨a', ha', hview⟩ := h.exists_get? ha
    rw [hb] at ha'
    cases ha'
    exact ⟨a, ha, (hP a b hview).mp hPb⟩

/-! ## Hierarchies -/

/-- What was computed about a type is what is left of `d'` when only the names of `m` count. -/
structure ResolvedType.Conserved {δ ε : Type} (d d' : ResolvedType δ ε) (m : NameMap δ) :
    Prop where
  attributes : d'.attributes = d.attributes
  directSubtypes : d.directSubtypes.IsTrace d'.directSubtypes m
  subtypes : d.subtypes.IsTrace d'.subtypes m

section Hierarchy

variable {δ ε : Type} [SupertypedDef δ] {t t' : Arena (ResolvedType δ ε)} {m m' : NameMap δ}
  {n : String} {c : δ} {d d' : ResolvedType δ ε}

theorem NameMap.Embeds.chainNames_eq (h : m.Embeds outline m') (hm : m.KeyedBy SupertypedDef.name)
    (hm' : m'.KeyedBy SupertypedDef.name) (hg : m.Grounded) (hg' : m'.Grounded)
    (ht : t.definitions = .ofMap m) (ht' : t'.definitions = .ofMap m') (hc : m.get? n = some c) :
    chainNames t' t'.size n = chainNames t t.size n := by
  obtain ⟨c', hc', _⟩ := h.exists_get? hc
  have hlisted := h.ancestry (Arena.ancestry_chainNames ht hm hg hc)
  exact (Arena.ancestry_chainNames ht' hm' hg' hc').unique hlisted

theorem Arena.Settled.conserved (h : t.Settled m) (h' : t'.Settled m')
    (hm : m.KeyedBy SupertypedDef.name) (hm' : m'.KeyedBy SupertypedDef.name) (hg : m.Grounded)
    (hg' : m'.Grounded) (hemb : m.Embeds outline m') (hd : t.get? n = some d)
    (hd' : t'.get? n = some d') : d.Conserved d' m := by
  obtain ⟨c, hc⟩ := (exists_get?_iff h.definitions).mp ⟨d, hd⟩
  refine { attributes := ?_, directSubtypes := fun x => ?_, subtypes := fun x => ?_ }
  · rw [h'.attributes_eq hm' hg' hd', h.attributes_eq hm hg hd,
      hemb.chainNames_eq hm hm' hg hg' h.definitions h'.definitions hc]
    -- every type on the chain is registered on both sides, with the same attributes of its own
    refine List.flatMap_congr fun k hk => ?_
    obtain ⟨hn, hnk⟩ := (mem_chainNames_iff h.definitions hm hg).mp (List.mem_reverse.mp hk)
    obtain ⟨e, he⟩ := hg.registered hn hnk
    exact hemb.ownAttributes_eq he
  · rw [h.mem_directSubtypes hd, h'.mem_directSubtypes hd']
    constructor
    · exact fun hx => ⟨hemb.extends_mono hx, NameMap.registered_of_extends hx⟩
    · rintro ⟨hx, e, he⟩
      exact (hemb.extends_iff he).mp hx
  · rw [h.mem_subtypes hd, h'.mem_subtypes hd']
    constructor
    · intro hx
      have hreg := NameMap.registered_of_transGen hx
      exact ⟨(hemb.properly_reaches_iff hg hreg).mpr hx, hreg⟩
    · rintro ⟨hx, hreg⟩
      exact (hemb.properly_reaches_iff hg hreg).mp hx

end Hierarchy

/-! ## Registries -/

/-- The sets of `a` are what is left of those of `a'` when only the names of `r` count. -/
structure EntityApplicability.Conserved (a a' : EntityApplicability) (r : Registry) : Prop where
  directRelationships : a.directRelationships.IsTrace a'.directRelationships r.relationships
  relationships : a.relationships.IsTrace a'.relationships r.relationships
  directClassifications :
    a.directClassifications.IsTrace a'.directClassifications r.classifications
  classifications : a.classifications.IsTrace a'.classifications r.classifications

namespace Registry

variable {r r' : Registry} {n : String}

theorem Embeds.entity (hemb : r.Embeds r') (h : r.defects = []) (h' : r'.defects = [])
    {d d' : ResolvedEntity} (hd : r.resolved.entities.get? n = some d)
    (hd' : r'.resolved.entities.get? n = some d') :
    d.Conserved d' r.entities ∧ d.applicability.Conserved d'.applicability r := by
  have hg := (consistent_iff_no_defects.mpr h).entities
  have hg' := (consistent_iff_no_defects.mpr h').entities
  have hn := (Arena.exists_get?_iff r.definitions_resolved_entities).mp ⟨d, hd⟩
  refine ⟨(settled_entities h).conserved (settled_entities h') r.entities_keyed r'.entities_keyed
      hg hg' hemb.entities hd hd',
    { directRelationships := fun x => ?_, relationships := fun x => ?_,
      directClassifications := fun x => ?_, classifications := fun x => ?_ }⟩
  · rw [mem_directRelationships h hd, mem_directRelationships h' hd']
    exact hemb.relationships.exists_iff fun a a' ha => RelationshipDef.joins_iff ha n
  · rw [mem_relationships h hd, mem_relationships h' hd']
    exact hemb.relationships.exists_iff fun a a' ha => spans_iff_of_embeds hemb.entities hg hn ha
  · rw [mem_directClassifications h hd, mem_directClassifications h' hd']
    exact hemb.validEntities.exists_iff fun c c' hc => by
      rw [ClassificationDef.lists_iff_mem, ClassificationDef.lists_iff_mem, hc]
  · rw [mem_classifications h hd, mem_classifications h' hd']
    exact hemb.validEntities.exists_iff fun c c' hc => covers_iff_of_embeds hemb.entities hg hn hc

theorem Embeds.classification (hemb : r.Embeds r') (h : r.defects = []) (h' : r'.defects = [])
    {d d' : ResolvedClassification} (hd : r.resolved.classifications.get? n = some d)
    (hd' : r'.resolved.classifications.get? n = some d') :
    d.Conserved d' r.classifications ∧ d.validEntities.IsTrace d'.validEntities r.entities := by
  have hc := consistent_iff_no_defects.mpr h
  have hc' := consistent_iff_no_defects.mpr h'
  refine ⟨(settled_classifications h).conserved (settled_classifications h')
    r.classifications_keyed r'.classifications_keyed hc.classifications hc'.classifications
    hemb.classifications hd hd', fun x => ?_⟩
  obtain ⟨c, hn⟩ := (Arena.exists_get?_iff r.definitions_resolved_classifications).mp ⟨d, hd⟩
  obtain ⟨c', hn', hview⟩ := hemb.validEntities.exists_get? hn
  simp only [mem_validEntities h hd, mem_validEntities h' hd', hn, hn', Option.some.injEq,
    exists_eq_left']
  constructor
  · rintro ⟨⟨e, hx⟩, hcov⟩
    obtain ⟨e', hx', _⟩ := hemb.entities.exists_get? hx
    have hcov' := (covers_iff_of_embeds hemb.entities hc.entities ⟨e, hx⟩ hview).mpr hcov
    exact ⟨⟨⟨e', hx'⟩, hcov'⟩, e, hx⟩
  · rintro ⟨⟨_, hcov'⟩, hx⟩
    exact ⟨hx, (covers_iff_of_embeds hemb.entities hc.entities hx hview).mp hcov'⟩

/-- Every definition of `r` is in `r'`, under the same category and name. -/
def Within (r r' : Registry) : Prop :=
  ∀ c n d, r.find? c n = some d → r'.find? c n = some d

theorem Within.trans {r'' : Registry} (h : r.Within r') (h' : r'.Within r'') : r.Within r'' :=
  fun c n d hd => h' c n d (h c n d hd)

/-- A registry stands in whatever it grows into. -/
theorem within_put {d : TypeDef} (h : r.find? d.category d.name = none) : r.Within (r.put d) := by
  intro c n e he
  rw [find?_put]
  split
  · rename_i hsame
    obtain ⟨rfl, rfl⟩ := hsame
    rw [h] at he
    cases he
  · exact he

theorem Within.embeds (h : r.Within r') : r.Embeds r' := by
  have hentities : ∀ n e, r.entities.get? n = some e → r'.entities.get? n = some e := by
    intro n e he
    simpa [find?] using h .entity n (.entity e) (by simp [find?, he])
  have hrelationships : ∀ n a, r.relationships.get? n = some a →
      r'.relationships.get? n = some a := by
    intro n a ha
    simpa [find?] using h .relationship n (.relationship a) (by simp [find?, ha])
  have hclassifications : ∀ n c, r.classifications.get? n = some c →
      r'.classifications.get? n = some c := by
    intro n c hc
    simpa [find?] using h .classification n (.classification c) (by simp [find?, hc])
  exact
    { entities := NameMap.embeds_of_get? hentities
      relationships := NameMap.embeds_of_get? hrelationships
      classifications := NameMap.embeds_of_get? hclassifications
      validEntities := NameMap.embeds_of_get? hclassifications }

end Registry

/-! ## Models -/

section Models

variable {b b' : Draft} {m m' : Model}

/-- What `m` says about the types of `r` is what `m'` says about them, among themselves. -/
structure Model.Conserved (m m' : Model) (r : Registry) : Prop where
  entityChain : ∀ {n e}, r.entities.get? n = some e → m'.entityChain n = m.entityChain n
  classificationChain : ∀ {n c}, r.classifications.get? n = some c →
    m'.classificationChain n = m.classificationChain n
  entity : ∀ {n e}, r.entities.get? n = some e → ∃ d d', m.entity? n = some d ∧
    m'.entity? n = some d' ∧ d.Conserved d' r.entities ∧
      d.applicability.Conserved d'.applicability r
  classification : ∀ {n c}, r.classifications.get? n = some c → ∃ d d',
    m.classification? n = some d ∧ m'.classification? n = some d' ∧
      d.Conserved d' r.classifications ∧ d.validEntities.IsTrace d'.validEntities r.entities
  isSubtypeOf : ∀ {n e k f}, r.entities.get? n = some e → r.entities.get? k = some f →
    m'.isSubtypeOf n k = m.isSubtypeOf n k
  isTypeOf : ∀ {n e k f}, r.entities.get? n = some e → r.entities.get? k = some f →
    m'.isTypeOf n k = m.isTypeOf n k
  isClassificationValidFor : ∀ {x c n e}, r.classifications.get? x = some c →
    r.entities.get? n = some e → m'.isClassificationValidFor x n = m.isClassificationValidFor x n
  isRelationshipValidFor : ∀ {x a n e}, r.relationships.get? x = some a →
    r.entities.get? n = some e → m'.isRelationshipValidFor x n = m.isRelationshipValidFor x n

/-- If every definition of one draft is in another one as well, then whatever else is in it makes
no difference to the types of the first. -/
theorem resolution_conservative (hwithin : b.registry.Within b'.registry)
    (h : b.resolve.result = .ok m) (h' : b'.resolve.result = .ok m') :
    m.Conserved m' b.registry := by
  obtain ⟨hnone, hm⟩ := Draft.resolve_eq_ok_iff.mp h
  obtain ⟨hnone', hm'⟩ := Draft.resolve_eq_ok_iff.mp h'
  have hemb := hwithin.embeds
  have hc := Registry.consistent_iff_no_defects.mpr hnone
  have hc' := Registry.consistent_iff_no_defects.mpr hnone'
  have hentity : ∀ {n e}, b.registry.entities.get? n = some e → ∃ d d', m.entity? n = some d ∧
      m'.entity? n = some d' ∧ d.Conserved d' b.registry.entities ∧
        d.applicability.Conserved d'.applicability b.registry := by
    intro n e he
    obtain ⟨e', he', _⟩ := hemb.entities.exists_get? he
    obtain ⟨d, hd⟩ := (exists_entity?_iff h).mpr ⟨e, he⟩
    obtain ⟨d', hd'⟩ := (exists_entity?_iff h').mpr ⟨e', he'⟩
    rw [hm] at hd ⊢
    rw [hm'] at hd' ⊢
    exact ⟨d, d', hd, hd', hemb.entity hnone hnone' hd hd'⟩
  have hsub : ∀ {n e k f}, b.registry.entities.get? n = some e →
      b.registry.entities.get? k = some f → m'.isSubtypeOf n k = m.isSubtypeOf n k := by
    intro n e k f he hf
    obtain ⟨d, d', hd, hd', hconserved, _⟩ := hentity hf
    simp only [Model.isSubtypeOf, hd, hd']
    exact hconserved.subtypes.decide_mem ⟨e, he⟩
  refine
    { entityChain := fun {n e} he => ?_
      classificationChain := fun {n c} hn => ?_
      entity := hentity
      classification := fun {n c} hn => ?_
      isSubtypeOf := hsub
      isTypeOf := fun {n e k f} he hf => ?_
      isClassificationValidFor := fun {x c n e} hx he => ?_
      isRelationshipValidFor := fun {x a n e} hx he => ?_ }
  · rw [hm, hm']
    exact hemb.entities.chainNames_eq b.registry.entities_keyed b'.registry.entities_keyed
      hc.entities hc'.entities Registry.definitions_resolved_entities
      Registry.definitions_resolved_entities he
  · rw [hm, hm']
    exact hemb.classifications.chainNames_eq b.registry.classifications_keyed
      b'.registry.classifications_keyed hc.classifications hc'.classifications
      Registry.definitions_resolved_classifications Registry.definitions_resolved_classifications
      hn
  · obtain ⟨c', hn', _⟩ := hemb.classifications.exists_get? hn
    obtain ⟨d, hd⟩ := (exists_classification?_iff h).mpr ⟨c, hn⟩
    obtain ⟨d', hd'⟩ := (exists_classification?_iff h').mpr ⟨c', hn'⟩
    rw [hm] at hd ⊢
    rw [hm'] at hd' ⊢
    exact ⟨d, d', hd, hd', hemb.classification hnone hnone' hd hd'⟩
  · obtain ⟨d, d', hd, hd', _⟩ := hentity he
    simp only [Model.isTypeOf, hsub he hf, hd, hd', Option.isSome_some]
  · obtain ⟨d, d', hd, hd', _, hconserved⟩ := hentity he
    simp only [Model.isClassificationValidFor, Model.classificationsOf?, hd, hd', Option.map_some]
    exact hconserved.classifications.decide_mem ⟨c, hx⟩
  · obtain ⟨d, d', hd, hd', _, hconserved⟩ := hentity he
    simp only [Model.isRelationshipValidFor, Model.relationshipsOf?, hd, hd', Option.map_some]
    exact hconserved.relationships.decide_mem ⟨a, hx⟩

def area : TypeDef := .entity { name := "area", guid := "", supertype := some (.named "table") }

def mark : TypeDef :=
  .classification { name := "mark", guid := "", validEntityTypes := [.named "asset"] }

/-- `levels` with an entity type that comes first by name and a classification of them all. -/
def moreLevels : Draft where
  registry := (levels.registry.put area).put mark

theorem resolution_conservative_moreLevels : ∃ m m', levels.resolve.result = .ok m ∧
    moreLevels.resolve.result = .ok m' ∧ levels.registry.Within moreLevels.registry ∧
      m.Conserved m' levels.registry ∧ m'.entityChain "column" = ["column", "table", "asset"] := by
  have hnone : levels.registry.defects = [] := by decide +kernel
  have hnone' : moreLevels.registry.defects = [] := by decide +kernel
  have hrun := Draft.resolve_eq_ok_iff.mpr ⟨hnone, rfl⟩
  have hrun' := Draft.resolve_eq_ok_iff.mpr ⟨hnone', rfl⟩
  have harea : levels.registry.Within (levels.registry.put area) :=
    Registry.within_put (by decide +kernel)
  have hmark : (levels.registry.put area).Within moreLevels.registry :=
    Registry.within_put (by decide +kernel)
  have hwithin := harea.trans hmark
  have hconserved := resolution_conservative hwithin hrun hrun'
  have hregistered : (levels.registry.entities.get? "column").isSome := by decide +kernel
  obtain ⟨e, he⟩ := Option.isSome_iff_exists.mp hregistered
  have hchain : (Model.ofResolved levels.label levels.registry.resolved levels.guids).entityChain
      "column" = ["column", "table", "asset"] := by decide +kernel
  exact ⟨_, _, hrun, hrun', hwithin, hconserved, (hconserved.entityChain he).trans hchain⟩

end Models

end Metamodel
