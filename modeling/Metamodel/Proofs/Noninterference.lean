import Metamodel.Proofs.Extension
import Metamodel.Proofs.Reports

/-!
# Metamodel.Proofs.Noninterference

Resolution reads names, links by name, and attributes. Guids, descriptions, enums, the duplicate
policy and everything else that a registry stores decide nothing.

* `Defect.relabel`, `Fault.relabel` — errors with the source label overwritten.
* `Registry.SameOutlines`           — registries that resolution cannot tell apart.
* `SameOutlines.defects_eq`         — they have the same defects, in the same order.
* `resolution_reads_outlines`       — they end with the same errors, or with all that is computed
  the same.
-/

namespace Metamodel

open Relation

/-! ## Labels -/

/-- The same defect of a source with another label. -/
def Defect.relabel (label : String) : Defect → Defect
  | .missingSupertypeName hierarchy holder _ => .missingSupertypeName hierarchy holder label
  | .missingSupertypeDef hierarchy holder target _ =>
    .missingSupertypeDef hierarchy holder target label
  | .supertypeCycle category member _ => .supertypeCycle category member label
  | .missingEndDef relationship position target _ =>
    .missingEndDef relationship position target label
  | .missingValidEntityName classification _ => .missingValidEntityName classification label
  | .missingValidEntityDef classification target _ =>
    .missingValidEntityDef classification target label

mutual

/-- The same fault of a source with another label, members included. -/
def Fault.relabel (label : String) : Fault → Fault
  | .defect d => .defect (d.relabel label)
  | .duplicateDefinition category name _ => .duplicateDefinition category name label
  | .resolutionFailed _ members => .resolutionFailed label (Fault.relabelAll label members)
  | .invalidInput reason => .invalidInput reason

def Fault.relabelAll (label : String) : List Fault → List Fault
  | [] => []
  | f :: fs => f.relabel label :: Fault.relabelAll label fs

end

@[simp] theorem Defect.relabel_relabel (label label' : String) (d : Defect) :
    (d.relabel label').relabel label = d.relabel label := by
  cases d <;> rfl

theorem Defect.map_relabel_relabel (label label' : String) (ds : List Defect) :
    (ds.map (relabel label')).map (relabel label) = ds.map (relabel label) := by
  rw [List.map_map]
  exact List.map_congr_left fun d _ => relabel_relabel label label' d

theorem Fault.relabelAll_defects (label : String) (ds : List Defect) :
    Fault.relabelAll label (ds.map .defect) = (ds.map (Defect.relabel label)).map .defect := by
  induction ds with
  | nil => simp [relabelAll]
  | cons d ds ih => simp only [List.map_cons, relabelAll, relabel, ih]

/-- What keeps the members of a list apart keeps its repetitions. The rest of the list is filtered
before its own repetitions go. -/
theorem eraseDups_map {α β : Type} [BEq α] [LawfulBEq α] [BEq β] [LawfulBEq β] {f : α → β} :
    ∀ {as : List α}, (∀ a ∈ as, ∀ b ∈ as, f a = f b → a = b) →
      (as.map f).eraseDups = as.eraseDups.map f
  | [], _ => rfl
  | a :: as, h => by
    have hlen : (as.filter fun b => !b == a).length < as.length + 1 :=
      Nat.lt_succ_of_le (List.length_filter_le _ _)
    have hfilter : (as.map f).filter (fun b => !b == f a)
        = (as.filter fun b => !b == a).map f := by
      rw [List.filter_map]
      refine congrArg (List.map f) (List.filter_congr fun b hb => ?_)
      have hinj : f b = f a ↔ b = a :=
        ⟨h b (List.mem_cons_of_mem a hb) a List.mem_cons_self, congrArg f⟩
      rw [Function.comp_apply, Bool.eq_iff_iff]
      simp [hinj]
    have hrest : ∀ b ∈ as.filter fun b => !b == a, ∀ c ∈ as.filter fun b => !b == a,
        f b = f c → b = c := by
      intro b hb c hc
      exact h b (List.mem_cons_of_mem a (List.mem_filter.mp hb).1)
        c (List.mem_cons_of_mem a (List.mem_filter.mp hc).1)
    rw [List.map_cons, List.eraseDups_cons, List.eraseDups_cons, List.map_cons, hfilter,
      eraseDups_map hrest]
termination_by as => as.length

/-! ## Maps of views -/

namespace NameMap

variable {α β γ : Type} {m m' : NameMap α} {view : α → β} {n k : String}

theorem ascendingKeys_map {es : List (String × α)} (h : AscendingKeys es) (view : α → β) :
    AscendingKeys (es.map fun e => (e.1, view e.2)) := by
  simpa only [AscendingKeys, List.pairwise_map] using h

def map (view : α → β) (m : NameMap α) : NameMap β :=
  ⟨m.toList.map fun e => (e.1, view e.2), ascendingKeys_map m.ascending view⟩

@[simp] theorem get?_map : (m.map view).get? n = (m.get? n).map view := by
  refine Option.ext fun b => ?_
  simp [get?_eq_some_iff, map]

theorem gather_map {g : String → β → List γ} :
    (m.map view).gather g = m.gather fun n a => g n (view a) := by
  rw [gather, map, List.flatMap_map]
  rfl

theorem map_gather {g : String → α → List β} {f : β → γ} :
    (m.gather g).map f = m.gather fun n a => (g n a).map f :=
  List.map_flatMap

theorem gather_congr {g g' : String → α → List β}
    (h : ∀ n a, m.get? n = some a → g n a = g' n a) : m.gather g = m.gather g' :=
  List.flatMap_congr fun e he => h e.1 e.2 (get?_eq_some_iff.mpr he)

section SameViews

variable (h : m.map view = m'.map view)

include h

theorem embeds_of_map_eq : m.Embeds view m' := by
  intro n a ha
  rw [← get?_map, ← h, get?_map, ha, Option.map_some]

theorem get?_eq_none_iff_of_map_eq : m'.get? n = none ↔ m.get? n = none := by
  rw [← Option.map_eq_none_iff (f := view), ← get?_map, ← h, get?_map, Option.map_eq_none_iff]

theorem gather_names_of_map_eq {f : String → List γ} :
    m'.gather (fun n _ => f n) = m.gather fun n _ => f n := by
  have hnames := congrArg (fun u => NameMap.gather u fun n _ => f n) h
  simpa only [gather_map] using hnames.symm

end SameViews

/-! ## Defects of a hierarchy -/

section Hierarchy

variable {δ : Type} [SupertypedDef δ] {m m' : NameMap δ} {n : String} {d : Defect}
  {label : String} (h : m.map outline = m'.map outline) (label' : String)

include h

theorem extends_of_map_eq : m'.Extends = m.Extends := by
  funext n k
  refine propext ⟨fun hnk => ?_, fun hnk => ?_⟩
  · exact (embeds_of_map_eq h.symm).extends_mono hnk
  · exact (embeds_of_map_eq h).extends_mono hnk

theorem Flaw.relabel (hf : m.Flaw label n d) : m'.Flaw label' n (d.relabel label') := by
  have hlink : ∀ {c l}, m.get? n = some c → SupertypedDef.supertype c = some l →
      ∃ c' l', m'.get? n = some c' ∧ SupertypedDef.supertype c' = some l' ∧
        l'.target? = l.target? := by
    intro c l hc hl
    obtain ⟨c', hc', hview⟩ := (embeds_of_map_eq h).exists_get? hc
    have hsuper := congrArg TypeOutline.supertype hview
    simp only [outline, hl, Option.map_some, Option.map_eq_some_iff] at hsuper
    obtain ⟨l', hl', htarget⟩ := hsuper
    exact ⟨c', l', hc', hl', htarget⟩
  cases hf with
  | unnamed hc hl hn =>
    obtain ⟨c', l', hc', hl', htarget⟩ := hlink hc hl
    exact .unnamed hc' hl' (htarget.trans hn)
  | unregistered hc hl hk hnone =>
    obtain ⟨c', l', hc', hl', htarget⟩ := hlink hc hl
    exact .unregistered hc' hl' (htarget.trans hk) ((get?_eq_none_iff_of_map_eq h).mpr hnone)
  | loop hloop hleast =>
    rw [← extends_of_map_eq h] at hloop hleast
    exact .loop hloop hleast

theorem ChainFlaw.relabel (hf : m.ChainFlaw label n d) :
    m'.ChainFlaw label' n (d.relabel label') := by
  obtain ⟨k, hnk, hk⟩ := hf
  rw [← extends_of_map_eq h] at hnk
  exact ⟨k, hnk, hk.relabel h label'⟩

end Hierarchy

end NameMap

namespace Arena

variable {δ ε : Type} [SupertypedDef δ] [EmptyCollection ε] {m m' : NameMap δ}
  {label label' : String}

theorem chainDefect?_of_map_eq (hm : m.KeyedBy SupertypedDef.name)
    (hm' : m'.KeyedBy SupertypedDef.name) (h : m.map outline = m'.map outline) (n : String) :
    (unresolved m' : Arena (ResolvedType δ ε)).chainDefect? label' n
      = ((unresolved m : Arena (ResolvedType δ ε)).chainDefect? label n).map
          (Defect.relabel label') := by
  have ht : (unresolved m : Arena (ResolvedType δ ε)).definitions = .ofMap m :=
    definitions_unresolved m
  have ht' : (unresolved m' : Arena (ResolvedType δ ε)).definitions = .ofMap m' :=
    definitions_unresolved m'
  cases hd : (unresolved m : Arena (ResolvedType δ ε)).chainDefect? label n with
  | some d =>
    have hflaw := (chainDefect?_eq_some ht hm).mp hd
    exact (chainDefect?_eq_some ht' hm').mpr (hflaw.relabel h label')
  | none =>
    refine Option.eq_none_iff_forall_ne_some.mpr fun d' hd' => ?_
    have hflaw := (chainDefect?_eq_some ht' hm').mp hd'
    rw [(chainDefect?_eq_some ht hm).mpr (hflaw.relabel h.symm label)] at hd
    cases hd

theorem lineageDefects_of_map_eq (hm : m.KeyedBy SupertypedDef.name)
    (hm' : m'.KeyedBy SupertypedDef.name) (h : m.map outline = m'.map outline) :
    (unresolved m' : Arena (ResolvedType δ ε)).lineageDefects label'
      = ((unresolved m : Arena (ResolvedType δ ε)).lineageDefects label).map
          (Defect.relabel label') := by
  rw [lineageDefects_eq_gather (definitions_unresolved m'),
    lineageDefects_eq_gather (definitions_unresolved m), NameMap.map_gather]
  rw [NameMap.gather_names_of_map_eq h]
  refine NameMap.gather_congr fun n c _ => ?_
  rw [← Option.toList_map]
  exact congrArg Option.toList (chainDefect?_of_map_eq hm hm' h n)

end Arena

/-! ## Defects of links -/

section Links

variable {entities entities' : EntityArena} {label label' : String}

/-- The defect of an end at `p` that refers to `target`. -/
def endDefect? (entities : EntityArena) (label holder : String) (p : EndPosition)
    (target : Option String) : Option Defect :=
  if target.bind entities.slotOf? = none then some (.missingEndDef holder p target label) else none

def endDefectsAt (entities : EntityArena) (label holder : String)
    (targets : Option String × Option String) : List Defect :=
  (endDefect? entities label holder .end1 targets.1).toList
    ++ (endDefect? entities label holder .end2 targets.2).toList

/-- The defect of a valid-entity link that refers to `target`. -/
def linkDefect? (entities : EntityArena) (label holder : String) : Option String → Option Defect
  | none => some (.missingValidEntityName holder label)
  | some k =>
    if entities.slotOf? k = none then some (.missingValidEntityDef holder k label) else none

theorem defectOf?_endSlot {r : RelationshipDef} {p : EndPosition} :
    defectOf? (r.endSlot entities label p)
      = endDefect? entities label r.name p (r.endTarget? p) := by
  rw [RelationshipDef.endSlot, endDefect?]
  cases (r.endTarget? p).bind entities.slotOf? <;> rfl

theorem RelationshipDef.endDefects_eq {r : RelationshipDef} :
    r.endDefects entities label = endDefectsAt entities label r.name r.endTargets := by
  simp only [endDefects, defectOf?_endSlot, endDefectsAt, endTargets, EndPosition.all,
    List.filterMap_cons, List.filterMap_nil]
  cases endDefect? entities label r.name .end1 (r.endTarget? .end1) <;>
    cases endDefect? entities label r.name .end2 (r.endTarget? .end2) <;> rfl

theorem defectOf?_validEntitySlot {holder : String} {l : TypeLink} :
    defectOf? (validEntitySlot entities label holder l)
      = linkDefect? entities label holder l.target? := by
  rw [validEntitySlot]
  cases l.target? with
  | none => rfl
  | some k =>
    simp only [linkDefect?]
    cases entities.slotOf? k <;> rfl

theorem ClassificationDef.linkDefects_eq {c : ClassificationDef} :
    c.linkDefects entities label
      = c.listedTargets.filterMap (linkDefect? entities label c.name) := by
  rw [linkDefects, listedTargets, List.filterMap_map]
  exact List.filterMap_congr fun l _ => defectOf?_validEntitySlot

section Relabel

variable (h : ∀ k, entities'.slotOf? k = none ↔ entities.slotOf? k = none)

include h

theorem endDefect?_relabel (holder : String) (p : EndPosition) (target : Option String) :
    endDefect? entities' label' holder p target
      = (endDefect? entities label holder p target).map (Defect.relabel label') := by
  have hnone : target.bind entities'.slotOf? = none ↔ target.bind entities.slotOf? = none := by
    cases target with
    | none => exact Iff.rfl
    | some k => exact h k
  simp only [endDefect?, hnone]
  split <;> rfl

theorem endDefectsAt_relabel (holder : String) (targets : Option String × Option String) :
    endDefectsAt entities' label' holder targets
      = (endDefectsAt entities label holder targets).map (Defect.relabel label') := by
  simp only [endDefectsAt, List.map_append, ← Option.toList_map, ← endDefect?_relabel h]

theorem linkDefect?_relabel (holder : String) (target : Option String) :
    linkDefect? entities' label' holder target
      = (linkDefect? entities label holder target).map (Defect.relabel label') := by
  cases target with
  | none => rfl
  | some k =>
    simp only [linkDefect?, h]
    split <;> rfl

end Relabel

end Links

/-! ## Registries -/

/-- The registries differ in nothing that resolution reads. -/
structure Registry.SameOutlines (r r' : Registry) : Prop where
  entities : r.entities.map outline = r'.entities.map outline
  relationships : r.relationships.map RelationshipDef.endTargets
    = r'.relationships.map RelationshipDef.endTargets
  classifications : r.classifications.map outline = r'.classifications.map outline
  validEntities : r.classifications.map ClassificationDef.listedTargets
    = r'.classifications.map ClassificationDef.listedTargets

namespace Registry

variable {r r' : Registry}

theorem endDefects_eq_gather_targets : r.endDefects
    = (r.relationships.map RelationshipDef.endTargets).gather
        (endDefectsAt (unresolved r.entities) r.label) := by
  rw [endDefects_eq_gather, NameMap.gather_map]
  refine NameMap.gather_congr fun n a ha => ?_
  rw [RelationshipDef.endDefects_eq, r.relationships_keyed n a ha]

theorem linkDefects_eq_gather_targets : r.linkDefects
    = (r.classifications.map ClassificationDef.listedTargets).gather fun n targets =>
        targets.filterMap (linkDefect? (unresolved r.entities) r.label n) := by
  rw [linkDefects_eq_gather, NameMap.gather_map]
  refine NameMap.gather_congr fun n c hc => ?_
  rw [ClassificationDef.linkDefects_eq, r.classifications_keyed n c hc]

namespace SameOutlines

variable (h : r.SameOutlines r')

include h

theorem symm : r'.SameOutlines r :=
  ⟨h.entities.symm, h.relationships.symm, h.classifications.symm, h.validEntities.symm⟩

theorem embeds : r.Embeds r' :=
  ⟨NameMap.embeds_of_map_eq h.entities, NameMap.embeds_of_map_eq h.relationships,
    NameMap.embeds_of_map_eq h.classifications, NameMap.embeds_of_map_eq h.validEntities⟩

theorem slotOf?_eq_none_iff (k : String) :
    (unresolved r'.entities : EntityArena).slotOf? k = none
      ↔ (unresolved r.entities : EntityArena).slotOf? k = none := by
  rw [Arena.slotOf?_eq_none_of_definitions (Arena.definitions_unresolved r'.entities),
    Arena.slotOf?_eq_none_of_definitions (Arena.definitions_unresolved r.entities)]
  exact NameMap.get?_eq_none_iff_of_map_eq h.entities

theorem endDefects_eq : r'.endDefects = r.endDefects.map (Defect.relabel r'.label) := by
  rw [endDefects_eq_gather_targets, endDefects_eq_gather_targets, ← h.relationships,
    NameMap.map_gather]
  exact NameMap.gather_congr fun n targets _ =>
    endDefectsAt_relabel h.slotOf?_eq_none_iff n targets

theorem linkDefects_eq : r'.linkDefects = r.linkDefects.map (Defect.relabel r'.label) := by
  rw [linkDefects_eq_gather_targets, linkDefects_eq_gather_targets, ← h.validEntities,
    NameMap.map_gather]
  refine NameMap.gather_congr fun n targets _ => ?_
  rw [List.map_filterMap]
  exact List.filterMap_congr fun target _ => linkDefect?_relabel h.slotOf?_eq_none_iff n target

/-- Every pass meets the same, so what is met first and what is met at all is the same too. -/
theorem defects_eq : r'.defects = r.defects.map (Defect.relabel r'.label) := by
  have hentities : r'.entityDefects = r.entityDefects.map (Defect.relabel r'.label) :=
    Arena.lineageDefects_of_map_eq r.entities_keyed r'.entities_keyed h.entities
  have hclassifications :
      r'.classificationDefects = r.classificationDefects.map (Defect.relabel r'.label) :=
    Arena.lineageDefects_of_map_eq r.classifications_keyed r'.classifications_keyed
      h.classifications
  rw [defects, defects, hentities, h.endDefects_eq, h.linkDefects_eq, hclassifications,
    ← List.map_append]
  cases r.entityDefects with
  | cons d ds => rfl
  | nil => cases r.endDefects <;> rfl

end SameOutlines

/-- A registry reports under its own label. -/
theorem relabel_of_mem_defects {d : Defect} (hd : d ∈ r.defects) : d.relabel r.label = d := by
  have hself : r.SameOutlines r := ⟨rfl, rfl, rfl, rfl⟩
  have hmap := hself.defects_eq
  nth_rewrite 1 [← List.map_id r.defects] at hmap
  exact (List.map_inj_left.mp hmap d hd).symm

theorem eraseDups_defects_relabel (label : String) :
    (r.defects.map (Defect.relabel label)).eraseDups
      = r.defects.eraseDups.map (Defect.relabel label) := by
  refine eraseDups_map fun d hd e he hde => ?_
  rw [← relabel_of_mem_defects hd, ← relabel_of_mem_defects he, ← Defect.relabel_relabel _ label d,
    hde, Defect.relabel_relabel]

end Registry

/-! ## Outcomes -/

/-- All that a resolution computes about a type. -/
def ResolvedType.computed {δ ε : Type} (d : ResolvedType δ ε) : ResolvedType Unit ε :=
  { d with definition := () }

theorem NameSet.IsTrace.antisymm {α β : Type} {s s' : NameSet} {m : NameMap α} {m' : NameMap β}
    (h : s.IsTrace s' m) (h' : s'.IsTrace s m') : s = s' :=
  NameSet.ext_mem fun x => ⟨fun hx => ((h x).mp hx).1, fun hx => ((h' x).mp hx).1⟩

theorem EntityApplicability.Conserved.antisymm {a a' : EntityApplicability} {r r' : Registry}
    (h : a.Conserved a' r) (h' : a'.Conserved a r') : a = a' := by
  cases a
  cases a'
  simp only [EntityApplicability.mk.injEq]
  exact ⟨h.directRelationships.antisymm h'.directRelationships,
    h.relationships.antisymm h'.relationships,
    h.directClassifications.antisymm h'.directClassifications,
    h.classifications.antisymm h'.classifications⟩

theorem ResolvedType.Conserved.computed_eq {δ ε : Type} {d d' : ResolvedType δ ε}
    {m m' : NameMap δ} (h : d.Conserved d' m) (h' : d'.Conserved d m')
    (happlies : d.applicability = d'.applicability) : d.computed = d'.computed := by
  simp only [computed, ResolvedType.mk.injEq]
  exact ⟨trivial, h.directSubtypes.antisymm h'.directSubtypes, h.subtypes.antisymm h'.subtypes,
    h'.attributes, happlies⟩

/-- What was computed about each type is the same in both. -/
structure Resolved.SameComputed (m m' : Resolved) : Prop where
  entities : ∀ n, (m.entities.get? n).map ResolvedType.computed
    = (m'.entities.get? n).map ResolvedType.computed
  classifications : ∀ n, (m.classifications.get? n).map ResolvedType.computed
    = (m'.classifications.get? n).map ResolvedType.computed

theorem Arena.map_computed_eq {δ ε : Type} [SupertypedDef δ] {t t' : Arena (ResolvedType δ ε)}
    {m m' : NameMap δ} {n : String} (ht : t.definitions = ofMap m)
    (ht' : t'.definitions = ofMap m') (h : m.map outline = m'.map outline)
    (hcomputed : ∀ d d', t.get? n = some d → t'.get? n = some d' → d.computed = d'.computed) :
    (t.get? n).map ResolvedType.computed = (t'.get? n).map ResolvedType.computed := by
  have hnone : t'.get? n = none ↔ t.get? n = none := by
    rw [← (indexed_of_definitions ht').slotOf?_eq_none_iff, slotOf?_eq_none_of_definitions ht',
      ← (indexed_of_definitions ht).slotOf?_eq_none_iff, slotOf?_eq_none_of_definitions ht]
    exact NameMap.get?_eq_none_iff_of_map_eq h
  cases hd : t.get? n with
  | none => rw [hnone.mpr hd]
  | some d =>
    cases hd' : t'.get? n with
    | none =>
      rw [hnone.mp hd'] at hd
      cases hd
    | some d' => exact congrArg some (hcomputed d d' hd hd')

theorem Registry.SameOutlines.sameComputed {r r' : Registry} (h : r.SameOutlines r')
    (hnone : r.defects = []) (hnone' : r'.defects = []) :
    r.resolved.SameComputed r'.resolved where
  entities n := by
    refine Arena.map_computed_eq definitions_resolved_entities definitions_resolved_entities
      h.entities fun d d' hd hd' => ?_
    obtain ⟨htype, happlies⟩ := h.embeds.entity hnone hnone' hd hd'
    obtain ⟨htype', happlies'⟩ := h.symm.embeds.entity hnone' hnone hd' hd
    exact htype.computed_eq htype' (happlies.antisymm happlies')
  classifications n := by
    refine Arena.map_computed_eq definitions_resolved_classifications
      definitions_resolved_classifications h.classifications fun d d' hd hd' => ?_
    obtain ⟨htype, hvalid⟩ := h.embeds.classification hnone hnone' hd hd'
    obtain ⟨htype', hvalid'⟩ := h.symm.embeds.classification hnone' hnone hd' hd
    exact htype.computed_eq htype' (hvalid.antisymm hvalid')

/-- Two resolutions that end with the same errors but for the label, or with all that is computed
the same. -/
inductive SameReadings : Except Fault Resolved → Except Fault Resolved → Prop where
  | failed {f f' : Fault} :
      (∀ label, f.relabel label = f'.relabel label) → SameReadings (.error f) (.error f')
  | resolved {m m' : Resolved} : m.SameComputed m' → SameReadings (.ok m) (.ok m')

/-- Registries with the same outlines end alike, in either mode. -/
theorem resolution_reads_outlines {r r' : Registry} (h : r.SameOutlines r') (mode : ErrorMode) :
    SameReadings (r.resolve mode).result (r'.resolve mode).result := by
  have hdefects := h.defects_eq
  rw [Registry.resolve_eq, Registry.resolve_eq]
  cases hd : r.defects with
  | nil =>
    rw [hd, List.map_nil] at hdefects
    rw [hdefects]
    exact .resolved (h.sameComputed hd hdefects)
  | cons d ds =>
    have hall := r.eraseDups_defects_relabel r'.label
    rw [← hdefects, hd] at hall
    rw [hd, List.map_cons] at hdefects
    rw [hdefects] at hall ⊢
    cases mode with
    | failFast =>
      refine .failed fun label => ?_
      simp only [Fault.relabel, Defect.relabel_relabel]
    | collectAll =>
      refine .failed fun label => ?_
      rw [Fault.relabel, Fault.relabel, Fault.relabelAll_defects, hall, Fault.relabelAll_defects,
        Defect.map_relabel_relabel]

/-- `knotted` as another source supplies it: with guids that lead elsewhere, an empty name where
there was none, and an enum. -/
def knottedElsewhere : Registry :=
  [.entity { name := "a", guid := "1", supertype := some { name := some "b", guid := some "3" } },
    .entity { name := "b", guid := "2", supertype := some (.named "a") },
    .entity { name := "c", guid := "2", supertype := some { name := some "b", guid := some "4" } },
    .entity { name := "d", guid := "4", supertype := some { name := some "", guid := some "1" },
              description := some "lost" },
    .enumeration { name := "kind", guid := "" }].foldl Registry.put
    { policy := .firstWriteWins, label := "elsewhere" }

theorem resolution_reads_outlines_knotted : Registry.knotted.SameOutlines knottedElsewhere ∧
    ∃ f f', (Registry.knotted.resolve .collectAll).result = .error f ∧
      (knottedElsewhere.resolve .collectAll).result = .error f' ∧
        ∀ label, f.relabel label = f'.relabel label := by
  have hsame : Registry.knotted.SameOutlines knottedElsewhere :=
    ⟨by decide +kernel, by decide +kernel, by decide +kernel, by decide +kernel⟩
  have hdefective : Registry.knotted.defects ≠ [] := by decide +kernel
  refine ⟨hsame, ?_⟩
  have hread := resolution_reads_outlines hsame .collectAll
  generalize hrun : (Registry.knotted.resolve .collectAll).result = outcome at hread ⊢
  generalize (knottedElsewhere.resolve .collectAll).result = outcome' at hread ⊢
  cases hread with
  | failed hrelabel => exact ⟨_, _, rfl, rfl, hrelabel⟩
  | resolved _ => exact absurd (Registry.resolve_eq_ok_iff.mp hrun).1 hdefective

end Metamodel
