import Metamodel.Proofs.RegistrationOrder

/-!
# Metamodel.Proofs.ReadBack

A model gives back the definitions it was made of.

* `Model.definitions`        — all definitions that the listings of a model hold.
* `Model.Holds`              — they are those of a registry, unchanged and under their names.
* `Draft.AddsAll`            — a run of additions in which nothing is refused, ignored or repeated.
* `resolution_loses_nothing` — what a model gives back resolves to a model of the same types, in
  whatever order it is registered again.
-/

namespace Metamodel

/-! ## Reading -/

def Summary.count (s : Summary) : Category → Nat
  | .entity => s.entities
  | .relationship => s.relationships
  | .classification => s.classifications
  | .enumeration => s.enums

namespace Model

/-- The definition that the type of a name was resolved from. -/
def definition? (m : Model) (c : Category) (n : String) : Option TypeDef :=
  match c with
  | .entity => (m.entity? n).map (.entity ·.definition)
  | .relationship => (m.relationship? n).map .relationship
  | .classification => (m.classification? n).map (.classification ·.definition)
  | .enumeration => (m.enum? n).map .enumeration

/-- All definitions, by category and name. -/
def definitions (m : Model) : List TypeDef :=
  m.entities.values.map (.entity ·.definition) ++ m.relationships.values.map .relationship ++
    m.classifications.values.map (.classification ·.definition) ++ m.enums.values.map .enumeration

theorem definitions_eq (m : Model) :
    m.definitions = Category.all.flatMap fun c => (m.names c).filterMap (m.definition? c) := by
  simp only [definitions, Arena.values_eq, NameMap.values_eq_filterMap, List.map_filterMap,
    Category.all, List.flatMap_cons, List.flatMap_nil, List.append_nil, List.append_assoc]
  rfl

theorem names_ascending (m : Model) (c : Category) : (m.names c).Pairwise (· < ·) := by
  cases c <;> exact NameMap.keys_ascending _

end Model

theorem Registry.standsAt_of_find? {r : Registry} {c : Category} {n : String} {d : TypeDef}
    (h : r.find? c n = some d) : d.StandsAt c n := by
  cases c <;> obtain ⟨e, he, rfl⟩ := Option.map_eq_some_iff.mp h
  · exact ⟨rfl, r.entities_keyed n e he⟩
  · exact ⟨rfl, r.relationships_keyed n e he⟩
  · exact ⟨rfl, r.classifications_keyed n e he⟩
  · exact ⟨rfl, r.enums_keyed n e he⟩

/-- The types of `m` are the definitions of `r`, each under its name and unchanged. -/
structure Model.Holds (m : Model) (r : Registry) : Prop where
  names : ∀ c n, n ∈ m.names c ↔ ∃ d, r.find? c n = some d
  ascending : ∀ c, (m.names c).Pairwise (· < ·)
  definition : ∀ c n, m.definition? c n = r.find? c n
  summary : ∀ c, m.summary.count c = (m.names c).length

theorem holds_of_resolve {b : Draft} {m : Model} (h : b.resolve.result = .ok m) :
    m.Holds b.registry := by
  obtain ⟨-, rfl⟩ := Draft.resolve_eq_ok_iff.mp h
  have hentities := Arena.indexed_of_definitions b.registry.definitions_resolved_entities
  have hclassifications :=
    Arena.indexed_of_definitions b.registry.definitions_resolved_classifications
  have hrelationships := Arena.indexed_ofMap b.registry.relationships
  have hdefinition : ∀ c n, (Model.ofResolved b.label b.registry.resolved b.guids).definition? c n
      = b.registry.find? c n := by
    intro c n
    cases c with
    | entity =>
      rw [Registry.find?, ← Arena.get?_of_definitions b.registry.definitions_resolved_entities,
        Option.map_map]
      rfl
    | relationship =>
      exact congrArg (Option.map TypeDef.relationship) (Arena.get?_ofMap b.registry.relationships n)
    | classification =>
      rw [Registry.find?,
        ← Arena.get?_of_definitions b.registry.definitions_resolved_classifications,
        Option.map_map]
      rfl
    | enumeration => rfl
  refine { names := fun c n => ?_, ascending := Model.names_ascending _,
           definition := hdefinition, summary := fun c => ?_ }
  · rw [← hdefinition]
    cases c with
    | entity =>
      refine hentities.mem_names_iff.trans ?_
      simp [Model.definition?, Model.entity?, Model.ofResolved]
    | relationship =>
      refine hrelationships.mem_names_iff.trans ?_
      simp [Model.definition?, Model.relationship?, Model.ofResolved, Registry.resolved]
    | classification =>
      refine hclassifications.mem_names_iff.trans ?_
      simp [Model.definition?, Model.classification?, Model.ofResolved]
    | enumeration =>
      refine NameMap.mem_keys.trans ?_
      simp [Model.definition?, Model.enum?, Option.isSome_iff_exists]
  · cases c with
    | entity => exact hentities.length_names.symm
    | relationship => exact hrelationships.length_names.symm
    | classification => exact hclassifications.length_names.symm
    | enumeration => simp [Summary.count, Model.summary, Model.names, NameMap.keys, NameMap.size]

namespace Model.Holds

variable {m : Model} {r : Registry} {d : TypeDef} (h : m.Holds r)

include h

theorem mem_definitions : d ∈ m.definitions ↔ r.find? d.category d.name = some d := by
  simp only [m.definitions_eq, List.mem_flatMap, List.mem_filterMap, h.definition]
  constructor
  · rintro ⟨c, -, n, -, hd⟩
    obtain ⟨rfl, rfl⟩ := Registry.standsAt_of_find? hd
    exact hd
  · intro hd
    exact ⟨d.category, by cases d <;> simp [Category.all, TypeDef.category], d.name,
      (h.names _ _).mpr ⟨d, hd⟩, hd⟩

theorem nodup_definitions : m.definitions.Nodup := by
  rw [m.definitions_eq, List.nodup_flatMap]
  refine ⟨fun c _ => ?_, ?_⟩
  · refine List.Nodup.filterMap (fun n k d hn hk => ?_)
      (nodup_of_ascending (m.names_ascending c))
    rw [Option.mem_def, h.definition] at hn hk
    exact (Registry.standsAt_of_find? hn).2.symm.trans (Registry.standsAt_of_find? hk).2
  · have hdistinct : Category.all.Pairwise (· ≠ ·) := by decide
    refine hdistinct.imp fun hne d hd hd' => ?_
    obtain ⟨n, -, hn⟩ := List.mem_filterMap.mp hd
    obtain ⟨k, -, hk⟩ := List.mem_filterMap.mp hd'
    rw [h.definition] at hn hk
    exact hne ((Registry.standsAt_of_find? hn).1.symm.trans (Registry.standsAt_of_find? hk).1)

theorem unconflicting_definitions : Unconflicting m.definitions := by
  rintro d hd e he ⟨⟨hcategory, hname⟩, hne⟩
  have hfind := h.mem_definitions.mp hd
  rw [hcategory, hname, h.mem_definitions.mp he] at hfind
  exact hne (Option.some.inj hfind).symm

end Model.Holds

/-! ## Registering again -/

namespace Draft

/-- Every one of the definitions is added, one after the other. -/
inductive AddsAll : Draft → List TypeDef → Draft → Prop where
  | nil {b : Draft} : AddsAll b [] b
  | cons {b b' : Draft} {d : TypeDef} {ds : List TypeDef} :
      (b.add d).2.result = .ok .added → AddsAll (b.add d).1 ds b' → AddsAll b (d :: ds) b'

theorem addsAll_addAll {b : Draft} {ds : List TypeDef}
    (hnew : ∀ d ∈ ds, b.registry.find? d.category d.name = none) (hnodup : ds.Nodup)
    (hu : Unconflicting ds) : b.AddsAll ds (b.addAll ds).1 := by
  induction ds generalizing b with
  | nil => exact .nil
  | cons d ds ih =>
    obtain ⟨hclash, hu'⟩ := unconflicting_cons.mp hu
    obtain ⟨hnot, hnodup'⟩ := List.nodup_cons.mp hnodup
    have hfree := hnew d List.mem_cons_self
    have hadded : (b.add d).2.result = .ok .added := by
      simp only [result_add, Registry.register, hfree, Traced.ok]
    rw [(addAll_cons_of_ok hadded).1]
    refine .cons hadded (ih (fun e he => ?_) hnodup' hu')
    -- the name that `d` has taken is not the name of a later definition
    have hother : ¬ d.StandsAt e.category e.name := by
      intro hstands
      refine hclash e he ⟨hstands, ?_⟩
      rintro rfl
      exact hnot he
    rw [registry_add, Registry.find?_register, hnew e (List.mem_cons_of_mem d he), if_neg hother]
    rfl

end Draft

/-- The definitions of a registry, registered in any order, are stored as they were. -/
theorem registry_ofDefinitions {m : Model} {r : Registry} (h : m.Holds r) {s : Settings}
    {ds : List TypeDef} (hs : s.label = r.label) (hds : ds.Perm m.definitions) :
    (Draft.ofDefinitions s ds).1.registry = { r with policy := s.duplicatePolicy } := by
  obtain ⟨hpolicy, hlabel, -⟩ := Draft.settings_addAll (Draft.ofSettings s) ds
  have hu := h.unconflicting_definitions.perm hds.symm
  refine Registry.ext_find? hpolicy (hlabel.trans hs) fun c n => Option.ext fun d => ?_
  rw [Draft.find?_ofDefinitions hu, hds.mem_iff, h.mem_definitions]
  change _ ↔ r.find? c n = some d
  constructor
  · rintro ⟨hd, rfl, rfl⟩
    exact hd
  · intro hd
    obtain ⟨rfl, rfl⟩ := Registry.standsAt_of_find? hd
    exact ⟨hd, rfl, rfl⟩

/-- A model holds all that was registered, and nothing else; registered again, under any settings
but another label, it makes up the same types. -/
theorem resolution_loses_nothing {b : Draft} {m : Model} (h : b.resolve.result = .ok m) :
    m.Holds b.registry ∧ ∀ s ds, s.label = m.label → ds.Perm m.definitions →
      ∃ b' m', (Draft.ofSettings s).AddsAll ds b' ∧ b'.resolve.result = .ok m' ∧
        m.SameTypes m' := by
  have hholds := holds_of_resolve h
  refine ⟨hholds, fun s ds hs hds => ?_⟩
  obtain ⟨hnone, rfl⟩ := Draft.resolve_eq_ok_iff.mp h
  have hregistry := registry_ofDefinitions hholds hs hds
  have hadds : (Draft.ofSettings s).AddsAll ds (Draft.ofDefinitions s ds).1 := by
    refine Draft.addsAll_addAll (fun d _ => ?_) (hds.nodup_iff.mpr hholds.nodup_definitions)
      (hholds.unconflicting_definitions.perm hds.symm)
    cases d <;> rfl
  refine ⟨_, _, hadds, Draft.resolve_eq_ok_iff.mpr ⟨?_, rfl⟩, ?_⟩
  · rw [hregistry]
    exact hnone
  · have hlabel : (Draft.ofDefinitions s ds).1.label = b.label := by
      rw [Draft.label, hregistry]
      rfl
    rw [hlabel, hregistry]
    exact ⟨rfl, rfl, rfl, rfl, rfl, fun _ => rfl, rfl⟩

theorem resolution_loses_nothing_mixed : ∃ m b' m',
    (Draft.ofDefinitions {} mixed).1.resolve.result = .ok m ∧
      (Draft.ofSettings { duplicatePolicy := .firstWriteWins, errorMode := .collectAll }).AddsAll
        m.definitions.reverse b' ∧
      b'.resolve.result = .ok m' ∧ m.SameTypes m' := by
  have hnone : (Draft.ofDefinitions {} mixed).1.registry.defects = [] := by decide +kernel
  have hrun := Draft.resolve_eq_ok_iff.mpr ⟨hnone, rfl⟩
  obtain ⟨-, hagain⟩ := resolution_loses_nothing hrun
  obtain ⟨b', m', hadds, hrun', hsame⟩ := hagain
    { duplicatePolicy := .firstWriteWins, errorMode := .collectAll } _ (by decide +kernel)
    (List.reverse_perm _)
  exact ⟨_, b', m', hrun, hadds, hrun', hsame⟩

end Metamodel
