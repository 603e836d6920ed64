import Metamodel.Inventory.Registration
import Metamodel.Proofs.Additions
import Metamodel.Proofs.Conversions
import Metamodel.Proofs.Histories
import Metamodel.Proofs.RegistrationOrder

/-!
# Metamodel.Proofs.Inventories

Registering the records of an inventory.

* `Inventory.result_toDraft` — the loops over the records add the definitions of one list to a draft.
* `Registry.FirstLost`       — the first definition of a list that differs from the first one of its
  name.
* `Inventory.Contradictory`  — one of the lists has two records of one name that stand for different
  definitions.
* `Inventory.StoredIn`       — a registry holds what the first record of each name becomes.
* `inventory_registered_losslessly` — what becomes of an inventory under each duplicate policy, and
  that the order within its lists plays no part without contradictions.
-/

namespace Metamodel

/-! ## Loops over records -/

namespace Draft

variable {b : Draft} {d : TypeDef} {ds es : List TypeDef} {f : Fault}

/-- The draft with a list of definitions, unless one of them is refused. -/
def taken (b : Draft) (ds : List TypeDef) : Except Fault Draft :=
  (b.addAll ds).2.result.map fun _ => (b.addAll ds).1

theorem taken_eq_ok_iff {b' : Draft} :
    b.taken ds = .ok b' ↔ (b.addAll ds).2.result = .ok () ∧ b' = (b.addAll ds).1 := by
  unfold taken
  cases (b.addAll ds).2.result <;> simp [Except.map, eq_comm]

theorem taken_eq_error_iff : b.taken ds = .error f ↔ (b.addAll ds).2.result = .error f := by
  unfold taken
  cases (b.addAll ds).2.result <;> simp [Except.map]

theorem taken_cons_of_ok {x : Registration} (h : (b.add d).2.result = .ok x) :
    b.taken (d :: ds) = (b.add d).1.taken ds := by
  simp only [taken, addAll_cons_of_ok h]

theorem taken_cons_of_error (h : (b.add d).2.result = .error f) :
    b.taken (d :: ds) = .error f :=
  taken_eq_error_iff.mpr (addAll_cons_of_error h).2

theorem taken_append : b.taken (ds ++ es) = (b.taken ds).bind fun b' => b'.taken es := by
  induction ds generalizing b with
  | nil => rfl
  | cons d ds ih =>
    cases h : (b.add d).2.result with
    | error f =>
      rw [List.cons_append, taken_cons_of_error h, taken_cons_of_error h]
      rfl
    | ok x => rw [List.cons_append, taken_cons_of_ok h, taken_cons_of_ok h, ih]

/-- A loop over records adds what they stand for. -/
theorem result_addRecords {α : Type} (toDef : α → TypeDef) (b : Draft) (rs : List α) :
    (b.addRecords toDef rs).result = b.taken (rs.map toDef) := by
  induction rs generalizing b with
  | nil => rfl
  | cons r rs ih =>
    simp only [addRecords, Traced.result_bind]
    cases h : (b.add (toDef r)).2.result with
    | error f =>
      rw [List.map_cons, taken_cons_of_error h]
      rfl
    | ok x =>
      rw [List.map_cons, taken_cons_of_ok h, ← ih]
      rfl

end Draft

/-! ## The first lost definition -/

namespace Registry

variable {policy : DuplicatePolicy} {label : String} {ds before : List TypeDef} {d : TypeDef}

/-- The first definition of a list that differs from the first one of its name, and those before
it. -/
def FirstLost (ds before : List TypeDef) (d : TypeDef) : Prop :=
  (∃ after, ds = before ++ d :: after) ∧ Loses before d ∧
    ∀ earlier e later, before = earlier ++ e :: later → ¬ Loses earlier e

theorem clashes_of_loses (h : Loses before d) : ∃ e ∈ before, e.Clashes d := by
  obtain ⟨first, hfirst, hne⟩ := h
  exact ⟨first, List.mem_of_find?_eq_some hfirst, by simpa using List.find?_some hfirst, hne⟩

theorem loses_iff (hu : Unconflicting before) : Loses before d ↔ ∃ e ∈ before, e.Clashes d := by
  refine ⟨clashes_of_loses, ?_⟩
  rintro ⟨e, he, hstands, hne⟩
  cases hfirst : before.find? (·.StandsAt d.category d.name) with
  | none => exact absurd (decide_eq_true hstands) (List.find?_eq_none.mp hfirst e he)
  | some first =>
    have heq : first = e := hu.eq (List.mem_of_find?_eq_some hfirst) he
      (by simpa using List.find?_some hfirst) hstands
    exact ⟨first, hfirst, heq ▸ hne⟩

theorem not_conflicts_opened : ¬ (opened policy label).Conflicts d := by
  rintro ⟨stored, hstored, -⟩
  rw [find?_opened] at hstored
  cases hstored

theorem conflictsAfter_opened :
    (opened policy label).ConflictsAfter before d ↔ ∃ e ∈ before, e.Clashes d :=
  or_iff_right not_conflicts_opened

theorem fits_opened : (opened policy label).Fits ds ↔ Unconflicting ds := by
  rw [fits_iff]
  exact and_iff_right fun _ _ => not_conflicts_opened

/-- Where nothing is lost, nothing conflicts: the first conflict would lose. -/
theorem unconflicting_iff_none_lost : Unconflicting ds ↔
    ∀ before d after, ds = before ++ d :: after → ¬ Loses before d := by
  constructor
  · rintro hu before d after rfl hloses
    obtain ⟨e, he, hclash⟩ := clashes_of_loses hloses
    exact hu e (by simp [he]) d (by simp) hclash
  · intro hnone
    by_contra hu
    have hfits : ¬ (opened .reject "").Fits ds := fun h => hu (fits_opened.mp h)
    obtain ⟨before, d, ⟨after, rfl⟩, hbefore, hd⟩ := exists_firstConflict hfits
    refine hnone before d after rfl ?_
    rw [loses_iff (fits_opened.mp hbefore)]
    exact conflictsAfter_opened.mp hd

theorem firstLost_iff :
    FirstLost ds before d ↔ (opened policy label).FirstConflict ds before d := by
  unfold FirstLost FirstConflict
  rw [← unconflicting_iff_none_lost, fits_opened, conflictsAfter_opened]
  refine and_congr_right fun _ => ?_
  rw [and_comm]
  exact and_congr_right loses_iff

end Registry

namespace Inventory

variable {v v' : Inventory} {s : Settings} {c : Category} {n : String} {d : TypeDef} {b : Draft}
  {f : Fault}

/-! ## The definitions of an inventory -/

/-- What the records of one category stand for, in document order. -/
def listed (v : Inventory) : Category → List TypeDef
  | .entity => v.entityRecords.map (.entity ·.toDef)
  | .relationship => v.relationshipRecords.map (.relationship ·.toDef)
  | .classification => v.classificationRecords.map (.classification ·.toDef)
  | .enumeration => v.enumRecords.map (.enumeration ·.toDef)

def definitions (v : Inventory) : List TypeDef :=
  v.listed .entity ++ v.listed .relationship ++ v.listed .classification ++ v.listed .enumeration

theorem category_of_mem_listed (h : d ∈ v.listed c) : d.category = c := by
  cases c <;> obtain ⟨r, -, rfl⟩ := List.mem_map.mp h <;> rfl

theorem mem_definitions : d ∈ v.definitions ↔ d ∈ v.listed d.category := by
  simp only [definitions, List.mem_append]
  constructor
  · rintro (((h | h) | h) | h) <;> exact category_of_mem_listed h ▸ h
  · intro h
    cases hc : d.category <;> rw [hc] at h <;> simp only [h, true_or, or_true]

/-- Definitions of other categories do not stand in the way. -/
theorem find?_definitions :
    v.definitions.find? (·.StandsAt c n) = (v.listed c).find? (·.StandsAt c n) := by
  have hother : ∀ c', c' ≠ c → (v.listed c').find? (·.StandsAt c n) = none := by
    intro c' hne
    rw [List.find?_eq_none]
    intro d hd hstands
    exact hne ((category_of_mem_listed hd).symm.trans (of_decide_eq_true hstands).1)
  cases c <;> simp [definitions, List.find?_append, hother]

/-! ## Lists of one category

`make` puts what the records of a list stand for into its category. -/

section Lists

variable {α δ : Type} {name : α → String} {toDef : α → δ} {make : δ → TypeDef} {rs : List α}

/-- Two records of a list have one name and stand for different definitions. -/
def Contradicts (name : α → String) (toDef : α → δ) (rs : List α) : Prop :=
  ∃ r ∈ rs, ∃ r' ∈ rs, name r = name r' ∧ toDef r ≠ toDef r'

theorem contradicts_iff (hmake : Function.Injective make)
    (hstands : ∀ r, (make (toDef r)).StandsAt c (name r)) :
    Contradicts name toDef rs ↔
      ∃ d ∈ rs.map (make <| toDef ·), ∃ e ∈ rs.map (make <| toDef ·), d.Clashes e := by
  simp only [List.mem_map, exists_exists_and_eq_and, TypeDef.Clashes, TypeDef.StandsAt,
    (hstands _).1, (hstands _).2, hmake.ne_iff, true_and, Contradicts]

/-- A stored definition is what the first record of its name stands for. -/
theorem stored_iff {Becomes : α → δ → Prop} {d : δ} {x : Option δ}
    (hbecomes : ∀ r d, Becomes r d ↔ toDef r = d) (hmake : Function.Injective make)
    (hstands : ∀ r, (make (toDef r)).StandsAt c (name r))
    (hx : x.map make = (rs.map (make <| toDef ·)).find? (·.StandsAt c n)) :
    x = some d ↔ ∃ r, rs.find? (name · = n) = some r ∧ Becomes r d := by
  have hfind : (rs.map (make <| toDef ·)).find? (·.StandsAt c n)
      = ((rs.find? (name · = n)).map toDef).map make := by
    rw [List.find?_map, Option.map_map]
    congr 2
    funext r
    simp [TypeDef.StandsAt, (hstands r).1, (hstands r).2]
  rw [Option.map_injective hmake (hx.trans hfind), Option.map_eq_some_iff]
  simp only [hbecomes]

end Lists

/-! ## Contradictions -/

/-- The list of a category contradicts itself. -/
def ContradictoryIn (v : Inventory) : Category → Prop
  | .entity => Contradicts Entity.name Entity.toDef v.entityRecords
  | .relationship => Contradicts Relationship.name Relationship.toDef v.relationshipRecords
  | .classification =>
    Contradicts Classification.name Classification.toDef v.classificationRecords
  | .enumeration => Contradicts Enum.name Enum.toDef v.enumRecords

def Contradictory (v : Inventory) : Prop := ∃ c, v.ContradictoryIn c

theorem contradictoryIn_iff :
    v.ContradictoryIn c ↔ ∃ d ∈ v.listed c, ∃ e ∈ v.listed c, d.Clashes e := by
  cases c with
  | entity => exact contradicts_iff (fun _ _ => TypeDef.entity.inj) fun _ => ⟨rfl, rfl⟩
  | relationship => exact contradicts_iff (fun _ _ => TypeDef.relationship.inj) fun _ => ⟨rfl, rfl⟩
  | classification =>
    exact contradicts_iff (fun _ _ => TypeDef.classification.inj) fun _ => ⟨rfl, rfl⟩
  | enumeration => exact contradicts_iff (fun _ _ => TypeDef.enumeration.inj) fun _ => ⟨rfl, rfl⟩

theorem contradictory_iff : v.Contradictory ↔ ¬ Unconflicting v.definitions := by
  simp only [Contradictory, contradictoryIn_iff, Unconflicting, not_forall, not_not, exists_prop,
    mem_definitions]
  constructor
  · rintro ⟨c, d, hd, e, he, hde⟩
    exact ⟨d, (category_of_mem_listed hd).symm ▸ hd, e, (category_of_mem_listed he).symm ▸ he, hde⟩
  · rintro ⟨d, hd, e, he, hde⟩
    exact ⟨d.category, d, hd, e, hde.1.1 ▸ he, hde⟩

/-! ## What is stored -/

/-- Of each name in each list, the registry holds what the first record becomes, and nothing else. -/
structure StoredIn (v : Inventory) (r : Registry) : Prop where
  entities : ∀ n d, r.entities.get? n = some d ↔
    ∃ e, v.entityRecords.find? (·.name = n) = some e ∧ e.Becomes d
  relationships : ∀ n d, r.relationships.get? n = some d ↔
    ∃ e, v.relationshipRecords.find? (·.name = n) = some e ∧ e.Becomes d
  classifications : ∀ n d, r.classifications.get? n = some d ↔
    ∃ e, v.classificationRecords.find? (·.name = n) = some e ∧ e.Becomes d
  enums : ∀ n d, r.enums.get? n = some d ↔
    ∃ e, v.enumRecords.find? (·.name = n) = some e ∧ e.Becomes d

theorem storedIn_of_find? {r : Registry}
    (h : ∀ c n, r.find? c n = v.definitions.find? (·.StandsAt c n)) : v.StoredIn r where
  entities n _ := stored_iff Entity.becomes_iff (fun _ _ => TypeDef.entity.inj)
    (fun _ => ⟨rfl, rfl⟩) ((h .entity n).trans find?_definitions)
  relationships n _ := stored_iff Relationship.becomes_iff (fun _ _ => TypeDef.relationship.inj)
    (fun _ => ⟨rfl, rfl⟩) ((h .relationship n).trans find?_definitions)
  classifications n _ := stored_iff Classification.becomes_iff (fun _ _ => TypeDef.classification.inj)
    (fun _ => ⟨rfl, rfl⟩) ((h .classification n).trans find?_definitions)
  enums n _ := stored_iff Enum.becomes_iff (fun _ _ => TypeDef.enumeration.inj)
    (fun _ => ⟨rfl, rfl⟩) ((h .enumeration n).trans find?_definitions)

/-! ## Registration -/

/-- A label in the settings wins over the inventory's own. -/
def effectiveLabel (v : Inventory) (s : Settings) : String :=
  s.sourceLabel.getD (v.source.getD "unknown")

/-- The settings with the effective label. -/
def labelled (v : Inventory) (s : Settings) : Settings :=
  { s with sourceLabel := some (v.effectiveLabel s) }

theorem ofSettings_settingsFor :
    Draft.ofSettings (v.settingsFor s) = Draft.ofSettings (v.labelled s) := by
  obtain ⟨label, policy, mode⟩ := s
  cases label <;> cases h : v.source <;>
    simp [Draft.ofSettings, settingsFor, labelled, effectiveLabel, Settings.label, h,
      defaultSourceLabel]

theorem result_toDraft :
    (v.toDraft s).result = (Draft.ofSettings (v.labelled s)).taken v.definitions := by
  have hlast : ∀ x : Except Fault Draft, (x.bind fun b =>
      (Traced.emit (registeredEvent b.label)).result.bind fun _ =>
        (pure b : Traced Fault Draft).result) = x := by
    rintro (_ | _) <;> rfl
  simp only [toDraft, Traced.result_bind, Draft.result_addRecords, definitions, Draft.taken_append,
    Except.bind_bind, ofSettings_settingsFor, hlast]
  rfl

theorem toDraft_eq_ok_iff : (v.toDraft s).result = .ok b ↔
    (Draft.ofDefinitions (v.labelled s) v.definitions).2.result = .ok () ∧
      b = (Draft.ofDefinitions (v.labelled s) v.definitions).1 := by
  rw [result_toDraft, Draft.taken_eq_ok_iff]

theorem toDraft_eq_error_iff : (v.toDraft s).result = .error f ↔
    (Draft.ofDefinitions (v.labelled s) v.definitions).2.result = .error f := by
  rw [result_toDraft, Draft.taken_eq_error_iff]

theorem exists_toDraft_iff : (∃ b, (v.toDraft s).result = .ok b) ↔
    (s.duplicatePolicy = .reject → ¬ v.Contradictory) := by
  simp only [toDraft_eq_ok_iff, exists_and_left, exists_eq, and_true, Draft.ofDefinitions_ok_iff,
    contradictory_iff, not_not, labelled]

theorem exists_error_iff : (∃ f, (v.toDraft s).result = .error f) ↔
    ¬ ∃ b, (v.toDraft s).result = .ok b := by
  cases (v.toDraft s).result <;> simp

/-- The definition that is refused is the first lost one. -/
theorem toDraft_eq_error_iff_of_reject (hpolicy : s.duplicatePolicy = .reject) :
    (v.toDraft s).result = .error f ↔ ∃ before d, Registry.FirstLost v.definitions before d ∧
      f = .duplicateDefinition d.category d.name (v.effectiveLabel s) := by
  have hrun : ∀ before d, Registry.FirstLost v.definitions before d →
      (v.toDraft s).result
        = .error (.duplicateDefinition d.category d.name (v.effectiveLabel s)) := by
    intro before d hlost
    have hfirst : (Draft.ofSettings (v.labelled s)).registry.FirstConflict v.definitions before d :=
      Registry.firstLost_iff.mp hlost
    exact toDraft_eq_error_iff.mpr (Draft.addAll_of_first hpolicy hfirst).1
  constructor
  · intro h
    obtain ⟨before, d, hfirst⟩ := Draft.exists_firstConflict_of_error (toDraft_eq_error_iff.mp h)
    have hlost : Registry.FirstLost v.definitions before d := Registry.firstLost_iff.mpr hfirst
    rw [hrun before d hlost] at h
    exact ⟨before, d, hlost, (Except.error.inj h).symm⟩
  · rintro ⟨before, d, hlost, rfl⟩
    exact hrun before d hlost

theorem storedIn_of_ok (h : (v.toDraft s).result = .ok b) : v.StoredIn b.registry := by
  obtain ⟨hok, rfl⟩ := toDraft_eq_ok_iff.mp h
  refine storedIn_of_find? fun c n => ?_
  have hnew : (Draft.ofSettings (v.labelled s)).registry.find? c n = none := Registry.find?_opened
  rw [Draft.find?_addAll hok, hnew, Option.none_or]

/-! ## Order -/

/-- The inventories differ in nothing but the order within their lists. -/
structure Rearranged (v v' : Inventory) : Prop where
  source : v.source = v'.source
  entities : v.entityRecords.Perm v'.entityRecords
  relationships : v.relationshipRecords.Perm v'.relationshipRecords
  classifications : v.classificationRecords.Perm v'.classificationRecords
  enums : v.enumRecords.Perm v'.enumRecords

namespace Rearranged

variable (h : v.Rearranged v')

include h

theorem definitions : v.definitions.Perm v'.definitions :=
  (((h.entities.map _).append (h.relationships.map _)).append (h.classifications.map _)).append
    (h.enums.map _)

theorem labelled : v.labelled s = v'.labelled s := by
  simp only [Inventory.labelled, effectiveLabel, h.source]

theorem sameOutcome (hv : ¬ v.Contradictory) : ∃ b b',
    (v.toDraft s).result = .ok b ∧ (v'.toDraft s).result = .ok b' ∧ b.registry = b'.registry ∧
      SameOutcome b.resolve.result b'.resolve.result := by
  have hu : Unconflicting v.definitions := by rwa [contradictory_iff, not_not] at hv
  have hok : (v.toDraft s).result = .ok (Draft.ofDefinitions (v.labelled s) v.definitions).1 :=
    toDraft_eq_ok_iff.mpr ⟨Draft.ofDefinitions_ok_iff.mpr fun _ => hu, rfl⟩
  have hok' : (v'.toDraft s).result
      = .ok (Draft.ofDefinitions (v.labelled s) v'.definitions).1 := by
    rw [h.labelled]
    exact toDraft_eq_ok_iff.mpr
      ⟨Draft.ofDefinitions_ok_iff.mpr fun _ => hu.perm h.definitions, rfl⟩
  have hregistry := Draft.registry_eq_of_perm (s := v.labelled s) h.definitions hu
  exact ⟨_, _, hok, hok', hregistry, Draft.sameOutcome hregistry (Draft.mode_eq _ _)⟩

end Rearranged

end Inventory

/-- Under the first-write-wins policy every inventory is registered. Under the reject policy one that
contradicts itself is refused, for the first definition that is lost. Of what is registered, the first
record of each name is stored field by field, and the draft is the one that the definitions give when
they are added to a new draft of the label. Without contradictions, the order within the lists does
not matter. -/
theorem inventory_registered_losslessly (v : Inventory) (s : Settings) :
    (s.duplicatePolicy = .firstWriteWins → ∃ b, (v.toDraft s).result = .ok b) ∧
    (s.duplicatePolicy = .reject →
      ((∃ f, (v.toDraft s).result = .error f) ↔ v.Contradictory) ∧
      ∀ f, (v.toDraft s).result = .error f ↔
        ∃ before d, Registry.FirstLost v.definitions before d ∧
          f = .duplicateDefinition d.category d.name (v.effectiveLabel s)) ∧
    (∀ b, (v.toDraft s).result = .ok b →
      v.StoredIn b.registry ∧ b.label = v.effectiveLabel s ∧
      (Draft.ofDefinitions (v.labelled s) v.definitions).2.result = .ok () ∧
      b = (Draft.ofDefinitions (v.labelled s) v.definitions).1) ∧
    (¬ v.Contradictory → ∀ v', v.Rearranged v' → ∃ b b',
      (v.toDraft s).result = .ok b ∧ (v'.toDraft s).result = .ok b' ∧
      b.registry = b'.registry ∧ SameOutcome b.resolve.result b'.resolve.result) := by
  refine ⟨fun hpolicy => ?_, fun hpolicy => ⟨?_, fun f => ?_⟩, fun b h => ?_,
    fun hv v' h => h.sameOutcome hv⟩
  · rw [Inventory.exists_toDraft_iff, hpolicy]
    intro h
    cases h
  · simp only [Inventory.exists_error_iff, Inventory.exists_toDraft_iff, hpolicy, true_imp_iff,
      not_not]
  · exact Inventory.toDraft_eq_error_iff_of_reject hpolicy
  · obtain ⟨hok, rfl⟩ := Inventory.toDraft_eq_ok_iff.mp h
    exact ⟨Inventory.storedIn_of_ok h, (Draft.settings_addAll _ _).2.1, hok, rfl⟩

/-- An entity type twice, the same, and as a classification too. -/
def repeated : Inventory where
  schemaVersion := 0
  source := some "repo"
  entityRecords := [{ name := "asset", guid := "g1" },
    { name := "table", supertype := some { name := some "asset", guid := some "g1" } },
    { name := "asset", guid := "g1" }]
  relationshipRecords :=
    [{ name := "stores"
       end1 := { entityType := .named "asset" }
       end2 := { entityType := .named "table", attributeName := some "tables" } }]
  classificationRecords := [{ name := "asset", validEntityTypes := [.named "asset"] }]

def rearranged : Inventory :=
  { repeated with entityRecords := repeated.entityRecords.reverse }

/-- The entity type a third time, with another guid. -/
def contradicted : Inventory :=
  { repeated with entityRecords := repeated.entityRecords ++ [{ name := "asset", guid := "g2" }] }

theorem inventory_registered_losslessly_contradicted :
    (∃ b, (contradicted.toDraft { duplicatePolicy := .firstWriteWins }).result = .ok b ∧
      b.label = "repo" ∧
      b.registry.entities.get? "asset" = some { name := "asset", guid := "g1" }) ∧
    (contradicted.toDraft {}).result = .error (.duplicateDefinition .entity "asset" "repo") ∧
    ∃ b b', (repeated.toDraft {}).result = .ok b ∧ (rearranged.toDraft {}).result = .ok b' ∧
      b.registry = b'.registry := by
  obtain ⟨hkeeps, -, hstored, -⟩ :=
    inventory_registered_losslessly contradicted { duplicatePolicy := .firstWriteWins }
  obtain ⟨-, hrefused, -, -⟩ := inventory_registered_losslessly contradicted {}
  obtain ⟨-, -, -, hsame⟩ := inventory_registered_losslessly repeated {}
  refine ⟨?_, ?_, ?_⟩
  · obtain ⟨b, hb⟩ := hkeeps rfl
    obtain ⟨hfirst, hlabel, -⟩ := hstored b hb
    refine ⟨b, hb, hlabel, (hfirst.entities _ _).mpr ?_⟩
    exact ⟨{ name := "asset", guid := "g1" }, rfl, (Inventory.Entity.becomes_iff _ _).mpr rfl⟩
  · have hlost : Registry.FirstLost contradicted.definitions (contradicted.definitions.take 3)
        (.entity { name := "asset", guid := "g2" }) :=
      ⟨⟨contradicted.definitions.drop 4, rfl⟩,
        ⟨.entity { name := "asset", guid := "g1" }, rfl, by decide⟩,
        Registry.unconflicting_iff_none_lost.mp (by decide +kernel)⟩
    exact ((hrefused rfl).2 _).mpr ⟨_, _, hlost, rfl⟩
  · have hconsistent : ¬ repeated.Contradictory := by
      rw [Inventory.contradictory_iff, not_not]
      decide +kernel
    obtain ⟨b, b', hb, hb', hregistry, -⟩ := hsame hconsistent rearranged
      ⟨rfl, (List.reverse_perm _).symm, .refl _, .refl _, .refl _⟩
    exact ⟨b, b', hb, hb', hregistry⟩

end Metamodel
