import Metamodel.CommandLine.Outcome
import Metamodel.Proofs.Diagnoses
import Metamodel.Proofs.Inventories
import Metamodel.Proofs.Lookups

/-!
# Metamodel.Proofs.Translations

Translating a name into a guid and back, with entity types before relationship types.

* `CommandLine.Outcome.Answers`, `CommandLine.Outcome.Denies` — what a lookup prints.
* `CommandLine.LooksUp` — a lookup prints what two maps say, asked one after the other.
* `CommandLine.WayBack` — what a printed answer says of the lookup the other way round.
* `CommandLine.LookupKey.IndexedAs` — a key stands in the index of a category.
* `lookups_translate_back` — the lookups of a model of any history, and the command that makes them.
-/

namespace Metamodel

/-! ## Two maps, one before the other -/

section EntityFirst

variable {e r : String → Option String} {k v : String}

/-- What a key goes with among entity types, or else among relationship types. -/
def entityFirst (e r : String → Option String) (k : String) : Option (String × Category) :=
  (e k).map (·, .entity) <|> (r k).map (·, .relationship)

theorem entityFirst_eq_entity : entityFirst e r k = some (v, .entity) ↔ e k = some v := by
  unfold entityFirst
  cases e k <;> cases r k <;> simp

theorem entityFirst_eq_relationship :
    entityFirst e r k = some (v, .relationship) ↔ e k = none ∧ r k = some v := by
  unfold entityFirst
  cases e k <;> cases r k <;> simp

theorem entityFirst_eq_none : entityFirst e r k = none ↔ e k = none ∧ r k = none := by
  unfold entityFirst
  cases e k <;> cases r k <;> simp

end EntityFirst

/-! ## Printed answers -/

namespace CommandLine

/-- The outcome is an answer, with the category it was found in. -/
structure Outcome.Answers (o : Outcome) (v category : String) : Prop where
  code : o.code = 0
  stdout : o.stdout = v ++ " (" ++ category ++ ")\n"
  stderr : o.stderr = ""

/-- The outcome says that nothing goes with the key. -/
structure Outcome.Denies (o : Outcome) (key : String) : Prop where
  code : o.code = 1
  stdout : o.stdout = ""
  stderr : o.stderr = "No entity or relationship type found for " ++ key ++ "\n"

/-- Lookups print what goes with a key among entity types, or else among relationship types. -/
structure LooksUp (look : String → Outcome) (e r : String → Option String) : Prop where
  entity : ∀ k v, (look k).Answers v "entity" ↔ e k = some v
  relationship : ∀ k v, (look k).Answers v "relationship" ↔ e k = none ∧ r k = some v
  nothing : ∀ k, (look k).Denies k ↔ e k = none ∧ r k = none

/-- What a printed answer says of the lookup back; `e` is the part for entity types. An entity type
is found again. A relationship type is, unless an entity type goes with the answer: then that one is
found. -/
structure WayBack (look back : String → Outcome) (e : String → Option String) : Prop where
  entity : ∀ k v, (look k).Answers v "entity" → (back v).Answers k "entity"
  relationship : ∀ k v, (look k).Answers v "relationship" →
    ((back v).Answers k "relationship" ↔ ¬ ∃ j, e j = some v) ∧
      ∀ j, e j = some v → (back v).Answers j "entity"

/-- Maps that are inverse in pairs, one pair before the other. -/
theorem LooksUp.wayBack {look back : String → Outcome} {e r e' r' : String → Option String}
    (h : LooksUp look e r) (hback : LooksUp back e' r') (he : ∀ k v, e k = some v ↔ e' v = some k)
    (hr : ∀ k v, r k = some v ↔ r' v = some k) : WayBack look back e where
  entity k v hk := (hback.entity v k).mpr ((he k v).mp ((h.entity k v).mp hk))
  relationship k v hk := by
    have hv : r' v = some k := (hr k v).mp ((h.relationship k v).mp hk).2
    refine ⟨?_, fun j hj => (hback.entity v j).mpr ((he j v).mp hj)⟩
    simp only [hback.relationship, hv, and_true, he, Option.eq_none_iff_forall_ne_some, ne_eq,
      not_exists]

section Lines

variable {m : Model} {key : LookupKey} {v v' : String} {c c' : Category}

/-- A line tells the answer and the category. The names of the categories end differently, which is
where the line is read from. -/
theorem line_inj :
    v ++ " (" ++ c.name ++ ")\n" = v' ++ " (" ++ c'.name ++ ")\n" ↔ v = v' ∧ c = c' := by
  constructor
  · intro h
    have hwords : v ++ " (" ++ c.name = v' ++ " (" ++ c'.name := (String.append_left_inj _).mp h
    have hlast := congrArg (fun s : String => s.toList.getLast?) hwords
    have hc : c = c' := by
      cases c <;> cases c' <;> first | rfl | simp [Category.name] at hlast
    subst hc
    exact ⟨(String.append_left_inj _).mp ((String.append_left_inj _).mp hwords), rfl⟩
  · rintro ⟨rfl, rfl⟩
    rfl

theorem answers_iff :
    (lookupOutcome m key).Answers v c.name ↔ key.find? m = some (v, c) := by
  unfold lookupOutcome
  cases key.find? m with
  | none => exact iff_of_false (fun h => absurd h.code Nat.one_ne_zero) (by simp)
  | some found =>
    obtain ⟨w, d⟩ := found
    rw [Option.some_inj, Prod.mk.injEq, ← line_inj]
    exact ⟨fun h => h.stdout, fun h => ⟨rfl, h, rfl⟩⟩

theorem denies_iff : (lookupOutcome m key).Denies key.text ↔ key.find? m = none := by
  unfold lookupOutcome
  cases key.find? m with
  | none => exact iff_of_true ⟨rfl, rfl, rfl⟩ rfl
  | some found => exact iff_of_false (fun h => absurd h.code Nat.zero_ne_one) (by simp)

theorem looksUp_name (m : Model) :
    LooksUp (fun n => lookupOutcome m (.name n)) m.entityGuid? m.relationshipGuid? where
  entity _ _ := (answers_iff (c := .entity)).trans entityFirst_eq_entity
  relationship _ _ := (answers_iff (c := .relationship)).trans entityFirst_eq_relationship
  nothing _ := denies_iff.trans entityFirst_eq_none

theorem looksUp_guid (m : Model) :
    LooksUp (fun g => lookupOutcome m (.guid g)) m.entityName? m.relationshipName? where
  entity _ _ := (answers_iff (c := .entity)).trans entityFirst_eq_entity
  relationship _ _ := (answers_iff (c := .relationship)).trans entityFirst_eq_relationship
  nothing _ := denies_iff.trans entityFirst_eq_none

end Lines

end CommandLine

/-! ## Models of histories -/

/-- The model is what the definitions of some history resolve to, refused ones included. -/
def Model.OfHistory (m : Model) : Prop :=
  ∃ s ds, ((Draft.ofSettings s).after ds).resolve.result = .ok m

namespace Model

variable {m : Model}

theorem OfHistory.inverse (h : m.OfHistory) :
    (∀ n g, m.entityGuid? n = some g ↔ m.entityName? g = some n) ∧
      ∀ n g, m.relationshipGuid? n = some g ↔ m.relationshipName? g = some n := by
  obtain ⟨s, ds, hrun⟩ := h
  have htranslates := Draft.translatesBy_of_resolve hrun
  have hinverse : ∀ c, c = .entity ∨ c = .relationship → ∀ n g,
      ((Draft.ofSettings s).after ds).guids.guidOf? c n = some g ↔
        ((Draft.ofSettings s).after ds).guids.nameOf? c g = some n :=
    fun c hc => (Draft.exact_after hc).inverse
  refine ⟨fun n g => ?_, fun n g => ?_⟩
  · rw [htranslates.entityGuid?, htranslates.entityName?]
    exact hinverse .entity (.inl rfl) n g
  · rw [htranslates.relationshipGuid?, htranslates.relationshipName?]
    exact hinverse .relationship (.inr rfl) n g

end Model

/-! ## The command -/

namespace CommandLine

/-- The key stands in a pair that is indexed for the category. -/
def LookupKey.IndexedAs (m : Model) (c : Category) : LookupKey → Prop
  | .name n => ∃ g, m.guids.guidOf? c n = some g
  | .guid g => ∃ n, m.guids.guidOf? c n = some g

variable {m : Model}

theorem LookupKey.find?_eq_none_iff (h : m.OfHistory) (key : LookupKey) : key.find? m = none ↔
    ¬ (key.IndexedAs m .entity ∨ key.IndexedAs m .relationship) := by
  obtain ⟨hentity, hrelationship⟩ := h.inverse
  cases key with
  | name n =>
    have hfind : (LookupKey.name n).find? m = none ↔
        m.entityGuid? n = none ∧ m.relationshipGuid? n = none := entityFirst_eq_none
    rw [hfind, not_or, Option.eq_none_iff_forall_ne_some, Option.eq_none_iff_forall_ne_some]
    exact and_congr not_exists.symm not_exists.symm
  | guid g =>
    have hfind : (LookupKey.guid g).find? m = none ↔
        m.entityName? g = none ∧ m.relationshipName? g = none := entityFirst_eq_none
    rw [hfind, not_or, Option.eq_none_iff_forall_ne_some, Option.eq_none_iff_forall_ne_some]
    simp only [ne_eq, ← hentity, ← hrelationship]
    exact and_congr not_exists.symm not_exists.symm

theorem code_lookupOutcome (m : Model) (key : LookupKey) :
    (lookupOutcome m key).code = if key.find? m = none then 1 else 0 := by
  unfold lookupOutcome
  cases key.find? m <;> rfl

end CommandLine

namespace Model

variable {m : Model}

open CommandLine

/-- How the lookups of a model fit together: what they print, what the answers lead back to, and
how they end. -/
structure TranslatesBack (m : Model) : Prop where
  names : LooksUp (fun n => lookupOutcome m (.name n)) m.entityGuid? m.relationshipGuid?
  guids : LooksUp (fun g => lookupOutcome m (.guid g)) m.entityName? m.relationshipName?
  fromNames : WayBack (fun n => lookupOutcome m (.name n)) (fun g => lookupOutcome m (.guid g))
    m.entityGuid?
  fromGuids : WayBack (fun g => lookupOutcome m (.guid g)) (fun n => lookupOutcome m (.name n))
    m.entityName?
  found : ∀ key : LookupKey, (lookupOutcome m key).code = 0 ↔
    key.IndexedAs m .entity ∨ key.IndexedAs m .relationship
  unfound : ∀ key : LookupKey, (lookupOutcome m key).code = 1 ↔
    ¬ (key.IndexedAs m .entity ∨ key.IndexedAs m .relationship)

theorem OfHistory.translatesBack (h : m.OfHistory) : m.TranslatesBack where
  names := looksUp_name m
  guids := looksUp_guid m
  fromNames := (looksUp_name m).wayBack (looksUp_guid m) h.inverse.1 h.inverse.2
  fromGuids := (looksUp_guid m).wayBack (looksUp_name m) (fun g n => (h.inverse.1 n g).symm)
    fun g n => (h.inverse.2 n g).symm
  found key := by
    rw [code_lookupOutcome, ← not_iff_not, ← LookupKey.find?_eq_none_iff h]
    split <;> simp [*]
  unfound key := by
    rw [code_lookupOutcome, ← LookupKey.find?_eq_none_iff h]
    split <;> simp [*]

end Model

/-- A loaded file resolves the definitions of an inventory, added to a new draft, whatever it is
written in. -/
theorem Inventory.ofHistory_of_load {read : String → Traced Diagnosis Inventory} {file : File}
    {s : Settings} {m : Model} (h : (Inventory.loadWith read file s).result = .ok m) :
    m.OfHistory := by
  obtain ⟨v, -, hmodel⟩ := Traced.bind_eq_ok_iff.mp h
  obtain ⟨b, hb, hrun⟩ := Traced.bind_eq_ok_iff.mp (Traced.mapError_eq_ok_iff.mp hmodel)
  obtain ⟨-, rfl⟩ := toDraft_eq_ok_iff.mp hb
  obtain ⟨ds, -, heq, -⟩ := Draft.addAll_eq_after (Draft.ofSettings (v.labelled s)) v.definitions
  exact ⟨v.labelled s, ds, heq ▸ hrun⟩

namespace CommandLine

variable {m : Model} {formats : Formats} {read : String → File}

theorem Source.ofHistory_of_load {src : Source} (h : (src.loadWith formats read).result = .ok m) :
    m.OfHistory := by
  obtain ⟨s, -, hload⟩ := Traced.bind_eq_ok_iff.mp h
  exact Inventory.ofHistory_of_load (Traced.mapError_eq_ok_iff.mp hload)

theorem Command.runWith_lookup {c : Command} {key : LookupKey} (hc : c.query = .lookup key)
    (h : (c.source.loadWith formats read).result = .ok m) : c.runWith formats read
      = { lookupOutcome m key with events := (c.source.loadWith formats read).events } := by
  simp only [runWith, h, hc, Query.outcome]

end CommandLine

/-- In any model of a history, what is printed for a name or a guid leads back to it, but for a
relationship type whose answer goes with an entity type too. A lookup succeeds exactly for what is
indexed. A command that is run does such a lookup, whatever its files are written in. -/
theorem lookups_translate_back :
    (∀ m : Model, m.OfHistory → m.TranslatesBack) ∧
      ∀ (c : CommandLine.Command) (key : CommandLine.LookupKey) (formats : CommandLine.Formats)
        (read : String → File) (m : Model), c.query = .lookup key →
          (c.source.loadWith formats read).result = .ok m → m.OfHistory ∧
            c.runWith formats read = { CommandLine.lookupOutcome m key with
              events := (c.source.loadWith formats read).events } :=
  ⟨fun _ h => h.translatesBack, fun _ _ _ _ _ hc h =>
    ⟨CommandLine.Source.ofHistory_of_load h, CommandLine.Command.runWith_lookup hc h⟩⟩

/-- A relationship type whose guid is that of an entity type. -/
def oneGuid : Draft :=
  (Draft.ofSettings {}).after [.entity { name := "table", guid := "g1" },
    .relationship (.between "stores" "g1" "table" "table")]

def oneGuidModel : Model := .ofResolved oneGuid.label oneGuid.registry.resolved oneGuid.guids

def soleText : String := "schema_version: 0\nentity_defs:\n- name: t\n  guid: g\n"

def sole : Inventory where
  schemaVersion := 0
  entityRecords := [{ name := "t", guid := "g" }]

def soleDraft : Draft := (Draft.ofSettings {}).after [.entity { name := "t", guid := "g" }]

def soleModel : Model :=
  .ofResolved soleDraft.label soleDraft.registry.resolved soleDraft.guids

def soleLookup : CommandLine.Command :=
  { source := { file := "types.yaml" }, query := .lookup (.name "t") }

/-- The guid of the relationship type leads to the entity type. -/
theorem lookups_translate_back_oneGuid :
    ((CommandLine.lookupOutcome oneGuidModel (.name "stores")).stdout = "g1 (relationship)\n" ∧
      (CommandLine.lookupOutcome oneGuidModel (.guid "g1")).stdout = "table (entity)\n" ∧
      (CommandLine.lookupOutcome oneGuidModel (.name "void")).stderr
        = "No entity or relationship type found for void\n") ∧
      (soleLookup.run fun _ => .ofText soleText).code = 0 ∧
      (soleLookup.run fun _ => .ofText soleText).stdout = "g (entity)\n" := by
  obtain ⟨hback, hcommand⟩ := lookups_translate_back
  constructor
  · have hnone : oneGuid.registry.defects = [] := by decide +kernel
    have hmodel := hback oneGuidModel ⟨_, _, Draft.resolve_eq_ok_iff.mpr ⟨hnone, rfl⟩⟩
    have hguid := (hmodel.names.relationship "stores" "g1").mpr (by decide +kernel)
    obtain ⟨-, hentity⟩ := hmodel.fromNames.relationship _ _ hguid
    have hvoid := (hmodel.names.nothing "void").mpr (by decide +kernel)
    exact ⟨hguid.stdout, (hentity "table" (by decide +kernel)).stdout, hvoid.stderr⟩
  · have hnone : soleDraft.registry.defects = [] := by decide +kernel
    have hloaded : (soleLookup.source.loadWith .standard fun _ => .ofText soleText).result
        = .ok soleModel := by
      have hsettings : soleLookup.source.settings (fun _ => .ofText soleText) = .ok {} := rfl
      have hv : (Inventory.parseFile (.ofText soleText)).result = .ok sole := by
        rw [Inventory.parseFile_ofText]
        exact eq_ok_of_toOption (by decide +kernel)
      have hb : (sole.toDraft {}).result = .ok soleDraft :=
        eq_ok_of_toOption (by decide +kernel)
      refine Traced.bind_eq_ok_iff.mpr ⟨{}, hsettings, Traced.mapError_eq_ok_iff.mpr ?_⟩
      change (Inventory.load (.ofText soleText) {}).result = .ok soleModel
      rw [Inventory.load, Inventory.loadWith_of_toDraft hv hb,
        Draft.resolve_eq_ok_iff.mpr ⟨hnone, rfl⟩]
      rfl
    obtain ⟨hhistory, hrun⟩ := hcommand soleLookup _ _ _ _ rfl hloaded
    have hguid := ((hback _ hhistory).names.entity "t" "g").mpr (by decide +kernel)
    rw [CommandLine.Command.run, hrun]
    exact ⟨hguid.code, hguid.stdout⟩

end Metamodel
