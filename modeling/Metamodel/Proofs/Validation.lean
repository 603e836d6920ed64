import Mathlib.Data.List.DropRight
import Mathlib.Data.List.Nodup
import Metamodel.Inventory.Validation

/-!
# Metamodel.Proofs.Validation

Which inventories are accepted, and what is said of the others.

* `Inventory.Acceptable` — what an inventory must be like, said of the whole document at once.
* `Inventory.FirstFlaw`  — a flaw such that everything before it in the document is sound.
* `Inventory.Decides`    — a check succeeds on what is sound and fails with the first flaw of the
  rest. Checks made one after the other, and one check over a list, decide likewise.
* `Inventory.Flaw.ReportedAs` — what a diagnosis says of a flaw, word by word.
* `validation_finds_first_flaw` — validation accepts the one kind of inventories, and reports the
  first flaw of any other.
-/

namespace Metamodel

/-! ## Blank texts -/

/-- A text without the blanks before and after it. -/
def trimmed (s : String) : String :=
  String.ofList ((s.toList.dropWhile isBlankChar).rdropWhile isBlankChar)

theorem trimmed_eq_empty {s : String} : trimmed s = "" ↔ isBlank s = true := by
  rw [trimmed, ← String.toList_inj, String.toList_ofList, String.toList_empty,
    List.rdropWhile_eq_nil_iff, isBlank_iff]
  constructor
  · intro h
    -- if anything were left on the left, its first character would be no blank
    cases hrest : s.toList.dropWhile isBlankChar with
    | nil => exact List.dropWhile_eq_nil_iff.mp hrest
    | cons c cs =>
      have hkept := List.head_dropWhile_not isBlankChar (l := s.toList) (by simp [hrest])
      have hblank := h c (by simp [hrest])
      simp [hrest, hblank] at hkept
  · intro h c hc
    exact h c ((List.dropWhile_suffix _).subset hc)

/-- Something is left of the text when it is trimmed. -/
def NonBlank (s : String) : Prop := trimmed s ≠ ""

instance (s : String) : Decidable (NonBlank s) := inferInstanceAs (Decidable (_ ≠ _))

theorem not_nonBlank {s : String} : ¬ NonBlank s ↔ isBlank s = true := by
  rw [NonBlank, not_not, trimmed_eq_empty]

namespace Inventory

/-! ## Checks -/

/-- Some record has the flaw, and every record before it is sound. -/
def FirstIn {α : Type} (Sound : α → Prop) (Flawed : α → Flaw → Prop) (rs : List α) (f : Flaw) :
    Prop :=
  ∃ before r after, rs = before ++ r :: after ∧ (∀ q ∈ before, Sound q) ∧ Flawed r f

/-- A check succeeds if all is sound, and otherwise fails with the first flaw. -/
structure Decides (check : Except Flaw Unit) (Sound : Prop) (First : Flaw → Prop) : Prop where
  ok_iff : check = .ok () ↔ Sound
  error_iff : ∀ f, check = .error f ↔ First f

theorem decides_rejectIf (p : Prop) [Decidable p] (f : Flaw) :
    Decides (rejectIf p f) (¬ p) fun g => p ∧ g = f := by
  constructor
  · by_cases hp : p <;> simp [rejectIf, hp]
  · intro g
    by_cases hp : p <;> simp [rejectIf, hp, eq_comm]

variable {x y : Except Flaw Unit} {S T : Prop} {F G : Flaw → Prop}

theorem Decides.congr (h : Decides x S F) (hS : S ↔ T) (hF : ∀ f, F f ↔ G f) : Decides x T G :=
  ⟨h.ok_iff.trans hS, fun f => (h.error_iff f).trans (hF f)⟩

/-- A check made with what was found, if it was found. -/
theorem Decides.withValue {α : Type} {z : Except Flaw α} {a : α} {check : α → Except Flaw Unit}
    (hok : ∀ b, z = .ok b ↔ S ∧ b = a) (herror : ∀ f, z = .error f ↔ F f)
    (hy : Decides (check a) T G) : Decides (z >>= check) (S ∧ T) fun f => F f ∨ S ∧ G f := by
  cases z with
  | error g =>
    have hS : ¬ S := by simpa using hok a
    constructor
    · simp [bind, Except.bind, hS]
    · intro f
      simp [bind, Except.bind, ← herror, hS]
  | ok b =>
    obtain ⟨hS, rfl⟩ := (hok b).mp rfl
    constructor
    · simp [bind, Except.bind, hS, hy.ok_iff]
    · intro f
      simp [bind, Except.bind, ← herror, hS, hy.error_iff]

/-- The second check is made only if the first one succeeds. -/
theorem Decides.andThen (hx : Decides x S F) (hy : Decides y T G) :
    Decides (do x; y) (S ∧ T) fun f => F f ∨ S ∧ G f :=
  Decides.withValue (a := ()) (fun _ => hx.ok_iff.trans (and_iff_left rfl).symm) hx.error_iff hy

section Lists

variable {α : Type} {Sound : α → Prop} {First : α → Flaw → Prop} {r : α} {rs : List α} {f : Flaw}

theorem firstIn_nil : ¬ FirstIn Sound First [] f := by
  rintro ⟨before, r, after, h, -⟩
  simp at h

theorem firstIn_cons :
    FirstIn Sound First (r :: rs) f ↔ First r f ∨ Sound r ∧ FirstIn Sound First rs f := by
  constructor
  · rintro ⟨before, q, after, heq, hsound, hq⟩
    cases before with
    | nil =>
      cases heq
      exact .inl hq
    | cons p before =>
      cases heq
      exact .inr ⟨hsound r (by simp), before, q, after, rfl,
        fun p hp => hsound p (by simp [hp]), hq⟩
  · rintro (hr | ⟨hr, before, q, after, rfl, hsound, hq⟩)
    · exact ⟨[], r, rs, rfl, by simp, hr⟩
    · exact ⟨r :: before, q, after, rfl, by simpa [hr] using hsound, hq⟩

/-- A loop that stops at the first failure finds the first record with a flaw. -/
theorem Decides.loop {check : α → Except Flaw Unit}
    (h : ∀ r, Decides (check r) (Sound r) (First r)) (rs : List α) :
    Decides (forM rs check) (∀ r ∈ rs, Sound r) (FirstIn Sound First rs) := by
  induction rs with
  | nil =>
    constructor
    · simp [pure, Except.pure]
    · intro f
      simp [pure, Except.pure, firstIn_nil]
  | cons r rs ih =>
    rw [List.forM_cons]
    refine ((h r).andThen ih).congr ?_ ?_
    · simp
    · intro f
      rw [firstIn_cons]

end Lists

/-! ## Records -/

/-- A type and its attributes have names that show something. -/
structure NamesSound (name : String) (as : List Attribute) : Prop where
  own : NonBlank name
  attributes : ∀ a ∈ as, NonBlank a.name

/-- The name of a type comes before those of its attributes. -/
inductive NamesFirst (c : Category) (name : String) (as : List Attribute) : Flaw → Prop where
  | own : ¬ NonBlank name → NamesFirst c name as (.blankName c)
  | attribute : NonBlank name → (∃ a ∈ as, ¬ NonBlank a.name) →
      NamesFirst c name as (.blankAttributeName name)

theorem decides_requireName (c : Category) (name : String) :
    Decides (requireName c name) (NonBlank name) fun f => ¬ NonBlank name ∧ f = .blankName c := by
  refine (decides_rejectIf _ _).congr ?_ ?_
  · rw [← not_nonBlank, not_not]
  · intro f
    rw [not_nonBlank]

theorem decides_checkNames (c : Category) (name : String) (as : List Attribute) :
    Decides (checkNames c name as) (NamesSound name as) (NamesFirst c name as) := by
  have hblank : as.any (isBlank ·.name) = true ↔ ∃ a ∈ as, ¬ NonBlank a.name := by
    simp [not_nonBlank]
  refine ((decides_requireName c name).andThen (decides_rejectIf _ _)).congr ?_ ?_
  · rw [hblank]
    simp only [not_exists, not_and, not_not]
    exact ⟨fun ⟨h, ha⟩ => ⟨h, ha⟩, fun ⟨h, ha⟩ => ⟨h, ha⟩⟩
  · intro f
    rw [hblank]
    constructor
    · rintro (⟨h, rfl⟩ | ⟨h, ha, rfl⟩)
      · exact .own h
      · exact .attribute h ha
    · rintro (h | ⟨h, ha⟩)
      · exact .inl ⟨h, rfl⟩
      · exact .inr ⟨h, ha, rfl⟩

/-! ## Enumerations -/

structure Enum.Sound (r : Enum) : Prop where
  name : NonBlank r.name
  /-- No two elements have an ordinal in common. -/
  ordinals : (r.elements.map (·.ordinal)).Nodup
  default : ∀ o, r.defaultOrdinal = some o → ∃ e ∈ r.elements, e.ordinal = o

/-- A repeated ordinal, the first one of them, comes before an unknown default. -/
inductive Enum.First (r : Enum) : Flaw → Prop where
  | name : ¬ NonBlank r.name → r.First (.blankName .enumeration)
  | repeated {before after : List Element} {e : Element} : NonBlank r.name →
      r.elements = before ++ e :: after → (before.map (·.ordinal)).Nodup →
      (∃ d ∈ before, d.ordinal = e.ordinal) → r.First (.duplicateOrdinal e.ordinal r.name)
  | unknown {o : Int32} : NonBlank r.name → (r.elements.map (·.ordinal)).Nodup →
      r.defaultOrdinal = some o → (¬ ∃ e ∈ r.elements, e.ordinal = o) →
      r.First (.unknownDefault o r.name)

variable {enum : String} {seen : List Int32} {es : List Element} {f : Flaw}

/-- By induction on the elements; those behind are in `seen`, the last one first. -/
theorem collectOrdinals_eq_ok_iff (hseen : seen.Nodup) {os : List Int32} :
    collectOrdinals enum seen es = .ok os ↔
      ((es.map (·.ordinal)).reverse ++ seen).Nodup ∧ os = (es.map (·.ordinal)).reverse ++ seen := by
  induction es generalizing seen with
  | nil => simp [collectOrdinals, hseen, pure, Except.pure, eq_comm]
  | cons e es ih =>
    by_cases he : e.ordinal ∈ seen
    · simp [collectOrdinals, rejectIf, he, bind, Except.bind, List.nodup_append]
    · have hcons : (e.ordinal :: seen).Nodup := List.nodup_cons.mpr ⟨he, hseen⟩
      simp [collectOrdinals, rejectIf, he, bind, Except.bind, ih hcons]

theorem collectOrdinals_eq_error_iff (hseen : seen.Nodup) :
    collectOrdinals enum seen es = .error f ↔ ∃ before e after, es = before ++ e :: after ∧
      ((before.map (·.ordinal)).reverse ++ seen).Nodup ∧
      e.ordinal ∈ (before.map (·.ordinal)).reverse ++ seen ∧
      f = .duplicateOrdinal e.ordinal enum := by
  induction es generalizing seen with
  | nil => simp [collectOrdinals, pure, Except.pure]
  | cons e es ih =>
    by_cases he : e.ordinal ∈ seen
    · have hrun : collectOrdinals enum seen (e :: es) = .error (.duplicateOrdinal e.ordinal enum) := by
        simp [collectOrdinals, rejectIf, he, bind, Except.bind]
      rw [hrun]
      constructor
      · intro h
        cases h
        exact ⟨[], e, es, rfl, by simpa using hseen, by simpa using he, rfl⟩
      · rintro ⟨before, d, after, heq, hnodup, -, rfl⟩
        cases before with
        | nil =>
          cases heq
          rfl
        | cons b before =>
          cases heq
          simp [List.nodup_append, he] at hnodup
    · have hcons : (e.ordinal :: seen).Nodup := List.nodup_cons.mpr ⟨he, hseen⟩
      have hrun : collectOrdinals enum seen (e :: es)
          = collectOrdinals enum (e.ordinal :: seen) es := by
        simp [collectOrdinals, rejectIf, he, bind, Except.bind]
      rw [hrun, ih hcons]
      constructor
      · rintro ⟨before, d, after, rfl, hnodup, hd, rfl⟩
        exact ⟨e :: before, d, after, rfl, by simpa using hnodup, by simpa using hd, rfl⟩
      · rintro ⟨before, d, after, heq, hnodup, hd, rfl⟩
        cases before with
        | nil =>
          cases heq
          exact absurd (by simpa using hd) he
        | cons b before =>
          cases heq
          exact ⟨before, d, after, rfl, by simpa using hnodup, by simpa using hd, rfl⟩

theorem decides_checkDefault (enum : String) (os : List Int32) (o : Option Int32) :
    Decides (checkDefault enum os o) (∀ i, o = some i → i ∈ os)
      fun f => ∃ i, o = some i ∧ i ∉ os ∧ f = .unknownDefault i enum := by
  cases o with
  | none =>
    constructor <;> simp [checkDefault, pure, Except.pure]
  | some i =>
    refine (decides_rejectIf (i ∉ os) (.unknownDefault i enum)).congr ?_ ?_
    · simp
    · simp

theorem decides_checkEnum (r : Enum) : Decides (checkEnum r) r.Sound r.First := by
  have hrest : Decides (collectOrdinals r.name [] r.elements >>=
      (checkDefault r.name · r.defaultOrdinal)) _ _ :=
    Decides.withValue (fun _ => collectOrdinals_eq_ok_iff List.nodup_nil)
      (fun _ => collectOrdinals_eq_error_iff List.nodup_nil) (decides_checkDefault ..)
  refine ((decides_requireName .enumeration r.name).andThen hrest).congr ?_ ?_
  · simp only [List.append_nil, List.nodup_reverse, List.mem_reverse, List.mem_map]
    exact ⟨fun ⟨hn, ho, hd⟩ => ⟨hn, ho, hd⟩, fun ⟨hn, ho, hd⟩ => ⟨hn, ho, hd⟩⟩
  · intro f
    simp only [List.append_nil, List.nodup_reverse, List.mem_reverse, List.mem_map]
    constructor
    · rintro (⟨hn, rfl⟩ | ⟨hn, ⟨before, e, after, heq, hb, he, rfl⟩ | ⟨ho, o, hd, hnone, rfl⟩⟩)
      · exact .name hn
      · exact .repeated hn heq hb he
      · exact .unknown hn ho hd hnone
    · intro h
      cases h with
      | name hn => exact .inl ⟨hn, rfl⟩
      | repeated hn heq hb he => exact .inr ⟨hn, .inl ⟨_, _, _, heq, hb, he, rfl⟩⟩
      | unknown hn ho hd hnone => exact .inr ⟨hn, .inr ⟨ho, _, hd, hnone, rfl⟩⟩

/-! ## Documents -/

def Entity.Sound (r : Entity) : Prop := NamesSound r.name r.attributes

def Entity.First (r : Entity) : Flaw → Prop := NamesFirst .entity r.name r.attributes

theorem decides_checkEntity (r : Entity) : Decides (checkEntity r) r.Sound r.First :=
  decides_checkNames .entity r.name r.attributes

def Relationship.Sound (r : Relationship) : Prop := NonBlank r.name

def Relationship.First (r : Relationship) (f : Flaw) : Prop :=
  ¬ NonBlank r.name ∧ f = .blankName .relationship

theorem decides_checkRelationship (r : Relationship) :
    Decides (checkRelationship r) r.Sound r.First :=
  decides_requireName .relationship r.name

def Classification.Sound (r : Classification) : Prop := NamesSound r.name r.attributes

def Classification.First (r : Classification) : Flaw → Prop :=
  NamesFirst .classification r.name r.attributes

theorem decides_checkClassification (r : Classification) :
    Decides (checkClassification r) r.Sound r.First :=
  decides_checkNames .classification r.name r.attributes

/-- What validation accepts. -/
structure Acceptable (v : Inventory) : Prop where
  version : v.schemaVersion = 0
  source : v.source ≠ some ""
  entities : ∀ r ∈ v.entityRecords, r.Sound
  relationships : ∀ r ∈ v.relationshipRecords, r.Sound
  classifications : ∀ r ∈ v.classificationRecords, r.Sound
  enums : ∀ r ∈ v.enumRecords, r.Sound

/-- A flaw of the document that no other flaw comes before. -/
inductive FirstFlaw (v : Inventory) : Flaw → Prop where
  | version : v.schemaVersion ≠ 0 → v.FirstFlaw (.unsupportedVersion v.schemaVersion)
  | source : v.schemaVersion = 0 → v.source = some "" → v.FirstFlaw .emptySource
  | entity {f : Flaw} : v.schemaVersion = 0 → v.source ≠ some "" →
      FirstIn Entity.Sound Entity.First v.entityRecords f → v.FirstFlaw f
  | relationship {f : Flaw} : v.schemaVersion = 0 → v.source ≠ some "" →
      (∀ r ∈ v.entityRecords, r.Sound) →
      FirstIn Relationship.Sound Relationship.First v.relationshipRecords f → v.FirstFlaw f
  | classification {f : Flaw} : v.schemaVersion = 0 → v.source ≠ some "" →
      (∀ r ∈ v.entityRecords, r.Sound) → (∀ r ∈ v.relationshipRecords, r.Sound) →
      FirstIn Classification.Sound Classification.First v.classificationRecords f → v.FirstFlaw f
  | enumeration {f : Flaw} : v.schemaVersion = 0 → v.source ≠ some "" →
      (∀ r ∈ v.entityRecords, r.Sound) → (∀ r ∈ v.relationshipRecords, r.Sound) →
      (∀ r ∈ v.classificationRecords, r.Sound) →
      FirstIn Enum.Sound Enum.First v.enumRecords f → v.FirstFlaw f

theorem decides_check (v : Inventory) : Decides v.check v.Acceptable v.FirstFlaw := by
  have hrun := (decides_rejectIf (v.schemaVersion ≠ supportedVersion)
      (.unsupportedVersion v.schemaVersion)).andThen
    ((decides_rejectIf (v.source = some "") .emptySource).andThen
      ((Decides.loop decides_checkEntity v.entityRecords).andThen
        ((Decides.loop decides_checkRelationship v.relationshipRecords).andThen
          ((Decides.loop decides_checkClassification v.classificationRecords).andThen
            (Decides.loop decides_checkEnum v.enumRecords)))))
  refine hrun.congr ?_ ?_
  · rw [not_not]
    exact ⟨fun ⟨hv, hs, he, hr, hc, hn⟩ => ⟨hv, hs, he, hr, hc, hn⟩,
      fun ⟨hv, hs, he, hr, hc, hn⟩ => ⟨hv, hs, he, hr, hc, hn⟩⟩
  · intro f
    rw [not_not]
    constructor
    · rintro (⟨hv, rfl⟩ | ⟨hv, ⟨hs, rfl⟩ | ⟨hs, h | ⟨he, h | ⟨hr, h | ⟨hc, h⟩⟩⟩⟩⟩)
      · exact .version hv
      · exact .source hv hs
      · exact .entity hv hs h
      · exact .relationship hv hs he h
      · exact .classification hv hs he hr h
      · exact .enumeration hv hs he hr hc h
    · intro h
      cases h with
      | version hv => exact .inl ⟨hv, rfl⟩
      | source hv hs => exact .inr ⟨hv, .inl ⟨hs, rfl⟩⟩
      | entity hv hs h => exact .inr ⟨hv, .inr ⟨hs, .inl h⟩⟩
      | relationship hv hs he h => exact .inr ⟨hv, .inr ⟨hs, .inr ⟨he, .inl h⟩⟩⟩
      | classification hv hs he hr h => exact .inr ⟨hv, .inr ⟨hs, .inr ⟨he, .inr ⟨hr, .inl h⟩⟩⟩⟩
      | enumeration hv hs he hr hc h =>
        exact .inr ⟨hv, .inr ⟨hs, .inr ⟨he, .inr ⟨hr, .inr ⟨hc, h⟩⟩⟩⟩⟩

/-! ## Reports -/

/-- The words for a flaw. -/
inductive Flaw.Worded : Flaw → String → Prop where
  | version {n : UInt32} : Worded (.unsupportedVersion n)
      ("Unsupported schema_version: " ++ toString n.toNat ++ ". Expected 0")
  | source : Worded .emptySource "source label must not be empty"
  | entity : Worded (.blankName .entity) "entity type with empty name"
  | relationship : Worded (.blankName .relationship) "relationship type with empty name"
  | classification : Worded (.blankName .classification) "classification type with empty name"
  | enumeration : Worded (.blankName .enumeration) "enum type with empty name"
  | attribute {owner : String} : Worded (.blankAttributeName owner)
      ("Attribute with empty name on type " ++ owner)
  | repeated {o : Int32} {enum : String} : Worded (.duplicateOrdinal o enum)
      ("Duplicate ordinal " ++ toString o.toInt ++ " in enum " ++ enum)
  | unknown {o : Int32} {enum : String} : Worded (.unknownDefault o enum)
      ("Default ordinal " ++ toString o.toInt ++ " is not an element of enum " ++ enum)

theorem Flaw.worded_iff {f : Flaw} {text : String} : f.Worded text ↔ text = f.message := by
  constructor
  · intro h
    cases h <;> rfl
  · rintro rfl
    cases f with
    | unsupportedVersion n => exact .version
    | emptySource => exact .source
    | blankName c =>
      cases c with
      | entity => exact .entity
      | relationship => exact .relationship
      | classification => exact .classification
      | enumeration => exact .enumeration
    | blankAttributeName owner => exact .attribute
    | duplicateOrdinal o enum => exact .repeated
    | unknownDefault o enum => exact .unknown

/-- A flaw is reported as invalid input, in its own words. A document is at fault as a whole, so no
type, reference or source is named, and nothing else is reported with it. -/
structure Flaw.ReportedAs (f : Flaw) (d : Diagnosis) : Prop where
  kind : d.kind = .invalidInput
  op : d.op = some "inventory_validate"
  message : f.Worded d.message
  typeName : d.typeName = none
  referencedName : d.referencedName = none
  reference : d.reference = none
  sourceLabel : d.sourceLabel = none
  related : d.related = []

theorem Flaw.reportedAs_iff {f : Flaw} {d : Diagnosis} : f.ReportedAs d ↔ d = f.diagnose := by
  constructor
  · rintro ⟨hkind, hop, hmessage, htype, hname, href, hlabel, hrelated⟩
    cases d
    cases hkind
    cases hop
    cases worded_iff.mp hmessage
    cases htype
    cases hname
    cases href
    cases hlabel
    cases hrelated
    rfl
  · rintro rfl
    exact ⟨rfl, rfl, worded_iff.mpr rfl, rfl, rfl, rfl, rfl, rfl⟩

theorem validate_eq_ok_iff {v : Inventory} : v.validate = .ok () ↔ v.Acceptable := by
  rw [← v.decides_check.ok_iff, validate]
  cases v.check <;> simp [Except.mapError]

theorem validate_eq_error_iff {v : Inventory} {d : Diagnosis} :
    v.validate = .error d ↔ ∃ f, v.FirstFlaw f ∧ d = f.diagnose := by
  simp only [← v.decides_check.error_iff, validate]
  cases v.check <;> simp [Except.mapError, eq_comm]

theorem FirstFlaw.unique {v : Inventory} {f g : Flaw} (hf : v.FirstFlaw f) (hg : v.FirstFlaw g) :
    g = f := by
  rw [← v.decides_check.error_iff] at hf hg
  exact Except.error.inj (hg.symm.trans hf)

end Inventory

/-- Validation accepts the acceptable inventories. Any other one has a first flaw, and that is what
is reported. -/
theorem validation_finds_first_flaw (v : Inventory) :
    (v.validate = .ok () ↔ v.Acceptable) ∧
    ∀ d, v.validate = .error d ↔ ∃ f, v.FirstFlaw f ∧ (∀ g, v.FirstFlaw g → g = f) ∧
      f.ReportedAs d := by
  refine ⟨Inventory.validate_eq_ok_iff, fun d => Inventory.validate_eq_error_iff.trans ?_⟩
  constructor
  · rintro ⟨f, hf, hd⟩
    exact ⟨f, hf, fun g hg => hf.unique hg, Inventory.Flaw.reportedAs_iff.mpr hd⟩
  · rintro ⟨f, hf, -, hd⟩
    exact ⟨f, hf, Inventory.Flaw.reportedAs_iff.mp hd⟩

def kindEnum : Inventory.Enum where
  name := "kind"
  elements := [{ ordinal := 0, value := "A" }]

/-- Its ordinals are repeated, and its default is not one of them. -/
def stateEnum : Inventory.Enum where
  name := "state"
  elements := [{ ordinal := 0, value := "A" }, { ordinal := 0, value := "B" }]
  defaultOrdinal := some 1

/-- An attribute without a name, and an ordinal that two enumerations share. -/
def unkempt : Inventory where
  schemaVersion := 0
  entityRecords := [{ name := "asset" },
    { name := "table", attributes := [{ name := "\u2003", typeName := "int" }] }]
  enumRecords := [kindEnum, stateEnum]

/-- The same with sound entity types. -/
def untidy : Inventory := { unkempt with entityRecords := [{ name := "asset" }] }

/-- The attribute is reported first, and then the repeated ordinal, which stands before the unknown
default. -/
theorem validation_finds_first_flaw_unkempt :
    unkempt.validate = .error
      { kind := .invalidInput, op := some "inventory_validate",
        message := "Attribute with empty name on type table" } ∧
    untidy.validate = .error
      { kind := .invalidInput, op := some "inventory_validate",
        message := "Duplicate ordinal 0 in enum state" } := by
  have hasset : ∀ r ∈ [({ name := "asset" } : Inventory.Entity)], r.Sound :=
    List.forall_mem_singleton.mpr
      ⟨by decide +kernel, fun a ha => absurd ha List.not_mem_nil⟩
  constructor
  · have hfirst : unkempt.FirstFlaw (.blankAttributeName "table") := by
      refine .entity rfl (by decide) ⟨_, _, [], rfl, hasset, ?_⟩
      exact .attribute (by decide +kernel) ⟨_, List.mem_singleton_self _, by decide +kernel⟩
    refine ((validation_finds_first_flaw unkempt).2 _).mpr ⟨_, hfirst, fun _ => hfirst.unique, ?_⟩
    exact ⟨rfl, rfl, .attribute, rfl, rfl, rfl, rfl, rfl⟩
  · have hkind : ∀ r ∈ [kindEnum], r.Sound :=
      List.forall_mem_singleton.mpr
        ⟨by decide +kernel, List.nodup_singleton _, fun o ho => by cases ho⟩
    have hstate : stateEnum.First (.duplicateOrdinal 0 "state") := by
      have hsplit : stateEnum.elements
          = kindEnum.elements ++ [{ ordinal := 0, value := "B" }] := rfl
      exact .repeated (by decide +kernel) hsplit (List.nodup_singleton _)
        ⟨_, List.mem_singleton_self _, rfl⟩
    have hfirst : untidy.FirstFlaw (.duplicateOrdinal 0 "state") :=
      .enumeration rfl (by decide) hasset (fun r hr => absurd hr List.not_mem_nil)
        (fun r hr => absurd hr List.not_mem_nil) ⟨_, _, [], rfl, hkind, hstate⟩
    refine ((validation_finds_first_flaw untidy).2 _).mpr ⟨_, hfirst, fun _ => hfirst.unique, ?_⟩
    exact ⟨rfl, rfl, .repeated, rfl, rfl, rfl, rfl, rfl⟩

end Metamodel
