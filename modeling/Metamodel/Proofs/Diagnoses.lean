import Metamodel.Inventory.File
import Metamodel.Proofs.Models
import Metamodel.Proofs.Reports

/-!
# Metamodel.Proofs.Diagnoses

Whom a failed resolution blames, and what callers are told of it.

* `Defect.TrueOf` — a defect is one of a registry: its holder is registered and makes the failing
  reference, and what the reference names is not registered.
* `Fault.FoundIn` — a failure reports such defects, alone or in one flat collection.
* `Fault.at?`, `Diagnosis.at?` — errors that are reported together, by their place.
* `Fault.ToldBy`  — a diagnosis says what a fault says.
* `failures_told_truly` — resolutions fail with what is wrong, and callers are told all of it.
-/

namespace Metamodel

/-! ## Defects -/

/-- The links by which a definition refers to other types. -/
def TypeDef.links : ReferenceKind → TypeDef → List TypeLink
  | .supertype, .entity d => d.supertype.toList
  | .supertype, .classification d => d.supertype.toList
  | .relationshipEnd, .relationship d => [d.end1.entityType, d.end2.entityType]
  | .validEntity, .classification d => d.validEntityTypes
  | _, _ => []

namespace Defect

/-- The category of the type that holds the failing reference. -/
def holderCategory : Defect → Category
  | .missingSupertypeName h .. | .missingSupertypeDef h .. => h.category
  | .supertypeCycle category .. => category
  | .missingEndDef .. => .relationship
  | .missingValidEntityName .. | .missingValidEntityDef .. => .classification

/-- The category that the failing reference points into. -/
def targetCategory : Defect → Category
  | .missingSupertypeName h .. | .missingSupertypeDef h .. => h.category
  | .supertypeCycle category .. => category
  | .missingEndDef .. | .missingValidEntityName .. | .missingValidEntityDef .. => .entity

/-- The defect is one of the registry, blamed on the type whose reference it is. -/
structure TrueOf (d : Defect) (r : Registry) : Prop where
  label : d.label = r.label
  /-- The holder is registered, and the failing reference is its own. Links on a loop do lead
  somewhere; any other link fails for what it names. -/
  held : ∃ t, r.find? d.holderCategory d.typeName = some t ∧ ∃ l ∈ t.links d.reference,
    d.kind = .supertypeCycle ∨ l.target? = d.referencedName?
  dangling : ∀ n, d.referencedName? = some n → r.find? d.targetCategory n = none

theorem isStructural_kind (d : Defect) : d.kind.isStructural = true := by
  cases d with
  | missingSupertypeName h _ _ => cases h <;> rfl
  | missingSupertypeDef h _ _ _ => cases h <;> rfl
  | _ => rfl

end Defect

section Flaws

variable {r : Registry} {n : String} {d : Defect}

/-- In either hierarchy; `make` says which one. -/
theorem NameMap.Flaw.trueOf {δ : Type} [SupertypedDef δ] {m : NameMap δ} {make : δ → TypeDef}
    (hfind : ∀ k, r.find? (SupertypedDef.hierarchy δ).category k = (m.get? k).map make)
    (hlinks : ∀ a, (make a).links .supertype = (SupertypedDef.supertype a).toList)
    (h : m.Flaw r.label n d) : d.TrueOf r := by
  have hheld : ∀ {c : δ}, m.get? n = some c →
      r.find? (SupertypedDef.hierarchy δ).category n = some (make c) := fun hc =>
    (hfind n).trans (congrArg (Option.map make) hc)
  have hlink : ∀ {c : δ} {l : TypeLink}, SupertypedDef.supertype c = some l →
      l ∈ (make c).links .supertype := fun hl => by simp [hlinks, hl]
  cases h with
  | @unnamed c l hc hl hk =>
    exact ⟨rfl, ⟨make c, hheld hc, l, hlink hl, .inr hk⟩, fun _ hn => nomatch hn⟩
  | @unregistered k c l hc hl hk hnone =>
    refine ⟨rfl, ⟨make c, hheld hc, l, hlink hl, .inr hk⟩, fun j hj => ?_⟩
    cases hj
    exact (hfind k).trans (congrArg (Option.map make) hnone)
  | loop hloop _ =>
    obtain ⟨k, ⟨c, l, hc, hl, -⟩, -⟩ := Relation.TransGen.head'_iff.mp hloop
    exact ⟨rfl, ⟨make c, hheld hc, l, hlink hl, .inl rfl⟩, fun _ hn => nomatch hn⟩

theorem Registry.EndFlaw.trueOf {p : EndPosition} (h : r.EndFlaw n p d) : d.TrueOf r := by
  obtain ⟨a, ha, hlead, rfl⟩ := endFlaw_iff.mp h
  have hend : (a.endAt p).entityType ∈ (TypeDef.relationship a).links .relationshipEnd := by
    cases p <;> simp [TypeDef.links]
  have hheld : r.find? .relationship n = some (.relationship a) :=
    congrArg (Option.map TypeDef.relationship) ha
  refine ⟨rfl, ⟨.relationship a, hheld, _, hend, .inr rfl⟩, fun k hk => ?_⟩
  -- the end has a name, so it dangles because the name is not registered
  rcases TypeLink.not_leadsInto.mp hlead with hnone | ⟨j, hj, hnone⟩
  · cases hnone.symm.trans hk
  · cases hj.symm.trans hk
    exact congrArg (Option.map TypeDef.entity) hnone

theorem Registry.LinkFlaw.trueOf {l : TypeLink} (h : r.LinkFlaw n l d) : d.TrueOf r := by
  have hheld : ∀ {c : ClassificationDef}, r.classifications.get? n = some c →
      r.find? .classification n = some (.classification c) :=
    congrArg (Option.map TypeDef.classification)
  cases h with
  | @unnamed c _ hc hl hk =>
    exact ⟨rfl, ⟨.classification c, hheld hc, l, hl, .inr hk⟩, fun _ hn => nomatch hn⟩
  | @unregistered k c _ hc hl hk hnone =>
    refine ⟨rfl, ⟨.classification c, hheld hc, l, hl, .inr hk⟩, fun j hj => ?_⟩
    cases hj
    exact congrArg (Option.map TypeDef.entity) hnone

theorem Registry.trueOf_of_mem_defects (h : d ∈ r.defects) : d.TrueOf r := by
  have hentity : d ∈ r.entityDefects → d.TrueOf r := fun hd => by
    obtain ⟨k, hf⟩ := mem_entityDefects.mp hd
    exact hf.trueOf (fun _ => rfl) fun _ => rfl
  have hend : d ∈ r.endDefects → d.TrueOf r := fun hd => by
    obtain ⟨k, p, hf⟩ := mem_endDefects.mp hd
    exact hf.trueOf
  have hlink : d ∈ r.linkDefects → d.TrueOf r := fun hd => by
    obtain ⟨k, l, hf⟩ := mem_linkDefects.mp hd
    exact hf.trueOf
  have hclassification : d ∈ r.classificationDefects → d.TrueOf r := fun hd => by
    obtain ⟨k, hf⟩ := mem_classificationDefects.mp hd
    exact hf.trueOf (fun _ => rfl) fun _ => rfl
  rcases r.defects_cases with ⟨-, hp⟩ | ⟨-, -, hp⟩ | ⟨-, -, hp⟩ <;> rw [hp] at h
  · exact hentity h
  · exact hend h
  · exact (List.mem_append.mp h).elim hlink hclassification

end Flaws

/-! ## Failures -/

namespace Fault

variable {f : Fault} {r : Registry}

/-- An error that resolution raises, under the label of the registry. -/
structure RaisedFor (f : Fault) (r : Registry) : Prop where
  structural : f.kind.isStructural = true
  label : f.label? = some r.label

/-- A failed resolution: one defect of the registry, or a collection of them that holds no other
collection. -/
structure FoundIn (f : Fault) (r : Registry) : Prop extends f.RaisedFor r where
  nonempty : f.kind = .resolutionFailed → f.members ≠ []
  members : ∀ g ∈ f.members, g.RaisedFor r ∧ g.kind ≠ .resolutionFailed ∧
    ∃ d, g = .defect d ∧ d.TrueOf r
  alone : f.kind ≠ .resolutionFailed → ∃ d, f = .defect d ∧ d.TrueOf r

theorem raisedFor_defect {d : Defect} (h : d.TrueOf r) : (Fault.defect d).RaisedFor r :=
  ⟨d.isStructural_kind, congrArg some h.label⟩

end Fault

/-- Failing fast reports the first defect, and collecting each one once. -/
theorem Draft.foundIn_of_resolve {b : Draft} {f : Fault} (h : b.resolve.result = .error f) :
    f.FoundIn b.registry := by
  have htrue : ∀ d ∈ b.registry.defects, d.TrueOf b.registry := fun d =>
    Registry.trueOf_of_mem_defects
  rw [resolve_eq_error_iff] at h
  cases hds : b.registry.defects with
  | nil => rw [hds] at h; cases h
  | cons d ds =>
    rw [hds] at h htrue
    cases hmode : b.mode with
    | failFast =>
      rw [hmode] at h
      cases h
      have hd := htrue d List.mem_cons_self
      exact ⟨Fault.raisedFor_defect hd, fun hk => absurd hk d.kind_ne_resolutionFailed,
        fun g hg => absurd hg List.not_mem_nil, fun _ => ⟨d, rfl, hd⟩⟩
    | collectAll =>
      rw [hmode] at h
      cases h
      refine ⟨⟨rfl, rfl⟩, fun _ => ?_, fun g hg => ?_, fun hk => absurd rfl hk⟩
      · simp [Fault.members, List.eraseDups_cons]
      · obtain ⟨e, he, rfl⟩ := List.mem_map.mp hg
        have htold := htrue e (List.mem_eraseDups.mp he)
        exact ⟨Fault.raisedFor_defect htold, e.kind_ne_resolutionFailed, e, rfl, htold⟩

/-! ## Diagnoses -/

/-- The error at a place: from each error on to one of those reported together with it. -/
def Fault.at? (f : Fault) : List Nat → Option Fault
  | [] => some f
  | i :: path => f.members[i]?.bind fun g => g.at? path

def Diagnosis.at? (x : Diagnosis) : List Nat → Option Diagnosis
  | [] => some x
  | i :: path => x.related[i]?.bind fun y => y.at? path

namespace Fault

/-- A diagnosis says what a fault says, those reported together with it apart. -/
structure ToldBy (f : Fault) (x : Diagnosis) : Prop where
  kind : x.kind = f.kind
  code : x.code = f.kind.code
  typeName : x.typeName = f.typeName?
  referencedName : x.referencedName = f.referencedName?
  reference : x.reference = f.reference?
  sourceLabel : x.sourceLabel = f.label?
  message : x.message = f.message

theorem toldBy_diagnose (f : Fault) : f.ToldBy f.diagnose := by
  cases f <;> constructor <;> simp only [diagnose] <;> rfl

theorem related_diagnose (f : Fault) : f.diagnose.related = f.members.map diagnose := by
  cases f <;> simp [diagnose, members, diagnoseAll_eq_map]

theorem members_eq_nil {f : Fault} (h : f.kind ≠ .resolutionFailed) : f.members = [] := by
  cases f with
  | resolutionFailed => exact absurd rfl h
  | _ => rfl

/-- By induction on the path: a member is diagnosed where it stands. -/
theorem at?_diagnose (f : Fault) (path : List Nat) :
    f.diagnose.at? path = (f.at? path).map diagnose := by
  induction path generalizing f with
  | nil => rfl
  | cons i path ih =>
    rw [Diagnosis.at?, Fault.at?, related_diagnose, List.getElem?_map]
    cases f.members[i]? with
    | none => rfl
    | some g => exact ih g

theorem toldBy_at? (f : Fault) (path : List Nat) :
    Option.Rel ToldBy (f.at? path) (f.diagnose.at? path) := by
  rw [at?_diagnose]
  cases f.at? path with
  | none => exact .none
  | some g => exact .some g.toldBy_diagnose

end Fault

/-- Whatever the texts of inventories are written in. -/
theorem Inventory.loadWith_of_toDraft {read : String → Traced Diagnosis Inventory} {file : File}
    {s : Settings} {v : Inventory} {b : Draft}
    (hv : (Inventory.parseFileWith read file).result = .ok v) (hb : (v.toDraft s).result = .ok b) :
    (Inventory.loadWith read file s).result = b.resolve.result.mapError Fault.diagnose := by
  have hmodel : (v.toModel s).result = b.resolve.result := by
    rw [toModel, Traced.result_bind, hb]
    rfl
  rw [loadWith, Traced.result_bind, hv, ← hmodel]
  rfl

theorem Inventory.parseFile_ofText (text : String) :
    Inventory.parseFile (.ofText text) = Inventory.parse text := by
  rw [parseFile, parseFileWith, File.text_ofText]

theorem eq_ok_of_toOption {ε α : Type} {x : Except ε α} {a : α} (h : x.toOption = some a) :
    x = .ok a := by
  cases x with
  | error e => cases h
  | ok b => exact congrArg Except.ok (Option.some.inj h)

/-- A failed resolution blames registered types for their own references, under the label of the
draft. Callers are told of every error, wherever it stands among those reported together, and a
file that is loaded fails as the resolution of its types does, whatever it is written in. -/
theorem failures_told_truly :
    (∀ (b : Draft) (f : Fault), b.resolve.result = .error f → f.FoundIn b.registry) ∧
      (∀ f : Fault, f.diagnose.related = f.members.map Fault.diagnose ∧
        (f.kind ≠ .resolutionFailed → f.diagnose.related = []) ∧
        ∀ path, Option.Rel Fault.ToldBy (f.at? path) (f.diagnose.at? path)) ∧
      (∀ (read : String → Traced Diagnosis Inventory) (file : File) (s : Settings) (v : Inventory)
        (b : Draft), (Inventory.parseFileWith read file).result = .ok v →
          (v.toDraft s).result = .ok b →
            (Inventory.loadWith read file s).result = b.resolve.result.mapError Fault.diagnose) ∧
      ∀ (file : File) (s : Settings) (v : Inventory) (b : Draft),
        (Inventory.parseFile file).result = .ok v → (v.toDraft s).result = .ok b →
          (Inventory.load file s).result = b.resolve.result.mapError Fault.diagnose := by
  refine ⟨fun b f => Draft.foundIn_of_resolve, fun f => ⟨f.related_diagnose, fun hk => ?_,
    f.toldBy_at?⟩, fun read file s v b => Inventory.loadWith_of_toDraft,
    fun file s v b => Inventory.loadWith_of_toDraft⟩
  rw [f.related_diagnose, Fault.members_eq_nil hk, List.map_nil]

/-- Two entity types below one that is missing. -/
def strayText : String :=
  "schema_version: 0\nentity_defs:\n- name: t\n  supertype: u\n- name: v\n  supertype: u\n"

def stray : Inventory where
  schemaVersion := 0
  entityRecords := [{ name := "t", supertype := some (.named "u") },
    { name := "v", supertype := some (.named "u") }]

def strayDraft : Draft :=
  ((Draft.ofSettings { errorMode := .collectAll }).addAll
    [.entity { name := "t", guid := "", supertype := some (.named "u") },
      .entity { name := "v", guid := "", supertype := some (.named "u") }]).1

theorem failures_told_truly_stray : ∃ f, strayDraft.resolve.result = .error f ∧
    f.FoundIn strayDraft.registry ∧
    f.members = [.defect (.missingSupertypeDef .entities "t" "u" "unknown"),
      .defect (.missingSupertypeDef .entities "v" "u" "unknown")] ∧
    (Inventory.load (.ofText strayText) { errorMode := .collectAll }).result
      = .error f.diagnose ∧
    f.diagnose.related = f.members.map Fault.diagnose := by
  obtain ⟨hfound, hdiagnosed, -, hloaded⟩ := failures_told_truly
  have hdefects : strayDraft.registry.defects
      = [.missingSupertypeDef .entities "t" "u" "unknown",
        .missingSupertypeDef .entities "v" "u" "unknown"] := by decide +kernel
  have hreport : report strayDraft.mode strayDraft.label strayDraft.registry.defects
      = .error (.resolutionFailed "unknown"
        [.defect (.missingSupertypeDef .entities "t" "u" "unknown"),
          .defect (.missingSupertypeDef .entities "v" "u" "unknown")]) := by
    rw [hdefects]
    rfl
  have hrun := Draft.resolve_eq_error_iff.mpr hreport
  have hv : (Inventory.parseFile (.ofText strayText)).result = .ok stray := by
    rw [Inventory.parseFile_ofText]
    exact eq_ok_of_toOption (by decide +kernel)
  have hb : (stray.toDraft { errorMode := .collectAll }).result = .ok strayDraft :=
    eq_ok_of_toOption (by decide +kernel)
  refine ⟨_, hrun, hfound _ _ hrun, rfl, ?_, (hdiagnosed _).1⟩
  rw [hloaded _ _ _ _ hv hb, hrun]
  rfl

end Metamodel
