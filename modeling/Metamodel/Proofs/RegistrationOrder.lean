import Metamodel.Proofs.Guids
import Metamodel.Proofs.Models

/-!
# Metamodel.Proofs.RegistrationOrder

The order of registrations carries no meaning.

* `Draft.registry_eq_of_perm` — drafts that take the same definitions in any order store the same.
* `Draft.guidsDistinct_iff`   — their indexes are the same as well, exactly if no guid is shared.
* `registration_order_irrelevant` — what becomes of the definitions, from the first one to the
  resolved model.
-/

namespace Metamodel

/-! ## Models of one registry -/

/-- The models differ in nothing but the index of guids. -/
structure Model.SameTypes (m m' : Model) : Prop where
  label : m.label = m'.label
  entities : m.entities = m'.entities
  relationships : m.relationships = m'.relationships
  classifications : m.classifications = m'.classifications
  enums : m.enums = m'.enums
  names : ∀ c, m.names c = m'.names c
  summary : m.summary = m'.summary

/-- Two resolutions end with the very same fault, or with models of the same types. -/
inductive SameOutcome : Except Fault Model → Except Fault Model → Prop where
  | failed (f : Fault) : SameOutcome (.error f) (.error f)
  | resolved {m m' : Model} : m.SameTypes m' → SameOutcome (.ok m) (.ok m')

/-- Apart from guids, a resolution depends on the stored definitions and the error mode alone. -/
theorem Draft.sameOutcome {b b' : Draft} (hregistry : b.registry = b'.registry)
    (hmode : b.mode = b'.mode) : SameOutcome b.resolve.result b'.resolve.result := by
  simp only [Draft.resolve, Draft.label, hregistry, hmode]
  cases h : (b'.registry.resolve b'.mode).result with
  | error f => exact .failed f
  | ok r => exact .resolved ⟨rfl, rfl, rfl, rfl, rfl, fun _ => rfl, rfl⟩

/-! ## Permutations -/

/-- Two entity types, or two relationship types, with one guid and different names. Empty names and
guids do not count. -/
def TypeDef.SharesGuid (d e : TypeDef) : Prop :=
  (d.category = .entity ∨ d.category = .relationship) ∧ d.category = e.category ∧
    d.name ≠ "" ∧ e.name ≠ "" ∧ d.name ≠ e.name ∧ d.guid ≠ "" ∧ d.guid = e.guid

instance (d e : TypeDef) : Decidable (d.SharesGuid e) :=
  inferInstanceAs (Decidable ((_ ∨ _) ∧ _ ∧ _ ∧ _ ∧ _ ∧ _ ∧ _))

/-- No two of the definitions share a guid. -/
def GuidsDistinct (ds : List TypeDef) : Prop := ∀ d ∈ ds, ∀ e ∈ ds, ¬ d.SharesGuid e

instance (ds : List TypeDef) : Decidable (GuidsDistinct ds) :=
  inferInstanceAs (Decidable (∀ d ∈ ds, ∀ e ∈ ds, ¬ d.SharesGuid e))

namespace Draft

/-- A new draft after a list of definitions, and whether it took them all. -/
abbrev ofDefinitions (s : Settings) (ds : List TypeDef) : Draft × Traced Fault Unit :=
  (ofSettings s).addAll ds

variable {s : Settings} {ds es : List TypeDef} {c : Category} {n : String} {d : TypeDef}

theorem ofDefinitions_ok_iff :
    (ofDefinitions s ds).2.result = .ok () ↔
      (s.duplicatePolicy = .reject → Unconflicting ds) := by
  have hnew : ∀ d, ¬ (ofSettings s).registry.Conflicts d := by
    rintro d ⟨stored, hstored, _⟩
    cases d <;> cases hstored
  rw [addAll_ok_iff]
  exact imp_congr_right fun _ => and_iff_right fun d _ => hnew d

/-- A new draft stores exactly the definitions it was given. -/
theorem find?_ofDefinitions (hu : Unconflicting ds) :
    (ofDefinitions s ds).1.registry.find? c n = some d ↔ d ∈ ds ∧ d.StandsAt c n := by
  have hnew : (ofSettings s).registry.find? c n = none := by cases c <;> rfl
  rw [find?_addAll (ofDefinitions_ok_iff.mpr fun _ => hu), hnew, Option.none_or]
  constructor
  · intro h
    exact ⟨List.mem_of_find?_eq_some h, by simpa using List.find?_some h⟩
  · rintro ⟨hd, hdn⟩
    cases h : ds.find? (·.StandsAt c n) with
    | none => exact absurd (decide_eq_true hdn) (List.find?_eq_none.mp h d hd)
    | some e =>
      have hen : e.StandsAt c n := by simpa using List.find?_some h
      exact congrArg some (hu.eq (List.mem_of_find?_eq_some h) hd hen hdn)

theorem registry_eq_of_perm (h : ds.Perm es) (hu : Unconflicting ds) :
    (ofDefinitions s ds).1.registry = (ofDefinitions s es).1.registry := by
  obtain ⟨hpolicy, hlabel, -⟩ := settings_addAll (ofSettings s) ds
  obtain ⟨hpolicy', hlabel', -⟩ := settings_addAll (ofSettings s) es
  refine Registry.ext_find? (hpolicy.trans hpolicy'.symm) (hlabel.trans hlabel'.symm)
    fun c n => Option.ext fun d => ?_
  rw [find?_ofDefinitions hu, find?_ofDefinitions (hu.perm h), h.mem_iff]

theorem mode_eq (ds es : List TypeDef) :
    (ofDefinitions s ds).1.mode = (ofDefinitions s es).1.mode :=
  (settings_addAll (ofSettings s) ds).2.2.trans (settings_addAll (ofSettings s) es).2.2.symm

/-- Distinct guids in the list are distinct guids in the draft. -/
theorem distinct_guidOf? (hu : Unconflicting ds) (hg : GuidsDistinct ds)
    (hc : c = .entity ∨ c = .relationship) :
    Pairing.Distinct ((ofDefinitions s ds).1.registry.guidOf? c) := by
  intro n k g hn hk hg0 hgn hgk
  obtain ⟨d, hfind, rfl⟩ := Option.map_eq_some_iff.mp hgn
  obtain ⟨e, hfind', hguid⟩ := Option.map_eq_some_iff.mp hgk
  obtain ⟨hd, rfl, rfl⟩ := (find?_ofDefinitions hu).mp hfind
  obtain ⟨he, hcat, rfl⟩ := (find?_ofDefinitions hu).mp hfind'
  by_contra hne
  exact hg d hd e he ⟨hc, hcat.symm, hn, hk, hne, hg0, hguid.symm⟩

theorem guids_eq_of_perm (h : ds.Perm es) (hu : Unconflicting ds) (hg : GuidsDistinct ds) :
    (ofDefinitions s ds).1.guids = (ofDefinitions s es).1.guids := by
  have hindexed := (indexed_ofSettings s).addAll ds
  have hindexed' := (indexed_ofSettings s).addAll es
  rw [Indexed, ← registry_eq_of_perm h hu] at hindexed'
  refine GuidIndex.ext_pairing? fun c => ?_
  have heq : ∀ {p q}, c = .entity ∨ c = .relationship →
      (ofDefinitions s ds).1.guids.pairing? c = some p →
      (ofDefinitions s es).1.guids.pairing? c = some q → p = q :=
    fun hc hp hq => (hindexed c _ hp).unique (hindexed' c _ hq) (distinct_guidOf? hu hg hc)
  cases c with
  | entity => exact congrArg some (heq (.inl rfl) rfl rfl)
  | relationship => exact congrArg some (heq (.inr rfl) rfl rfl)
  | classification => rfl
  | enumeration => rfl

theorem eq_of_perm (h : ds.Perm es) (hu : Unconflicting ds) (hg : GuidsDistinct ds) :
    (ofDefinitions s ds).1 = (ofDefinitions s es).1 := by
  have hparts : ∀ b b' : Draft, b.registry = b'.registry → b.guids = b'.guids →
      b.mode = b'.mode → b = b' := by
    rintro ⟨_, _, _⟩ ⟨_, _, _⟩ rfl rfl rfl
    rfl
  exact hparts _ _ (registry_eq_of_perm h hu) (guids_eq_of_perm h hu hg) (mode_eq ds es)

/-- The definition that comes first has its guid for good. -/
theorem nameOf?_ofDefinitions_cons (hc : d.category = .entity ∨ d.category = .relationship)
    (hn : d.name ≠ "") (hg : d.guid ≠ "") (ds : List TypeDef) :
    (ofDefinitions s (d :: ds)).1.guids.nameOf? d.category d.guid = some d.name := by
  have hnew : (ofSettings s).registry.find? d.category d.name = none := by cases d <;> rfl
  have hadded : ((ofSettings s).add d).2.result = .ok .added := by
    simp only [result_add, Registry.register, hnew, Traced.ok]
  have hpairing : (ofSettings s).guids.pairing? d.category = some {} := by
    rcases hc with hc | hc <;> rw [hc] <;> rfl
  rw [(addAll_cons_of_ok hadded).1]
  refine nameOf?_addAll_of_some ?_ ds
  rw [guids_add, if_pos hnew, GuidIndex.nameOf?, GuidIndex.pairing?_register, hpairing,
    Option.map_some, if_pos rfl, Option.bind_some,
    Pairing.name?_register (Pairing.indexable_iff.mpr ⟨hn, hg⟩) rfl, if_pos rfl]

/-- The index is the one thing that depends on the order, and only if a guid is shared: then two
orders differ in who has it. -/
theorem guidsDistinct_iff (hu : Unconflicting ds) : GuidsDistinct ds ↔
    ∀ es, ds.Perm es → (ofDefinitions s ds).1.guids = (ofDefinitions s es).1.guids := by
  refine ⟨fun hg es h => guids_eq_of_perm h hu hg, fun hall d hd e he hshared => ?_⟩
  obtain ⟨hc, hcat, hdn, hen, hne, hdg, hguid⟩ := hshared
  have hfirst := nameOf?_ofDefinitions_cons (s := s) hc hdn hdg (ds.erase d)
  have hfirst' := nameOf?_ofDefinitions_cons (s := s) (hcat ▸ hc) hen (hguid ▸ hdg) (ds.erase e)
  rw [← hall _ (List.perm_cons_erase hd)] at hfirst
  rw [← hall _ (List.perm_cons_erase he), ← hcat, ← hguid, hfirst] at hfirst'
  exact hne (Option.some.inj hfirst')

end Draft

/-- In whatever order definitions are added, either all of them are taken or some are refused, and if
all are, the resolutions end alike. With distinct guids the drafts and the outcomes are equal, so
questions about guids have equal answers too. -/
theorem registration_order_irrelevant (s : Settings) {ds es : List TypeDef} (h : ds.Perm es) :
    (s.duplicatePolicy = .reject →
      ((Draft.ofDefinitions s ds).2.result = .ok () ↔
        (Draft.ofDefinitions s es).2.result = .ok ()) ∧
      ((Draft.ofDefinitions s ds).2.result = .ok () ↔ Unconflicting ds)) ∧
    (Unconflicting ds →
      ((Draft.ofDefinitions s ds).2.result = .ok () ∧
        (Draft.ofDefinitions s es).2.result = .ok ()) ∧
      SameOutcome (Draft.ofDefinitions s ds).1.resolve.result
        (Draft.ofDefinitions s es).1.resolve.result ∧
      (GuidsDistinct ds →
        (Draft.ofDefinitions s ds).1 = (Draft.ofDefinitions s es).1 ∧
        (Draft.ofDefinitions s ds).1.resolve.result
          = (Draft.ofDefinitions s es).1.resolve.result)) := by
  have hperm : Unconflicting ds ↔ Unconflicting es := ⟨(·.perm h), (·.perm h.symm)⟩
  refine ⟨fun hreject => ⟨?_, ?_⟩, fun hu => ⟨⟨?_, ?_⟩, ?_, fun hg => ?_⟩⟩
  · simp only [Draft.ofDefinitions_ok_iff, hreject, true_imp_iff, hperm]
  · simp only [Draft.ofDefinitions_ok_iff, hreject, true_imp_iff]
  · exact Draft.ofDefinitions_ok_iff.mpr fun _ => hu
  · exact Draft.ofDefinitions_ok_iff.mpr fun _ => hu.perm h
  · exact Draft.sameOutcome (Draft.registry_eq_of_perm h hu) (Draft.mode_eq ds es)
  · have hsame := Draft.eq_of_perm (s := s) h hu hg
    exact ⟨hsame, by rw [hsame]⟩

/-- All categories, a definition twice, and a subtype before its supertype. A relationship type may
share a guid with an entity type. -/
def mixed : List TypeDef :=
  [.entity { name := "table", guid := "g1", supertype := some (.named "asset") },
    .relationship (.between "stores" "g2" "asset" "table"),
    .classification { name := "tag", guid := "g3", validEntityTypes := [.named "asset"] },
    .entity { name := "asset", guid := "g2" },
    .enumeration { name := "kind", guid := "g1" },
    .entity { name := "asset", guid := "g2" }]

theorem registration_order_irrelevant_mixed : ∃ m,
    (Draft.ofDefinitions {} mixed).1.resolve.result = .ok m ∧
      (Draft.ofDefinitions {} mixed.reverse).1.resolve.result = .ok m := by
  have hnone : (Draft.ofDefinitions {} mixed).1.registry.defects = [] := by decide +kernel
  have hrun := Draft.resolve_eq_ok_iff.mpr ⟨hnone, rfl⟩
  obtain ⟨-, hsame⟩ := registration_order_irrelevant {} (List.reverse_perm mixed).symm
  obtain ⟨-, -, hdistinct⟩ := hsame (by decide)
  obtain ⟨-, hresult⟩ := hdistinct (by decide)
  exact ⟨_, hrun, hresult ▸ hrun⟩

end Metamodel
