import Metamodel.Proofs.Guids
import Metamodel.Proofs.Models

/-!
# Metamodel.Proofs.Lookups

What the index of guids answers after any history of additions, refused ones included.

* `Draft.added`        — the definitions of a history that are added, first ones first.
* `Draft.Indexed.nameOf?_after` — a guid goes to the definition that is added with it first.
* `Draft.pairing?_filter` — the index of a category depends on the definitions of that category alone.
* `guids_first_wins`   — the index of a new draft after a history, and that of its model.
-/

namespace Metamodel

namespace TypeDef

variable {d : TypeDef} {c : Category} {g : String}

/-- The definition belongs to the category and carries the guid under a name. -/
def Claims (d : TypeDef) (c : Category) (g : String) : Prop :=
  d.category = c ∧ d.name ≠ "" ∧ d.guid = g

instance : Decidable (d.Claims c g) :=
  inferInstanceAs (Decidable (d.category = c ∧ d.name ≠ "" ∧ d.guid = g))

end TypeDef

/-! ## One addition -/

/-- A new name takes a guid that is not empty and goes with no name yet. -/
theorem Pairing.name?_register_of_new {p : Pairing} {n g k : String} (hnew : p.guid? n = none)
    (hg : g ≠ "") :
    (p.register n k).name? g = (p.name? g).or (if n ≠ "" ∧ k = g then some n else none) := by
  by_cases hpair : indexable n k = true ∧ p.taken n k = false
  · rw [name?_register hpair.1 hpair.2]
    have hn := (indexable_iff.mp hpair.1).1
    have hfree := (taken_eq_false.mp hpair.2).2
    by_cases hk : k = g
    · subst hk
      simp [hn, hfree]
    · simp [hk]
  · rw [register_of_skipped hpair]
    split
    · -- the guid goes with another name, or the pair would not have been passed over
      rename_i h
      obtain ⟨hn, rfl⟩ := h
      cases hname : p.name? k with
      | some j => rfl
      | none =>
        exact absurd ⟨indexable_iff.mpr ⟨hn, hg⟩, taken_eq_false.mpr ⟨hnew, hname⟩⟩ hpair
    · rw [Option.or_none]

namespace GuidIndex

variable {x : GuidIndex} {c : Category}

def guidOf? (x : GuidIndex) (c : Category) (n : String) : Option String :=
  (x.pairing? c).bind (·.guid? n)

theorem exists_pairing? (hc : c = .entity ∨ c = .relationship) : ∃ p, x.pairing? c = some p := by
  rcases hc with rfl | rfl <;> exact ⟨_, rfl⟩

end GuidIndex

namespace Draft

variable {b b' : Draft} {d : TypeDef} {ds : List TypeDef} {c : Category} {n g : String}

theorem result_add_eq_added :
    (b.add d).2.result = .ok .added ↔ b.registry.find? d.category d.name = none := by
  rw [result_add]
  rcases b.registry.register_cases d with ⟨h, hrun⟩ | ⟨h, hrun⟩ | ⟨⟨_, h, _⟩, _, hrun⟩ |
    ⟨⟨_, h, _⟩, _, hrun⟩ <;> simp [hrun, h, Traced.ok, Traced.fail]

theorem find?_add : (b.add d).1.registry.find? c n
    = (b.registry.find? c n).or (if d.StandsAt c n then some d else none) := by
  rw [registry_add, Registry.find?_register]

/-- The pairing of a category changes with a new definition of that category only. -/
theorem pairing?_add : (b.add d).1.guids.pairing? c = (b.guids.pairing? c).map fun p =>
    if d.category = c ∧ b.registry.find? c d.name = none then p.register d.name d.guid else p := by
  rw [guids_add]
  split
  · rename_i hnew
    rw [GuidIndex.pairing?_register]
    congr 1
    funext p
    by_cases hc : d.category = c
    · subst hc
      simp [hnew]
    · simp [hc]
  · rename_i hstored
    have hsame : (fun p : Pairing => if d.category = c ∧ b.registry.find? c d.name = none then
        p.register d.name d.guid else p) = id := by
      funext p
      refine if_neg ?_
      rintro ⟨rfl, hnew⟩
      exact hstored hnew
    rw [hsame, Option.map_id_fun, id]

theorem Indexed.after (h : b.Indexed) (ds : List TypeDef) : (b.after ds).Indexed :=
  after_preserves (fun _ d hb => hb.add d) ds h

/-- A guid without a name takes the name of the definition that is added with it. -/
theorem Indexed.nameOf?_add (h : b.Indexed) (hc : c = .entity ∨ c = .relationship) (hg : g ≠ "") :
    (b.add d).1.guids.nameOf? c g = (b.guids.nameOf? c g).or
      (if b.registry.find? d.category d.name = none ∧ d.Claims c g then some d.name else none) := by
  obtain ⟨p, hp⟩ := GuidIndex.exists_pairing? (x := b.guids) hc
  simp only [GuidIndex.nameOf?, pairing?_add, hp, Option.map_some, Option.bind_some]
  by_cases hadd : d.category = c ∧ b.registry.find? c d.name = none
  · obtain ⟨rfl, hnew⟩ := hadd
    have hguid : p.guid? d.name = none :=
      (h _ p hp).guid?_of_new (Registry.guidOf?_of_new hnew)
    simp only [hnew, and_self, if_true, Pairing.name?_register_of_new hguid hg, TypeDef.Claims,
      true_and]
  · have hclaims : ¬ (b.registry.find? d.category d.name = none ∧ d.Claims c g) := by
      rintro ⟨hnew, rfl, -⟩
      exact hadd ⟨rfl, hnew⟩
    rw [if_neg hadd, if_neg hclaims, Option.or_none]

/-! ## A history of additions -/

/-- The definitions of a list that are added, in the order of their additions. -/
def added (b : Draft) : List TypeDef → List TypeDef
  | [] => []
  | d :: ds =>
    match (b.add d).2.result with
    | .ok .added => d :: added (b.add d).1 ds
    | _ => added (b.add d).1 ds

theorem added_cons_of_new (h : b.registry.find? d.category d.name = none) :
    b.added (d :: ds) = d :: (b.add d).1.added ds := by
  simp only [added, result_add_eq_added.mpr h]

theorem added_cons_of_some {stored : TypeDef}
    (h : b.registry.find? d.category d.name = some stored) :
    b.added (d :: ds) = (b.add d).1.added ds := by
  have hnot : (b.add d).2.result ≠ .ok .added := by simp [result_add_eq_added, h]
  rw [added]
  split
  · rename_i hadded
    exact absurd hadded hnot
  · rfl

theorem find?_after_iff : (b.after ds).registry.find? d.category d.name = some d ↔
    b.registry.find? d.category d.name = some d ∨ d ∈ b.added ds := by
  induction ds generalizing b with
  | nil => simp [after, added]
  | cons e ds ih =>
    rw [after_cons, ih, registry_add]
    cases hnew : b.registry.find? e.category e.name with
    | none =>
      rw [added_cons_of_new hnew, List.mem_cons, ← or_assoc, Registry.register_of_none hnew,
        Registry.find?_put]
      refine or_congr_left ?_
      split
      · rename_i hsame
        rw [← hsame.1, ← hsame.2, hnew]
        simp [eq_comm]
      · rename_i hother
        refine (or_iff_left_of_imp ?_).symm
        rintro rfl
        exact absurd ⟨rfl, rfl⟩ hother
    | some stored => rw [added_cons_of_some hnew, Registry.register_of_some hnew]

theorem Indexed.nameOf?_after (h : b.Indexed) (hc : c = .entity ∨ c = .relationship)
    (hg : g ≠ "") : (b.after ds).guids.nameOf? c g
      = (b.guids.nameOf? c g).or (((b.added ds).find? (·.Claims c g)).map TypeDef.name) := by
  induction ds generalizing b with
  | nil =>
    rw [added, List.find?_nil, Option.map_none, Option.or_none]
    rfl
  | cons d ds ih =>
    rw [after_cons, ih (h.add d), h.nameOf?_add hc hg, Option.or_assoc]
    cases hnew : b.registry.find? d.category d.name with
    | none =>
      rw [added_cons_of_new hnew, List.find?_cons]
      by_cases hclaims : d.Claims c g <;> simp [hclaims]
    | some stored =>
      rw [added_cons_of_some hnew]
      simp

/-- Definitions of other categories could as well be left out. By induction on the list, for drafts
that agree in the category. -/
theorem pairing?_filter {keep : TypeDef → Bool} (hkeep : ∀ d, d.category = c → keep d = true)
    (hguids : b.guids.pairing? c = b'.guids.pairing? c)
    (hstored : ∀ n, b.registry.find? c n = b'.registry.find? c n) :
    (b.after ds).guids.pairing? c = (b'.after (ds.filter keep)).guids.pairing? c := by
  induction ds generalizing b b' with
  | nil => exact hguids
  | cons d ds ih =>
    by_cases hd : keep d = true
    · rw [List.filter_cons_of_pos hd]
      refine ih ?_ fun n => ?_
      · rw [pairing?_add, pairing?_add, hguids, hstored]
      · rw [find?_add, find?_add, hstored]
    · have hc : d.category ≠ c := fun hc => hd (hkeep d hc)
      rw [List.filter_cons_of_neg hd]
      refine ih ?_ fun n => ?_
      · simp [pairing?_add, hc, hguids]
      · rw [find?_add, if_neg (fun h => hc h.1), Option.or_none, hstored]

end Draft

/-! ## New drafts -/

/-- The index of a category after a history of additions. -/
structure GuidIndex.Exact (x : GuidIndex) (c : Category) (r : Registry) (added : List TypeDef) :
    Prop where
  inverse : ∀ n g, x.guidOf? c n = some g ↔ x.nameOf? c g = some n
  sound : ∀ n g, x.guidOf? c n = some g → n ≠ "" ∧ g ≠ "" ∧ ∃ d, r.find? c n = some d ∧ d.guid = g
  /-- The first one of the added definitions with a guid is the one that is found by it. -/
  first : ∀ g, g ≠ "" → x.nameOf? c g = (added.find? (·.Claims c g)).map TypeDef.name

/-- A model translates names and guids as the index does. -/
structure Model.TranslatesBy (m : Model) (x : GuidIndex) : Prop where
  entityGuid? : ∀ n, m.entityGuid? n = x.guidOf? .entity n
  entityName? : ∀ g, m.entityName? g = x.nameOf? .entity g
  relationshipGuid? : ∀ n, m.relationshipGuid? n = x.guidOf? .relationship n
  relationshipName? : ∀ g, m.relationshipName? g = x.nameOf? .relationship g

namespace Draft

variable {s : Settings} {ds : List TypeDef} {c : Category}

theorem exact_after (hc : c = .entity ∨ c = .relationship) :
    ((ofSettings s).after ds).guids.Exact c ((ofSettings s).after ds).registry
      ((ofSettings s).added ds) := by
  have hnew : (ofSettings s).Indexed := indexed_ofSettings s
  obtain ⟨p, hp⟩ := GuidIndex.exists_pairing? (x := ((ofSettings s).after ds).guids) hc
  have hindexes := hnew.after ds c p hp
  refine ⟨fun n g => ?_, fun n g h => ?_, fun g hg => ?_⟩
  · simp only [GuidIndex.guidOf?, GuidIndex.nameOf?, hp, Option.bind_some, hindexes.inverse]
  · simp only [GuidIndex.guidOf?, hp, Option.bind_some] at h
    obtain ⟨hn, hg, hstored⟩ := hindexes.sound h
    exact ⟨hn, hg, Option.map_eq_some_iff.mp hstored⟩
  · have hnone : (ofSettings s).guids.nameOf? c g = none := by rcases hc with rfl | rfl <;> rfl
    rw [hnew.nameOf?_after hc hg, hnone, Option.none_or]

theorem translatesBy_of_resolve {b : Draft} {m : Model} (h : b.resolve.result = .ok m) :
    m.TranslatesBy b.guids := by
  obtain ⟨-, rfl⟩ := resolve_eq_ok_iff.mp h
  exact ⟨fun _ => rfl, fun _ => rfl, fun _ => rfl, fun _ => rfl⟩

end Draft

/-- After any additions to a new draft, its index and that of the model it resolves to give each guid
to the definition that was added with it first. Entity types and relationship types have no part in
what is indexed of the others, and classifications and enumerations in nothing. -/
theorem guids_first_wins (s : Settings) (ds : List TypeDef) :
    (∀ c, c = .entity ∨ c = .relationship →
      ((Draft.ofSettings s).after ds).guids.Exact c ((Draft.ofSettings s).after ds).registry
        ((Draft.ofSettings s).added ds)) ∧
    (∀ d, ((Draft.ofSettings s).after ds).registry.find? d.category d.name = some d ↔
      d ∈ (Draft.ofSettings s).added ds) ∧
    (∀ c, ((Draft.ofSettings s).after ds).guids.pairing? c
      = ((Draft.ofSettings s).after (ds.filter (·.category = c))).guids.pairing? c) ∧
    (((Draft.ofSettings s).after ds).guids = ((Draft.ofSettings s).after
      (ds.filter fun d => d.category = .entity ∨ d.category = .relationship)).guids) ∧
    ∀ m, ((Draft.ofSettings s).after ds).resolve.result = .ok m →
      m.TranslatesBy ((Draft.ofSettings s).after ds).guids := by
  refine ⟨fun c hc => Draft.exact_after hc, fun d => ?_, fun c => ?_, ?_, fun m h => ?_⟩
  · have hnone : (Draft.ofSettings s).registry.find? d.category d.name = none := by cases d <;> rfl
    rw [Draft.find?_after_iff, hnone]
    simp
  · exact Draft.pairing?_filter (by simp) rfl fun _ => rfl
  · refine GuidIndex.ext_pairing? fun c => ?_
    cases c with
    | entity => exact Draft.pairing?_filter (by simp +contextual) rfl fun _ => rfl
    | relationship => exact Draft.pairing?_filter (by simp +contextual) rfl fun _ => rfl
    | classification => rfl
    | enumeration => rfl
  · exact Draft.translatesBy_of_resolve h

/-- Three entity types with one guid, the first of them without a name, and a relationship type with
that guid. -/
def sharing : List TypeDef :=
  [.entity { name := "", guid := "g1" }, .entity { name := "table", guid := "g1" },
    .relationship (.between "stores" "g1" "table" "table"), .entity { name := "asset", guid := "g1" }]

theorem guids_first_wins_sharing : ∃ m,
    ((Draft.ofSettings {}).after sharing).resolve.result = .ok m ∧
      m.entityName? "g1" = some "table" ∧ m.entityGuid? "table" = some "g1" ∧
      m.relationshipName? "g1" = some "stores" := by
  obtain ⟨hexact, -, -, -, hmodel⟩ := guids_first_wins {} sharing
  have hnone : ((Draft.ofSettings {}).after sharing).registry.defects = [] := by decide +kernel
  have hrun := Draft.resolve_eq_ok_iff.mpr ⟨hnone, rfl⟩
  have htranslates := hmodel _ hrun
  have hentity := hexact .entity (.inl rfl)
  have hname := (hentity.first "g1" (by decide)).trans
    (show _ = some "table" by decide +kernel)
  refine ⟨_, hrun, (htranslates.entityName? _).trans hname, ?_, ?_⟩
  · exact (htranslates.entityGuid? _).trans ((hentity.inverse _ _).mpr hname)
  · exact (htranslates.relationshipName? _).trans
      (((hexact .relationship (.inr rfl)).first "g1" (by decide)).trans (by decide +kernel))

end Metamodel
