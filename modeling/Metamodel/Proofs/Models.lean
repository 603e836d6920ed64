import Metamodel.Draft
import Metamodel.Proofs.Chains

/-!
# Metamodel.Proofs.Models

Models of successful resolutions, in terms of the registry they were made from.

* `Draft.resolve_eq_ok_iff` — a draft without defects has one model.
* `exists_entity?_iff`      — the types of a model are the registered ones.
* `mem_entityChain`         — the chain of an entity type holds what its supertype links lead to.
-/

namespace Metamodel

open Relation

theorem Draft.result_resolve (b : Draft) : b.resolve.result
    = (b.registry.resolve b.mode).result.map (.ofResolved b.label · b.guids) := by
  simp only [Draft.resolve]
  cases (b.registry.resolve b.mode).result <;> rfl

theorem Draft.resolve_eq_ok_iff {b : Draft} {m : Model} :
    b.resolve.result = .ok m ↔
      b.registry.defects = [] ∧ m = .ofResolved b.label b.registry.resolved b.guids := by
  rw [b.result_resolve]
  cases h : (b.registry.resolve b.mode).result with
  | error f =>
    have hnot : ¬ b.registry.defects = [] := by
      intro hnone
      rw [Registry.resolve_eq_ok_iff.mpr ⟨hnone, rfl⟩] at h
      cases h
    simp [Except.map, hnot]
  | ok r =>
    obtain ⟨hnone, rfl⟩ := Registry.resolve_eq_ok_iff.mp h
    simp [Except.map, hnone, eq_comm]

/-- A resolution fails with the defects of its registry, reported as the mode says. -/
theorem Draft.resolve_eq_error_iff {b : Draft} {f : Fault} :
    b.resolve.result = .error f ↔ report b.mode b.label b.registry.defects = .error f := by
  refine Iff.trans ?_ Registry.resolve_eq_error_iff
  rw [b.result_resolve]
  cases (b.registry.resolve b.mode).result <;> simp [Except.map]

namespace Registry

variable {r : Registry}

theorem definitions_resolved_entities :
    r.resolved.entities.definitions = .ofMap r.entities :=
  definitions_classified_entities

theorem definitions_resolved_classifications :
    r.resolved.classifications.definitions = .ofMap r.classifications :=
  Arena.definitions_completed.trans definitions_classified

end Registry

section Models

variable {b : Draft} {m : Model} {n k : String}

theorem exists_entity?_iff (h : b.resolve.result = .ok m) :
    (∃ d, m.entity? n = some d) ↔ ∃ e, b.registry.entities.get? n = some e := by
  obtain ⟨-, rfl⟩ := Draft.resolve_eq_ok_iff.mp h
  exact Arena.exists_get?_iff Registry.definitions_resolved_entities

theorem exists_classification?_iff (h : b.resolve.result = .ok m) :
    (∃ d, m.classification? n = some d) ↔ ∃ c, b.registry.classifications.get? n = some c := by
  obtain ⟨-, rfl⟩ := Draft.resolve_eq_ok_iff.mp h
  exact Arena.exists_get?_iff Registry.definitions_resolved_classifications

theorem mem_entityChain (h : b.resolve.result = .ok m) :
    k ∈ m.entityChain n ↔ (∃ e, b.registry.entities.get? n = some e) ∧
      ReflTransGen b.registry.entities.Extends n k := by
  obtain ⟨hnone, rfl⟩ := Draft.resolve_eq_ok_iff.mp h
  exact Arena.mem_chainNames_iff Registry.definitions_resolved_entities b.registry.entities_keyed
    (Registry.consistent_iff_no_defects.mpr hnone).entities

end Models

end Metamodel
