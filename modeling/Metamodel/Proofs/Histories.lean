import Mathlib.Data.Finset.Card
import Metamodel.Proofs.Arena
import Metamodel.Proofs.Registration

/-!
# Metamodel.Proofs.Histories

What a registry holds and answers after any history of registrations, refused ones included.

* `Registry.KeepsFirst` — of each name of each category, the first definition is stored.
* `Registry.Answered`   — what a registration answers, told by the history before it.
* `Registry.AgreeIn`    — registries that nothing tells apart in one category.
* `first_registration_stays` — the history alone decides all of it; the duplicate policy decides
  nothing but the answer to a conflict.
-/

namespace Metamodel

namespace Registry

variable {r r' : Registry} {ds : List TypeDef} {d : TypeDef} {c : Category} {n label : String}
  {policy : DuplicatePolicy}

/-! ## Names -/

/-- The names of a category, in ascending order. -/
def names (r : Registry) : Category → List String
  | .entity => r.entities.keys
  | .relationship => r.relationships.keys
  | .classification => r.classifications.keys
  | .enumeration => r.enums.keys

theorem mem_names : n ∈ r.names c ↔ ∃ d, r.find? c n = some d := by
  cases c <;> simp [names, find?, NameMap.mem_keys, Option.isSome_iff_exists]

theorem nodup_names : (r.names c).Nodup := by
  cases c <;> exact nodup_of_ascending (NameMap.keys_ascending _)

theorem length_names : (r.names c).length = r.count c := by
  cases c <;> exact List.length_map _

theorem isEmpty_iff : r.isEmpty = true ↔ ∀ c, r.count c = 0 := by
  simp only [isEmpty, NameMap.isEmpty, Bool.and_eq_true, List.isEmpty_iff_length_eq_zero]
  constructor
  · rintro ⟨⟨⟨he, hr⟩, hc⟩, hn⟩ c
    cases c <;> assumption
  · intro h
    exact ⟨⟨⟨h .entity, h .relationship⟩, h .classification⟩, h .enumeration⟩

/-! ## Histories -/

/-- A registry before its first registration. -/
def opened (policy : DuplicatePolicy) (label : String) : Registry := { policy, label }

theorem find?_opened : (opened policy label).find? c n = none := by
  cases c <;> rfl

theorem policy_history : ((opened policy label).after ds).policy = policy := policy_after

theorem label_history : ((opened policy label).after ds).label = label := label_after

theorem find?_history :
    ((opened policy label).after ds).find? c n = ds.find? (·.StandsAt c n) := by
  rw [find?_after, find?_opened, Option.none_or]

/-- Another definition came first under the name of `d`. -/
def Loses (ds : List TypeDef) (d : TypeDef) : Prop :=
  ∃ first, ds.find? (·.StandsAt d.category d.name) = some first ∧ first ≠ d

theorem conflicts_history : ((opened policy label).after ds).Conflicts d ↔ Loses ds d := by
  simp only [Conflicts, Loses, find?_history]

/-- Of each name, the first definition in the history is stored. -/
structure KeepsFirst (r : Registry) (ds : List TypeDef) : Prop where
  first : ∀ c n, r.find? c n = ds.find? (·.StandsAt c n)
  keyed : ∀ c n d, r.find? c n = some d → d.category = c ∧ d.name = n
  /-- The number of different names in the history. -/
  counted : ∀ c, r.count c = ((ds.filter (·.category = c)).map TypeDef.name).toFinset.card
  empty : r.isEmpty = true ↔ ∀ c, r.count c = 0

theorem keepsFirst_history : ((opened policy label).after ds).KeepsFirst ds where
  first _ _ := find?_history
  keyed c n d h := by
    rw [find?_history] at h
    have hstands : d.StandsAt c n := by simpa using List.find?_some h
    exact hstands
  counted c := by
    rw [← length_names, ← List.toFinset_card_of_nodup nodup_names]
    congr 1
    ext n
    simp only [List.mem_toFinset, mem_names, find?_history, ← Option.isSome_iff_exists,
      List.find?_isSome, List.mem_map, List.mem_filter, decide_eq_true_eq]
    exact ⟨fun ⟨d, hd, hc, hn⟩ => ⟨d, ⟨hd, hc⟩, hn⟩, fun ⟨d, ⟨hd, hc⟩, hn⟩ => ⟨d, hd, hc, hn⟩⟩
  empty := isEmpty_iff

/-! ## Answers -/

/-- The answer to the registration of `d` after the history `ds`. -/
structure Answered (policy : DuplicatePolicy) (label : String) (ds : List TypeDef) (d : TypeDef)
    (answer : Except Fault Registration) : Prop where
  /-- No definition of the history has the name. -/
  added : answer = .ok .added ↔ ∀ e ∈ ds, ¬ e.StandsAt d.category d.name
  unchanged : answer = .ok .unchanged ↔ ds.find? (·.StandsAt d.category d.name) = some d
  ignored : answer = .ok .ignored ↔ Loses ds d ∧ policy = .firstWriteWins
  refused : ∀ f, answer = .error f ↔ Loses ds d ∧ policy = .reject ∧
    f = .duplicateDefinition d.category d.name label

theorem not_loses_of_none (h : ds.find? (·.StandsAt d.category d.name) = none) : ¬ Loses ds d := by
  rintro ⟨first, hfirst, -⟩
  rw [h] at hfirst
  cases hfirst

theorem not_loses_of_self (h : ds.find? (·.StandsAt d.category d.name) = some d) :
    ¬ Loses ds d := by
  rintro ⟨first, hfirst, hne⟩
  rw [h] at hfirst
  exact hne (Option.some.inj hfirst).symm

theorem answered_history : Answered policy label ds d
    (((opened policy label).after ds).register d).2.result := by
  have hnew : (∀ e ∈ ds, ¬ e.StandsAt d.category d.name) ↔
      ds.find? (·.StandsAt d.category d.name) = none := by
    simp only [List.find?_eq_none, decide_eq_true_eq]
  have hcases := ((opened policy label).after ds).register_cases d
  simp only [find?_history, conflicts_history, policy_history, label_history] at hcases
  rcases hcases with ⟨hnone, hrun⟩ | ⟨hself, hrun⟩ | ⟨hloses, hpolicy, hrun⟩ |
    ⟨hloses, hpolicy, hrun⟩
  · have hwins := not_loses_of_none hnone
    constructor <;> simp [hrun, Traced.ok, hnew, hnone, hwins]
  · have hwins := not_loses_of_self hself
    constructor <;> simp [hrun, Traced.ok, hnew, hself, hwins]
  · subst hpolicy
    obtain ⟨first, hfirst, hne⟩ := id hloses
    refine ⟨?_, ?_, ?_, fun f => ?_⟩
    · simp [hrun, Traced.fail, hnew, hfirst]
    · simp [hrun, Traced.fail, hfirst, hne]
    · simp [hrun, Traced.fail]
    · simp [hrun, Traced.fail, hloses, eq_comm (a := f)]
  · subst hpolicy
    obtain ⟨first, hfirst, hne⟩ := id hloses
    constructor <;> simp [hrun, hnew, hfirst, hne, hloses]

/-! ## Categories -/

theorem register_congr (hfind : r.find? d.category d.name = r'.find? d.category d.name)
    (hpolicy : r.policy = r'.policy) (hlabel : r.label = r'.label) :
    (r.register d).2 = (r'.register d).2 := by
  simp only [register, hfind, hpolicy, hlabel]
  cases r'.find? d.category d.name with
  | none => rfl
  | some stored =>
    by_cases heq : stored = d
    · simp only [heq, if_true]
    · simp only [heq, if_false]
      cases r'.policy <;> rfl

/-- In one category, the registries store the same and answer the same. -/
structure AgreeIn (c : Category) (r r' : Registry) : Prop where
  stored : ∀ n, r.find? c n = r'.find? c n
  counted : r.count c = r'.count c
  answer : ∀ d, d.category = c → (r.register d).2 = (r'.register d).2

/-- The definitions of the other categories could as well be left out of a history. -/
theorem agreeIn_filter : AgreeIn c ((opened policy label).after ds)
    ((opened policy label).after (ds.filter (·.category = c))) := by
  have hstored : ∀ n, ((opened policy label).after ds).find? c n
      = ((opened policy label).after (ds.filter (·.category = c))).find? c n := by
    intro n
    rw [find?_history, find?_history, List.find?_filter]
    congr 1
    funext d
    simp only [decide_eq_true_eq]
    exact decide_eq_decide.mpr (and_iff_right_of_imp fun h => h.1).symm
  refine ⟨hstored, ?_, ?_⟩
  · rw [keepsFirst_history.counted, keepsFirst_history.counted, List.filter_filter]
    simp
  · rintro d rfl
    exact register_congr (hstored d.name) (policy_history.trans policy_history.symm)
      (label_history.trans label_history.symm)

end Registry

/-- A definition stands where it was registered first, for good. Policies differ in what they answer
to another one, but neither stores it, and no category has a part in what becomes of another. -/
theorem first_registration_stays (policy : DuplicatePolicy) (label : String) (ds : List TypeDef) :
    ((Registry.opened policy label).after ds).KeepsFirst ds ∧
    (∀ es c n d, ((Registry.opened policy label).after ds).find? c n = some d →
      ((Registry.opened policy label).after (ds ++ es)).find? c n = some d) ∧
    (∀ policy', (Registry.opened policy' label).after ds
      = { (Registry.opened policy label).after ds with policy := policy' }) ∧
    (∀ c, Registry.AgreeIn c ((Registry.opened policy label).after ds)
      ((Registry.opened policy label).after (ds.filter (·.category = c)))) ∧
    ∀ d, Registry.Answered policy label ds d
      (((Registry.opened policy label).after ds).register d).2.result := by
  refine ⟨Registry.keepsFirst_history, fun es c n d h => ?_, fun policy' => ?_,
    fun c => Registry.agreeIn_filter, fun d => Registry.answered_history⟩
  · rw [Registry.after_append, Registry.find?_after, h, Option.some_or]
  · refine Registry.ext_find? Registry.policy_history
      (Registry.label_history.trans Registry.label_history.symm) fun c n => ?_
    exact Registry.find?_history.trans Registry.find?_history.symm

/-- An entity type of one name, with any guid. -/
def asset (guid : String) : TypeDef := .entity { name := "asset", guid }

/-- Two definitions of an entity type, and a classification of the same name. -/
def clashing : List TypeDef :=
  [asset "g1", .classification { name := "asset", guid := "g2" }, asset "g3"]

theorem first_registration_stays_clashing :
    ((Registry.opened .reject "repo").after clashing).find? .entity "asset" = some (asset "g1") ∧
    ((Registry.opened .reject "repo").after (clashing ++ clashing.reverse)).find? .entity "asset"
      = some (asset "g1") ∧
    (((Registry.opened .reject "repo").after clashing).register (asset "g3")).2.result
      = .error (.duplicateDefinition .entity "asset" "repo") := by
  obtain ⟨hkeeps, hstays, -, -, hanswered⟩ := first_registration_stays .reject "repo" clashing
  have hlist : clashing.find? (·.StandsAt .entity "asset") = some (asset "g1") := by decide
  have hfirst := (hkeeps.first .entity "asset").trans hlist
  have hloses : Registry.Loses clashing (asset "g3") := ⟨asset "g1", hlist, by decide⟩
  exact ⟨hfirst, hstays _ _ _ _ hfirst, ((hanswered _).refused _).mpr ⟨hloses, rfl, rfl⟩⟩

end Metamodel
