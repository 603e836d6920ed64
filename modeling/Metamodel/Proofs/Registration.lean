import Mathlib.Logic.Basic
import Mathlib.Tactic.ByContra
import Metamodel.Draft

/-!
# Metamodel.Proofs.Registration

What registrations do to a registry and to a draft.

* `Registry.register_cases` — the four ways a registration ends.
* `Registry.find?_register` — a registration adds its definition where nothing stood before.
* `Draft.add_of_none`, `Draft.add_of_some` — an addition, told by whether its name is free.
* `Registry.after`, `Draft.after` — registrations one after the other, refused ones included.
* `Registry.find?_after`    — of each name the first definition is stored.
* `Draft.addAll_eq_after`   — a draft that stops at a refusal has taken a prefix.
* `Draft.addAll_ok_iff`     — which lists of definitions a draft takes to the end.
-/

namespace Metamodel

namespace TypeDef

variable {d e : TypeDef} {c : Category} {n : String}

/-- The definition belongs under the name `n` of the category `c`. -/
def StandsAt (d : TypeDef) (c : Category) (n : String) : Prop := d.category = c ∧ d.name = n

instance : Decidable (d.StandsAt c n) := inferInstanceAs (Decidable (d.category = c ∧ d.name = n))

/-- The definitions are different, though they have a name of one category in common. -/
def Clashes (d e : TypeDef) : Prop := d.StandsAt e.category e.name ∧ d ≠ e

theorem Clashes.symm (h : d.Clashes e) : e.Clashes d :=
  ⟨⟨h.1.1.symm, h.1.2.symm⟩, h.2.symm⟩

end TypeDef

/-- No two definitions of one category share a name but differ. -/
def Unconflicting (ds : List TypeDef) : Prop := ∀ d ∈ ds, ∀ e ∈ ds, ¬ d.Clashes e

instance (ds : List TypeDef) : Decidable (Unconflicting ds) :=
  inferInstanceAs (Decidable (∀ d ∈ ds, ∀ e ∈ ds, ¬ (d.StandsAt e.category e.name ∧ d ≠ e)))

theorem Unconflicting.eq {ds : List TypeDef} (h : Unconflicting ds) {d e : TypeDef} (hd : d ∈ ds)
    (he : e ∈ ds) {c : Category} {n : String} (hdn : d.StandsAt c n) (hen : e.StandsAt c n) :
    d = e := by
  by_contra hne
  exact h d hd e he ⟨⟨hdn.1.trans hen.1.symm, hdn.2.trans hen.2.symm⟩, hne⟩

theorem Unconflicting.perm {ds es : List TypeDef} (h : Unconflicting ds) (hp : ds.Perm es) :
    Unconflicting es :=
  fun d hd e he => h d (hp.mem_iff.mpr hd) e (hp.mem_iff.mpr he)

theorem unconflicting_cons {d : TypeDef} {ds : List TypeDef} :
    Unconflicting (d :: ds) ↔ (∀ e ∈ ds, ¬ d.Clashes e) ∧ Unconflicting ds := by
  constructor
  · intro h
    exact ⟨fun e he => h d (by simp) e (by simp [he]),
      fun a ha e he => h a (by simp [ha]) e (by simp [he])⟩
  · rintro ⟨hd, hds⟩ a ha e he
    rw [List.mem_cons] at ha he
    rcases ha with rfl | ha
    · rcases he with rfl | he
      · exact fun hclash => hclash.2 rfl
      · exact hd e he
    · rcases he with rfl | he
      · exact fun hclash => hd a ha hclash.symm
      · exact hds a ha e he

/-! ## One registration -/

namespace Registry

variable {r : Registry} {d e : TypeDef} {c : Category} {n : String}

/-- Another definition stands where `d` belongs. -/
def Conflicts (r : Registry) (d : TypeDef) : Prop :=
  ∃ stored, r.find? d.category d.name = some stored ∧ stored ≠ d

theorem register_cases (r : Registry) (d : TypeDef) :
    (r.find? d.category d.name = none ∧ r.register d = (r.put d, .ok .added)) ∨
    (r.find? d.category d.name = some d ∧ r.register d = (r, .ok .unchanged)) ∨
    (r.Conflicts d ∧ r.policy = .reject ∧
      r.register d = (r, .fail (.duplicateDefinition d.category d.name r.label))) ∨
    (r.Conflicts d ∧ r.policy = .firstWriteWins ∧
      r.register d = (r, ⟨.ok .ignored, [ignoredEvent d.category d.name r.label]⟩)) := by
  cases hfind : r.find? d.category d.name with
  | none => exact .inl ⟨rfl, by simp only [register, hfind]⟩
  | some stored =>
    by_cases heq : stored = d
    · subst heq
      exact .inr (.inl ⟨rfl, by simp only [register, hfind, if_true]⟩)
    · refine .inr (.inr ?_)
      have hconflict : r.Conflicts d := ⟨stored, hfind, heq⟩
      cases hpolicy : r.policy with
      | reject => exact .inl ⟨hconflict, rfl, by simp only [register, hfind, heq, if_false, hpolicy]⟩
      | firstWriteWins =>
        exact .inr ⟨hconflict, rfl, by simp only [register, hfind, heq, if_false, hpolicy]⟩

theorem policy_put : (r.put d).policy = r.policy := by cases d <;> rfl

theorem label_put : (r.put d).label = r.label := by cases d <;> rfl

/-- A definition that is not added leaves the registry as it was. -/
theorem register_of_some {stored : TypeDef} (h : r.find? d.category d.name = some stored) :
    (r.register d).1 = r := by
  rcases r.register_cases d with ⟨hnone, _⟩ | ⟨_, hrun⟩ | ⟨_, _, hrun⟩ | ⟨_, _, hrun⟩
  · rw [h] at hnone
    cases hnone
  all_goals rw [hrun]

theorem register_of_none (h : r.find? d.category d.name = none) : (r.register d).1 = r.put d := by
  simp only [register, h]

theorem find?_register : (r.register d).1.find? c n
    = (r.find? c n).or (if d.StandsAt c n then some d else none) := by
  cases hfind : r.find? d.category d.name with
  | none =>
    rw [register_of_none hfind, find?_put]
    change (if d.StandsAt c n then some d else r.find? c n) = _
    split
    · rename_i hd
      rw [← hd.1, ← hd.2, hfind, Option.none_or]
    · rw [Option.or_none]
  | some stored =>
    rw [register_of_some hfind]
    split
    · rename_i hd
      rw [← hd.1, ← hd.2, hfind, Option.some_or]
    · rw [Option.or_none]

theorem policy_register : (r.register d).1.policy = r.policy := by
  cases hfind : r.find? d.category d.name with
  | none => rw [register_of_none hfind, policy_put]
  | some stored => rw [register_of_some hfind]

theorem label_register : (r.register d).1.label = r.label := by
  cases hfind : r.find? d.category d.name with
  | none => rw [register_of_none hfind, label_put]
  | some stored => rw [register_of_some hfind]

/-- Only a conflict under the reject policy is refused. -/
theorem register_ok_iff : (∃ x, (r.register d).2.result = .ok x) ↔
    (r.policy = .reject → ¬ r.Conflicts d) := by
  have hfree : r.find? d.category d.name = none → ¬ r.Conflicts d := by
    rintro hnone ⟨stored, hstored, _⟩
    rw [hnone] at hstored
    cases hstored
  have hsame : r.find? d.category d.name = some d → ¬ r.Conflicts d := by
    rintro hsome ⟨stored, hstored, hne⟩
    exact hne (Option.some.inj (hstored.symm.trans hsome))
  rcases r.register_cases d with ⟨h, hrun⟩ | ⟨h, hrun⟩ | ⟨h, hpolicy, hrun⟩ | ⟨_, hpolicy, hrun⟩
  · simp [hrun, Traced.ok, hfree h]
  · simp [hrun, Traced.ok, hsame h]
  · simp [hrun, Traced.fail, hpolicy, h]
  · simp [hrun, hpolicy]

/-- After a registration that found no other definition, the conflicts are those of before and
those with the new definition. -/
theorem conflicts_register (hd : ¬ r.Conflicts d) :
    (r.register d).1.Conflicts e ↔ r.Conflicts e ∨ d.Clashes e := by
  simp only [Conflicts, find?_register, TypeDef.Clashes]
  by_cases hde : d.StandsAt e.category e.name
  · simp only [hde, if_true, true_and]
    cases hfind : r.find? e.category e.name with
    | none => simp
    | some stored =>
      have heq : stored = d := by
        by_contra hne
        exact hd ⟨stored, by rw [hde.1, hde.2, hfind], hne⟩
      simp [heq]
  · simp only [hde, if_false, Option.or_none, false_and, or_false]

/-- Registries with the same definitions and settings are the same. -/
theorem ext_find? {r' : Registry} (hpolicy : r.policy = r'.policy) (hlabel : r.label = r'.label)
    (h : ∀ c n, r.find? c n = r'.find? c n) : r = r' := by
  have hentities : r.entities = r'.entities :=
    NameMap.ext_get? fun n => Option.map_injective (fun _ _ => TypeDef.entity.inj) (h .entity n)
  have hrelationships : r.relationships = r'.relationships :=
    NameMap.ext_get? fun n =>
      Option.map_injective (fun _ _ => TypeDef.relationship.inj) (h .relationship n)
  have hclassifications : r.classifications = r'.classifications :=
    NameMap.ext_get? fun n =>
      Option.map_injective (fun _ _ => TypeDef.classification.inj) (h .classification n)
  have henums : r.enums = r'.enums :=
    NameMap.ext_get? fun n =>
      Option.map_injective (fun _ _ => TypeDef.enumeration.inj) (h .enumeration n)
  cases r
  cases r'
  cases hpolicy
  cases hlabel
  cases hentities
  cases hrelationships
  cases hclassifications
  cases henums
  rfl

/-! ## A list of registrations -/

variable {ds es : List TypeDef}

/-- The registry after a list of registrations, whatever each of them answers. -/
def after (r : Registry) (ds : List TypeDef) : Registry := ds.foldl (fun r d => (r.register d).1) r

theorem after_cons : r.after (d :: ds) = (r.register d).1.after ds := rfl

theorem after_append : r.after (ds ++ es) = (r.after ds).after es := List.foldl_append

theorem policy_after : (r.after ds).policy = r.policy := by
  induction ds generalizing r with
  | nil => rfl
  | cons d ds ih => rw [after_cons, ih, policy_register]

theorem label_after : (r.after ds).label = r.label := by
  induction ds generalizing r with
  | nil => rfl
  | cons d ds ih => rw [after_cons, ih, label_register]

/-- What was stored stays; otherwise the first definition in the list is stored. -/
theorem find?_after :
    (r.after ds).find? c n = (r.find? c n).or (ds.find? (·.StandsAt c n)) := by
  induction ds generalizing r with
  | nil => simp [after]
  | cons d ds ih =>
    rw [after_cons, ih, find?_register, Option.or_assoc, List.find?_cons]
    split
    · rename_i hdn
      rw [decide_eq_true hdn, Option.some_or]
    · rename_i hdn
      rw [decide_eq_false hdn, Option.none_or]

end Registry

/-! ## One addition to a draft -/

namespace Draft

variable {b : Draft} {d : TypeDef} {ds : List TypeDef} {c : Category} {n : String}

theorem registry_add : (b.add d).1.registry = (b.registry.register d).1 := by
  simp only [add]
  split <;> rfl

theorem result_add : (b.add d).2.result = (b.registry.register d).2.result := by
  simp only [add]
  split <;> rfl

theorem mode_add : (b.add d).1.mode = b.mode := by
  simp only [add]
  split <;> rfl

theorem add_of_none (h : b.registry.find? d.category d.name = none) : b.add d =
    ({ b with registry := b.registry.put d, guids := (b.guids.register d).1 },
      ⟨.ok .added, (b.guids.register d).2⟩) := by
  simp only [add, Registry.register, h]
  rfl

theorem add_of_some {stored : TypeDef} (h : b.registry.find? d.category d.name = some stored) :
    b.add d = (b, (b.registry.register d).2) := by
  rcases b.registry.register_cases d with ⟨hnone, -⟩ | ⟨-, hrun⟩ | ⟨-, -, hrun⟩ | ⟨-, -, hrun⟩
  · rw [h] at hnone
    cases hnone
  all_goals simp only [add, hrun, Traced.ok, Traced.fail]

/-- A definition is indexed if and only if it is added. -/
theorem guids_add : (b.add d).1.guids
    = if b.registry.find? d.category d.name = none then (b.guids.register d).1 else b.guids := by
  cases hfind : b.registry.find? d.category d.name with
  | none => rw [add_of_none hfind, if_pos rfl]
  | some stored => rw [add_of_some hfind, if_neg (Option.some_ne_none stored)]

/-! ## A list of additions -/

/-- The draft after a list of additions, whatever each of them answers. -/
def after (b : Draft) (ds : List TypeDef) : Draft := ds.foldl (fun b d => (b.add d).1) b

theorem after_cons : b.after (d :: ds) = (b.add d).1.after ds := rfl

theorem registry_after : (b.after ds).registry = b.registry.after ds := by
  induction ds generalizing b with
  | nil => rfl
  | cons d ds ih => rw [after_cons, ih, registry_add, Registry.after_cons]

/-- What every addition preserves, a list of them preserves. -/
theorem after_preserves {P : Draft → Prop} (hadd : ∀ b d, P b → P (b.add d).1)
    (ds : List TypeDef) : P b → P (b.after ds) := by
  induction ds generalizing b with
  | nil => exact id
  | cons d ds ih => exact fun hb => ih (hadd b d hb)

theorem addAll_cons_of_ok {x : Registration} (h : (b.add d).2.result = .ok x) :
    (b.addAll (d :: ds)).1 = ((b.add d).1.addAll ds).1 ∧
      (b.addAll (d :: ds)).2.result = ((b.add d).1.addAll ds).2.result := by
  simp only [addAll, h, and_self]

theorem addAll_cons_of_error {f : Fault} (h : (b.add d).2.result = .error f) :
    (b.addAll (d :: ds)).1 = (b.add d).1 ∧ (b.addAll (d :: ds)).2.result = .error f := by
  simp only [addAll, h, and_self]

/-- Additions that stop at a refusal are those of a prefix, and those of the whole list if nothing
is refused. -/
theorem addAll_eq_after (b : Draft) (ds : List TypeDef) :
    ∃ es, es <+: ds ∧ (b.addAll ds).1 = b.after es ∧
      ((b.addAll ds).2.result = .ok () → es = ds) := by
  induction ds generalizing b with
  | nil => exact ⟨[], List.prefix_refl _, rfl, fun _ => rfl⟩
  | cons d ds ih =>
    cases h : (b.add d).2.result with
    | error f =>
      refine ⟨[d], List.prefix_append [d] ds, (addAll_cons_of_error h).1, fun hok => ?_⟩
      rw [(addAll_cons_of_error h).2] at hok
      cases hok
    | ok x =>
      obtain ⟨es, hprefix, heq, hall⟩ := ih (b.add d).1
      refine ⟨d :: es, List.cons_prefix_cons.mpr ⟨rfl, hprefix⟩,
        (addAll_cons_of_ok h).1.trans heq, fun hok => ?_⟩
      rw [(addAll_cons_of_ok h).2] at hok
      rw [hall hok]

/-- What every addition preserves is preserved whether or not one is refused. -/
theorem addAll_preserves {P : Draft → Prop} (hadd : ∀ b d, P b → P (b.add d).1)
    (ds : List TypeDef) (hb : P b) : P (b.addAll ds).1 := by
  obtain ⟨es, -, heq, -⟩ := addAll_eq_after b ds
  rw [heq]
  exact after_preserves hadd es hb

theorem settings_addAll (b : Draft) (ds : List TypeDef) :
    (b.addAll ds).1.registry.policy = b.registry.policy ∧
      (b.addAll ds).1.registry.label = b.registry.label ∧ (b.addAll ds).1.mode = b.mode := by
  refine addAll_preserves (P := fun b' => b'.registry.policy = b.registry.policy ∧
    b'.registry.label = b.registry.label ∧ b'.mode = b.mode) (fun b' d hb => ?_) ds ⟨rfl, rfl, rfl⟩
  rw [registry_add, Registry.policy_register, Registry.label_register, mode_add]
  exact hb

/-- By induction on the list: what the head conflicts with in the rest, it conflicts with when it
is stored. -/
theorem addAll_ok_iff : (b.addAll ds).2.result = .ok () ↔
    (b.registry.policy = .reject →
      (∀ d ∈ ds, ¬ b.registry.Conflicts d) ∧ Unconflicting ds) := by
  induction ds generalizing b with
  | nil => simp [addAll, Traced.ok, Unconflicting]
  | cons d ds ih =>
    have hhead := Registry.register_ok_iff (r := b.registry) (d := d)
    rw [← result_add] at hhead
    cases h : (b.add d).2.result with
    | error f =>
      rw [(addAll_cons_of_error h).2]
      simp only [h, reduceCtorEq, exists_false, false_iff] at hhead
      refine iff_of_false (by simp) fun hall => hhead fun hpolicy => ?_
      exact (hall hpolicy).1 d (by simp)
    | ok x =>
      rw [(addAll_cons_of_ok h).2, ih, registry_add, Registry.policy_register]
      have hfree := hhead.mp ⟨x, h⟩
      refine imp_congr_right fun hpolicy => ?_
      simp only [Registry.conflicts_register (hfree hpolicy), not_or, unconflicting_cons,
        List.forall_mem_cons, hfree hpolicy, not_false_eq_true, true_and]
      exact ⟨fun ⟨hall, hds⟩ => ⟨fun e he => (hall e he).1, fun e he => (hall e he).2, hds⟩,
        fun ⟨hstored, hhead, hds⟩ => ⟨fun e he => ⟨hstored e he, hhead e he⟩, hds⟩⟩

/-- What was stored stays; otherwise the first definition in the list is stored. -/
theorem find?_addAll (h : (b.addAll ds).2.result = .ok ()) :
    (b.addAll ds).1.registry.find? c n
      = (b.registry.find? c n).or (ds.find? (·.StandsAt c n)) := by
  obtain ⟨es, -, heq, hall⟩ := addAll_eq_after b ds
  rw [heq, hall h, registry_after, Registry.find?_after]

end Draft

end Metamodel
