import Mathlib.Logic.Function.Basic
import Metamodel.Proofs.Registration

/-!
# Metamodel.Proofs.Guids

What the index of guids holds while definitions are added.

* `Pairing.Indexes`        — a pairing is one to one, made of pairs that are stored, and lacks no guid
  that is stored under a name.
* `Pairing.Indexes.unique` — where no two names share a guid, there is only one such pairing.
* `Draft.Indexed`          — the pairings of a draft index what it stores. Every addition keeps it so,
  even one that is refused.
-/

namespace Metamodel

/-! ## Pairings -/

namespace Pairing

variable {p q : Pairing} {stored : String → Option String} {n g k : String}

/-- The pairing indexes the guids that are stored under names. -/
structure Indexes (p : Pairing) (stored : String → Option String) : Prop where
  inverse : ∀ {n g}, p.guid? n = some g ↔ p.name? g = some n
  sound : ∀ {n g}, p.guid? n = some g → n ≠ "" ∧ g ≠ "" ∧ stored n = some g
  /-- A guid stored under a name goes with that name or with another one. -/
  complete : ∀ {n g}, stored n = some g → n ≠ "" → g ≠ "" → ∃ k, p.name? g = some k

theorem indexes_empty : ({} : Pairing).Indexes fun _ => none where
  inverse := by simp [guid?, name?]
  sound := by simp [guid?]
  complete := by simp

theorem guid?_register (h : indexable n g = true) (hfree : p.taken n g = false) :
    (p.register n g).guid? k = if n = k then some g else p.guid? k := by
  simp only [register, h, hfree, Bool.not_false, Bool.and_self, if_true, guid?, NameMap.get?_insert]

theorem name?_register (h : indexable n g = true) (hfree : p.taken n g = false) :
    (p.register n g).name? k = if g = k then some n else p.name? k := by
  simp only [register, h, hfree, Bool.not_false, Bool.and_self, if_true, name?, NameMap.get?_insert]

theorem taken_eq_false : p.taken n g = false ↔ p.guid? n = none ∧ p.name? g = none := by
  simp [taken, guid?, name?, NameMap.contains]

theorem indexable_iff : indexable n g = true ↔ n ≠ "" ∧ g ≠ "" := by
  simp [indexable]

theorem register_of_skipped (h : ¬ (indexable n g = true ∧ p.taken n g = false)) :
    p.register n g = p := by
  refine if_neg fun hreg => h ?_
  rwa [Bool.and_eq_true, Bool.not_eq_true'] at hreg

/-- A guid never changes hands. -/
theorem name?_register_of_some (h : p.name? g = some n) (k g' : String) :
    (p.register k g').name? g = some n := by
  by_cases hpair : indexable k g' = true ∧ p.taken k g' = false
  · have hne : g' ≠ g := by
      rintro rfl
      rw [(taken_eq_false.mp hpair.2).2] at h
      cases h
    rw [name?_register hpair.1 hpair.2, if_neg hne, h]
  · rw [register_of_skipped hpair, h]

namespace Indexes

/-- What is not stored is not indexed. -/
theorem guid?_of_new (h : p.Indexes stored) (hnew : stored n = none) : p.guid? n = none := by
  rw [Option.eq_none_iff_forall_ne_some]
  intro g hg
  obtain ⟨_, _, hstored⟩ := h.sound hg
  rw [hnew] at hstored
  cases hstored

theorem sound_update (h : p.Indexes stored) (hnew : stored n = none) {x : Option String}
    (hk : p.guid? k = some g) : k ≠ "" ∧ g ≠ "" ∧ Function.update stored n x k = some g := by
  have hkn : k ≠ n := by
    rintro rfl
    rw [h.guid?_of_new hnew] at hk
    cases hk
  rw [Function.update_of_ne hkn]
  exact h.sound hk

/-- A new name takes a guid that goes with no name. -/
theorem take (h : p.Indexes stored) (hnew : stored n = none) (hpair : indexable n g = true)
    (hfree : p.taken n g = false) :
    (p.register n g).Indexes (Function.update stored n (some g)) where
  inverse {k g'} := by
    -- neither part of the new pair stands in an old one
    obtain ⟨hn, hg⟩ := taken_eq_false.mp hfree
    rw [guid?_register hpair hfree, name?_register hpair hfree]
    by_cases hk : n = k
    · subst hk
      have hback : p.name? g' ≠ some n := fun hg' => by
        rw [← h.inverse, hn] at hg'
        cases hg'
      by_cases hgg : g = g' <;> simp [hgg, hback]
    · by_cases hgg : g = g'
      · subst hgg
        have hforth : p.guid? k ≠ some g := fun hk => by
          rw [h.inverse, hg] at hk
          cases hk
        simp [hk, hforth]
      · simp only [hk, hgg, if_false, h.inverse]
  sound {k g'} hk := by
    rw [guid?_register hpair hfree] at hk
    split at hk
    · rename_i hnk
      subst hnk
      cases hk
      obtain ⟨hne, hge⟩ := indexable_iff.mp hpair
      exact ⟨hne, hge, Function.update_self ..⟩
    · exact h.sound_update hnew hk
  complete {k g'} hk hkne hgne := by
    rw [name?_register hpair hfree]
    by_cases hgg : g = g'
    · exact ⟨n, if_pos hgg⟩
    · rw [if_neg hgg]
      by_cases hnk : k = n
      · subst hnk
        rw [Function.update_self] at hk
        exact absurd (Option.some.inj hk) hgg
      · rw [Function.update_of_ne hnk] at hk
        exact h.complete hk hkne hgne

/-- A new name is passed over if it or its guid is empty, or the guid goes with a name already. -/
theorem skip (h : p.Indexes stored) (hnew : stored n = none)
    (hskipped : ¬ (indexable n g = true ∧ p.taken n g = false)) :
    (p.register n g).Indexes (Function.update stored n (some g)) := by
  rw [register_of_skipped hskipped]
  refine ⟨h.inverse, fun {k g'} hk => h.sound_update hnew hk, fun {k g'} hk hkne hgne => ?_⟩
  by_cases hnk : k = n
  · subst hnk
    rw [Function.update_self] at hk
    cases hk
    by_contra hmissing
    refine hskipped ⟨indexable_iff.mpr ⟨hkne, hgne⟩,
      taken_eq_false.mpr ⟨h.guid?_of_new hnew, ?_⟩⟩
    rw [Option.eq_none_iff_forall_ne_some]
    exact fun j hj => hmissing ⟨j, hj⟩
  · rw [Function.update_of_ne hnk] at hk
    exact h.complete hk hkne hgne

theorem register (h : p.Indexes stored) (hnew : stored n = none) (g : String) :
    (p.register n g).Indexes (Function.update stored n (some g)) := by
  by_cases hpair : indexable n g = true ∧ p.taken n g = false
  · exact h.take hnew hpair.1 hpair.2
  · exact h.skip hnew hpair

end Indexes

/-- No two names go with one guid. -/
def Distinct (stored : String → Option String) : Prop :=
  ∀ n k g, n ≠ "" → k ≠ "" → g ≠ "" → stored n = some g → stored k = some g → n = k

theorem Indexes.guid?_eq_some_iff (h : p.Indexes stored) (hdistinct : Distinct stored) :
    p.guid? n = some g ↔ n ≠ "" ∧ g ≠ "" ∧ stored n = some g := by
  refine ⟨h.sound, fun ⟨hn, hg, hstored⟩ => ?_⟩
  obtain ⟨k, hk⟩ := h.complete hstored hn hg
  obtain ⟨hkne, _, hkstored⟩ := h.sound (h.inverse.mpr hk)
  rw [hdistinct n k g hn hkne hg hstored hkstored]
  exact h.inverse.mpr hk

/-- The order in which guids were registered leaves no trace where no two names share one. -/
theorem Indexes.unique (hp : p.Indexes stored) (hq : q.Indexes stored)
    (hdistinct : Distinct stored) : p = q := by
  have hguids : ∀ n, p.guid? n = q.guid? n := fun n => Option.ext fun g => by
    rw [hp.guid?_eq_some_iff hdistinct, hq.guid?_eq_some_iff hdistinct]
  have hnames : ∀ g, p.name? g = q.name? g := fun g => Option.ext fun n => by
    rw [← hp.inverse, ← hq.inverse, hguids]
  obtain ⟨_, _⟩ := p
  obtain ⟨_, _⟩ := q
  exact congrArg₂ Pairing.mk (NameMap.ext_get? hguids) (NameMap.ext_get? hnames)

end Pairing

/-! ## Drafts -/

/-- The guid of the definition stored under a name. -/
def Registry.guidOf? (r : Registry) (c : Category) (n : String) : Option String :=
  (r.find? c n).map TypeDef.guid

theorem Registry.guidOf?_of_new {r : Registry} {c : Category} {n : String}
    (h : r.find? c n = none) : r.guidOf? c n = none := by
  rw [guidOf?, h, Option.map_none]

theorem Registry.guidOf?_put_self (r : Registry) (d : TypeDef) :
    (r.put d).guidOf? d.category
      = Function.update (r.guidOf? d.category) d.name (some d.guid) := by
  funext n
  simp only [guidOf?, find?_put]
  by_cases hn : d.name = n
  · subst hn
    simp [Function.update_self]
  · simp [hn, Function.update_of_ne (Ne.symm hn), guidOf?]

theorem Registry.guidOf?_put_other (r : Registry) {d : TypeDef} {c : Category}
    (h : d.category ≠ c) : (r.put d).guidOf? c = r.guidOf? c := by
  funext n
  simp only [guidOf?, find?_put, h, false_and, if_false]

namespace GuidIndex

variable {x y : GuidIndex} {r : Registry} {d : TypeDef} {c : Category} {n g : String}

/-- The pairing of a category, if it is one that is indexed. -/
def pairing? (x : GuidIndex) : Category → Option Pairing
  | .entity => some x.entities
  | .relationship => some x.relationships
  | .classification => none
  | .enumeration => none

def nameOf? (x : GuidIndex) (c : Category) (g : String) : Option String :=
  (x.pairing? c).bind (·.name? g)

theorem ext_pairing? (h : ∀ c, x.pairing? c = y.pairing? c) : x = y := by
  obtain ⟨_, _⟩ := x
  obtain ⟨_, _⟩ := y
  exact congrArg₂ GuidIndex.mk (Option.some.inj (h .entity)) (Option.some.inj (h .relationship))

/-- A definition goes to the pairing of its own category. -/
theorem pairing?_register : (x.register d).1.pairing? c
    = (x.pairing? c).map fun p => if d.category = c then p.register d.name d.guid else p := by
  cases d <;> cases c <;> rfl

theorem nameOf?_register_of_some (h : x.nameOf? c g = some n) :
    (x.register d).1.nameOf? c g = some n := by
  obtain ⟨p, hp, hg⟩ := Option.bind_eq_some_iff.mp h
  rw [nameOf?, pairing?_register, hp, Option.map_some, Option.bind_some]
  split
  · exact Pairing.name?_register_of_some hg _ _
  · exact hg

/-- The index holds the guids that are stored in the categories it has a pairing for. -/
def Indexes (x : GuidIndex) (r : Registry) : Prop :=
  ∀ c p, x.pairing? c = some p → p.Indexes (r.guidOf? c)

/-- A definition is indexed together with being stored. -/
theorem Indexes.register (h : x.Indexes r) (hnew : r.find? d.category d.name = none) :
    (x.register d).1.Indexes (r.put d) := by
  intro c p hp
  rw [pairing?_register] at hp
  obtain ⟨q, hq, rfl⟩ := Option.map_eq_some_iff.mp hp
  split
  · rename_i hc
    subst hc
    rw [Registry.guidOf?_put_self]
    exact (h _ q hq).register (Registry.guidOf?_of_new hnew) d.guid
  · rename_i hc
    rw [Registry.guidOf?_put_other r hc]
    exact h c q hq

end GuidIndex

namespace Draft

variable {b : Draft} {c : Category} {n g : String}

/-- The index of a draft holds the guids of what the draft stores. -/
def Indexed (b : Draft) : Prop := b.guids.Indexes b.registry

theorem indexed_ofSettings (s : Settings) : (ofSettings s).Indexed := by
  intro c p hp
  cases c <;> cases hp <;> exact Pairing.indexes_empty

theorem Indexed.add (h : b.Indexed) (d : TypeDef) : (b.add d).1.Indexed := by
  rw [Indexed, registry_add, guids_add]
  cases hfind : b.registry.find? d.category d.name with
  | none =>
    rw [if_pos rfl, Registry.register_of_none hfind]
    exact GuidIndex.Indexes.register h hfind
  | some stored =>
    rw [if_neg (by simp), Registry.register_of_some hfind]
    exact h

/-- What the index says of a guid, it says whatever is added. -/
theorem nameOf?_addAll_of_some (h : b.guids.nameOf? c g = some n) (ds : List TypeDef) :
    (b.addAll ds).1.guids.nameOf? c g = some n := by
  refine addAll_preserves (P := fun b => b.guids.nameOf? c g = some n) (fun b d hb => ?_) ds h
  rw [guids_add]
  split
  · exact GuidIndex.nameOf?_register_of_some hb
  · exact hb

theorem Indexed.addAll (h : b.Indexed) (ds : List TypeDef) : (b.addAll ds).1.Indexed :=
  addAll_preserves (fun _ d hb => hb.add d) ds h

end Draft

end Metamodel
