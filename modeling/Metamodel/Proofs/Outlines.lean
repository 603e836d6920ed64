import Metamodel.Proofs.Ancestry
import Metamodel.Proofs.Classifications

/-!
# Metamodel.Proofs.Outlines

What resolution sees of a definition.

* `TypeOutline`      — of a type in a hierarchy: where its supertype link leads, and its attributes.
* `NameMap.Embeds`   — a map whose definitions stand in another one, unchanged in what is seen.
* `Registry.Embeds`  — the same of a registry. What its types lead up to, and what applies to them,
  is then the same in both.
-/

namespace Metamodel

open Relation

/-! ## Outlines -/

structure TypeOutline where
  /-- Absent without a supertype link; else the name the link refers to, if it has one. -/
  supertype : Option (Option String)
  attributes : List AttributeDef
deriving DecidableEq

def outline {δ : Type} [SupertypedDef δ] (c : δ) : TypeOutline where
  supertype := (SupertypedDef.supertype c).map TypeLink.target?
  attributes := SupertypedDef.attributes c

/-- The names that the two ends of a relationship refer to. -/
def RelationshipDef.endTargets (r : RelationshipDef) : Option String × Option String :=
  (r.endTarget? .end1, r.endTarget? .end2)

/-- The names that the valid-entity links of a classification refer to, as listed. -/
def ClassificationDef.listedTargets (c : ClassificationDef) : List (Option String) :=
  c.validEntityTypes.map TypeLink.target?

theorem RelationshipDef.endTarget?_eq {r r' : RelationshipDef} (h : r.endTargets = r'.endTargets)
    (p : EndPosition) : r.endTarget? p = r'.endTarget? p := by
  cases p with
  | end1 => exact congrArg Prod.fst h
  | end2 => exact congrArg Prod.snd h

theorem RelationshipDef.joins_iff {r r' : RelationshipDef} (h : r.endTargets = r'.endTargets)
    (n : String) : r.Joins n ↔ r'.Joins n := by
  simp only [joins_iff_exists, endTarget?_eq h]

theorem ClassificationDef.lists_iff_mem {c : ClassificationDef} {n : String} :
    c.Lists n ↔ some n ∈ c.listedTargets := by
  simp only [Lists, listedTargets, List.mem_map]

/-! ## Maps -/

namespace NameMap

/-- Each definition of `m` stands in `m'` under its name, with the same view of it. -/
def Embeds {α β : Type} (view : α → β) (m m' : NameMap α) : Prop :=
  ∀ n a, m.get? n = some a → (m'.get? n).map view = some (view a)

theorem Embeds.exists_get? {α β : Type} {view : α → β} {m m' : NameMap α} {n : String} {a : α}
    (h : m.Embeds view m') (ha : m.get? n = some a) :
    ∃ a', m'.get? n = some a' ∧ view a' = view a :=
  Option.map_eq_some_iff.mp (h n a ha)

theorem embeds_of_get? {α β : Type} {view : α → β} {m m' : NameMap α}
    (h : ∀ n a, m.get? n = some a → m'.get? n = some a) : m.Embeds view m' := by
  intro n a ha
  rw [h n a ha, Option.map_some]

section Hierarchy

variable {δ : Type} [SupertypedDef δ] {m m' : NameMap δ} {n k : String} {c : δ}
  {ns : List String}

theorem extends_iff_outline :
    m.Extends n k ↔ ∃ c, m.get? n = some c ∧ (outline c).supertype = some (some k) := by
  simp only [Extends, outline, Option.map_eq_some_iff, exists_and_left]

theorem supertype_eq_none_iff :
    SupertypedDef.supertype c = none ↔ (outline c).supertype = none := by
  simp [outline]

namespace Embeds

variable (h : m.Embeds outline m')

include h

theorem extends_iff (hn : m.get? n = some c) : m'.Extends n k ↔ m.Extends n k := by
  obtain ⟨c', hn', hc⟩ := h.exists_get? hn
  simp only [extends_iff_outline, hn, hn', Option.some.injEq, exists_eq_left', hc]

theorem extends_mono (hnk : m.Extends n k) : m'.Extends n k := by
  obtain ⟨c, hn⟩ := registered_of_extends hnk
  exact (h.extends_iff hn).mpr hnk

/-- What a type leads up to is the same in both; `m` is closed under it. -/
theorem reaches_iff (hg : m.Grounded) (hn : ∃ c, m.get? n = some c) :
    ReflTransGen m'.Extends n k ↔ ReflTransGen m.Extends n k := by
  constructor
  · intro hnk
    induction hnk using ReflTransGen.head_induction_on with
    | refl => exact .refl
    | head hnj _ ih =>
      obtain ⟨c, hc⟩ := hn
      have hup := (h.extends_iff hc).mp hnj
      exact .head hup (ih (hg.registered ⟨c, hc⟩ (.single hup)))
  · exact ReflTransGen.mono (fun _ _ hij => h.extends_mono hij) n k

theorem properly_reaches_iff (hg : m.Grounded) (hn : ∃ c, m.get? n = some c) :
    TransGen m'.Extends n k ↔ TransGen m.Extends n k := by
  obtain ⟨c, hc⟩ := hn
  simp only [TransGen.head'_iff]
  refine exists_congr fun j => ?_
  rw [h.extends_iff hc]
  exact and_congr_right fun hnj => h.reaches_iff hg (hg.registered ⟨c, hc⟩ (.single hnj))

theorem ancestry (hns : m.Ancestry n ns) : m'.Ancestry n ns := by
  induction hns with
  | root hc hroot =>
    obtain ⟨c', hc', hview⟩ := h.exists_get? hc
    rw [supertype_eq_none_iff, ← hview, ← supertype_eq_none_iff] at hroot
    exact .root hc' hroot
  | step hnk _ ih => exact .step (h.extends_mono hnk) ih

theorem ownAttributes_eq (hn : m.get? n = some c) : m'.ownAttributes n = m.ownAttributes n := by
  obtain ⟨c', hn', hc⟩ := h.exists_get? hn
  simp only [ownAttributes, hn, hn']
  exact congrArg TypeOutline.attributes hc

end Embeds

end Hierarchy

end NameMap

/-! ## Registries -/

/-- The types of `r` stand in `r'`, and resolution sees the same of them. -/
structure Registry.Embeds (r r' : Registry) : Prop where
  entities : r.entities.Embeds outline r'.entities
  relationships : r.relationships.Embeds RelationshipDef.endTargets r'.relationships
  classifications : r.classifications.Embeds outline r'.classifications
  validEntities : r.classifications.Embeds ClassificationDef.listedTargets r'.classifications

section Applicability

variable {m m' : NameMap EntityDef} {n : String}

theorem spans_iff_of_embeds (h : m.Embeds outline m') (hg : m.Grounded)
    (hn : ∃ e, m.get? n = some e) {a a' : RelationshipDef} (ha : a'.endTargets = a.endTargets) :
    a'.Spans m' n ↔ a.Spans m n := by
  simp only [RelationshipDef.Spans, RelationshipDef.joins_iff ha, h.reaches_iff hg hn]

theorem covers_iff_of_embeds (h : m.Embeds outline m') (hg : m.Grounded)
    (hn : ∃ e, m.get? n = some e) {c c' : ClassificationDef}
    (hc : c'.listedTargets = c.listedTargets) : c'.Covers m' n ↔ c.Covers m n := by
  simp only [ClassificationDef.Covers, ClassificationDef.lists_iff_mem, hc, h.reaches_iff hg hn]
  refine exists_congr fun k => and_congr_right fun _ => and_congr_left fun hnk => ?_
  -- whatever `n` leads up to is registered in both
  obtain ⟨e, he⟩ := hg.registered hn hnk
  obtain ⟨e', he', _⟩ := h.exists_get? he
  exact iff_of_true ⟨e', he'⟩ ⟨e, he⟩

end Applicability

end Metamodel
