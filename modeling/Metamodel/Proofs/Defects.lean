import Metamodel.Proofs.Passes
import Metamodel.Proofs.Supertypes

/-!
# Metamodel.Proofs.Defects

The defects that the passes meet, said of the registered definitions alone.

* `NameMap.Flaw`, `Registry.EndFlaw`, `Registry.LinkFlaw` — what is wrong with a registry, and the
  type it is blamed on; a relationship is blamed for each end apart.
* `mem_entityDefects`, `mem_endDefects`, `mem_linkDefects`, `mem_classificationDefects` — the
  passes meet all of it and nothing else.
* `entityDefects_eq_cons` and the like — what they meet first.
-/

namespace Metamodel

open Relation

/-! ## Listings by name -/

namespace NameMap

variable {α β : Type} {m : NameMap α} {g : String → α → List β} {b : β}

/-- What the entries of a map give, in name order. -/
def gather (m : NameMap α) (g : String → α → List β) : List β :=
  m.toList.flatMap fun e => g e.1 e.2

theorem mem_gather : b ∈ m.gather g ↔ ∃ n a, m.get? n = some a ∧ b ∈ g n a := by
  simp only [gather, List.mem_flatMap, get?_eq_some_iff, Prod.exists]

/-- The first thing given is given by the least name that gives anything. -/
theorem gather_eq_cons {bs : List β} (h : m.gather g = b :: bs) :
    ∃ n a rest, m.get? n = some a ∧ g n a = b :: rest ∧
      ∀ k c, k < n → m.get? k = some c → g k c = [] := by
  have key : ∀ es : List (String × α), AscendingKeys es →
      es.flatMap (fun e => g e.1 e.2) = b :: bs →
      ∃ e rest, e ∈ es ∧ g e.1 e.2 = b :: rest ∧ ∀ f ∈ es, f.1 < e.1 → g f.1 f.2 = [] := by
    intro es hes h
    induction es with
    | nil => cases h
    | cons e es ih =>
      have hd := List.pairwise_cons.mp hes
      rw [List.flatMap_cons] at h
      cases he : g e.1 e.2 with
      | nil =>
        rw [he] at h
        obtain ⟨f, rest, hf, hfirst, hempty⟩ := ih hd.2 h
        refine ⟨f, rest, by simp [hf], hfirst, fun f' hf' hlt => ?_⟩
        rcases List.mem_cons.mp hf' with rfl | hf'
        · exact he
        · exact hempty f' hf' hlt
      | cons c cs =>
        rw [he] at h
        cases h
        refine ⟨e, cs, by simp, he, fun f hf hlt => ?_⟩
        rcases List.mem_cons.mp hf with rfl | hf
        · exact absurd hlt (String.lt_irrefl _)
        · exact absurd (hd.1 f hf) (String.lt_asymm hlt)
  obtain ⟨e, rest, he, hfirst, hempty⟩ := key m.toList m.ascending h
  refine ⟨e.1, e.2, rest, get?_eq_some_iff.mpr he, hfirst, fun k c hlt hk => ?_⟩
  exact hempty (k, c) (get?_eq_some_iff.mp hk) hlt

theorem flatMap_values {g : α → List β} : m.values.flatMap g = m.gather fun _ a => g a := by
  rw [values, List.flatMap_map]
  rfl

theorem filterMap_keys {g : String → Option β} :
    m.keys.filterMap g = m.gather fun n _ => (g n).toList := by
  rw [keys, List.filterMap_eq_flatMap_toList, List.flatMap_map]
  rfl

end NameMap

/-! ## Supertype chains -/

namespace Arena

variable {δ ε : Type} [SupertypedDef δ] {t : Arena (ResolvedType δ ε)} {m : NameMap δ}
  {label : String} {d : Defect}

/-- The defect met when climbing from a type. -/
def chainDefect? (t : Arena (ResolvedType δ ε)) (label n : String) : Option Defect :=
  (t.slotOf? n).bind fun s => defectOf? (t.lineage label s)

section Names

variable (ht : t.definitions = ofMap m) (hm : m.KeyedBy SupertypedDef.name)

include ht

theorem lineageDefects_eq_gather :
    t.lineageDefects label = m.gather fun n _ => (t.chainDefect? label n).toList := by
  rw [lineageDefects, slotsByName_eq, List.filterMap_filterMap, names_of_definitions ht,
    NameMap.filterMap_keys]
  rfl

include hm

theorem chainDefect?_eq_some {n : String} :
    t.chainDefect? label n = some d ↔ m.ChainFlaw label n d := by
  rw [chainDefect?, Option.bind_eq_some_iff]
  constructor
  · rintro ⟨s, hs, hd⟩
    exact (lineage_error_iff_chainFlaw ht hm hs).mp (defectOf?_eq_some.mp hd)
  · intro h
    obtain ⟨c, hc⟩ := h.registered
    obtain ⟨s, hs⟩ := exists_slotOf? ht hc
    exact ⟨s, hs, defectOf?_eq_some.mpr ((lineage_error_iff_chainFlaw ht hm hs).mpr h)⟩

theorem mem_lineageDefects : d ∈ t.lineageDefects label ↔ ∃ n, m.Flaw label n d := by
  rw [lineageDefects_eq_gather ht, NameMap.mem_gather]
  simp only [Option.mem_toList, chainDefect?_eq_some ht hm]
  constructor
  · rintro ⟨_, _, _, k, _, hf⟩
    exact ⟨k, hf⟩
  · rintro ⟨n, hf⟩
    obtain ⟨c, hc⟩ := hf.registered
    exact ⟨n, c, hc, hf.chainFlaw⟩

theorem lineageDefects_eq_cons {ds : List Defect} (h : t.lineageDefects label = d :: ds) :
    ∃ n, m.ChainFlaw label n d ∧ ∀ k e, k < n → ¬ m.ChainFlaw label k e := by
  rw [lineageDefects_eq_gather ht] at h
  obtain ⟨n, _, rest, _, hfirst, hempty⟩ := NameMap.gather_eq_cons h
  refine ⟨n, ?_, fun k e hlt hk => ?_⟩
  · rw [← chainDefect?_eq_some ht hm, ← Option.mem_toList, hfirst]
    exact List.mem_cons_self
  · obtain ⟨c, hc⟩ := hk.registered
    have hnone := hempty k c hlt hc
    rw [(chainDefect?_eq_some ht hm).mpr hk] at hnone
    cases hnone

end Names

end Arena

/-! ## Links -/

/-- The link carries a name that stands in the map. -/
def TypeLink.LeadsInto {α : Type} (l : TypeLink) (m : NameMap α) : Prop :=
  ∃ n a, l.name = some n ∧ n ≠ "" ∧ m.get? n = some a

theorem TypeLink.not_leadsInto {α : Type} {l : TypeLink} {m : NameMap α} :
    ¬ l.LeadsInto m ↔ l.target? = none ∨ ∃ n, l.target? = some n ∧ m.get? n = none := by
  have hleads : l.LeadsInto m ↔ ∃ n, l.target? = some n ∧ ∃ a, m.get? n = some a := by
    simp only [LeadsInto, target?_eq_some]
    constructor
    · rintro ⟨n, a, hn, hne, ha⟩
      exact ⟨n, ⟨hn, hne⟩, a, ha⟩
    · rintro ⟨n, ⟨hn, hne⟩, a, ha⟩
      exact ⟨n, a, hn, hne, ha⟩
  rw [hleads]
  cases l.target? with
  | none => simp
  | some n => simp [Option.eq_none_iff_forall_ne_some]

/-- Both ends lead to entity types of the map. -/
structure RelationshipDef.Anchored (a : RelationshipDef) (m : NameMap EntityDef) : Prop where
  end1 : a.end1.entityType.LeadsInto m
  end2 : a.end2.entityType.LeadsInto m

theorem RelationshipDef.anchored_iff {a : RelationshipDef} {m : NameMap EntityDef} :
    a.Anchored m ↔ ∀ p, (a.endAt p).entityType.LeadsInto m := by
  constructor
  · intro h p
    cases p with
    | end1 => exact h.end1
    | end2 => exact h.end2
  · intro h
    exact ⟨h .end1, h .end2⟩

namespace Registry

variable {r : Registry} {n : String} {d : Defect}

/-- A relationship end that leads to no registered entity type. -/
inductive EndFlaw (r : Registry) : String → EndPosition → Defect → Prop where
  | end1 {n : String} {a : RelationshipDef} :
      r.relationships.get? n = some a → ¬ a.end1.entityType.LeadsInto r.entities →
      EndFlaw r n .end1 (.missingEndDef n .end1 a.end1.entityType.target? r.label)
  | end2 {n : String} {a : RelationshipDef} :
      r.relationships.get? n = some a → ¬ a.end2.entityType.LeadsInto r.entities →
      EndFlaw r n .end2 (.missingEndDef n .end2 a.end2.entityType.target? r.label)

theorem endFlaw_iff {p : EndPosition} : r.EndFlaw n p d ↔
    ∃ a, r.relationships.get? n = some a ∧ ¬ (a.endAt p).entityType.LeadsInto r.entities ∧
      d = .missingEndDef n p (a.endTarget? p) r.label := by
  constructor
  · intro h
    cases h with
    | end1 ha hlead => exact ⟨_, ha, hlead, rfl⟩
    | end2 ha hlead => exact ⟨_, ha, hlead, rfl⟩
  · rintro ⟨a, ha, hlead, rfl⟩
    cases p with
    | end1 => exact .end1 ha hlead
    | end2 => exact .end2 ha hlead

/-- A valid-entity link that leads to no registered entity type. -/
inductive LinkFlaw (r : Registry) : String → TypeLink → Defect → Prop where
  | unnamed {n : String} {c : ClassificationDef} {l : TypeLink} :
      r.classifications.get? n = some c → l ∈ c.validEntityTypes → l.target? = none →
      LinkFlaw r n l (.missingValidEntityName n r.label)
  | unregistered {n k : String} {c : ClassificationDef} {l : TypeLink} :
      r.classifications.get? n = some c → l ∈ c.validEntityTypes → l.target? = some k →
      r.entities.get? k = none → LinkFlaw r n l (.missingValidEntityDef n k r.label)

end Registry

section Links

variable {entities : EntityArena} {m : NameMap EntityDef} {label : String} {d : Defect}

section Names

variable (he : entities.definitions = .ofMap m)

include he

theorem bind_slotOf?_eq_none {l : TypeLink} :
    l.target?.bind entities.slotOf? = none ↔ ¬ l.LeadsInto m := by
  rw [TypeLink.not_leadsInto]
  cases l.target? with
  | none => simp
  | some n => simp [Arena.slotOf?_eq_none_of_definitions he]

theorem endSlot_eq_error {a : RelationshipDef} {p : EndPosition} :
    a.endSlot entities label p = .error d ↔ ¬ (a.endAt p).entityType.LeadsInto m ∧
      d = .missingEndDef a.name p (a.endTarget? p) label := by
  rw [← bind_slotOf?_eq_none he, RelationshipDef.endSlot]
  change _ ↔ (a.endTarget? p).bind _ = none ∧ _
  cases (a.endTarget? p).bind entities.slotOf? with
  | some s => simp
  | none => simp [eq_comm]

theorem validEntitySlot_eq_error {holder : String} {l : TypeLink} :
    validEntitySlot entities label holder l = .error d ↔
      l.target? = none ∧ d = .missingValidEntityName holder label ∨
        ∃ k, l.target? = some k ∧ m.get? k = none ∧
          d = .missingValidEntityDef holder k label := by
  simp only [validEntitySlot, ← Arena.slotOf?_eq_none_of_definitions he]
  cases l.target? with
  | none => simp [eq_comm]
  | some k => cases hk : entities.slotOf? k <;> simp [hk, eq_comm]

end Names

theorem relationshipDefects_eq_gather {relationships : NameMap RelationshipDef} :
    relationshipDefects (.ofMap relationships) entities label
      = relationships.gather fun _ a => a.endDefects entities label := by
  rw [relationshipDefects, Arena.values_ofMap, NameMap.flatMap_values]

theorem validEntityDefects_eq_gather {classifications : ClassificationArena}
    {cs : NameMap ClassificationDef} (hc : classifications.definitions = .ofMap cs) :
    validEntityDefects classifications entities label
      = cs.gather fun _ c => c.linkDefects entities label := by
  have hslot : ∀ s, slotDefects classifications entities label s
      = (classifications.definitions.at? s).toList.flatMap (·.linkDefects entities label) := by
    intro s
    rw [slotDefects, Arena.at?_definitions]
    cases classifications.at? s <;> simp
  rw [validEntityDefects, funext hslot, ← List.flatMap_assoc, ← List.filterMap_eq_flatMap_toList,
    ← NameMap.flatMap_values, ← Arena.values_ofMap, ← hc]
  rfl

end Links

/-! ## The passes -/

namespace Registry

variable {r : Registry} {d : Defect}

theorem mem_entityDefects : d ∈ r.entityDefects ↔ ∃ n, r.entities.Flaw r.label n d :=
  Arena.mem_lineageDefects (Arena.definitions_unresolved _) r.entities_keyed

theorem mem_classificationDefects :
    d ∈ r.classificationDefects ↔ ∃ n, r.classifications.Flaw r.label n d :=
  Arena.mem_lineageDefects (Arena.definitions_unresolved _) r.classifications_keyed

theorem EndFlaw.registered {n : String} {p : EndPosition} (h : r.EndFlaw n p d) :
    ∃ a, r.relationships.get? n = some a := by
  obtain ⟨a, ha, -⟩ := endFlaw_iff.mp h
  exact ⟨a, ha⟩

theorem LinkFlaw.registered {n : String} {l : TypeLink} (h : r.LinkFlaw n l d) :
    ∃ c, r.classifications.get? n = some c ∧ l ∈ c.validEntityTypes := by
  cases h with
  | unnamed hc hl _ => exact ⟨_, hc, hl⟩
  | unregistered hc hl _ _ => exact ⟨_, hc, hl⟩

theorem endDefects_eq_gather :
    r.endDefects = r.relationships.gather fun _ a => a.endDefects (unresolved r.entities) r.label :=
  relationshipDefects_eq_gather

theorem linkDefects_eq_gather :
    r.linkDefects
      = r.classifications.gather fun _ c => c.linkDefects (unresolved r.entities) r.label :=
  validEntityDefects_eq_gather (Arena.definitions_unresolved _)

theorem endSlot_eq_error_iff {n : String} {a : RelationshipDef} {p : EndPosition}
    (ha : r.relationships.get? n = some a) :
    a.endSlot (unresolved r.entities) r.label p = .error d ↔ r.EndFlaw n p d := by
  rw [endSlot_eq_error (Arena.definitions_unresolved _), r.relationships_keyed n a ha, endFlaw_iff]
  simp [ha]

theorem validEntitySlot_eq_error_iff {n : String} {c : ClassificationDef} {l : TypeLink}
    (hc : r.classifications.get? n = some c) (hl : l ∈ c.validEntityTypes) :
    validEntitySlot (unresolved r.entities) r.label c.name l = .error d ↔ r.LinkFlaw n l d := by
  rw [validEntitySlot_eq_error (Arena.definitions_unresolved _), r.classifications_keyed n c hc]
  constructor
  · rintro (⟨hn, rfl⟩ | ⟨k, hk, hm, rfl⟩)
    · exact .unnamed hc hl hn
    · exact .unregistered hc hl hk hm
  · intro h
    cases h with
    | unnamed _ _ hn => exact .inl ⟨hn, rfl⟩
    | unregistered _ _ hk hm => exact .inr ⟨_, hk, hm, rfl⟩

theorem mem_endDefects : d ∈ r.endDefects ↔ ∃ n p, r.EndFlaw n p d := by
  rw [endDefects_eq_gather, NameMap.mem_gather]
  simp only [RelationshipDef.endDefects, List.mem_filterMap, defectOf?_eq_some]
  constructor
  · rintro ⟨n, a, ha, p, _, h⟩
    exact ⟨n, p, (endSlot_eq_error_iff ha).mp h⟩
  · rintro ⟨n, p, h⟩
    obtain ⟨a, ha⟩ := h.registered
    exact ⟨n, a, ha, p, by cases p <;> simp [EndPosition.all], (endSlot_eq_error_iff ha).mpr h⟩

theorem mem_linkDefects : d ∈ r.linkDefects ↔ ∃ n l, r.LinkFlaw n l d := by
  rw [linkDefects_eq_gather, NameMap.mem_gather]
  simp only [ClassificationDef.linkDefects, List.mem_filterMap, defectOf?_eq_some]
  constructor
  · rintro ⟨n, c, hc, l, hl, h⟩
    exact ⟨n, l, (validEntitySlot_eq_error_iff hc hl).mp h⟩
  · rintro ⟨n, l, h⟩
    obtain ⟨c, hc, hl⟩ := h.registered
    exact ⟨n, c, hc, l, hl, (validEntitySlot_eq_error_iff hc hl).mpr h⟩

theorem entityDefects_eq_cons {ds : List Defect} (h : r.entityDefects = d :: ds) :
    ∃ n, r.entities.ChainFlaw r.label n d ∧
      ∀ k e, k < n → ¬ r.entities.ChainFlaw r.label k e :=
  Arena.lineageDefects_eq_cons (Arena.definitions_unresolved _) r.entities_keyed h

theorem classificationDefects_eq_cons {ds : List Defect}
    (h : r.classificationDefects = d :: ds) :
    ∃ n, r.classifications.ChainFlaw r.label n d ∧
      ∀ k e, k < n → ¬ r.classifications.ChainFlaw r.label k e :=
  Arena.lineageDefects_eq_cons (Arena.definitions_unresolved _) r.classifications_keyed h

/-- The first end to be reported belongs to the first defective relationship, and its first end is
reported before its second one. -/
theorem endDefects_eq_cons {ds : List Defect} (h : r.endDefects = d :: ds) :
    ∃ n p, r.EndFlaw n p d ∧ (∀ k q e, k < n → ¬ r.EndFlaw k q e) ∧
      (p = .end2 → ∀ e, ¬ r.EndFlaw n .end1 e) := by
  rw [endDefects_eq_gather] at h
  obtain ⟨n, a, rest, ha, hfirst, hempty⟩ := NameMap.gather_eq_cons h
  have hearlier : ∀ k q e, k < n → ¬ r.EndFlaw k q e := by
    intro k q e hlt hk
    obtain ⟨c, hc⟩ := hk.registered
    have hnone := hempty k c hlt hc
    rw [RelationshipDef.endDefects, List.filterMap_eq_nil_iff] at hnone
    have hq := hnone q (by cases q <;> simp [EndPosition.all])
    rw [(endSlot_eq_error_iff hc).mpr hk] at hq
    cases hq
  cases h₁ : a.endSlot (unresolved r.entities) r.label .end1 with
  | error e =>
    have he : e = d := by
      simp only [RelationshipDef.endDefects, EndPosition.all, List.filterMap_cons, h₁,
        defectOf?_error, List.cons.injEq] at hfirst
      exact hfirst.1
    exact ⟨n, .end1, (endSlot_eq_error_iff ha).mp (he ▸ h₁), hearlier, by simp⟩
  | ok s =>
    cases h₂ : a.endSlot (unresolved r.entities) r.label .end2 with
    | ok s' => simp [RelationshipDef.endDefects, EndPosition.all, h₁, h₂] at hfirst
    | error e =>
      have he : e = d := by
        simp only [RelationshipDef.endDefects, EndPosition.all, List.filterMap_cons, h₁, h₂,
          defectOf?_ok, defectOf?_error, List.cons.injEq] at hfirst
        exact hfirst.1
      refine ⟨n, .end2, (endSlot_eq_error_iff ha).mp (he ▸ h₂), hearlier, fun _ e' he' => ?_⟩
      rw [(endSlot_eq_error_iff ha).mpr he'] at h₁
      cases h₁

/-- The first link to be reported belongs to the first defective classification, which lists no
defective one before it. -/
theorem linkDefects_eq_cons {ds : List Defect} (h : r.linkDefects = d :: ds) :
    ∃ n c front l back, r.classifications.get? n = some c ∧
      c.validEntityTypes = front ++ l :: back ∧ r.LinkFlaw n l d ∧
      (∀ j ∈ front, ∀ e, ¬ r.LinkFlaw n j e) ∧ ∀ k j e, k < n → ¬ r.LinkFlaw k j e := by
  rw [linkDefects_eq_gather] at h
  obtain ⟨n, c, rest, hc, hfirst, hempty⟩ := NameMap.gather_eq_cons h
  obtain ⟨front, l, back, hlist, hfront, hl, -⟩ := List.filterMap_eq_cons_iff.mp hfirst
  have hin : ∀ j, j ∈ front ++ l :: back → j ∈ c.validEntityTypes := fun j hj => hlist ▸ hj
  refine ⟨n, c, front, l, back, hc, hlist, ?_, fun j hj e he => ?_, fun k j e hlt hk => ?_⟩
  · exact (validEntitySlot_eq_error_iff hc (hin l (by simp))).mp (defectOf?_eq_some.mp hl)
  · have hok := hfront j hj
    rw [(validEntitySlot_eq_error_iff hc (hin j (by simp [hj]))).mpr he] at hok
    cases hok
  · obtain ⟨c', hc', hj⟩ := hk.registered
    have hnone := hempty k c' hlt hc'
    rw [ClassificationDef.linkDefects, List.filterMap_eq_nil_iff] at hnone
    have hok := hnone j hj
    rw [(validEntitySlot_eq_error_iff hc' hj).mpr hk] at hok
    cases hok

end Registry

end Metamodel
