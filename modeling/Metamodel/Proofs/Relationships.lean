import Metamodel.Proofs.Models
import Metamodel.Proofs.Subtypes

/-!
# Metamodel.Proofs.Relationships

Which relationships apply to which entity types.

* `RelationshipDef.Joins`, `RelationshipDef.Spans` — an end of a relationship is at an entity type,
  or at it or a type above it. `RelationshipDef.Names` is said of what the ends carry, and comes to
  the same where both lead somewhere.
* `spreadRelationship_iff`  — what one relationship adds, by the entity types at its ends.
* `spreadRelationships_iff` — what all of them add.
* `Registry.mem_relationships`, `Registry.mem_directRelationships` — the sets that a registry
  without defects ends up with.
-/

namespace Metamodel

open Relation Arena

namespace RelationshipDef

/-- An end is at the entity type `n`. -/
def Joins (r : RelationshipDef) (n : String) : Prop :=
  r.end1.entityType.target? = some n ∨ r.end2.entityType.target? = some n

theorem joins_iff_exists {r : RelationshipDef} {n : String} :
    r.Joins n ↔ ∃ p, r.endTarget? p = some n := by
  constructor
  · rintro (h | h)
    · exact ⟨.end1, h⟩
    · exact ⟨.end2, h⟩
  · rintro ⟨p, h⟩
    cases p with
    | end1 => exact .inl h
    | end2 => exact .inr h

/-- The link at an end carries the name `n`. -/
def Names (r : RelationshipDef) (n : String) : Prop :=
  r.end1.entityType.name = some n ∨ r.end2.entityType.name = some n

/-- An end is at `n` or at a type above it. -/
def Spans (r : RelationshipDef) (m : NameMap EntityDef) (n : String) : Prop :=
  ∃ k, r.Joins k ∧ ReflTransGen m.Extends n k

end RelationshipDef

section Spread

variable {m : NameMap EntityDef} {t : EntityArena} {r : RelationshipDef} {n k x : String}
  {a s : Nat}

theorem linked_anchorRelationship (h : t.Linked m) (name : String) :
    (anchorRelationship name t a).Linked m :=
  h.congr (map_anchorRelationship fun _ _ => ⟨rfl, rfl⟩)

theorem linked_spreadRelationship (h : t.Linked m) : (spreadRelationship t r).Linked m :=
  h.congr (map_spreadRelationship fun _ _ => ⟨rfl, rfl⟩)

theorem RelationshipDef.mem_anchors :
    a ∈ r.anchors t ↔ ∃ n, r.Joins n ∧ t.slotOf? n = some a := by
  have hall : ∀ p, p ∈ EndPosition.all := fun p => by cases p <;> decide
  simp only [RelationshipDef.anchors, RelationshipDef.joins_iff_exists, List.mem_filterMap,
    Option.bind_eq_some_iff, hall, true_and]
  constructor
  · rintro ⟨p, n, hn, ha⟩
    exact ⟨n, ⟨p, hn⟩, ha⟩
  · rintro ⟨n, ⟨p, hn⟩, ha⟩
    exact ⟨p, n, hn, ha⟩

/-- Two slots are found exactly if both ends lead somewhere. -/
theorem RelationshipDef.length_anchors (h : t.definitions = ofMap m) :
    (r.anchors t).length = EndPosition.all.length ↔ r.Anchored m := by
  rw [RelationshipDef.anchors, List.length_filterMap_eq_countP, List.countP_eq_length,
    RelationshipDef.anchored_iff]
  constructor
  · intro hall p
    by_contra hlead
    have hp := hall p (by cases p <;> decide)
    rw [RelationshipDef.endTarget?, (bind_slotOf?_eq_none h).mpr hlead] at hp
    cases hp
  · intro hends p _
    rw [Option.isSome_iff_ne_none, RelationshipDef.endTarget?, ne_eq, bind_slotOf?_eq_none h,
      not_not]
    exact hends p

/-- A relationship adds what is added at its ends, and nothing if one of them leads nowhere. -/
theorem spreadRelationship_iff (h : t.Linked m) (view : EntityArena → Prop) {Q : String → Prop}
    (hview : ∀ (u : EntityArena) (n : String) (a : Nat), u.Linked m → u.slotOf? n = some a →
      (view (anchorRelationship r.name u a) ↔ view u ∨ Q n)) :
    view (spreadRelationship t r) ↔ view t ∨ r.Anchored m ∧ ∃ n, r.Joins n ∧ Q n := by
  by_cases hr : r.Anchored m
  · have hloop : view ((r.anchors t).foldl (anchorRelationship r.name) t) ↔
        view t ∨ ∃ n, r.Joins n ∧ (∃ e, m.get? n = some e) ∧ Q n :=
      Linked.foldl_anchors_iff id view h (fun _ => RelationshipDef.mem_anchors)
        (fun _ _ hu => linked_anchorRelationship hu r.name) hview
    rw [spreadRelationship, if_pos ((RelationshipDef.length_anchors h.definitions).mpr hr), hloop]
    refine or_congr_right ⟨?_, ?_⟩
    · rintro ⟨n, hn, _, hq⟩
      exact ⟨hr, n, hn, hq⟩
    · rintro ⟨_, n, hn, hq⟩
      obtain ⟨p, hp⟩ := RelationshipDef.joins_iff_exists.mp hn
      obtain ⟨k, e, hk, he⟩ := (RelationshipDef.anchored_iff.mp hr p).target?
      cases hk.symm.trans hp
      exact ⟨n, hn, ⟨e, he⟩, hq⟩
  · have hlength := mt (RelationshipDef.length_anchors h.definitions).mp hr
    rw [spreadRelationship, if_neg hlength, or_iff_left fun hboth => hr hboth.1]

theorem holds_spreadRelationship (h : t.Linked m) (hk : t.slotOf? k = some s) :
    (spreadRelationship t r).Holds (·.applicability.relationships) s x ↔
      t.Holds (·.applicability.relationships) s x ∨ (r.Anchored m ∧ r.Spans m k) ∧ x = r.name := by
  rw [spreadRelationship_iff (Q := fun n => ReflTransGen m.Extends k n ∧ x = r.name) h
    (fun u => u.Holds (·.applicability.relationships) s x)]
  · simp only [RelationshipDef.Spans, exists_and_right, ← and_assoc]
  · intro u n a hu hn
    exact hu.holds_attach hn (fun _ => rfl) (fun _ => rfl) (h.slotOf?_eq hu k ▸ hk) (fun _ => rfl)
      mem_addRelationship

theorem holds_spreadRelationship_direct (h : t.Linked m) (hk : t.slotOf? k = some s) :
    (spreadRelationship t r).Holds (·.applicability.directRelationships) s x ↔
      t.Holds (·.applicability.directRelationships) s x ∨
        (r.Anchored m ∧ r.Joins k) ∧ x = r.name := by
  rw [spreadRelationship_iff (Q := fun n => n = k ∧ x = r.name) h
    (fun u => u.Holds (·.applicability.directRelationships) s x)]
  · refine or_congr_right ⟨?_, fun ⟨⟨hr, hn⟩, hx⟩ => ⟨hr, k, hn, rfl, hx⟩⟩
    rintro ⟨hr, n, hn, rfl, hx⟩
    exact ⟨⟨hr, hn⟩, hx⟩
  · intro u n a hu hn
    exact hu.holds_attach_direct hn (fun _ => rfl) (fun _ => rfl) (h.slotOf?_eq hu k ▸ hk)
      (fun _ => rfl) mem_addDirectRelationship

end Spread

/-! ## All relationships -/

section Loop

variable {m : NameMap EntityDef} {rs : NameMap RelationshipDef} {t : EntityArena} {k x : String}
  {s : Nat}

/-- All relationships add what each of them adds, whatever entity types they share. -/
theorem spreadRelationships_iff (h : t.Linked m) (hrs : rs.KeyedBy RelationshipDef.name)
    (view : EntityArena → Prop) {Q : RelationshipDef → Prop}
    (hview : ∀ (u : EntityArena) (r : RelationshipDef), u.Linked m →
      (view (spreadRelationship u r) ↔ view u ∨ Q r ∧ x = r.name)) :
    view (spreadRelationships (ofMap rs) t) ↔ view t ∨ ∃ r, rs.get? x = some r ∧ Q r := by
  rw [spreadRelationships, foldl_iff (P := fun u => u.Linked m) view _
    (fun u r _ hu => linked_spreadRelationship hu) (fun u r _ hu => hview u r hu) t h]
  have hmem : ∀ r, r ∈ (ofMap rs).values ↔ rs.get? r.name = some r := by
    intro r
    rw [values_ofMap, NameMap.values_eq_filterMap, List.mem_filterMap]
    constructor
    · rintro ⟨n, _, hn⟩
      rwa [hrs n r hn]
    · intro hr
      exact ⟨r.name, NameMap.mem_keys.mpr (hr ▸ rfl), hr⟩
  simp only [hmem]
  refine or_congr_right ⟨?_, fun ⟨r, hr, hq⟩ => ?_⟩
  · rintro ⟨r, hr, hq, rfl⟩
    exact ⟨r, hr, hq⟩
  · have hx := hrs x r hr
    exact ⟨r, hx ▸ hr, hq, hx.symm⟩

theorem holds_relationships (h : t.Linked m) (hrs : rs.KeyedBy RelationshipDef.name)
    (hk : t.slotOf? k = some s) :
    (spreadRelationships (ofMap rs) t).Holds (·.applicability.relationships) s x ↔
      t.Holds (·.applicability.relationships) s x ∨
        ∃ r, rs.get? x = some r ∧ r.Anchored m ∧ r.Spans m k :=
  spreadRelationships_iff h hrs (fun u => u.Holds (·.applicability.relationships) s x)
    fun _ _ hu => holds_spreadRelationship hu (h.slotOf?_eq hu k ▸ hk)

theorem holds_directRelationships (h : t.Linked m) (hrs : rs.KeyedBy RelationshipDef.name)
    (hk : t.slotOf? k = some s) :
    (spreadRelationships (ofMap rs) t).Holds (·.applicability.directRelationships) s x ↔
      t.Holds (·.applicability.directRelationships) s x ∨
        ∃ r, rs.get? x = some r ∧ r.Anchored m ∧ r.Joins k :=
  spreadRelationships_iff h hrs (fun u => u.Holds (·.applicability.directRelationships) s x)
    fun _ _ hu => holds_spreadRelationship_direct hu (h.slotOf?_eq hu k ▸ hk)

end Loop

/-! ## Before and after the loop -/

namespace Registry

variable {r : Registry} {n x : String} {f : ResolvedEntity → NameSet}

theorem linked_entitiesCompleted (h : r.defects = []) : r.entitiesCompleted.Linked r.entities :=
  linked_completed (definitions_unresolved _) r.entities_keyed
    (fun _ _ => not_holds_unresolved fun _ => rfl)
    (entityDefects_eq_nil.mpr (consistent_iff_no_defects.mpr h).entities)

theorem linked_entitiesRelated (h : r.defects = []) : r.entitiesRelated.Linked r.entities :=
  (linked_entitiesCompleted h).congr (map_spreadRelationships fun _ _ => ⟨rfl, rfl⟩)

/-- The set is filled by applicability alone. -/
structure FilledLater (f : ResolvedEntity → NameSet) : Prop where
  subtype : ∀ d name direct, f (d.addSubtype name direct) = f d
  attributes : ∀ d as, f (d.setAttributes as) = f d
  new : ∀ d, f (.ofDefinition d) = ∅

theorem not_holds_entitiesCompleted (hf : FilledLater f) (s : Nat) :
    ¬ r.entitiesCompleted.Holds f s x := by
  rw [entitiesCompleted, holds_congr (map_completed hf.subtype hf.attributes)]
  exact not_holds_unresolved hf.new

/-- An entity type has the same slot after every pass. -/
theorem exists_slot_of_resolved {d : ResolvedEntity} (hd : r.resolved.entities.get? n = some d) :
    ∃ s, (∀ t : EntityArena, t.definitions = ofMap r.entities → t.slotOf? n = some s) ∧
      ∀ f x, r.classified.2.Holds f s x ↔ x ∈ f d := by
  obtain ⟨s, hs, _⟩ := get?_eq_some_iff.mp hd
  refine ⟨s, fun t ht => ?_, fun f x => holds_of_get? hs hd⟩
  rw [slotOf?_congr (ht.trans definitions_resolved_entities.symm) n]
  exact hs

/-- A set that only relationships fill holds what they add to it. -/
theorem mem_iff_of_related {d : ResolvedEntity} {P : Prop} (hf : FilledLater f)
    (hclear : ClearOfClassifications f) (hd : r.resolved.entities.get? n = some d)
    (hadds : ∀ s, r.entitiesCompleted.slotOf? n = some s →
      (r.entitiesRelated.Holds f s x ↔ r.entitiesCompleted.Holds f s x ∨ P)) : x ∈ f d ↔ P := by
  obtain ⟨s, hs, hview⟩ := exists_slot_of_resolved hd
  have hframe : r.classified.2.Holds f = r.entitiesRelated.Holds f :=
    holds_congr (map_spreadClassifications hclear)
  rw [← hview f, hframe, hadds s (hs _ definitions_entitiesCompleted),
    or_iff_right (not_holds_entitiesCompleted hf s)]

theorem anchored (h : r.defects = []) {a : RelationshipDef} (ha : r.relationships.get? x = some a) :
    a.Anchored r.entities :=
  (consistent_iff_no_defects.mpr h).ends x a ha

theorem mem_relationships (h : r.defects = []) {d : ResolvedEntity}
    (hd : r.resolved.entities.get? n = some d) :
    x ∈ d.applicability.relationships ↔
      ∃ a, r.relationships.get? x = some a ∧ a.Spans r.entities n := by
  rw [mem_iff_of_related (f := (·.applicability.relationships))
    ⟨fun _ _ _ => rfl, fun _ _ => rfl, fun _ => rfl⟩ (fun _ _ => ⟨rfl, rfl⟩) hd
    fun s hs => holds_relationships (linked_entitiesCompleted h) r.relationships_keyed hs]
  exact exists_congr fun a => and_congr_right fun ha => and_iff_right (anchored h ha)

theorem mem_directRelationships (h : r.defects = []) {d : ResolvedEntity}
    (hd : r.resolved.entities.get? n = some d) :
    x ∈ d.applicability.directRelationships ↔
      ∃ a, r.relationships.get? x = some a ∧ a.Joins n := by
  rw [mem_iff_of_related (f := (·.applicability.directRelationships))
    ⟨fun _ _ _ => rfl, fun _ _ => rfl, fun _ => rfl⟩ (fun _ _ => ⟨rfl, rfl⟩) hd
    fun s hs => holds_directRelationships (linked_entitiesCompleted h) r.relationships_keyed hs]
  exact exists_congr fun a => and_congr_right fun ha => and_iff_right (anchored h ha)

end Registry

/-! ## Models -/

section Models

variable {b : Draft} {m : Model} {x n : String}

/-- Each end is at what it names, if both lead somewhere. -/
theorem RelationshipDef.Anchored.joins_iff {r : RelationshipDef} {es : NameMap EntityDef}
    (h : r.Anchored es) : r.Joins n ↔ r.Names n := by
  rw [RelationshipDef.Joins, RelationshipDef.Names, h.end1.target?_eq, h.end2.target?_eq]

theorem spans_iff (h : b.resolve.result = .ok m) {a : RelationshipDef}
    (ha : b.registry.relationships.get? x = some a) :
    (∃ e, b.registry.entities.get? n = some e) ∧ a.Spans b.registry.entities n ↔
      ∃ k, a.Names k ∧ k ∈ m.entityChain n := by
  obtain ⟨hnone, -⟩ := Draft.resolve_eq_ok_iff.mp h
  have hends := Registry.anchored hnone ha
  simp only [mem_entityChain h, RelationshipDef.Spans, hends.joins_iff]
  constructor
  · rintro ⟨he, k, hk, hnk⟩
    exact ⟨k, hk, he, hnk⟩
  · rintro ⟨k, hk, he, hnk⟩
    exact ⟨he, k, hk, hnk⟩

theorem isRelationshipValidFor_iff_mem : m.isRelationshipValidFor x n = true ↔
    ∃ d, m.entity? n = some d ∧ x ∈ d.applicability.relationships := by
  simp only [Model.isRelationshipValidFor, Model.relationshipsOf?]
  cases m.entity? n <;> simp

/-- The relationship sets of a model are what the registered relationships make them. -/
structure Model.RelationshipsExact (m : Model) (r : Registry) : Prop where
  unchanged : ∀ x, m.relationship? x = r.relationships.get? x
  /-- The effective set is what answers whether a relationship is valid. -/
  valid : ∀ x n, m.isRelationshipValidFor x n = true ↔
    ∃ d, m.entity? n = some d ∧ x ∈ d.applicability.relationships
  /-- A relationship applies to what its ends name, and to everything below. -/
  chains : ∀ x n, m.isRelationshipValidFor x n = true ↔
    ∃ a, r.relationships.get? x = some a ∧ ∃ k, a.Names k ∧ k ∈ m.entityChain n
  /-- It is direct where an end names the entity type itself. -/
  direct : ∀ {n d}, m.entity? n = some d → ∀ x, x ∈ d.applicability.directRelationships ↔
    ∃ a, r.relationships.get? x = some a ∧ a.Names n
  /-- Both ends of a relationship name registered entity types. -/
  ends : ∀ {x a}, r.relationships.get? x = some a → ∃ k₁ k₂, m.endTypes? x = some (k₁, k₂) ∧
    a.end1.entityType.name = some k₁ ∧ a.end2.entityType.name = some k₂ ∧
      (∃ d, m.entity? k₁ = some d) ∧ ∃ d, m.entity? k₂ = some d

/-- A relationship applies to the entity types at its ends and to their subtypes, and nowhere
else. -/
theorem relationship_applicability_exact (h : b.resolve.result = .ok m) :
    m.RelationshipsExact b.registry := by
  obtain ⟨hnone, hm⟩ := Draft.resolve_eq_ok_iff.mp h
  have hresolved : ∀ n, m.entity? n = b.registry.resolved.entities.get? n := by
    intro n
    rw [hm]
    rfl
  have hregistered : ∀ n, (∃ d, m.entity? n = some d) ↔
      ∃ e, b.registry.entities.get? n = some e := by
    intro n
    rw [hresolved]
    exact exists_get?_iff b.registry.definitions_resolved_entities
  have hraw : ∀ x, m.relationship? x = b.registry.relationships.get? x := by
    intro x
    rw [hm]
    exact get?_ofMap b.registry.relationships x
  refine ⟨hraw, fun _ _ => isRelationshipValidFor_iff_mem, fun x n => ?_, fun {n d} hd x => ?_,
    fun {x a} ha => ?_⟩
  · rw [isRelationshipValidFor_iff_mem]
    constructor
    · rintro ⟨d, hd, hx⟩
      obtain ⟨a, ha, hspan⟩ := (Registry.mem_relationships hnone (hresolved n ▸ hd)).mp hx
      exact ⟨a, ha, (spans_iff h ha).mp ⟨(hregistered n).mp ⟨d, hd⟩, hspan⟩⟩
    · rintro ⟨a, ha, hends⟩
      obtain ⟨he, hspan⟩ := (spans_iff h ha).mpr hends
      obtain ⟨d, hd⟩ := (hregistered n).mpr he
      exact ⟨d, hd, (Registry.mem_relationships hnone (hresolved n ▸ hd)).mpr ⟨a, ha, hspan⟩⟩
  · rw [Registry.mem_directRelationships hnone (hresolved n ▸ hd)]
    exact exists_congr fun a => and_congr_right fun ha => (Registry.anchored hnone ha).joins_iff
  · have hends := Registry.anchored hnone ha
    obtain ⟨k₁, e₁, hk₁, _, he₁⟩ := hends.end1
    obtain ⟨k₂, e₂, hk₂, _, he₂⟩ := hends.end2
    refine ⟨k₁, k₂, ?_, hk₁, hk₂, (hregistered k₁).mpr ⟨e₁, he₁⟩, (hregistered k₂).mpr ⟨e₂, he₂⟩⟩
    have htarget₁ : a.endTarget? .end1 = some k₁ := hends.end1.target?_eq.trans hk₁
    have htarget₂ : a.endTarget? .end2 = some k₂ := hends.end2.target?_eq.trans hk₂
    simp only [Model.endTypes?, hraw, ha, htarget₁, htarget₂, Option.bind_eq_bind,
      Option.bind_some]
    rfl

/-- Three levels of entity types under two relationships: one from the middle level to itself, and
one with an end at the middle level and an end above it. -/
def related : Draft where
  registry :=
    [.entity { name := "asset", guid := "" },
      .entity { name := "table", guid := "", supertype := some (.named "asset") },
      .entity { name := "view", guid := "", supertype := some (.named "table") },
      .relationship (.between "copies" "" "table" "table"),
      .relationship (.between "stores" "" "asset" "table")].foldl Registry.put {}

theorem relationship_applicability_exact_related : ∃ m, related.resolve.result = .ok m ∧
    m.isRelationshipValidFor "copies" "view" = true ∧
      m.isRelationshipValidFor "copies" "asset" = false ∧
        m.isRelationshipValidFor "stores" "asset" = true ∧
          m.endTypes? "stores" = some ("asset", "table") := by
  have hnone : related.registry.defects = [] := by decide +kernel
  have hrun := Draft.resolve_eq_ok_iff.mpr ⟨hnone, rfl⟩
  have hexact := relationship_applicability_exact hrun
  have hcopies : related.registry.relationships.get? "copies"
      = some (.between "copies" "" "table" "table") := by decide +kernel
  have hstores : related.registry.relationships.get? "stores"
      = some (.between "stores" "" "asset" "table") := by decide +kernel
  have hasset : related.registry.entities.get? "asset" = some { name := "asset", guid := "" } := by
    decide +kernel
  have hview : related.registry.entities.get? "view"
      = some { name := "view", guid := "", supertype := some (.named "table") } := by
    decide +kernel
  have hup : related.registry.entities.Extends "view" "table" := ⟨_, _, hview, rfl, rfl⟩
  refine ⟨_, hrun, (hexact.chains _ _).mpr ⟨_, hcopies, "table", .inl rfl, ?_⟩, ?_,
    (hexact.chains _ _).mpr ⟨_, hstores, "asset", .inl rfl, ?_⟩, ?_⟩
  · exact (mem_entityChain hrun).mpr ⟨⟨_, hview⟩, .single hup⟩
  · rw [Bool.eq_false_iff, ne_eq, hexact.chains]
    rintro ⟨a, ha, k, hk, hchain⟩
    cases hcopies.symm.trans ha
    obtain ⟨-, hreach⟩ := (mem_entityChain hrun).mp hchain
    rcases hreach.cases_head with rfl | ⟨_, ⟨c, _, hc, hl, _⟩, _⟩
    · exact hk.elim (absurd · (by decide)) (absurd · (by decide))
    · cases hasset.symm.trans hc
      cases hl
  · exact (mem_entityChain hrun).mpr ⟨⟨_, hasset⟩, .refl⟩
  · obtain ⟨k₁, k₂, hends, hk₁, hk₂, -⟩ := hexact.ends hstores
    cases hk₁
    cases hk₂
    exact hends

end Models

end Metamodel
