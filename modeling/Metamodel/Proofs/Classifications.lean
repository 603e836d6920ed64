import Metamodel.Proofs.Relationships

/-!
# Metamodel.Proofs.Classifications

Which classifications apply to which entity types.

* `ClassificationDef.Covers`   — the valid-entity list of a classification names an entity type or
  a type above it.
* `spread_iff`                 — what one classification adds, by the entity types it lists.
* `spreadClassifications_iff`  — what all of them add.
* `Registry.mem_classifications`, `Registry.mem_directClassifications`,
  `Registry.mem_validEntities` — the sets that a registry without defects ends up with.
-/

namespace Metamodel

open Relation Arena

/-- A valid-entity link names `n`. -/
def ClassificationDef.Lists (c : ClassificationDef) (n : String) : Prop :=
  ∃ l ∈ c.validEntityTypes, l.target? = some n

/-- A valid-entity link names a registered entity type at or above `n`. -/
def ClassificationDef.Covers (c : ClassificationDef) (m : NameMap EntityDef) (n : String) : Prop :=
  ∃ k, c.Lists k ∧ (∃ e, m.get? k = some e) ∧ ReflTransGen m.Extends n k

section Spread

variable {m : NameMap EntityDef} {t : EntityArena} {c : ClassificationDef} {n k x : String}
  {a s : Nat} {f : ResolvedEntity → NameSet}

theorem linked_anchorClassification (h : t.Linked m) (name : String) (covered : List Nat) :
    (anchorClassification name (t, covered) a).1.Linked m :=
  h.congr (map_anchorClassification fun _ _ => ⟨rfl, rfl⟩)

theorem mem_anchors : a ∈ c.anchors t ↔ ∃ n, c.Lists n ∧ t.slotOf? n = some a := by
  simp only [ClassificationDef.anchors, ClassificationDef.Lists, List.mem_filterMap,
    Option.bind_eq_some_iff]
  constructor
  · rintro ⟨l, hl, n, hn, ha⟩
    exact ⟨n, ⟨l, hl, hn⟩, ha⟩
  · rintro ⟨n, ⟨l, hl, hn⟩, ha⟩
    exact ⟨l, hl, n, hn, ha⟩

theorem linked_spread (h : t.Linked m) : (c.spread t).1.Linked m :=
  h.congr (map_spread fun _ _ => ⟨rfl, rfl⟩)

/-- A classification adds what the anchors add that its links name. -/
theorem spread_iff (h : t.Linked m) (view : EntityArena × List Nat → Prop) {Q : String → Prop}
    (hview : ∀ (u : EntityArena × List Nat) (n : String) (a : Nat), u.1.Linked m →
      u.1.slotOf? n = some a → (view (anchorClassification c.name u a) ↔ view u ∨ Q n)) :
    view (c.spread t) ↔ view (t, []) ∨ ∃ n, c.Lists n ∧ (∃ e, m.get? n = some e) ∧ Q n :=
  Linked.foldl_anchors_iff Prod.fst view h (fun _ => mem_anchors)
    (fun _ _ hu => linked_anchorClassification hu c.name _) hview

/-- The slots covered are those of the entity types covered. -/
theorem mem_covered (h : t.Linked m) (hk : t.slotOf? k = some s) :
    s ∈ (c.spread t).2 ↔ c.Covers m k := by
  rw [spread_iff (Q := fun n => ReflTransGen m.Extends k n) h (fun u => s ∈ u.2)]
  · simp [ClassificationDef.Covers]
  · intro u n a hu hn
    rw [anchorClassification, List.mem_append]
    exact or_congr_right
      (hu.mem_attach hn (fun _ => rfl) (fun _ => rfl) (h.slotOf?_eq hu k ▸ hk))

theorem holds_spread (h : t.Linked m) (hk : t.slotOf? k = some s) :
    (c.spread t).1.Holds (·.applicability.classifications) s x ↔
      t.Holds (·.applicability.classifications) s x ∨ c.Covers m k ∧ x = c.name := by
  rw [spread_iff (Q := fun n => ReflTransGen m.Extends k n ∧ x = c.name) h
    (fun u => u.1.Holds (·.applicability.classifications) s x)]
  · simp only [ClassificationDef.Covers, exists_and_right, ← and_assoc]
  · intro u n a hu hn
    exact hu.holds_attach hn (fun _ => rfl) (fun _ => rfl) (h.slotOf?_eq hu k ▸ hk) (fun _ => rfl)
      mem_addClassification

theorem holds_spread_direct (h : t.Linked m) (hk : t.slotOf? k = some s) :
    (c.spread t).1.Holds (·.applicability.directClassifications) s x ↔
      t.Holds (·.applicability.directClassifications) s x ∨
        (c.Lists k ∧ ∃ e, m.get? k = some e) ∧ x = c.name := by
  rw [spread_iff (Q := fun n => n = k ∧ x = c.name) h
    (fun u => u.1.Holds (·.applicability.directClassifications) s x)]
  · refine or_congr_right ⟨?_, ?_⟩
    · rintro ⟨n, hn, he, rfl, hx⟩
      exact ⟨⟨hn, he⟩, hx⟩
    · rintro ⟨⟨hn, he⟩, hx⟩
      exact ⟨k, hn, he, rfl, hx⟩
  · intro u n a hu hn
    exact hu.holds_attach_direct hn (fun _ => rfl) (fun _ => rfl) (h.slotOf?_eq hu k ▸ hk)
      (fun _ => rfl) mem_addDirectClassification

end Spread

/-! ## All classifications -/

section Loop

variable {m : NameMap EntityDef} {cs : NameMap ClassificationDef} {t : EntityArena}
  {u : ClassificationArena} {c : ClassificationDef} {n k x : String} {s : Nat}

theorem spreadClassification_of (hu : u.definitions = ofMap cs) (hn : u.slotOf? n = some s)
    (hc : cs.get? n = some c) : spreadClassification (u, t) s = coverEntities u s (c.spread t) := by
  obtain ⟨r, hr, hrc⟩ := exists_at? hu hn
  rw [hc] at hrc
  cases hrc
  simp only [spreadClassification, hr]

theorem linked_spreadClassification (h : t.Linked m) (s : Nat) :
    (spreadClassification (u, t) s).2.Linked m := by
  simp only [spreadClassification]
  split
  · exact h
  · exact linked_spread h

/-- All classifications add what each of them adds. -/
theorem spreadClassifications_iff (hu : u.definitions = ofMap cs) (h : t.Linked m)
    (view : ClassificationArena × EntityArena → Prop) {Q : String → ClassificationDef → Prop}
    (hview : ∀ (u : ClassificationArena) (t : EntityArena) (n : String) (c : ClassificationDef)
      (s : Nat), u.definitions = ofMap cs → t.Linked m → u.slotOf? n = some s →
      cs.get? n = some c → (view (coverEntities u s (c.spread t)) ↔ view (u, t) ∨ Q n c)) :
    view (spreadClassifications u t) ↔
      view (u, t) ∨ ∃ n c, cs.get? n = some c ∧ Q n c := by
  have hidx := indexed_of_definitions hu
  have hkeeps : ∀ v : ClassificationArena × EntityArena, ∀ s ∈ u.slotsByName,
      v.1.definitions = ofMap cs ∧ v.2.Linked m →
      (spreadClassification v s).1.definitions = ofMap cs ∧
        (spreadClassification v s).2.Linked m :=
    fun v s _ hv => ⟨definitions_spreadClassification.1.trans hv.1,
      linked_spreadClassification hv.2 s⟩
  have hadds : ∀ v : ClassificationArena × EntityArena, ∀ s ∈ u.slotsByName,
      v.1.definitions = ofMap cs ∧ v.2.Linked m →
      (view (spreadClassification v s) ↔
        view v ∨ ∃ n c, u.slotOf? n = some s ∧ cs.get? n = some c ∧ Q n c) := by
    rintro v s hs ⟨hv, hlinked⟩
    obtain ⟨n, hn⟩ := mem_slotsByName.mp hs
    obtain ⟨r, _, hc⟩ := exists_at? hu hn
    have hnv : v.1.slotOf? n = some s := slotOf?_congr (hv.trans hu.symm) n ▸ hn
    rw [spreadClassification_of hv hnv hc, hview v.1 v.2 n _ s hv hlinked hnv hc]
    refine or_congr_right ⟨fun hq => ⟨n, _, hn, hc, hq⟩, ?_⟩
    rintro ⟨k, e, hk, he, hq⟩
    rw [hidx.injective hk hn, hc] at he
    cases he
    rwa [hidx.injective hk hn] at hq
  rw [spreadClassifications, foldl_iff view _ hkeeps hadds (u, t) ⟨hu, h⟩]
  refine or_congr_right ⟨fun ⟨_, _, n, c, _, hc, hq⟩ => ⟨n, c, hc, hq⟩, ?_⟩
  rintro ⟨n, c, hc, hq⟩
  obtain ⟨s, hs⟩ := exists_slotOf? hu hc
  exact ⟨s, mem_slotsByName.mpr ⟨n, hs⟩, n, c, hs, hc, hq⟩

/-- The names that a classification is told are those of the entity types it covers. -/
theorem mem_coveredNames (h : t.Linked m) (hm : m.KeyedBy SupertypedDef.name) :
    x ∈ (c.spread t).2.filterMap (fun e => ((c.spread t).1.at? e).map (·.definition.name)) ↔
      (∃ e, m.get? x = some e) ∧ c.Covers m x := by
  have hlinked := linked_spread (c := c) h
  rw [List.mem_filterMap]
  constructor
  · rintro ⟨a, ha, hx⟩
    obtain ⟨d, hd, rfl⟩ := Option.map_eq_some_iff.mp hx
    obtain ⟨k, hk⟩ := hlinked.indexed.covered (lt_of_at? hd)
    obtain ⟨_, _, hreg⟩ := exists_at? hlinked.definitions hk
    have hname : d.definition.name = k := name_at? hlinked.definitions hm hk hd
    rw [hname]
    exact ⟨⟨_, hreg⟩, (mem_covered h (hlinked.slotOf?_eq h k ▸ hk)).mp ha⟩
  · rintro ⟨⟨e, he⟩, hcov⟩
    obtain ⟨a, ha⟩ := exists_slotOf? hlinked.definitions he
    obtain ⟨d, hd, _⟩ := exists_at? hlinked.definitions ha
    refine ⟨a, (mem_covered h (hlinked.slotOf?_eq h x ▸ ha)).mpr hcov, ?_⟩
    rw [hd, Option.map_some]
    exact congrArg some (name_at? hlinked.definitions hm ha hd)

theorem holds_classifications (hu : u.definitions = ofMap cs)
    (hcs : cs.KeyedBy ClassificationDef.name) (h : t.Linked m) (hk : t.slotOf? k = some s) :
    (spreadClassifications u t).2.Holds (·.applicability.classifications) s x ↔
      t.Holds (·.applicability.classifications) s x ∨
        ∃ c, cs.get? x = some c ∧ c.Covers m k := by
  rw [spreadClassifications_iff (Q := fun n c => c.Covers m k ∧ x = n) hu h
    (fun v => v.2.Holds (·.applicability.classifications) s x)]
  · refine or_congr_right ⟨?_, fun ⟨c, hc, hcov⟩ => ⟨x, c, hc, hcov, rfl⟩⟩
    rintro ⟨n, c, hc, hcov, rfl⟩
    exact ⟨c, hc, hcov⟩
  · intro u t n c a _ ht _ hc
    rw [← hcs n c hc]
    exact holds_spread ht (h.slotOf?_eq ht k ▸ hk)

theorem holds_directClassifications (hu : u.definitions = ofMap cs)
    (hcs : cs.KeyedBy ClassificationDef.name) (h : t.Linked m) (hk : t.slotOf? k = some s) :
    (spreadClassifications u t).2.Holds (·.applicability.directClassifications) s x ↔
      t.Holds (·.applicability.directClassifications) s x ∨
        ∃ c, cs.get? x = some c ∧ c.Lists k := by
  obtain ⟨d, _, hd⟩ := exists_at? h.definitions hk
  have hreg : ∃ e, m.get? k = some e := ⟨_, hd⟩
  rw [spreadClassifications_iff (Q := fun n c => c.Lists k ∧ x = n) hu h
    (fun v => v.2.Holds (·.applicability.directClassifications) s x)]
  · refine or_congr_right ⟨?_, fun ⟨c, hc, hlist⟩ => ⟨x, c, hc, hlist, rfl⟩⟩
    rintro ⟨n, c, hc, hlist, rfl⟩
    exact ⟨c, hc, hlist⟩
  · intro u t n c a _ ht _ hc
    have hspread := holds_spread_direct (c := c) (x := x) ht (h.slotOf?_eq ht k ▸ hk)
    rw [← hcs n c hc]
    rwa [and_iff_left hreg] at hspread

theorem holds_validEntities (hu : u.definitions = ofMap cs) (h : t.Linked m)
    (hm : m.KeyedBy SupertypedDef.name) (hk : u.slotOf? k = some s) :
    (spreadClassifications u t).1.Holds ResolvedClassification.validEntities s x ↔
      u.Holds ResolvedClassification.validEntities s x ∨
        ∃ c, cs.get? k = some c ∧ (∃ e, m.get? x = some e) ∧ c.Covers m x := by
  rw [spreadClassifications_iff (Q := fun n c => n = k ∧ (∃ e, m.get? x = some e) ∧ c.Covers m x)
    hu h (fun v => v.1.Holds ResolvedClassification.validEntities s x)]
  · refine or_congr_right ⟨?_, fun ⟨c, hc, hcov⟩ => ⟨k, c, hc, rfl, hcov⟩⟩
    rintro ⟨n, c, hc, rfl, hcov⟩
    exact ⟨c, hc, hcov⟩
  · intro v t n c a hv ht ha hc
    have hkv : v.slotOf? k = some s := slotOf?_congr (hv.trans hu.symm) k ▸ hk
    have hidx := indexed_of_definitions hv
    simp only [coverEntities]
    rw [holds_update mem_addValidEntities, hidx.slot_eq_iff ha hkv, mem_coveredNames ht hm,
      and_iff_left (hidx.bounded hkv)]

end Loop

/-! ## Before and after the loop -/

namespace Registry

variable {r : Registry} {n x : String}

/-- A set that only classifications fill holds what they add to it. -/
theorem mem_iff_of_classified {f : ResolvedEntity → NameSet} {d : ResolvedEntity} {P : Prop}
    (hf : FilledLater f) (hclear : ClearOfRelationships f)
    (hd : r.resolved.entities.get? n = some d)
    (hadds : ∀ s, r.entitiesRelated.slotOf? n = some s →
      (r.classified.2.Holds f s x ↔ r.entitiesRelated.Holds f s x ∨ P)) : x ∈ f d ↔ P := by
  obtain ⟨s, hs, hview⟩ := exists_slot_of_resolved hd
  have hframe : r.entitiesRelated.Holds f = r.entitiesCompleted.Holds f :=
    holds_congr (map_spreadRelationships hclear)
  rw [← hview f, hadds s (hs _ definitions_entitiesRelated), hframe,
    or_iff_right (not_holds_entitiesCompleted hf s)]

theorem mem_classifications (h : r.defects = []) {d : ResolvedEntity}
    (hd : r.resolved.entities.get? n = some d) :
    x ∈ d.applicability.classifications ↔
      ∃ c, r.classifications.get? x = some c ∧ c.Covers r.entities n :=
  mem_iff_of_classified (f := (·.applicability.classifications))
    ⟨fun _ _ _ => rfl, fun _ _ => rfl, fun _ => rfl⟩ (fun _ _ => ⟨rfl, rfl⟩) hd
    fun _ hs => holds_classifications (definitions_unresolved _) r.classifications_keyed
      (linked_entitiesRelated h) hs

theorem mem_directClassifications (h : r.defects = []) {d : ResolvedEntity}
    (hd : r.resolved.entities.get? n = some d) :
    x ∈ d.applicability.directClassifications ↔
      ∃ c, r.classifications.get? x = some c ∧ c.Lists n :=
  mem_iff_of_classified (f := (·.applicability.directClassifications))
    ⟨fun _ _ _ => rfl, fun _ _ => rfl, fun _ => rfl⟩ (fun _ _ => ⟨rfl, rfl⟩) hd
    fun _ hs => holds_directClassifications (definitions_unresolved _) r.classifications_keyed
      (linked_entitiesRelated h) hs

theorem mem_validEntities (h : r.defects = []) {d : ResolvedClassification}
    (hd : r.resolved.classifications.get? n = some d) :
    x ∈ d.validEntities ↔ ∃ c, r.classifications.get? n = some c ∧
      (∃ e, r.entities.get? x = some e) ∧ c.Covers r.entities x := by
  obtain ⟨s, hs, _⟩ := get?_eq_some_iff.mp hd
  have hdefs : (unresolved r.classifications : ClassificationArena).definitions = .ofMap _ :=
    definitions_unresolved r.classifications
  have hslot : (unresolved r.classifications : ClassificationArena).slotOf? n = some s :=
    slotOf?_congr (hdefs.trans definitions_resolved_classifications.symm) n ▸ hs
  have hview : r.resolved.classifications.Holds ResolvedClassification.validEntities s x
      ↔ x ∈ d.validEntities :=
    holds_of_get? hs hd
  have hframe : r.resolved.classifications.Holds ResolvedClassification.validEntities
      = r.classified.1.Holds ResolvedClassification.validEntities :=
    holds_congr (map_completed (fun _ _ _ => rfl) fun _ _ => rfl)
  rw [← hview, hframe, classified,
    holds_validEntities hdefs (linked_entitiesRelated h) r.entities_keyed hslot]
  exact or_iff_right (not_holds_unresolved fun _ => rfl)

end Registry

/-! ## Models -/

section Models

variable {b : Draft} {m : Model} {x n : String}

/-- The link of a consistent registry that carries a name leads to that name. -/
theorem lists_iff (h : b.registry.defects = []) {c : ClassificationDef}
    (hc : b.registry.classifications.get? x = some c) :
    c.Lists n ↔ ∃ l ∈ c.validEntityTypes, l.name = some n := by
  constructor
  · rintro ⟨l, hl, hn⟩
    exact ⟨l, hl, (TypeLink.target?_eq_some.mp hn).1⟩
  · rintro ⟨l, hl, hn⟩
    obtain ⟨k, e, hk, hne, he⟩ :=
      (Registry.consistent_iff_no_defects.mpr h).validEntities x c hc l hl
    rw [hn] at hk
    cases hk
    exact ⟨l, hl, TypeLink.target?_eq_some.mpr ⟨hn, hne⟩⟩

theorem covers_iff (h : b.resolve.result = .ok m) {c : ClassificationDef}
    (hc : b.registry.classifications.get? x = some c) :
    (∃ e, b.registry.entities.get? n = some e) ∧ c.Covers b.registry.entities n ↔
      ∃ l ∈ c.validEntityTypes, ∃ k, l.name = some k ∧ k ∈ m.entityChain n := by
  obtain ⟨hnone, -⟩ := Draft.resolve_eq_ok_iff.mp h
  have hgrounded := (Registry.consistent_iff_no_defects.mpr hnone).entities
  simp only [mem_entityChain h]
  constructor
  · rintro ⟨he, k, hlist, _, hnk⟩
    obtain ⟨l, hl, hk⟩ := (lists_iff hnone hc).mp hlist
    exact ⟨l, hl, k, hk, he, hnk⟩
  · rintro ⟨l, hl, k, hk, he, hnk⟩
    exact ⟨he, k, (lists_iff hnone hc).mpr ⟨l, hl, hk⟩, hgrounded.registered he hnk, hnk⟩

theorem isClassificationValidFor_iff (h : b.resolve.result = .ok m) :
    m.isClassificationValidFor x n = true ↔ ∃ c, b.registry.classifications.get? x = some c ∧
      (∃ e, b.registry.entities.get? n = some e) ∧ c.Covers b.registry.entities n := by
  obtain ⟨hnone, rfl⟩ := Draft.resolve_eq_ok_iff.mp h
  have hreg := exists_get?_iff (n := n) (b.registry.definitions_resolved_entities)
  simp only [Model.isClassificationValidFor, Model.classificationsOf?, Model.entity?,
    Model.ofResolved]
  cases hd : b.registry.resolved.entities.get? n with
  | none =>
    rw [hd] at hreg
    simp [← hreg]
  | some d =>
    rw [hd] at hreg
    simp [← hreg, Registry.mem_classifications hnone hd]

theorem mem_validEntitiesOf?_iff (h : b.resolve.result = .ok m) :
    (∃ s, m.validEntitiesOf? x = some s ∧ n ∈ s) ↔
      ∃ c, b.registry.classifications.get? x = some c ∧
        (∃ e, b.registry.entities.get? n = some e) ∧ c.Covers b.registry.entities n := by
  obtain ⟨hnone, rfl⟩ := Draft.resolve_eq_ok_iff.mp h
  have hreg := exists_get?_iff (n := x) (b.registry.definitions_resolved_classifications)
  simp only [Model.validEntitiesOf?, Model.classification?, Model.ofResolved]
  cases hd : b.registry.resolved.classifications.get? x with
  | none =>
    rw [hd] at hreg
    constructor
    · rintro ⟨s, hs, _⟩
      cases hs
    · rintro ⟨c, hc, _⟩
      obtain ⟨d, hd⟩ := hreg.mpr ⟨c, hc⟩
      cases hd
  | some d => simp [Registry.mem_validEntities hnone hd]

/-- Both views of applicability say what the valid-entity list of the classification says, and that
list alone. -/
theorem classification_applicability_exact (h : b.resolve.result = .ok m) :
    (∀ x n, m.isClassificationValidFor x n = true ↔ ∃ s, m.validEntitiesOf? x = some s ∧ n ∈ s) ∧
      (∀ x n, m.isClassificationValidFor x n = true ↔
        ∃ c, b.registry.classifications.get? x = some c ∧
          ∃ l ∈ c.validEntityTypes, ∃ k, l.name = some k ∧ k ∈ m.entityChain n) ∧
      (∀ x n d, m.entity? n = some d → (x ∈ d.applicability.directClassifications ↔
        ∃ c, b.registry.classifications.get? x = some c ∧
          ∃ l ∈ c.validEntityTypes, l.name = some n)) ∧
      (∀ x n d, m.entity? n = some d →
        x ∈ d.applicability.directClassifications ∨ x ∈ d.applicability.classifications →
        ∃ c, b.registry.classifications.get? x = some c) ∧
      ∀ x n s, m.validEntitiesOf? x = some s → n ∈ s →
        ∃ e, b.registry.entities.get? n = some e := by
  obtain ⟨hnone, hm⟩ := Draft.resolve_eq_ok_iff.mp h
  have hresolved : ∀ {n d}, m.entity? n = some d →
      b.registry.resolved.entities.get? n = some d := by
    intro n d hd
    rwa [hm] at hd
  refine ⟨fun x n => ?_, fun x n => ?_, fun x n d hd => ?_, fun x n d hd hx => ?_,
    fun x n s hs hn => ?_⟩
  · rw [isClassificationValidFor_iff h, mem_validEntitiesOf?_iff h]
  · rw [isClassificationValidFor_iff h]
    exact exists_congr fun c => and_congr_right fun hc => covers_iff h hc
  · rw [Registry.mem_directClassifications hnone (hresolved hd)]
    exact exists_congr fun c => and_congr_right fun hc => lists_iff hnone hc
  · rcases hx with hx | hx
    · obtain ⟨c, hc, _⟩ := (Registry.mem_directClassifications hnone (hresolved hd)).mp hx
      exact ⟨c, hc⟩
    · obtain ⟨c, hc, _⟩ := (Registry.mem_classifications hnone (hresolved hd)).mp hx
      exact ⟨c, hc⟩
  · obtain ⟨_, _, he, _⟩ := (mem_validEntitiesOf?_iff h).mp ⟨s, hs, hn⟩
    exact he

/-- Two nested entity types and a classification that lists the upper one. -/
def nested : Draft where
  registry :=
    [.entity { name := "asset", guid := "" },
      .entity { name := "table", guid := "", supertype := some (.named "asset") },
      .classification { name := "tag", guid := "", validEntityTypes := [.named "asset"] }].foldl
      Registry.put {}

theorem classification_applicability_exact_nested : ∃ m, nested.resolve.result = .ok m ∧
    m.isClassificationValidFor "tag" "table" = true ∧
      ∃ s, m.validEntitiesOf? "tag" = some s ∧ "table" ∈ s := by
  have hnone : nested.registry.defects = [] := by decide +kernel
  have hrun := Draft.resolve_eq_ok_iff.mpr ⟨hnone, rfl⟩
  obtain ⟨hviews, hlist, -⟩ := classification_applicability_exact hrun
  have htable : nested.registry.entities.get? "table"
      = some { name := "table", guid := "", supertype := some (.named "asset") } := by
    decide +kernel
  have htag : nested.registry.classifications.get? "tag"
      = some { name := "tag", guid := "", validEntityTypes := [.named "asset"] } := by
    decide +kernel
  have hup : nested.registry.entities.Extends "table" "asset" :=
    ⟨_, .named "asset", htable, rfl, rfl⟩
  have hvalid := (hlist "tag" "table").mpr ⟨_, htag, .named "asset", by simp, "asset", rfl,
    (mem_entityChain hrun).mpr ⟨⟨_, htable⟩, .single hup⟩⟩
  exact ⟨_, hrun, hvalid, (hviews _ _).mp hvalid⟩

end Models

end Metamodel
