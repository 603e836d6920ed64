import Metamodel.Proofs.Defects

/-!
# Metamodel.Proofs.Consistency

Which registries resolve.

* `NameMap.Grounded`    — every supertype link leads somewhere, and no chain of them loops.
* `Registry.Consistent` — both hierarchies are grounded, and all links to entity types lead there.
* `consistent_iff_no_defects` — a resolution has nothing to report exactly then.
-/

namespace Metamodel

open Relation

theorem TypeLink.LeadsInto.target? {α : Type} {l : TypeLink} {m : NameMap α}
    (h : l.LeadsInto m) : ∃ n a, l.target? = some n ∧ m.get? n = some a := by
  obtain ⟨n, a, hn, hne, ha⟩ := h
  exact ⟨n, a, target?_eq_some.mpr ⟨hn, hne⟩, ha⟩

/-- A link that leads somewhere leads to the name it carries. -/
theorem TypeLink.LeadsInto.target?_eq {α : Type} {l : TypeLink} {m : NameMap α}
    (h : l.LeadsInto m) : l.target? = l.name := by
  obtain ⟨n, _, hn, hne, _⟩ := h
  rw [hn]
  exact target?_eq_some.mpr ⟨hn, hne⟩

namespace NameMap

variable {δ : Type} [SupertypedDef δ] {m : NameMap δ} {label : String}

/-- A hierarchy whose chains all end at a root. -/
structure Grounded (m : NameMap δ) : Prop where
  linked : ∀ n d l, m.get? n = some d → SupertypedDef.supertype d = some l → l.LeadsInto m
  acyclic : ∀ n, ¬ TransGen m.Extends n n

theorem grounded_iff (hm : m.KeyedBy SupertypedDef.name) :
    m.Grounded ↔ ∀ n d, ¬ m.Flaw label n d := by
  constructor
  · intro h n d hf
    cases hf with
    | unnamed hd hl hn =>
      obtain ⟨k, c, hk, -⟩ := (h.linked _ _ _ hd hl).target?
      rw [hn] at hk
      cases hk
    | unregistered hd hl hk hc =>
      obtain ⟨k, c, hk', hc'⟩ := (h.linked _ _ _ hd hl).target?
      rw [hk] at hk'
      cases hk'
      rw [hc] at hc'
      cases hc'
    | loop hloop _ => exact h.acyclic _ hloop
  · intro h
    refine ⟨fun n d l hd hl => ?_, fun n hloop => ?_⟩
    · by_contra hlead
      rcases TypeLink.not_leadsInto.mp hlead with hn | ⟨k, hk, hc⟩
      · exact h n _ (.unnamed hd hl hn)
      · exact h n _ (.unregistered hd hl hk hc)
    · obtain ⟨k, _, hf⟩ := exists_flaw_of_loop hm label hloop
      exact h k _ hf

/-- What a registered type leads up to is registered. -/
theorem Grounded.registered (h : m.Grounded) {n k : String} (hn : ∃ c, m.get? n = some c)
    (hk : ReflTransGen m.Extends n k) : ∃ c, m.get? k = some c := by
  rcases hk.cases_tail with rfl | ⟨j, _, d, l, hd, hl, hlk⟩
  · exact hn
  · obtain ⟨i, c, hi, hc⟩ := (h.linked j d l hd hl).target?
    rw [hlk] at hi
    cases hi
    exact ⟨c, hc⟩

/-- Without loops, a proper way up is a way up to another type. -/
theorem Grounded.transGen_iff (h : m.Grounded) {n k : String} : TransGen m.Extends n k ↔
    (∃ c, m.get? n = some c) ∧ n ≠ k ∧ ReflTransGen m.Extends n k := by
  constructor
  · intro hnk
    refine ⟨registered_of_transGen hnk, ?_, hnk.to_reflTransGen⟩
    rintro rfl
    exact h.acyclic n hnk
  · rintro ⟨_, hne, hnk⟩
    exact (reflTransGen_iff_eq_or_transGen.mp hnk).resolve_left (Ne.symm hne)

end NameMap

namespace Registry

variable {r : Registry}

/-- Nothing refers to what is not registered, and nothing is its own ancestor. -/
structure Consistent (r : Registry) : Prop where
  entities : r.entities.Grounded
  classifications : r.classifications.Grounded
  ends : ∀ n a, r.relationships.get? n = some a → a.Anchored r.entities
  validEntities : ∀ n c, r.classifications.get? n = some c →
    ∀ l ∈ c.validEntityTypes, l.LeadsInto r.entities

theorem entityDefects_eq_nil : r.entityDefects = [] ↔ r.entities.Grounded := by
  rw [List.eq_nil_iff_forall_not_mem, NameMap.grounded_iff r.entities_keyed]
  simp only [mem_entityDefects, not_exists]
  exact forall_comm

theorem classificationDefects_eq_nil :
    r.classificationDefects = [] ↔ r.classifications.Grounded := by
  rw [List.eq_nil_iff_forall_not_mem, NameMap.grounded_iff r.classifications_keyed]
  simp only [mem_classificationDefects, not_exists]
  exact forall_comm

theorem endDefects_eq_nil : r.endDefects = [] ↔
    ∀ n a, r.relationships.get? n = some a → a.Anchored r.entities := by
  rw [List.eq_nil_iff_forall_not_mem]
  simp only [mem_endDefects, not_exists, RelationshipDef.anchored_iff]
  constructor
  · intro h n a ha p
    by_contra hlead
    exact h _ n p (endFlaw_iff.mpr ⟨a, ha, hlead, rfl⟩)
  · intro h d n p hf
    obtain ⟨a, ha, hlead, -⟩ := endFlaw_iff.mp hf
    exact hlead (h n a ha p)

theorem linkDefects_eq_nil : r.linkDefects = [] ↔ ∀ n c, r.classifications.get? n = some c →
    ∀ l ∈ c.validEntityTypes, l.LeadsInto r.entities := by
  rw [List.eq_nil_iff_forall_not_mem]
  simp only [mem_linkDefects, not_exists]
  constructor
  · intro h n c hc l hl
    by_contra hlead
    rcases TypeLink.not_leadsInto.mp hlead with hn | ⟨k, hk, hnone⟩
    · exact h _ n l (.unnamed hc hl hn)
    · exact h _ n l (.unregistered hc hl hk hnone)
  · intro h d n l hf
    have hlead : ¬ l.LeadsInto r.entities := by
      rw [TypeLink.not_leadsInto]
      cases hf with
      | unnamed _ _ hn => exact .inl hn
      | unregistered _ _ hk hnone => exact .inr ⟨_, hk, hnone⟩
    obtain ⟨c, hc, hl⟩ := hf.registered
    exact hlead (h n c hc l hl)

theorem consistent_iff_no_defects : r.Consistent ↔ r.defects = [] := by
  have hparts : r.Consistent ↔ r.entityDefects = [] ∧ r.endDefects = [] ∧
      r.linkDefects ++ r.classificationDefects = [] := by
    rw [List.append_eq_nil_iff, entityDefects_eq_nil, endDefects_eq_nil, linkDefects_eq_nil,
      classificationDefects_eq_nil]
    exact ⟨fun ⟨he, hc, hr, hv⟩ => ⟨he, hr, hv, hc⟩, fun ⟨he, hr, hv, hc⟩ => ⟨he, hc, hr, hv⟩⟩
  rw [hparts]
  rcases r.defects_cases with ⟨he, h⟩ | ⟨he, hr, h⟩ | ⟨he, hr, h⟩
  · simp [h, he]
  · simp [h, he, hr]
  · simp [h, he, hr]

/-- Exactly the consistent registries resolve, in either mode. Once the subtypes of a hierarchy are
linked and checked, no climb for its attributes fails. -/
theorem resolves_iff_consistent (r : Registry) :
    (∀ mode, (∃ m, (r.resolve mode).result = .ok m) ↔ r.Consistent) ∧
      ∀ {δ ε : Type} [SupertypedDef δ] (t t' : Arena (ResolvedType δ ε)) (found found' : Findings),
        t.linkSubtypes found = .ok (t', found') → found'.checkpoint = .ok () →
        (∀ s ∈ t'.slotsByName, ∃ chain, t'.lineage found'.label s = .ok chain) ∧
          ∃ inherited, t'.inheritAttributes found' = .ok (inherited, found') := by
  refine ⟨fun mode => ?_, fun t t' found found' hlink hcheck => ?_⟩
  · simp only [resolve_eq_ok_iff, consistent_iff_no_defects]
    exact ⟨fun ⟨_, h, _⟩ => h, fun h => ⟨_, h, rfl⟩⟩
  · obtain ⟨hclimbs, hrun⟩ := inheritAttributes_of_linked hlink hcheck
    exact ⟨hclimbs, _, hrun⟩

/-- An entity type with a subtype. -/
def layered : Registry :=
  [.entity { name := "asset", guid := "" },
    .entity { name := "table", guid := "", supertype := some (.named "asset") }].foldl put {}

/-- A relationship between an entity type and one that is missing. -/
def halfAnchored : Registry :=
  [.entity { name := "asset", guid := "" },
    .relationship (.between "stores" "" "asset" "void")].foldl put {}

theorem resolves_iff_consistent_layered :
    (layered.Consistent ∧ ∃ t found, (unresolved layered.entities : EntityArena).linkSubtypes
        { mode := .failFast, label := layered.label } = .ok (t, found) ∧
      found.checkpoint = .ok () ∧
      ∃ inherited, t.inheritAttributes found = .ok (inherited, found)) ∧
    ¬ halfAnchored.Consistent ∧ ∀ mode m, (halfAnchored.resolve mode).result ≠ .ok m := by
  have hnone : layered.defects = [] := by decide +kernel
  have hrun : (layered.resolve .failFast).result = .ok layered.resolved :=
    resolve_eq_ok_iff.mpr ⟨hnone, rfl⟩
  obtain ⟨hiff, hclimbs⟩ := resolves_iff_consistent layered
  have hconsistent := (hiff .failFast).mp ⟨_, hrun⟩
  have hlink : (unresolved layered.entities : EntityArena).linkSubtypes
      { mode := .failFast, label := layered.label }
      = .ok ((unresolved layered.entities : EntityArena).markSubtypes layered.label,
          { mode := .failFast, label := layered.label }) := by
    have hentities : layered.entityDefects = [] := entityDefects_eq_nil.mpr hconsistent.entities
    rw [entityDefects] at hentities
    rw [Arena.linkSubtypes_eq, hentities]
    rfl
  have hhalf : ¬ halfAnchored.Consistent := by
    intro h
    have hstores : halfAnchored.relationships.get? "stores"
        = some (.between "stores" "" "asset" "void") := by decide +kernel
    have hvoid : halfAnchored.entities.get? "void" = none := by decide +kernel
    obtain ⟨n, e, hn, -, he⟩ := (h.ends _ _ hstores).end2
    cases hn
    cases hvoid.symm.trans he
  refine ⟨⟨hconsistent, _, _, hlink, rfl, (hclimbs _ _ _ _ hlink rfl).2⟩, hhalf, ?_⟩
  exact fun mode m hm => hhalf (((resolves_iff_consistent halfAnchored).1 mode).mp ⟨m, hm⟩)

end Registry

end Metamodel
