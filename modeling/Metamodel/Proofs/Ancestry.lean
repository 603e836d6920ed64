import Mathlib.Order.Defs.Unbundled
import Metamodel.Proofs.Hierarchies

/-!
# Metamodel.Proofs.Ancestry

Supertype chains, as a model lists them when it is asked.

* `Arena.Walks`          — the loop that lists a type and goes on with its supertype, which nothing
  but the hierarchy brings to an end.
* `NameMap.Ancestry`     — the chain of a type by name, from the type to one without a supertype.
* `supertype_chains_exact` — in a model the loop ends for every name, its lists are these chains,
  and they agree with the subtype sets.
-/

namespace Metamodel

open Relation

/-! ## The loop -/

namespace Arena

variable {δ ε : Type} [SupertypedDef δ] {t : Arena (ResolvedType δ ε)}
  {o : Option (ResolvedType δ ε)} {n : String} {ns ks : List String} {a : Nat} {chain : List Nat}

/-- The loop ends with the names `ns`, if the current type is `o`. No guard ends it early. -/
inductive Walks (t : Arena (ResolvedType δ ε)) : Option (ResolvedType δ ε) → List String → Prop where
  | stop : Walks t none []
  | next {d : ResolvedType δ ε} {ns : List String} :
      Walks t (d.supertypeName?.bind t.get?) ns → Walks t (some d) (d.name :: ns)

theorem Walks.unique (h : t.Walks o ns) (h' : t.Walks o ks) : ns = ks := by
  induction h generalizing ks with
  | stop => cases h'; rfl
  | next _ ih =>
    cases h' with
    | next h' => rw [ih h']

/-- A climb to a root is a run of the loop to its end. -/
theorem Climbs.walks (h : t.Climbs a chain) (hn : t.slotOf? n = some a) :
    t.Walks (t.get? n) (t.namesAt chain) := by
  induction h generalizing n with
  | @root a hr =>
    rw [get?_of_slotOf? hn]
    cases hd : t.at? a with
    | none =>
      have hnames : t.namesAt [a] = [] := by simp [namesAt, hd]
      rw [hnames]
      exact .stop
    | some d =>
      have hup : d.supertypeName? = none := by rw [ResolvedType.supertypeName?, hr d hd]; rfl
      rw [namesAt_cons hd]
      refine .next ?_
      rw [hup]
      exact .stop
  | @step a b chain hab _ ih =>
    obtain ⟨d, k, hd, hk, hkb⟩ := hab
    rw [get?_of_slotOf? hn, hd, namesAt_cons hd]
    refine .next ?_
    rw [hk]
    exact ih hkb

end Arena

/-! ## Chains by name -/

namespace NameMap

variable {δ : Type} [SupertypedDef δ] {m : NameMap δ} {n k : String} {ns ks : List String}

/-- The type `n`, the type that its supertype link names, and so on up to one without a link. -/
inductive Ancestry (m : NameMap δ) : String → List String → Prop where
  | root {n : String} {c : δ} :
      m.get? n = some c → SupertypedDef.supertype c = none → Ancestry m n [n]
  | step {n k : String} {ns : List String} :
      m.Extends n k → Ancestry m k ns → Ancestry m n (n :: ns)

theorem not_extends_of_root {c : δ} (hc : m.get? n = some c)
    (hroot : SupertypedDef.supertype c = none) (k : String) : ¬ m.Extends n k := by
  rintro ⟨d, l, hd, hl, _⟩
  rw [hc] at hd
  cases hd
  rw [hroot] at hl
  cases hl

namespace Ancestry

theorem unique (h : m.Ancestry n ns) (h' : m.Ancestry n ks) : ns = ks := by
  induction h generalizing ks with
  | root hc hroot =>
    cases h' with
    | root _ _ => rfl
    | step hnk _ => exact absurd hnk (not_extends_of_root hc hroot _)
  | step hnk _ ih =>
    cases h' with
    | root hc hroot => exact absurd hnk (not_extends_of_root hc hroot _)
    | step hnj h' =>
      rw [extends_rightUnique m hnj hnk] at h'
      rw [ih h']

theorem head? (h : m.Ancestry n ns) : ns.head? = some n := by
  cases h <;> rfl

theorem isChain (h : m.Ancestry n ns) : ns.IsChain m.Extends := by
  induction h with
  | root _ _ => exact .singleton _
  | step hnk hk ih =>
    cases hk with
    | root _ _ => exact .cons_cons hnk ih
    | step _ _ => exact .cons_cons hnk ih

theorem exists_root (h : m.Ancestry n ns) :
    ∃ k c, ns.getLast? = some k ∧ m.get? k = some c ∧ SupertypedDef.supertype c = none := by
  induction h with
  | root hc hroot => exact ⟨_, _, rfl, hc, hroot⟩
  | step _ hk ih =>
    obtain ⟨j, c, hj, hc⟩ := ih
    refine ⟨j, c, ?_, hc⟩
    cases hk <;> exact hj

end Ancestry

/-- A type that leads up to itself through no link stands on a chain once. -/
theorem nodup_of_isChain (hacyclic : ∀ n, ¬ TransGen m.Extends n n)
    (h : ns.IsChain m.Extends) : ns.Nodup := by
  have hup : ns.Pairwise (TransGen m.Extends) := (h.imp fun _ _ => .single).pairwise
  refine hup.imp ?_
  rintro n _ hn rfl
  exact hacyclic n hn

end NameMap

/-! ## Both together -/

namespace Arena

variable {δ ε : Type} [SupertypedDef δ] {t : Arena (ResolvedType δ ε)} {m : NameMap δ}
  {n : String} {ns : List String} {a : Nat} {chain : List Nat}

section Names

variable (ht : t.definitions = ofMap m) (hm : m.KeyedBy SupertypedDef.name)

include ht hm

theorem Climbs.ancestry (h : t.Climbs a chain) (hn : t.slotOf? n = some a) :
    m.Ancestry n (t.namesAt chain) := by
  induction h generalizing n with
  | @root a hr =>
    obtain ⟨d, hd, hc⟩ := exists_at? ht hn
    rw [namesAt_cons hd, name_at? ht hm hn hd]
    exact .root hc (hr d hd)
  | @step a b chain hab _ ih =>
    obtain ⟨d, hd, _⟩ := exists_at? ht hn
    obtain ⟨k, hk, hnk⟩ := (ascends_iff ht hn).mp hab
    rw [namesAt_cons hd, name_at? ht hm hn hd]
    exact .step hnk (ih hk)

/-- In a grounded hierarchy the loop ends with the chain that is listed. -/
theorem walks_chainNames (hg : m.Grounded) (n : String) :
    t.Walks (t.get? n) (chainNames t t.size n) := by
  have hidx := indexed_of_definitions ht
  cases hn : t.slotOf? n with
  | none =>
    have hnone := hidx.slotOf?_eq_none_iff.mp hn
    rw [chainNames_of_none hnone, hnone]
    exact .stop
  | some a =>
    obtain ⟨chain, hclimb⟩ := exists_climb ht hm hg hn
    rw [chainNames_eq hclimb hn (hclimb.length_le hidx (hidx.bounded hn))]
    exact hclimb.walks hn

theorem ancestry_chainNames (hg : m.Grounded) {c : δ} (hc : m.get? n = some c) :
    m.Ancestry n (chainNames t t.size n) := by
  have hidx := indexed_of_definitions ht
  obtain ⟨a, hn⟩ := exists_slotOf? ht hc
  obtain ⟨chain, hclimb⟩ := exists_climb ht hm hg hn
  rw [chainNames_eq hclimb hn (hclimb.length_le hidx (hidx.bounded hn))]
  exact hclimb.ancestry ht hm hn

end Names

/-- The lists of a hierarchy are the chains of its definitions. -/
structure ChainsExact (t : Arena (ResolvedType δ ε)) (m : NameMap δ)
    (chain : String → List String) : Prop where
  /-- The loop ends for every name, and lists nothing else. -/
  ends : ∀ n ns, t.Walks (t.get? n) ns ↔ ns = chain n
  unregistered : ∀ n, m.get? n = none → chain n = []
  head : ∀ {n c}, m.get? n = some c → (chain n).head? = some n
  nodup : ∀ n, (chain n).Nodup
  /-- The supertype link of each type on a chain names the next one. -/
  linked : ∀ n, (chain n).IsChain m.Extends
  /-- The last type on a chain has no supertype link. -/
  root : ∀ {n c}, m.get? n = some c → ∃ k e, (chain n).getLast? = some k ∧
    m.get? k = some e ∧ SupertypedDef.supertype e = none

theorem chainsExact (ht : t.definitions = ofMap m) (hm : m.KeyedBy SupertypedDef.name)
    (hg : m.Grounded) : t.ChainsExact m (chainNames t t.size) := by
  have hnone : ∀ n, m.get? n = none → chainNames t t.size n = [] := by
    intro n hn
    have hslot := (slotOf?_eq_none_of_definitions ht).mpr hn
    exact chainNames_of_none ((indexed_of_definitions ht).slotOf?_eq_none_iff.mp hslot) _
  have hlinked : ∀ n, (chainNames t t.size n).IsChain m.Extends := by
    intro n
    cases hn : m.get? n with
    | none => rw [hnone n hn]; exact .nil
    | some c => exact (ancestry_chainNames ht hm hg hn).isChain
  exact
    { ends := fun n ns => ⟨fun h => h.unique (walks_chainNames ht hm hg n),
        fun h => h ▸ walks_chainNames ht hm hg n⟩
      unregistered := hnone
      head := fun hc => (ancestry_chainNames ht hm hg hc).head?
      nodup := fun n => NameMap.nodup_of_isChain hg.acyclic (hlinked n)
      linked := hlinked
      root := fun hc => (ancestry_chainNames ht hm hg hc).exists_root }

/-- What comes after a type on its own chain are the other types on it. -/
theorem ChainsExact.mem_tail {chain : String → List String} (h : t.ChainsExact m chain)
    {k : String} : k ∈ (chain n).tail ↔ n ≠ k ∧ k ∈ chain n := by
  have hnodup := h.nodup n
  cases hns : chain n with
  | nil => simp
  | cons j ns =>
    obtain ⟨c, hc⟩ : ∃ c, m.get? n = some c := by
      rw [← Option.ne_none_iff_exists']
      intro hn
      rw [h.unregistered n hn] at hns
      cases hns
    have hhead := h.head hc
    rw [hns] at hhead hnodup
    cases hhead
    have hnot := (List.nodup_cons.mp hnodup).1
    rw [List.tail_cons, List.mem_cons]
    constructor
    · intro hk
      refine ⟨?_, .inr hk⟩
      rintro rfl
      exact hnot hk
    · rintro ⟨hne, hk⟩
      exact hk.resolve_left (Ne.symm hne)

end Arena

/-! ## Models -/

section Models

variable {b : Draft} {m : Model} {n k j : String}

theorem isSubtypeOf_iff (h : b.resolve.result = .ok m) :
    m.isSubtypeOf n k = true ↔ TransGen b.registry.entities.Extends n k := by
  have hreg := exists_entity?_iff (n := k) h
  obtain ⟨hnone, hm⟩ := Draft.resolve_eq_ok_iff.mp h
  rw [Model.isSubtypeOf]
  cases hd : m.entity? k with
  | some d =>
    rw [hm] at hd
    simp [(Registry.settled_entities hnone).mem_subtypes hd]
  | none =>
    rw [hd] at hreg
    simp only [Bool.false_eq_true, false_iff]
    intro hnk
    have hg := (Registry.consistent_iff_no_defects.mpr hnone).entities
    have hk := hg.registered (NameMap.registered_of_transGen hnk) hnk.to_reflTransGen
    obtain ⟨d, hd'⟩ := hreg.mpr hk
    cases hd'

theorem isTypeOf_iff (h : b.resolve.result = .ok m) :
    m.isTypeOf n k = true ↔ k ∈ m.entityChain n := by
  have hsub := isSubtypeOf_iff (n := n) (k := k) h
  simp only [Model.isTypeOf, Bool.or_eq_true, Bool.and_eq_true, decide_eq_true_eq]
  rw [mem_entityChain h, hsub, Option.isSome_iff_exists, exists_entity?_iff h,
    reflTransGen_iff_eq_or_transGen]
  constructor
  · rintro (⟨rfl, he⟩ | hnk)
    · exact ⟨he, .inl rfl⟩
    · exact ⟨NameMap.registered_of_transGen hnk, .inr hnk⟩
  · rintro ⟨he, rfl | hnk⟩
    · exact .inl ⟨rfl, he⟩
    · exact .inr hnk

/-- In a model the lists of supertypes are the chains of the registered definitions, and for entity
types they say what the subtype sets say. So subtypes are strictly ordered, and all that is above
one type stands in one line. -/
theorem supertype_chains_exact (h : b.resolve.result = .ok m) :
    m.entities.ChainsExact b.registry.entities m.entityChain ∧
      m.classifications.ChainsExact b.registry.classifications m.classificationChain ∧
      (∀ n k, m.isTypeOf n k = true ↔ k ∈ m.entityChain n) ∧
      (∀ n k, m.isSubtypeOf n k = true ↔ k ∈ (m.entityChain n).tail) ∧
      IsStrictOrder String (fun n k => m.isSubtypeOf n k = true) ∧
      ∀ n k j, m.isSubtypeOf n k = true → m.isSubtypeOf n j = true →
        k = j ∨ m.isSubtypeOf k j = true ∨ m.isSubtypeOf j k = true := by
  obtain ⟨hnone, hm⟩ := Draft.resolve_eq_ok_iff.mp h
  have hconsistent := Registry.consistent_iff_no_defects.mpr hnone
  have hentities : m.entities.ChainsExact b.registry.entities m.entityChain := by
    rw [hm]
    exact Arena.chainsExact Registry.definitions_resolved_entities b.registry.entities_keyed
      hconsistent.entities
  have hclassifications :
      m.classifications.ChainsExact b.registry.classifications m.classificationChain := by
    rw [hm]
    exact Arena.chainsExact Registry.definitions_resolved_classifications
      b.registry.classifications_keyed hconsistent.classifications
  refine ⟨hentities, hclassifications, fun n k => isTypeOf_iff h, fun n k => ?_,
    { irrefl := fun n hn => ?_, trans := fun n k j hnk hkj => ?_ }, fun n k j hnk hnj => ?_⟩
  · rw [isSubtypeOf_iff h, hentities.mem_tail, mem_entityChain h,
      hconsistent.entities.transGen_iff]
    exact and_left_comm
  · exact hconsistent.entities.acyclic n ((isSubtypeOf_iff h).mp hn)
  · rw [isSubtypeOf_iff h] at hnk hkj ⊢
    exact hnk.trans hkj
  · rw [isSubtypeOf_iff h] at hnk hnj ⊢
    rw [isSubtypeOf_iff h]
    have htotal := hnk.to_reflTransGen.total_of_right_unique
      (NameMap.extends_rightUnique _) hnj.to_reflTransGen
    simp only [reflTransGen_iff_eq_or_transGen] at htotal
    rcases htotal with (he | hkj) | (he | hjk)
    · exact .inl he.symm
    · exact .inr (.inl hkj)
    · exact .inl he
    · exact .inr (.inr hjk)

theorem supertype_chains_exact_levels : ∃ m, levels.resolve.result = .ok m ∧
    m.entities.Walks (m.entities.get? "column") ["column", "table", "asset"] ∧
    m.classifications.Walks (m.classifications.get? "secret") ["secret", "label"] ∧
      m.isSubtypeOf "column" "asset" = true ∧ m.isSubtypeOf "asset" "column" = false := by
  have hnone : levels.registry.defects = [] := by decide +kernel
  have hrun := Draft.resolve_eq_ok_iff.mpr ⟨hnone, rfl⟩
  obtain ⟨hentities, hclassifications, -, hsub, -, -⟩ := supertype_chains_exact hrun
  have hcolumn : (Model.ofResolved levels.label levels.registry.resolved levels.guids).entityChain
      "column" = ["column", "table", "asset"] := by decide +kernel
  have hasset : (Model.ofResolved levels.label levels.registry.resolved levels.guids).entityChain
      "asset" = ["asset"] := by decide +kernel
  have hsecret : (Model.ofResolved levels.label levels.registry.resolved
      levels.guids).classificationChain "secret" = ["secret", "label"] := by decide +kernel
  refine ⟨_, hrun, (hentities.ends _ _).mpr hcolumn.symm,
    (hclassifications.ends _ _).mpr hsecret.symm, (hsub _ _).mpr ?_, ?_⟩
  · rw [hcolumn]
    decide
  · rw [Bool.eq_false_iff, ne_eq, hsub, hasset]
    decide

end Models

end Metamodel
