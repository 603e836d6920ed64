import Metamodel.Proofs.Consistency

/-!
# Metamodel.Proofs.Reports

What a failed resolution reports.

* `Registry.FlawsOfPass` — all flaws of the first defective pass, which is what collecting reports.
* `Registry.Leading`     — the flaw met first, which is what failing fast reports, and what stands
  first in a collection.
-/

namespace Metamodel

open Relation

namespace NameMap

variable {δ : Type} [SupertypedDef δ] {m : NameMap δ} {label : String} {ds : List Defect}

/-- All flaws of a hierarchy. A loop is one of them, however many types lead into it. -/
structure FlawList (m : NameMap δ) (label : String) (ds : List Defect) : Prop where
  all : ∀ d, d ∈ ds ↔ ∃ n, m.Flaw label n d
  one_per_loop : ∀ n, TransGen m.Extends n n → ∃! k, ReflTransGen m.Extends n k ∧
    .supertypeCycle (SupertypedDef.hierarchy δ).category k label ∈ ds

theorem FlawList.of_mem_iff (hm : m.KeyedBy SupertypedDef.name)
    (h : ∀ d, d ∈ ds ↔ ∃ n, m.Flaw label n d) : m.FlawList label ds := by
  refine ⟨h, fun n hloop => ?_⟩
  simp only [h]
  exact existsUnique_flaw_of_loop hm label hloop

theorem Flaw.reference {n : String} {d : Defect} (h : m.Flaw label n d) :
    d.reference = .supertype := by
  cases h <;> rfl

end NameMap

namespace Registry

variable {r : Registry} {d : Defect} {ds : List Defect}

theorem EndFlaw.reference {n : String} {p : EndPosition} (h : r.EndFlaw n p d) :
    d.reference = .relationshipEnd := by
  cases h <;> rfl

theorem LinkFlaw.reference {n : String} {l : TypeLink} (h : r.LinkFlaw n l d) :
    d.reference = .validEntity := by
  cases h <;> rfl

/-! ## Collecting -/

/-- All flaws of the first pass that has any. In the last pass, those of valid-entity links come
before those of the hierarchy. -/
inductive FlawsOfPass (r : Registry) (ds : List Defect) : Prop where
  | entities :
      r.entities.FlawList r.label ds → FlawsOfPass r ds
  | relationships :
      r.entities.Grounded → (∀ d, d ∈ ds ↔ ∃ n p, r.EndFlaw n p d) → FlawsOfPass r ds
  | classifications {links chains : List Defect} :
      r.entities.Grounded → (∀ n p d, ¬ r.EndFlaw n p d) → ds = links ++ chains →
      (∀ d, d ∈ links ↔ ∃ n l, r.LinkFlaw n l d) → r.classifications.FlawList r.label chains →
      FlawsOfPass r ds

theorem not_endFlaw_of_nil (h : r.endDefects = []) (n : String) (p : EndPosition) (d : Defect) :
    ¬ r.EndFlaw n p d := by
  intro hf
  have hd := mem_endDefects.mpr ⟨n, p, hf⟩
  rw [h] at hd
  cases hd

theorem not_linkFlaw_of_nil (h : r.linkDefects = []) (n : String) (l : TypeLink) (d : Defect) :
    ¬ r.LinkFlaw n l d := by
  intro hf
  have hd := mem_linkDefects.mpr ⟨n, l, hf⟩
  rw [h] at hd
  cases hd

theorem flawsOfPass_defects (r : Registry) : r.FlawsOfPass r.defects.eraseDups := by
  rcases r.defects_cases with ⟨-, h⟩ | ⟨he, -, h⟩ | ⟨he, hr, h⟩
  · refine .entities (.of_mem_iff r.entities_keyed fun d => ?_)
    rw [List.mem_eraseDups, h, mem_entityDefects]
  · refine .relationships (entityDefects_eq_nil.mp he) fun d => ?_
    rw [List.mem_eraseDups, h, mem_endDefects]
  · refine .classifications (entityDefects_eq_nil.mp he) (not_endFlaw_of_nil hr)
      (by rw [h, List.eraseDups_append]) (fun d => ?_)
      (.of_mem_iff r.classifications_keyed fun d => ?_)
    · rw [List.mem_eraseDups, mem_linkDefects]
    · rw [List.mem_eraseDups, List.removeAll, List.mem_filter, mem_classificationDefects]
      refine ⟨And.left, fun hd => ⟨hd, ?_⟩⟩
      -- a flaw of the hierarchy is never one of a valid-entity link
      obtain ⟨n, hf⟩ := hd
      have hnot : d ∉ r.linkDefects := by
        intro hl
        obtain ⟨k, l, hl⟩ := mem_linkDefects.mp hl
        have href := hl.reference
        rw [hf.reference] at href
        cases href
      simpa using hnot

theorem collectAll_error {f : Fault} (h : (r.resolve .collectAll).result = .error f) :
    ∃ d ds, r.defects = d :: ds ∧
      f = .resolutionFailed r.label (r.defects.eraseDups.map .defect) := by
  rw [resolve_eq_error_iff] at h
  cases hd : r.defects with
  | nil => rw [hd] at h; cases h
  | cons d ds => rw [hd] at h; cases h; exact ⟨d, ds, rfl, rfl⟩

/-- A collection holds all flaws of the first defective pass, each once, and nothing else. -/
theorem collected_exactly (r : Registry) {f : Fault}
    (h : (r.resolve .collectAll).result = .error f) :
    ∃ ds : List Defect, f = .resolutionFailed r.label (ds.map .defect) ∧ ds ≠ [] ∧ ds.Nodup ∧
      r.FlawsOfPass ds := by
  obtain ⟨d, ds, hd, hf⟩ := collectAll_error h
  refine ⟨r.defects.eraseDups, hf, ?_, nodup_eraseDups _, r.flawsOfPass_defects⟩
  rw [hd, List.eraseDups_cons]
  exact List.cons_ne_nil _ _

/-- A loop of two, a type that leads into it, and a link without a name. -/
def knotted : Registry :=
  [.entity { name := "a", guid := "", supertype := some (.named "b") },
    .entity { name := "b", guid := "", supertype := some (.named "a") },
    .entity { name := "c", guid := "", supertype := some (.named "b") },
    .entity { name := "d", guid := "", supertype := some {} }].foldl put {}

/-- Two classifications that are each other's supertype, and one that leads to them. -/
def looped : Registry :=
  [.classification { name := "low", guid := "", supertype := some (.named "high") },
    .classification { name := "high", guid := "", supertype := some (.named "low") },
    .classification { name := "aside", guid := "", supertype := some (.named "low") }].foldl put {}

/-- A loop is reported once, though three climbs run into it, and a relationship only for the end
that dangles. -/
theorem collected_exactly_knotted :
    ((knotted.resolve .collectAll).result = .error (.resolutionFailed ""
        [.defect (.supertypeCycle .entity "a" ""),
          .defect (.missingSupertypeName .entities "d" "")]) ∧
      knotted.FlawsOfPass [.supertypeCycle .entity "a" "", .missingSupertypeName .entities "d" ""]) ∧
    ((halfAnchored.resolve .collectAll).result = .error (.resolutionFailed ""
        [.defect (.missingEndDef "stores" .end2 (some "void") "")]) ∧
      halfAnchored.FlawsOfPass [.missingEndDef "stores" .end2 (some "void") ""]) ∧
    (looped.resolve .collectAll).result = .error (.resolutionFailed ""
        [.defect (.supertypeCycle .classification "high" "")]) ∧
      looped.FlawsOfPass [.supertypeCycle .classification "high" ""] := by
  have hreports : ∀ (r : Registry) (ds : List Defect), r.defects.eraseDups = ds → ds ≠ [] →
      (r.resolve .collectAll).result = .error (.resolutionFailed r.label (ds.map .defect)) ∧
        r.FlawsOfPass ds := by
    intro r ds hds hne
    have hrun : (r.resolve .collectAll).result
        = .error (.resolutionFailed r.label (ds.map .defect)) := by
      rw [resolve_eq_error_iff, ← hds]
      cases hd : r.defects with
      | nil => exact absurd (hds.symm.trans (congrArg List.eraseDups hd)) hne
      | cons d rest => rfl
    obtain ⟨es, hf, -, -, hall⟩ := collected_exactly r hrun
    injection hf with _ hmembers
    have hes : ds = es := List.map_injective_iff.mpr (fun _ _ h => Fault.defect.inj h) hmembers
    exact ⟨hrun, hes ▸ hall⟩
  have hknotted := hreports knotted [.supertypeCycle .entity "a" "",
    .missingSupertypeName .entities "d" ""] (by decide +kernel) (by decide)
  have hhalf := hreports halfAnchored [.missingEndDef "stores" .end2 (some "void") ""]
    (by decide +kernel) (by decide)
  have hlooped := hreports looped [.supertypeCycle .classification "high" ""]
    (by decide +kernel) (by decide)
  exact ⟨hknotted, hhalf, hlooped⟩

/-! ## Both modes -/

/-- The flaw that is met first: in a hierarchy, on the chain of the first type that has a defective
one; of a relationship, at the first end if both are dangling; of a classification, at the first
link listed. -/
inductive Leading (r : Registry) : Defect → Prop where
  | entity {n : String} {d : Defect} :
      r.entities.ChainFlaw r.label n d →
      (∀ k e, k < n → ¬ r.entities.ChainFlaw r.label k e) → Leading r d
  | relationshipEnd {n : String} {p : EndPosition} {d : Defect} :
      r.entities.Grounded → r.EndFlaw n p d → (∀ k q e, k < n → ¬ r.EndFlaw k q e) →
      (p = .end2 → ∀ e, ¬ r.EndFlaw n .end1 e) → Leading r d
  | validEntity {n : String} {c : ClassificationDef} {front back : List TypeLink} {l : TypeLink}
      {d : Defect} :
      r.entities.Grounded → (∀ n p e, ¬ r.EndFlaw n p e) →
      r.classifications.get? n = some c → c.validEntityTypes = front ++ l :: back →
      r.LinkFlaw n l d → (∀ j ∈ front, ∀ e, ¬ r.LinkFlaw n j e) →
      (∀ k j e, k < n → ¬ r.LinkFlaw k j e) → Leading r d
  | classification {n : String} {d : Defect} :
      r.entities.Grounded → (∀ n p e, ¬ r.EndFlaw n p e) → (∀ n l e, ¬ r.LinkFlaw n l e) →
      r.classifications.ChainFlaw r.label n d →
      (∀ k e, k < n → ¬ r.classifications.ChainFlaw r.label k e) → Leading r d

theorem leading_of_defects (h : r.defects = d :: ds) : r.Leading d := by
  rcases r.defects_cases with ⟨-, hp⟩ | ⟨he, -, hp⟩ | ⟨he, hr, hp⟩ <;> rw [hp] at h
  · obtain ⟨n, hn, hleast⟩ := entityDefects_eq_cons h
    exact .entity hn hleast
  · obtain ⟨n, p, hn, hleast, hfirst⟩ := endDefects_eq_cons h
    exact .relationshipEnd (entityDefects_eq_nil.mp he) hn hleast hfirst
  · have hgrounded := entityDefects_eq_nil.mp he
    have hends := not_endFlaw_of_nil hr
    cases hl : r.linkDefects with
    | nil =>
      rw [hl] at h
      obtain ⟨n, hn, hleast⟩ := classificationDefects_eq_cons h
      exact .classification hgrounded hends (not_linkFlaw_of_nil hl) hn hleast
    | cons e es =>
      obtain ⟨n, c, front, l, back, hc, hlist, hf, hfront, hleast⟩ := linkDefects_eq_cons hl
      rw [hl] at h
      cases h
      exact .validEntity hgrounded hends hc hlist hf hfront hleast

/-- Defects of valid-entity links stand before all others. -/
def LinksFirst (ds : List Defect) : Prop :=
  ds.Pairwise fun d e => e.reference = .validEntity → d.reference = .validEntity

theorem linksFirst_of_none (h : ∀ d ∈ ds, d.reference ≠ .validEntity) : LinksFirst ds :=
  List.pairwise_of_forall_mem_list fun _ _ e he href => absurd href (h e he)

theorem FlawsOfPass.linksFirst (h : r.FlawsOfPass ds) : LinksFirst ds := by
  cases h with
  | entities hall =>
    refine linksFirst_of_none fun d hd => ?_
    obtain ⟨n, hf⟩ := (hall.all d).mp hd
    simp [hf.reference]
  | relationships _ hall =>
    refine linksFirst_of_none fun d hd => ?_
    obtain ⟨n, p, hf⟩ := (hall d).mp hd
    simp [hf.reference]
  | @classifications links chains _ _ happ hlinks hchains =>
    have hlink : ∀ d ∈ links, d.reference = .validEntity := by
      intro d hd
      obtain ⟨n, l, hf⟩ := (hlinks d).mp hd
      exact hf.reference
    rw [happ, LinksFirst, List.pairwise_append]
    refine ⟨?_, linksFirst_of_none fun d hd => ?_, fun d hd _ _ _ => hlink d hd⟩
    · exact List.pairwise_of_forall_mem_list fun d hd _ _ _ => hlink d hd
    · obtain ⟨n, hf⟩ := (hchains.all d).mp hd
      simp [hf.reference]

/-- Both modes return the same, and failing fast reports what a collection begins with. -/
theorem modes_agree (r : Registry) :
    (∀ m, (r.resolve .failFast).result = .ok m ↔ (r.resolve .collectAll).result = .ok m) ∧
      ∀ f, (r.resolve .collectAll).result = .error f → ∃ d ds,
        f = .resolutionFailed r.label (.defect d :: ds.map .defect) ∧
          (r.resolve .failFast).result = .error (.defect d) ∧ r.Leading d ∧
          LinksFirst (d :: ds) := by
  refine ⟨fun m => ?_, fun f h => ?_⟩
  · rw [resolve_eq_ok_iff, resolve_eq_ok_iff]
  · obtain ⟨d, ds, hd, hf⟩ := collectAll_error h
    have hfirst := r.flawsOfPass_defects.linksFirst
    rw [hd, List.eraseDups_cons] at hf hfirst
    refine ⟨d, _, hf, ?_, leading_of_defects hd, hfirst⟩
    rw [resolve_eq_error_iff, hd]
    rfl

theorem modes_agree_knotted :
    ((knotted.resolve .failFast).result = .error (.defect (.supertypeCycle .entity "a" "")) ∧
      knotted.Leading (.supertypeCycle .entity "a" "")) ∧
    ((halfAnchored.resolve .failFast).result
        = .error (.defect (.missingEndDef "stores" .end2 (some "void") "")) ∧
      halfAnchored.Leading (.missingEndDef "stores" .end2 (some "void") "")) ∧
    (looped.resolve .failFast).result
        = .error (.defect (.supertypeCycle .classification "high" "")) ∧
      looped.Leading (.supertypeCycle .classification "high" "") := by
  have hreports : ∀ (r : Registry) (d : Defect), r.defects.head? = some d →
      (r.resolve .failFast).result = .error (.defect d) ∧ r.Leading d := by
    intro r d hd
    obtain ⟨-, herror⟩ := modes_agree r
    cases hrun : (r.resolve .collectAll).result with
    | ok m =>
      rw [(resolve_eq_ok_iff.mp hrun).1] at hd
      cases hd
    | error f =>
      obtain ⟨first, rest, hf, hfast, hlead, -⟩ := herror f hrun
      obtain ⟨e, es, he, hcollected⟩ := collectAll_error hrun
      rw [hf, he, List.eraseDups_cons] at hcollected
      rw [he] at hd
      cases hd
      injection hcollected with _ hmembers
      have hfirst : first = d := Fault.defect.inj (List.cons.inj hmembers).1
      rw [← hfirst]
      exact ⟨hfast, hlead⟩
  exact ⟨hreports knotted _ (by decide +kernel), hreports halfAnchored _ (by decide +kernel),
    hreports looped _ (by decide +kernel)⟩

end Registry

end Metamodel
