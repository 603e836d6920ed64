import Metamodel.Proofs.Lineage

/-!
# Metamodel.Proofs.Supertypes

The supertype relation of a map of definitions, by name.

* `NameMap.Extends`   — the supertype link of one definition names another.
* `NameMap.Flaw`      — a flaw of the hierarchy, with the one type it is blamed on.
* `NameMap.ChainFlaw` — a flaw as it is met when going up from some type.
* `lineage_error_iff_chainFlaw` — climbs over the arena of the definitions meet these flaws.
-/

namespace Metamodel

open Relation

namespace NameMap

variable {δ : Type} [SupertypedDef δ] {m : NameMap δ} {label : String} {n k : String} {d : Defect}

/-- The supertype link of the definition `n` names `k`. -/
def Extends (m : NameMap δ) (n k : String) : Prop :=
  ∃ d l, m.get? n = some d ∧ SupertypedDef.supertype d = some l ∧ l.target? = some k

/-- A flaw of a hierarchy, and the type it is blamed on: the holder of a link that has no name or
an unregistered one, and of a loop the member that comes first. -/
inductive Flaw (m : NameMap δ) (label : String) : String → Defect → Prop where
  | unnamed {n : String} {d : δ} {l : TypeLink} :
      m.get? n = some d → SupertypedDef.supertype d = some l → l.target? = none →
      Flaw m label n (.missingSupertypeName (SupertypedDef.hierarchy δ) n label)
  | unregistered {n k : String} {d : δ} {l : TypeLink} :
      m.get? n = some d → SupertypedDef.supertype d = some l → l.target? = some k →
      m.get? k = none →
      Flaw m label n (.missingSupertypeDef (SupertypedDef.hierarchy δ) n k label)
  | loop {n : String} :
      TransGen m.Extends n n → (∀ k, ReflTransGen m.Extends n k → ¬ k < n) →
      Flaw m label n (.supertypeCycle (SupertypedDef.hierarchy δ).category n label)

/-- A flaw on the way up from the type `n`. -/
def ChainFlaw (m : NameMap δ) (label : String) (n : String) (d : Defect) : Prop :=
  ∃ k, ReflTransGen m.Extends n k ∧ m.Flaw label k d

theorem extends_iff {c : δ} {l : TypeLink} (hc : m.get? n = some c)
    (hl : SupertypedDef.supertype c = some l) : m.Extends n k ↔ l.target? = some k := by
  constructor
  · rintro ⟨d, l', hd, hl', hk⟩
    rw [hc] at hd
    cases hd
    rw [hl] at hl'
    cases hl'
    exact hk
  · exact fun hk => ⟨c, l, hc, hl, hk⟩

theorem extends_rightUnique (m : NameMap δ) : Relator.RightUnique m.Extends := by
  rintro n k j ⟨c, l, hc, hl, hk⟩ hj
  rw [extends_iff hc hl, hk] at hj
  exact Option.some.inj hj

theorem registered_of_extends (h : m.Extends n k) : ∃ d, m.get? n = some d := by
  obtain ⟨d, _, hd, _⟩ := h
  exact ⟨d, hd⟩

theorem registered_of_transGen (h : TransGen m.Extends n k) : ∃ d, m.get? n = some d := by
  obtain ⟨k, hk, _⟩ := TransGen.head'_iff.mp h
  exact registered_of_extends hk

theorem Flaw.registered (h : m.Flaw label n d) : ∃ d, m.get? n = some d := by
  cases h with
  | unnamed hd _ _ => exact ⟨_, hd⟩
  | unregistered hd _ _ _ => exact ⟨_, hd⟩
  | loop hl _ => exact registered_of_transGen hl

theorem ChainFlaw.registered (h : m.ChainFlaw label n d) : ∃ d, m.get? n = some d := by
  obtain ⟨k, hk, hf⟩ := h
  rcases hk.cases_head with rfl | ⟨j, hj, _⟩
  · exact hf.registered
  · exact registered_of_extends hj

theorem Flaw.chainFlaw (h : m.Flaw label n d) : m.ChainFlaw label n d := ⟨n, .refl, h⟩

end NameMap

namespace Arena

variable {δ ε : Type} [SupertypedDef δ] {t : Arena (ResolvedType δ ε)} {m : NameMap δ}
  {label : String} {n : String} {a b : Nat} {d : Defect}

section Names

variable (ht : t.definitions = ofMap m)

include ht

omit [SupertypedDef δ] in
theorem indexed_of_definitions : t.Indexed := .of_definitions (ht ▸ indexed_ofMap m)

omit [SupertypedDef δ] in
theorem get?_of_definitions (n : String) : (t.get? n).map (·.definition) = m.get? n := by
  rw [← get?_definitions, ht, get?_ofMap]

omit [SupertypedDef δ] in
theorem names_of_definitions : t.names = m.keys := by
  rw [← names_definitions, ht, names_ofMap]

omit [SupertypedDef δ] in
/-- A slot holds the definition of the name it stands under. -/
theorem exists_at? (hn : t.slotOf? n = some a) :
    ∃ r, t.at? a = some r ∧ m.get? n = some r.definition := by
  obtain ⟨r, hr⟩ := at?_of_lt ((indexed_of_definitions ht).bounded hn)
  refine ⟨r, hr, ?_⟩
  rw [← get?_of_definitions ht, get?_of_slotOf? hn, hr]
  rfl

omit [SupertypedDef δ] in
theorem exists_slotOf? {c : δ} (hc : m.get? n = some c) : ∃ a, t.slotOf? n = some a := by
  rw [← get?_of_definitions ht, Option.map_eq_some_iff] at hc
  obtain ⟨r, hr, _⟩ := hc
  obtain ⟨a, ha, _⟩ := get?_eq_some_iff.mp hr
  exact ⟨a, ha⟩

omit [SupertypedDef δ] in
theorem exists_get?_iff : (∃ r, t.get? n = some r) ↔ ∃ c, m.get? n = some c := by
  rw [← get?_of_definitions ht]
  cases t.get? n <;> simp

omit [SupertypedDef δ] in
theorem slotOf?_eq_none_of_definitions : t.slotOf? n = none ↔ m.get? n = none := by
  rw [(indexed_of_definitions ht).slotOf?_eq_none_iff, ← get?_of_definitions ht,
    Option.map_eq_none_iff]

theorem name_at? (hm : m.KeyedBy SupertypedDef.name) (hn : t.slotOf? n = some a)
    {r : ResolvedType δ ε} (hr : t.at? a = some r) : r.name = n := by
  obtain ⟨r', hr', hd⟩ := exists_at? ht hn
  rw [hr] at hr'
  cases hr'
  exact hm n _ hd

theorem ascends_iff (hn : t.slotOf? n = some a) :
    t.Ascends a b ↔ ∃ k, t.slotOf? k = some b ∧ m.Extends n k := by
  obtain ⟨r, hr, hd⟩ := exists_at? ht hn
  constructor
  · rintro ⟨r', k, hr', hk, hb⟩
    rw [hr] at hr'
    cases hr'
    obtain ⟨l, hl, hlk⟩ := Option.bind_eq_some_iff.mp hk
    exact ⟨k, hb, r.definition, l, hd, hl, hlk⟩
  · rintro ⟨k, hb, c, l, hc, hl, hlk⟩
    rw [hd] at hc
    cases hc
    exact ⟨r, k, hr, Option.bind_eq_some_iff.mpr ⟨l, hl, hlk⟩, hb⟩

/-- Ways up from slot to slot are ways up from name to name. -/
theorem reaches_iff (hn : t.slotOf? n = some a) :
    ReflTransGen t.Ascends a b ↔ ∃ k, t.slotOf? k = some b ∧ ReflTransGen m.Extends n k := by
  constructor
  · intro h
    induction h with
    | refl => exact ⟨n, hn, .refl⟩
    | tail _ hbc ih =>
      obtain ⟨k, hk, hnk⟩ := ih
      obtain ⟨j, hj, hkj⟩ := (ascends_iff ht hk).mp hbc
      exact ⟨j, hj, hnk.tail hkj⟩
  · rintro ⟨k, hk, hnk⟩
    induction hnk generalizing b with
    | refl => rw [hn] at hk; cases hk; exact .refl
    | tail _ hjk ih =>
      obtain ⟨c, hc⟩ := NameMap.registered_of_extends hjk
      obtain ⟨e, he⟩ := exists_slotOf? ht hc
      exact (ih he).tail ((ascends_iff ht he).mpr ⟨_, hk, hjk⟩)

theorem properly_reaches_iff (hn : t.slotOf? n = some a) :
    TransGen t.Ascends a b ↔ ∃ k, t.slotOf? k = some b ∧ TransGen m.Extends n k := by
  simp only [TransGen.tail'_iff]
  constructor
  · rintro ⟨c, hac, hcb⟩
    obtain ⟨k, hk, hnk⟩ := (reaches_iff ht hn).mp hac
    obtain ⟨j, hj, hkj⟩ := (ascends_iff ht hk).mp hcb
    exact ⟨j, hj, k, hnk, hkj⟩
  · rintro ⟨j, hj, k, hnk, hkj⟩
    obtain ⟨c, hc⟩ := NameMap.registered_of_extends hkj
    obtain ⟨e, he⟩ := exists_slotOf? ht hc
    exact ⟨e, (reaches_iff ht hn).mpr ⟨k, he, hnk⟩, (ascends_iff ht he).mpr ⟨j, hj, hkj⟩⟩

theorem loop_iff (hn : t.slotOf? n = some a) :
    TransGen t.Ascends a a ↔ TransGen m.Extends n n := by
  rw [properly_reaches_iff ht hn]
  constructor
  · rintro ⟨k, hk, h⟩
    rwa [(indexed_of_definitions ht).injective hk hn] at h
  · exact fun h => ⟨n, hn, h⟩

/-! ## Flaws -/

variable (hm : m.KeyedBy SupertypedDef.name)

include hm

/-- A broken link is a flaw of its holder. -/
theorem flaw_of_superSlot (hn : t.slotOf? n = some a) (h : t.superSlot label a = .error d) :
    m.Flaw label n d := by
  obtain ⟨r, hr, hd⟩ := exists_at? ht hn
  have hname := name_at? ht hm hn hr
  simp only [superSlot, hr] at h
  split at h
  · cases h
  · rename_i l hl
    split at h
    · rename_i hlk
      cases h
      rw [hname]
      exact .unnamed hd hl hlk
    · rename_i k hlk
      split at h
      · rename_i hk
        cases h
        rw [hname]
        exact .unregistered hd hl hlk ((slotOf?_eq_none_of_definitions ht).mp hk)
      · cases h

/-- The least name on a loop has the loop for its flaw. -/
theorem flaw_of_loop (hn : t.slotOf? n = some a) (hloop : TransGen t.Ascends a a) {k : String}
    (hk : t.LeastFrom a k) :
    ReflTransGen m.Extends n k ∧
      m.Flaw label k (.supertypeCycle (SupertypedDef.hierarchy δ).category k label) := by
  have hr := NameMap.extends_rightUnique m
  obtain ⟨⟨c, r, hc, hrc, hrk⟩, hleast⟩ := hk
  obtain ⟨j, hj, hnj⟩ := (reaches_iff ht hn).mp hc
  rw [name_at? ht hm hj hrc] at hrk
  subst hrk
  have hjj := loop_of_reached hr ((loop_iff ht hn).mp hloop) hnj
  refine ⟨hnj, .loop hjj fun i hi hlt => ?_⟩
  obtain ⟨x, hx⟩ := NameMap.registered_of_transGen (loop_of_reached hr hjj hi)
  obtain ⟨e, he⟩ := exists_slotOf? ht hx
  obtain ⟨r', hr', _⟩ := exists_at? ht he
  have hreach := (reaches_iff ht hn).mpr ⟨i, he, hnj.trans hi⟩
  exact hleast e r' hreach hr' (name_at? ht hm he hr' ▸ hlt)

theorem blamed_of_flaw (hn : t.slotOf? n = some a) (h : m.Flaw label n d) :
    t.Blamed label a d := by
  obtain ⟨r, hr, hd⟩ := exists_at? ht hn
  have hname := name_at? ht hm hn hr
  cases h with
  | unnamed hc hl hlk =>
    rw [hd] at hc
    cases hc
    refine .link .refl ?_
    simp only [superSlot, hr, ResolvedType.supertype, hl, hlk, hname]
  | unregistered hc hl hlk hk =>
    rw [hd] at hc
    cases hc
    have hk' := (slotOf?_eq_none_of_definitions ht).mpr hk
    refine .link .refl ?_
    simp only [superSlot, hr, ResolvedType.supertype, hl, hlk, hk', hname]
  | loop hl hleast =>
    refine .loop .refl ((loop_iff ht hn).mpr hl) ⟨⟨a, r, .refl, hr, hname⟩, ?_⟩
    intro c r' hc hr'
    obtain ⟨j, hj, hnj⟩ := (reaches_iff ht hn).mp hc
    rw [name_at? ht hm hj hr']
    exact hleast j hnj

theorem lineage_error_iff_chainFlaw (hn : t.slotOf? n = some a) :
    t.lineage label a = .error d ↔ m.ChainFlaw label n d := by
  rw [lineage_error_iff (indexed_of_definitions ht)]
  constructor
  · intro h
    cases h with
    | link hab he =>
      obtain ⟨k, hk, hnk⟩ := (reaches_iff ht hn).mp hab
      exact ⟨k, hnk, flaw_of_superSlot ht hm hk he⟩
    | loop hab hl hleast =>
      obtain ⟨k, hk, hnk⟩ := (reaches_iff ht hn).mp hab
      obtain ⟨hkj, hf⟩ := flaw_of_loop ht hm hk hl hleast
      exact ⟨_, hnk.trans hkj, hf⟩
  · rintro ⟨k, hnk, hf⟩
    obtain ⟨c, hc⟩ := hf.registered
    obtain ⟨b, hb⟩ := exists_slotOf? ht hc
    have hab := (reaches_iff ht hn).mpr ⟨k, hb, hnk⟩
    cases blamed_of_flaw ht hm hb hf with
    | link h he => exact .link (hab.trans h) he
    | loop h hl hleast => exact .loop (hab.trans h) hl hleast

end Names

end Arena

/-! ## Loops -/

namespace NameMap

variable {δ : Type} [SupertypedDef δ] {m : NameMap δ} {label : String} {n k : String} {d : Defect}

/-- A type on a loop has no broken link. -/
theorem flaw_on_loop (h : TransGen m.Extends n n) (hf : m.Flaw label n d) :
    d = .supertypeCycle (SupertypedDef.hierarchy δ).category n label := by
  obtain ⟨k, hnk, _⟩ := TransGen.head'_iff.mp h
  obtain ⟨b, hb⟩ := registered_of_transGen (loop_of_reached (extends_rightUnique m) h (.single hnk))
  cases hf with
  | unnamed hc hl hn =>
    rw [extends_iff hc hl, hn] at hnk
    cases hnk
  | unregistered hc hl hj hnone =>
    rw [extends_iff hc hl, hj] at hnk
    cases hnk
    rw [hb] at hnone
    cases hnone
  | loop _ _ => rfl

/-- Every loop has a flaw, found by climbing from any of its members. -/
theorem exists_flaw_of_loop (hm : m.KeyedBy SupertypedDef.name) (label : String)
    (h : TransGen m.Extends n n) : ∃ k, ReflTransGen m.Extends n k ∧
      m.Flaw label k (.supertypeCycle (SupertypedDef.hierarchy δ).category k label) := by
  have ht : (unresolved m : Arena (ResolvedType δ NameSet)).definitions = .ofMap m :=
    Arena.definitions_unresolved m
  have hr := extends_rightUnique m
  obtain ⟨c, hc⟩ := registered_of_transGen h
  obtain ⟨a, ha⟩ := Arena.exists_slotOf? ht hc
  cases hl : (unresolved m : Arena (ResolvedType δ NameSet)).lineage label a with
  | ok chain =>
    obtain ⟨r, har, hroot⟩ := (Arena.lineage_ok hl).exists_root
    exact absurd ((Arena.loop_iff ht ha).mpr h) (not_loop_of_end (Arena.ascends_rightUnique _)
      (Arena.not_ascends_of_root hroot) har .refl)
  | error d =>
    obtain ⟨k, hk, hf⟩ := (Arena.lineage_error_iff_chainFlaw ht hm ha).mp hl
    rw [flaw_on_loop (loop_of_reached hr h hk) hf] at hf
    exact ⟨k, hk, hf⟩

/-- A loop has one flaw, at the member that comes first. -/
theorem existsUnique_flaw_of_loop (hm : m.KeyedBy SupertypedDef.name) (label : String)
    (h : TransGen m.Extends n n) : ∃! k, ReflTransGen m.Extends n k ∧
      ∃ j, m.Flaw label j (.supertypeCycle (SupertypedDef.hierarchy δ).category k label) := by
  have hr := extends_rightUnique m
  obtain ⟨k, hk, hf⟩ := exists_flaw_of_loop hm label h
  refine ⟨k, ⟨hk, k, hf⟩, fun i ⟨hi, j, hj⟩ => ?_⟩
  cases hf with
  | loop _ hleast =>
    cases hj with
    | loop _ hleast' =>
      have hki := (loop_returns hr h hk).trans hi
      have hik := (loop_returns hr h hi).trans hk
      exact String.le_antisymm (String.not_lt.mp (hleast' k hik)) (String.not_lt.mp (hleast i hki))

end NameMap

end Metamodel
