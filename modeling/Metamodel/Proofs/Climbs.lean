import Mathlib.Data.List.Chain
import Mathlib.Logic.Relation
import Metamodel.Proofs.Arena

/-!
# Metamodel.Proofs.Climbs

What supertype links lead to, over any arena of resolved types.

* `Arena.Ascends`  — one supertype link, from slot to slot. It is a partial function, so a climb can
  end in one way only: at a root, at a broken link, or on a loop.
* `Arena.Climbs`   — the chain from a type to its root.
* `Arena.Blamed`   — the defect a climb runs into, said without reference to the climb.
-/

namespace Metamodel

open Relation

/-! ## Partial functions as relations -/

section Functional

variable {α : Type} {r : α → α → Prop} {a b c : α}

theorem eq_of_reaches_end (hend : ∀ c, ¬ r b c) (h : ReflTransGen r b c) : b = c := by
  rcases h.cases_head with h | ⟨d, hd, _⟩
  · exact h
  · exact absurd hd (hend d)

/-- Whatever is met on the way to an end leads to that end. -/
theorem reaches_end (hr : Relator.RightUnique r) (hend : ∀ c, ¬ r b c) (hb : ReflTransGen r a b)
    (hc : ReflTransGen r a c) : ReflTransGen r c b := by
  rcases hb.total_of_right_unique hr hc with h | h
  · rw [eq_of_reaches_end hend h]
  · exact h

/-- There is no way out of a loop, by induction on the way taken. -/
theorem loop_returns (hr : Relator.RightUnique r) (hloop : TransGen r b b)
    (hc : ReflTransGen r b c) : ReflTransGen r c b := by
  induction hc with
  | refl => exact .refl
  | tail _ hcd ih =>
    rcases ih.cases_head with rfl | ⟨e, hce, heb⟩
    · obtain ⟨e, hbe, heb⟩ := TransGen.head'_iff.mp hloop
      rw [hr hcd hbe]
      exact heb
    · rw [hr hcd hce]
      exact heb

theorem loop_of_reached (hr : Relator.RightUnique r) (hloop : TransGen r b b)
    (hc : ReflTransGen r b c) : TransGen r c c :=
  (hloop.trans_left hc).trans_right (loop_returns hr hloop hc)

theorem not_loop_of_end (hr : Relator.RightUnique r) (hend : ∀ c, ¬ r b c)
    (hb : ReflTransGen r a b) (hc : ReflTransGen r a c) : ¬ TransGen r c c := by
  intro hloop
  obtain ⟨d, hbd, _⟩ := TransGen.head'_iff.mp
    (loop_of_reached hr hloop (reaches_end hr hend hb hc))
  exact hend d hbd

theorem reaches_of_isChain {as : List α} (h : (a :: as).IsChain r) (hc : c ∈ a :: as) :
    ReflTransGen r a c := by
  induction as generalizing a with
  | nil => rw [List.mem_singleton.mp hc]
  | cons b bs ih =>
    rw [List.isChain_cons_cons] at h
    rcases List.mem_cons.mp hc with rfl | hc
    · exact .refl
    · exact .head h.1 (ih h.2 hc)

/-- Of a path, only the last member can lead out. -/
theorem mem_or_getLast_of_isChain (hr : Relator.RightUnique r) {as : List α} (h : as.IsChain r)
    (hc : c ∈ as) (hcb : r c b) : b ∈ as ∨ as.getLast? = some c := by
  induction as with
  | nil => cases hc
  | cons a as ih =>
    cases as with
    | nil =>
      rw [List.mem_singleton] at hc
      exact .inr (by simp [hc])
    | cons d ds =>
      rw [List.isChain_cons_cons] at h
      rcases List.mem_cons.mp hc with rfl | hc
      · rw [hr hcb h.1]
        exact .inl (by simp)
      · rcases ih h.2 hc with hb | hlast
        · exact .inl (List.mem_cons_of_mem _ hb)
        · exact .inr (by rwa [List.getLast?_cons_cons])

end Functional

/-! ## Least names -/

theorem leastName?_eq_some {names : List String} {n : String}
    (h : Arena.leastName? names = some n) : n ∈ names ∧ ∀ k ∈ names, ¬ k < n := by
  simp only [Arena.leastName?] at h
  have hasc := (NameSet.ofList names).ascending
  have hmem : ∀ k, k ∈ (NameSet.ofList names).toList ↔ k ∈ names := fun k => by simp
  cases hl : (NameSet.ofList names).toList with
  | nil => rw [hl] at h; cases h
  | cons m ms =>
    rw [hl] at h hasc hmem
    cases h
    refine ⟨(hmem n).mp (by simp), fun k hk hlt => ?_⟩
    rcases List.mem_cons.mp ((hmem k).mpr hk) with rfl | hk
    · exact String.lt_irrefl _ hlt
    · exact String.lt_asymm hlt ((List.pairwise_cons.mp hasc).1 k hk)

theorem exists_leastName? {names : List String} {k : String} (h : k ∈ names) :
    ∃ n, Arena.leastName? names = some n := by
  have hk : k ∈ (NameSet.ofList names).toList := by simpa using h
  cases hl : (NameSet.ofList names).toList with
  | nil => rw [hl] at hk; cases hk
  | cons n ns => exact ⟨n, by simp [Arena.leastName?, hl]⟩

namespace Arena

variable {δ ε : Type} [SupertypedDef δ] {t : Arena (ResolvedType δ ε)} {label : String}
  {a b s : Nat}

/-! ## One link -/

/-- The supertype link of the type in slot `a` names the type in slot `b`. -/
def Ascends (t : Arena (ResolvedType δ ε)) (a b : Nat) : Prop :=
  ∃ d n, t.at? a = some d ∧ d.supertypeName? = some n ∧ t.slotOf? n = some b

/-- The type in a slot has no supertype link. -/
def IsRoot (t : Arena (ResolvedType δ ε)) (a : Nat) : Prop :=
  ∀ d, t.at? a = some d → d.supertype = none

theorem ascends_rightUnique (t : Arena (ResolvedType δ ε)) : Relator.RightUnique t.Ascends := by
  rintro a b c ⟨d, n, hd, hn, hb⟩ ⟨d', n', hd', hn', hc⟩
  rw [hd] at hd'
  cases hd'
  rw [hn] at hn'
  cases hn'
  rw [hb] at hc
  exact Option.some.inj hc

theorem superSlot_ok_none : t.superSlot label a = .ok none ↔ t.IsRoot a := by
  simp only [superSlot, IsRoot]
  split
  · rename_i h; simp [h]
  · rename_i d h
    split
    · rename_i hs; simp [h, hs]
    · rename_i link hs
      split
      · simp [h, hs]
      · split <;> simp [h, hs]

theorem superSlot_ok_some : t.superSlot label a = .ok (some b) ↔ t.Ascends a b := by
  simp only [superSlot, Ascends, ResolvedType.supertypeName?]
  split
  · rename_i h; simp [h]
  · rename_i d h
    split
    · rename_i hs; simp [h, hs]
    · rename_i link hs
      split
      · rename_i hl; simp [h, hs, hl]
      · rename_i target hl
        split
        · rename_i hn; simp [h, hs, hl, hn]
        · rename_i s hn; simp [h, hs, hl, hn]

theorem not_ascends_of_root (h : t.IsRoot a) (b : Nat) : ¬ t.Ascends a b := by
  rintro ⟨d, n, hd, hn, _⟩
  rw [ResolvedType.supertypeName?, h d hd] at hn
  cases hn

theorem not_ascends_of_error {d : Defect} (h : t.superSlot label a = .error d) (b : Nat) :
    ¬ t.Ascends a b := by
  intro hb
  rw [superSlot_ok_some.mpr hb] at h
  cases h

/-! ## Whole climbs -/

/-- The slots from a type up to one without a supertype link. -/
inductive Climbs (t : Arena (ResolvedType δ ε)) : Nat → List Nat → Prop where
  | root {a : Nat} : t.IsRoot a → Climbs t a [a]
  | step {a b : Nat} {chain : List Nat} :
      t.Ascends a b → Climbs t b chain → Climbs t a (a :: chain)

/-- `n` is the least name among the types that can be reached from slot `b`. -/
def LeastFrom (t : Arena (ResolvedType δ ε)) (b : Nat) (n : String) : Prop :=
  (∃ c d, ReflTransGen t.Ascends b c ∧ t.at? c = some d ∧ d.name = n) ∧
    ∀ c d, ReflTransGen t.Ascends b c → t.at? c = some d → ¬ d.name < n

/-- The defect that a climb from slot `a` runs into: a broken link on the way, or a loop. -/
inductive Blamed (t : Arena (ResolvedType δ ε)) (label : String) (a : Nat) : Defect → Prop where
  | link {b : Nat} {d : Defect} :
      ReflTransGen t.Ascends a b → t.superSlot label b = .error d → Blamed t label a d
  | loop {b : Nat} {n : String} :
      ReflTransGen t.Ascends a b → TransGen t.Ascends b b → t.LeastFrom b n →
      Blamed t label a (.supertypeCycle (SupertypedDef.hierarchy δ).category n label)

theorem Blamed.head {d : Defect} (h : t.Ascends a b) (hb : t.Blamed label b d) :
    t.Blamed label a d := by
  cases hb with
  | link hc he => exact .link (.head h hc) he
  | loop hc hl hn => exact .loop (.head h hc) hl hn

/-- The least name on a loop does not depend on where the loop is entered. -/
theorem LeastFrom.unique {n m : String} (hn : t.LeastFrom a n) (hm : t.LeastFrom b m)
    (hab : ReflTransGen t.Ascends a b) (hba : ReflTransGen t.Ascends b a) : n = m := by
  obtain ⟨⟨c, d, hc, hd, rfl⟩, hleast⟩ := hn
  obtain ⟨⟨c', d', hc', hd', rfl⟩, hleast'⟩ := hm
  refine String.le_antisymm ?_ ?_
  · exact String.not_lt.mp (hleast c' d' (hab.trans hc') hd')
  · exact String.not_lt.mp (hleast' c d (hba.trans hc) hd)

theorem Blamed.unique {d d' : Defect} (h : t.Blamed label a d) (h' : t.Blamed label a d') :
    d = d' := by
  have hr := ascends_rightUnique t
  cases h with
  | link hb he =>
    have hend := not_ascends_of_error he
    cases h' with
    | link hb' he' =>
      rw [eq_of_reaches_end (not_ascends_of_error he') (reaches_end hr hend hb hb')] at he'
      rw [he] at he'
      cases he'
      rfl
    | loop hb' hl' _ => exact absurd hl' (not_loop_of_end hr hend hb hb')
  | loop hb hl hn =>
    cases h' with
    | link hb' he' => exact absurd hl (not_loop_of_end hr (not_ascends_of_error he') hb' hb)
    | loop hb' hl' hn' =>
      rcases hb.total_of_right_unique hr hb' with h | h
      · rw [hn.unique hn' h (loop_returns hr hl h)]
      · rw [hn.unique hn' (loop_returns hr hl' h) h]

theorem Climbs.exists_root {chain : List Nat} (h : t.Climbs a chain) :
    ∃ r, ReflTransGen t.Ascends a r ∧ t.IsRoot r := by
  induction h with
  | root hr => exact ⟨_, .refl, hr⟩
  | step hab _ ih =>
    obtain ⟨r, har, hr⟩ := ih
    exact ⟨r, .head hab har, hr⟩

theorem Climbs.mem_iff {chain : List Nat} (h : t.Climbs a chain) :
    b ∈ chain ↔ ReflTransGen t.Ascends a b := by
  induction h with
  | root hr =>
    rw [List.mem_singleton]
    exact ⟨fun h => h ▸ .refl, fun h => (eq_of_reaches_end (not_ascends_of_root hr) h).symm⟩
  | @step a c chain hac _ ih =>
    rw [List.mem_cons, ih, ReflTransGen.cases_head_iff (a := a)]
    constructor
    · rintro (rfl | h)
      · exact .inl rfl
      · exact .inr ⟨c, hac, h⟩
    · rintro (rfl | ⟨d, had, h⟩)
      · exact .inl rfl
      · rw [ascends_rightUnique t had hac] at h
        exact .inr h

theorem Climbs.mem_tail_iff {chain : List Nat} (h : t.Climbs a chain) :
    b ∈ chain.tail ↔ TransGen t.Ascends a b := by
  rw [TransGen.head'_iff]
  cases h with
  | root hr =>
    simp only [List.tail_cons, List.not_mem_nil, false_iff]
    rintro ⟨c, hc, _⟩
    exact not_ascends_of_root hr c hc
  | step hab hb =>
    rw [List.tail_cons, hb.mem_iff]
    constructor
    · exact fun h => ⟨_, hab, h⟩
    · rintro ⟨c, hc, h⟩
      rw [ascends_rightUnique t hc hab] at h
      exact h

theorem Climbs.head?_tail_iff {chain : List Nat} (h : t.Climbs a chain) :
    chain.tail.head? = some b ↔ t.Ascends a b := by
  cases h with
  | root hr =>
    simp only [List.tail_cons, List.head?_nil, reduceCtorEq, false_iff]
    exact not_ascends_of_root hr b
  | @step _ c chain hac hc =>
    have hhead : (a :: chain).tail.head? = some c := by cases hc <;> rfl
    rw [hhead, Option.some.injEq]
    exact ⟨fun h => h ▸ hac, fun hab => ascends_rightUnique t hac hab⟩

theorem Climbs.unique {chain chain' : List Nat} (h : t.Climbs a chain) (h' : t.Climbs a chain') :
    chain = chain' := by
  induction h generalizing chain' with
  | root hr =>
    cases h' with
    | root _ => rfl
    | step hab _ => exact absurd hab (not_ascends_of_root hr _)
  | step hab _ ih =>
    cases h' with
    | root hr => exact absurd hab (not_ascends_of_root hr _)
    | step hac h' =>
      rw [ascends_rightUnique t hab hac] at ih
      rw [ih h']

/-- A climb that ends at a root runs into nothing. -/
theorem Climbs.not_blamed {chain : List Nat} {d : Defect} (h : t.Climbs a chain) :
    ¬ t.Blamed label a d := by
  obtain ⟨r, har, hr⟩ := h.exists_root
  have hend := not_ascends_of_root hr
  intro hd
  cases hd with
  | link hb he =>
    rw [eq_of_reaches_end (not_ascends_of_error he)
      (reaches_end (ascends_rightUnique t) hend har hb)] at he
    rw [superSlot_ok_none.mpr hr] at he
    cases he
  | loop hb hl _ => exact not_loop_of_end (ascends_rightUnique t) hend har hb hl

end Arena

end Metamodel
