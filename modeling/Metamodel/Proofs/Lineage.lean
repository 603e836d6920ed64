import Metamodel.Proofs.Trails

/-!
# Metamodel.Proofs.Lineage

What `Arena.lineage` returns.

* `lineage_ok_iff`, `lineage_error_iff` — the chain from a type to its root, or else the defect on
  the way.
* `Arena.EndAlike` — two climbs of which the second is a part of the first one, or with one defect.
* `climbs_through_one_slot_agree` — every climb has a trail, and climbs from the slots of a trail
  all end alike, over links of any shape.
-/

namespace Metamodel

open Relation

namespace Arena

variable {δ ε : Type} [SupertypedDef δ] {t : Arena (ResolvedType δ ε)} {label : String}
  {a b : Nat}

/-! ## Chain or defect -/

theorem climb_ok {unmet path chain : List Nat} {slot : Nat}
    (h : t.climb label unmet path slot = .ok chain) :
    ∃ rest, t.Climbs slot rest ∧ chain = path ++ rest.tail := by
  fun_induction climb t label unmet path slot with
  | case1 => cases h
  | case2 unmet path slot hs =>
    cases h
    exact ⟨[slot], .root (superSlot_ok_none.mp hs), by simp⟩
  | case3 unmet path slot s hs hmem ih =>
    obtain ⟨rest, hrest, rfl⟩ := ih h
    refine ⟨slot :: rest, .step (superSlot_ok_some.mp hs) hrest, ?_⟩
    cases hrest <;> simp
  | case4 => cases h

theorem lineage_ok {slot : Nat} {chain : List Nat} (h : t.lineage label slot = .ok chain) :
    t.Climbs slot chain := by
  obtain ⟨rest, hrest, rfl⟩ := climb_ok h
  cases hrest with
  | root hr => exact .root hr
  | step hab hb => exact .step hab hb

theorem lineage_error {slot : Nat} {d : Defect} (ht : t.Indexed)
    (h : t.lineage label slot = .error d) : t.Blamed label slot d := by
  by_cases hslot : slot < t.size
  · obtain ⟨trail, htrail⟩ := exists_trail label ht hslot
    exact (h ▸ htrail.ends).blamed htrail.links htrail.start
  · -- there is no type in the slot to fail
    have hroot : t.IsRoot slot := fun r hr => absurd (lt_of_at? hr) hslot
    rw [lineage, climb, superSlot_ok_none.mpr hroot] at h
    cases h

theorem lineage_ok_iff (ht : t.Indexed) {slot : Nat} {chain : List Nat} :
    t.lineage label slot = .ok chain ↔ t.Climbs slot chain := by
  refine ⟨lineage_ok, fun h => ?_⟩
  cases hl : t.lineage label slot with
  | ok chain' => rw [h.unique (lineage_ok hl)]
  | error d => exact absurd (lineage_error ht hl) h.not_blamed

theorem lineage_error_iff (ht : t.Indexed) {slot : Nat} {d : Defect} :
    t.lineage label slot = .error d ↔ t.Blamed label slot d := by
  refine ⟨lineage_error ht, fun h => ?_⟩
  cases hl : t.lineage label slot with
  | ok chain => exact absurd h (lineage_ok hl).not_blamed
  | error d' => rw [h.unique (lineage_error ht hl)]

/-! ## Climbs from one another's slots -/

/-- Two climbs of which the second is a part of the first one, or with one defect. -/
inductive EndAlike : Except Defect (List Nat) → Except Defect (List Nat) → Prop where
  | ok {chain chain' : List Nat} : chain' <:+ chain → EndAlike (.ok chain) (.ok chain')
  | error {d : Defect} : EndAlike (.error d) (.error d)

theorem EndAlike.eq_error {d : Defect} {x : Except Defect (List Nat)}
    (h : EndAlike (.error d) x) : x = .error d := by
  cases h
  rfl

theorem Climbs.of_reaches {chain : List Nat} (h : t.Climbs b chain)
    (hab : ReflTransGen t.Ascends a b) : ∃ whole, t.Climbs a whole ∧ chain <:+ whole := by
  induction hab using ReflTransGen.head_induction_on with
  | refl => exact ⟨chain, h, List.suffix_refl _⟩
  | head hac _ ih =>
    obtain ⟨whole, hwhole, hsuffix⟩ := ih
    exact ⟨_, .step hac hwhole, hsuffix.trans (List.suffix_cons _ _)⟩

theorem Blamed.of_reaches {d : Defect} (h : t.Blamed label b d)
    (hab : ReflTransGen t.Ascends a b) : t.Blamed label a d := by
  induction hab using ReflTransGen.head_induction_on with
  | refl => exact h
  | head hac _ ih => exact ih.head hac

theorem lineage_endAlike (ht : t.Indexed) (hab : ReflTransGen t.Ascends a b) :
    EndAlike (t.lineage label a) (t.lineage label b) := by
  cases hb : t.lineage label b with
  | ok chain =>
    obtain ⟨whole, hwhole, hsuffix⟩ := (lineage_ok hb).of_reaches hab
    rw [(lineage_ok_iff ht).mpr hwhole]
    exact .ok hsuffix
  | error d =>
    rw [(lineage_error_iff ht).mpr ((lineage_error ht hb).of_reaches hab)]
    exact .error

/-! ## Frame -/

section Frame

variable {t' : Arena (ResolvedType δ ε)}

omit [SupertypedDef δ] in
theorem slotOf?_congr (h : t'.definitions = t.definitions) (n : String) :
    t'.slotOf? n = t.slotOf? n :=
  congrArg (·.slotOf? n) h

omit [SupertypedDef δ] in
theorem at?_congr (h : t'.definitions = t.definitions) (s : Nat) :
    (t'.at? s = none ∧ t.at? s = none) ∨
      ∃ d' d, t'.at? s = some d' ∧ t.at? s = some d ∧ d'.definition = d.definition := by
  have hs : t'.definitions.at? s = t.definitions.at? s := by rw [h]
  simp only [at?_definitions] at hs
  cases hd' : t'.at? s <;> cases hd : t.at? s <;> simp_all

theorem superSlot_congr (h : t'.definitions = t.definitions) (s : Nat) :
    t'.superSlot label s = t.superSlot label s := by
  rcases at?_congr h s with ⟨hd', hd⟩ | ⟨d', d, hd', hd, he⟩
  · simp only [superSlot, hd', hd]
  · simp only [superSlot, hd', hd, ResolvedType.supertype, ResolvedType.name, he, slotOf?_congr h]

theorem namesAt_congr (h : t'.definitions = t.definitions) (slots : List Nat) :
    t'.namesAt slots = t.namesAt slots := by
  refine List.filterMap_congr fun s _ => ?_
  rcases at?_congr h s with ⟨hd', hd⟩ | ⟨d', d, hd', hd, he⟩
  · rw [hd', hd]
  · simp only [hd', hd, Option.map_some, ResolvedType.name, he]

theorem climb_congr (h : t'.definitions = t.definitions) (unmet path : List Nat) (slot : Nat) :
    t'.climb label unmet path slot = t.climb label unmet path slot := by
  fun_induction climb t label unmet path slot with
  | case1 unmet path slot d hs => rw [climb, superSlot_congr h, hs]
  | case2 unmet path slot hs => rw [climb, superSlot_congr h, hs]
  | case3 unmet path slot s hs hmem ih =>
    rw [climb, superSlot_congr h, hs]
    simp only [hmem, dite_true, ih]
  | case4 unmet path slot s hs hnot =>
    rw [climb, superSlot_congr h, hs]
    simp only [hnot, dite_false, loopDefect, namesAt_congr h]

/-- Climbs see nothing but the definitions. -/
theorem lineage_congr (h : t'.definitions = t.definitions) (slot : Nat) :
    t'.lineage label slot = t.lineage label slot := by
  have hsize : t'.size = t.size := by simpa using congrArg Arena.size h
  rw [lineage, lineage, hsize, climb_congr h]

end Frame

end Arena

/-- A climb from any slot goes through each slot once at most and comes to a root or to a defect,
over links of any shape. Climbs from the slots it goes through come to the same root along a part of
its chain, or to the same defect. -/
theorem climbs_through_one_slot_agree {δ ε : Type} [SupertypedDef δ]
    (es : List (String × ResolvedType δ ε)) (label : String) (a : Nat)
    (ha : a < (Arena.ofEntries es).size) :
    ∃ trail, (Arena.ofEntries es).Trail label a trail ((Arena.ofEntries es).lineage label a) ∧
      ∀ b ∈ trail, Arena.EndAlike ((Arena.ofEntries es).lineage label a)
        ((Arena.ofEntries es).lineage label b) := by
  have ht := Arena.indexed_ofEntries es
  obtain ⟨trail, htrail⟩ := Arena.exists_trail label ht ha
  exact ⟨trail, htrail, fun b hb => Arena.lineage_endAlike ht ((htrail.slots b).mp hb)⟩

/-- An entity type that stands under its own name. -/
def entry (name : String) (supertype : Option TypeLink) : String × ResolvedEntity :=
  (name, .ofDefinition { name, guid := "", supertype })

/-- A loop of two and a type that leads into it, with a type on a chain of its own between them. -/
def tangled : List (String × ResolvedEntity) :=
  [entry "c" (some (.named "b")), entry "d" none, entry "b" (some (.named "a")),
    entry "a" (some (.named "b"))]

/-- Two classifications that are each other's supertype. -/
def twined : List (String × ResolvedClassification) :=
  [("low", .ofDefinition { name := "low", guid := "", supertype := some (.named "high") }),
    ("high", .ofDefinition { name := "high", guid := "", supertype := some (.named "low") })]

/-- The climb from the type that leads into the loop ends like the one from a type on the loop, and
climbs from two types on a loop end alike. -/
theorem climbs_through_one_slot_agree_tangled :
    (0 < (Arena.ofEntries tangled).size ∧
      (Arena.ofEntries tangled).lineage "repo" 0 = .error (.supertypeCycle .entity "a" "repo") ∧
      (Arena.ofEntries tangled).lineage "repo" 3
        = .error (.supertypeCycle .entity "a" "repo")) ∧
    0 < (Arena.ofEntries twined).size ∧
      (Arena.ofEntries twined).lineage "repo" 0
        = .error (.supertypeCycle .classification "high" "repo") ∧
      (Arena.ofEntries twined).lineage "repo" 1
        = .error (.supertypeCycle .classification "high" "repo") := by
  constructor
  · have hsize : 0 < (Arena.ofEntries tangled).size := by decide
    obtain ⟨trail, htrail, halike⟩ := climbs_through_one_slot_agree tangled "repo" 0 hsize
    have hup : (Arena.ofEntries tangled).Ascends 0 2 := ⟨_, "b", rfl, rfl, rfl⟩
    have hloop : (Arena.ofEntries tangled).Ascends 2 3 := ⟨_, "a", rfl, rfl, rfl⟩
    have hboth := halike 3 ((htrail.slots 3).mpr (.tail (.single hup) hloop))
    have hrun : (Arena.ofEntries tangled).lineage "repo" 0
        = .error (.supertypeCycle .entity "a" "repo") := by decide +kernel
    exact ⟨hsize, hrun, (hrun ▸ hboth).eq_error⟩
  · have hsize : 0 < (Arena.ofEntries twined).size := by decide
    obtain ⟨trail, htrail, halike⟩ := climbs_through_one_slot_agree twined "repo" 0 hsize
    have hup : (Arena.ofEntries twined).Ascends 0 1 := ⟨_, "high", rfl, rfl, rfl⟩
    have hboth := halike 1 ((htrail.slots 1).mpr (.single hup))
    have hrun : (Arena.ofEntries twined).lineage "repo" 0
        = .error (.supertypeCycle .classification "high" "repo") := by decide +kernel
    exact ⟨hsize, hrun, (hrun ▸ hboth).eq_error⟩

end Metamodel
