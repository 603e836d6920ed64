import Metamodel.Proofs.Sweep

/-!
# Metamodel.Proofs.Members

The name sets of resolved types, while loops add to them.

* `Arena.Holds` — a name is in a set of the value in a slot.
* `holds_update`, `holds_updateAll` — what a change of some values adds to a set.
* `holds_congr` — a set that a change leaves alone.
* `Arena.Lists` — a type has the name of another one in its subtype set.
* `foldl_iff` — a loop adds what its steps add.
-/

namespace Metamodel

/-- By induction on the items; `P` is an invariant of the loop. -/
theorem foldl_iff {σ ι : Type} {step : σ → ι → σ} {P : σ → Prop} {Q : ι → Prop}
    (view : σ → Prop) (is : List ι) (hP : ∀ s, ∀ i ∈ is, P s → P (step s i))
    (hview : ∀ s, ∀ i ∈ is, P s → (view (step s i) ↔ view s ∨ Q i)) :
    ∀ s, P s → (view (is.foldl step s) ↔ view s ∨ ∃ i ∈ is, Q i) := by
  induction is with
  | nil => intro s _; simp
  | cons i is ih =>
    intro s hs
    have hrest := ih (fun s j hj => hP s j (List.mem_cons_of_mem i hj))
      (fun s j hj => hview s j (List.mem_cons_of_mem i hj))
    have hi : i ∈ i :: is := List.mem_cons_self
    rw [List.foldl_cons, hrest _ (hP s i hi hs), hview s i hi hs, or_assoc]
    simp only [List.mem_cons, exists_eq_or_imp]

namespace Arena

variable {α : Type} {t : Arena α} {f : α → NameSet} {g : α → α} {j s : Nat} {x : String} {p : Prop}

/-- The name `x` is in the set `f` of the value in slot `s`. -/
def Holds (t : Arena α) (f : α → NameSet) (s : Nat) (x : String) : Prop :=
  ∃ a, t.at? s = some a ∧ x ∈ f a

theorem holds_of_get? {n : String} {a : α} (hn : t.slotOf? n = some s) (ha : t.get? n = some a) :
    t.Holds f s x ↔ x ∈ f a := by
  rw [get?_of_slotOf? hn] at ha
  simp [Holds, ha]

theorem holds_update (hg : ∀ a, x ∈ f (g a) ↔ x ∈ f a ∨ p) :
    (t.update j g).Holds f s x ↔ t.Holds f s x ∨ (s = j ∧ s < t.size) ∧ p := by
  simp only [Holds, at?_update]
  by_cases hj : j = s
  · subst hj
    cases ha : t.at? j with
    | none =>
      have hout : ¬ j < t.size := by
        intro hlt
        obtain ⟨a, h⟩ := at?_of_lt hlt
        rw [ha] at h
        cases h
      simp [hout]
    | some a => simp [hg, lt_of_at? ha]
  · simp [hj, Ne.symm hj]

theorem holds_updateAll (hg : ∀ a, x ∈ f (g a) ↔ x ∈ f a ∨ p) (slots : List Nat) :
    (t.updateAll slots g).Holds f s x ↔ t.Holds f s x ∨ (s ∈ slots ∧ s < t.size) ∧ p := by
  induction slots generalizing t with
  | nil => simp [updateAll]
  | cons i slots ih =>
    have hstep : t.updateAll (i :: slots) g = (t.update i g).updateAll slots g := rfl
    rw [hstep, ih, holds_update hg, size_update, or_assoc, ← or_and_right, ← or_and_right,
      List.mem_cons]

/-- The type in slot `a` lists the one in slot `b` among its subtypes. -/
def Lists {δ ε : Type} (t : Arena (ResolvedType δ ε)) (a b : Nat) : Prop :=
  ∃ n, t.Holds ResolvedType.subtypes a n ∧ t.slotOf? n = some b

theorem below_iff_lists {δ ε : Type} {t : Arena (ResolvedType δ ε)} {a b : Nat} :
    t.Below a b ↔ t.Lists a b := by
  simp only [Below, Lists, subtypeSlots, Holds]
  cases t.at? a <;> simp

/-! ## Additions -/

section Additions

variable {δ ε : Type} {x name : String}

theorem mem_addSubtype (d : ResolvedType δ ε) (direct : Bool) :
    x ∈ (d.addSubtype name direct).subtypes ↔ x ∈ d.subtypes ∨ x = name := by
  rw [ResolvedType.addSubtype, NameSet.mem_insert, or_comm]

theorem mem_addSubtype_direct (d : ResolvedType δ ε) :
    x ∈ (d.addSubtype name true).directSubtypes ↔ x ∈ d.directSubtypes ∨ x = name := by
  rw [ResolvedType.addSubtype, if_pos rfl, NameSet.mem_insert, or_comm]

theorem mem_addRelationship (d : ResolvedEntity) :
    x ∈ (d.addRelationship name).applicability.relationships ↔
      x ∈ d.applicability.relationships ∨ x = name := by
  rw [ResolvedEntity.addRelationship, NameSet.mem_insert, or_comm]

theorem mem_addDirectRelationship (d : ResolvedEntity) :
    x ∈ (d.addDirectRelationship name).applicability.directRelationships ↔
      x ∈ d.applicability.directRelationships ∨ x = name := by
  rw [ResolvedEntity.addDirectRelationship, NameSet.mem_insert, or_comm]

theorem mem_addClassification (d : ResolvedEntity) :
    x ∈ (d.addClassification name).applicability.classifications ↔
      x ∈ d.applicability.classifications ∨ x = name := by
  rw [ResolvedEntity.addClassification, NameSet.mem_insert, or_comm]

theorem mem_addDirectClassification (d : ResolvedEntity) :
    x ∈ (d.addDirectClassification name).applicability.directClassifications ↔
      x ∈ d.applicability.directClassifications ∨ x = name := by
  rw [ResolvedEntity.addDirectClassification, NameSet.mem_insert, or_comm]

theorem mem_addValidEntities {names : List String} (d : ResolvedClassification) :
    x ∈ (d.addValidEntities names).validEntities ↔ x ∈ d.validEntities ∨ x ∈ names := by
  rw [ResolvedClassification.addValidEntities, ResolvedClassification.validEntities,
    NameSet.mem_insertAll, or_comm]
  rfl

end Additions

/-! ## Frame -/

/-- The set is the same in all slots if it is so in the arena. -/
theorem holds_congr {t' : Arena α} (h : t'.map f = t.map f) : t'.Holds f = t.Holds f := by
  funext s x
  have hs : (t'.map f).at? s = (t.map f).at? s := by rw [h]
  simp only [at?_map] at hs
  cases ht' : t'.at? s <;> cases ht : t.at? s <;> simp_all [Holds]

end Arena

end Metamodel
