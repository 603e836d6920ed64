/-!
# Metamodel.NameSet

Finite sets of type names.

A set is the strictly ascending list of its members, so two sets with the same members are the
same value (`NameSet.ext_mem`) and listing a set is listing its names in order. Names are compared
code point by code point.
-/

namespace Metamodel

/-- Insertion of a name into an ascending list; a name already there is kept once. -/
def insertName (x : String) : List String → List String
  | [] => [x]
  | y :: ys =>
    if x < y then x :: y :: ys
    else if x = y then y :: ys
    else y :: insertName x ys

theorem mem_insertName {x z : String} {ys : List String} :
    z ∈ insertName x ys ↔ z = x ∨ z ∈ ys := by
  induction ys with
  | nil => simp [insertName]
  | cons y ys ih =>
    simp only [insertName]
    split
    · simp
    · split
      · simp_all
      · simp [ih, or_left_comm]

/-- Names are linearly ordered: of two different names one comes first. -/
theorem name_lt_of_not_lt {x y : String} (h : ¬ x < y) (hne : x ≠ y) : y < x := by
  rcases String.le_total x y with h' | h'
  · exact absurd (String.le_antisymm h' (String.not_lt.mp h)) hne
  · exact Classical.byContradiction fun hn =>
      hne (String.le_antisymm (String.not_lt.mp hn) h')

theorem pairwise_insertName {x : String} {ys : List String} (h : ys.Pairwise (· < ·)) :
    (insertName x ys).Pairwise (· < ·) := by
  induction ys with
  | nil => simp [insertName]
  | cons y ys ih =>
    have hy := List.pairwise_cons.mp h
    simp only [insertName]
    split
    · rename_i hlt
      refine List.pairwise_cons.mpr ⟨fun z hz => ?_, h⟩
      rcases List.mem_cons.mp hz with rfl | hz
      · exact hlt
      · exact String.lt_trans hlt (hy.1 z hz)
    · split
      · exact h
      · rename_i hlt hne
        refine List.pairwise_cons.mpr ⟨fun z hz => ?_, ih hy.2⟩
        rcases mem_insertName.mp hz with rfl | hz
        · exact name_lt_of_not_lt hlt hne
        · exact hy.1 z hz

/-- Finite set of names, held as its members in ascending order. -/
structure NameSet where
  toList : List String
  ascending : toList.Pairwise (· < ·)
deriving DecidableEq

namespace NameSet

def empty : NameSet := ⟨[], .nil⟩

instance : EmptyCollection NameSet := ⟨empty⟩
instance : Inhabited NameSet := ⟨empty⟩
instance : Membership String NameSet := ⟨fun s x => x ∈ s.toList⟩

instance (x : String) (s : NameSet) : Decidable (x ∈ s) :=
  inferInstanceAs (Decidable (x ∈ s.toList))

def insert (s : NameSet) (x : String) : NameSet :=
  ⟨insertName x s.toList, pairwise_insertName s.ascending⟩

def insertAll (s : NameSet) (xs : List String) : NameSet := xs.foldl insert s

def ofList (xs : List String) : NameSet := insertAll ∅ xs

def size (s : NameSet) : Nat := s.toList.length

def isEmpty (s : NameSet) : Bool := s.toList.isEmpty

@[simp] theorem mem_toList {s : NameSet} {x : String} : x ∈ s.toList ↔ x ∈ s := Iff.rfl

@[simp] theorem not_mem_empty {x : String} : ¬ x ∈ (∅ : NameSet) := List.not_mem_nil

@[simp] theorem mem_insert {s : NameSet} {x y : String} : y ∈ s.insert x ↔ y = x ∨ y ∈ s :=
  mem_insertName

@[simp] theorem mem_insertAll {s : NameSet} {xs : List String} {y : String} :
    y ∈ s.insertAll xs ↔ y ∈ xs ∨ y ∈ s := by
  induction xs generalizing s with
  | nil => simp [insertAll]
  | cons x xs ih =>
    have : s.insertAll (x :: xs) = (s.insert x).insertAll xs := rfl
    rw [this, ih, mem_insert, List.mem_cons]
    constructor
    · rintro (h | h | h) <;> simp [h]
    · rintro ((h | h) | h) <;> simp [h]

@[simp] theorem mem_ofList {xs : List String} {y : String} : y ∈ ofList xs ↔ y ∈ xs := by
  simp [ofList]

/-- A set is determined by its members. -/
theorem ext_mem {s t : NameSet} (h : ∀ x, x ∈ s ↔ x ∈ t) : s = t := by
  have hl : s.toList = t.toList :=
    List.Perm.eq_of_pairwise (fun a b _ _ hab hba => absurd hba (String.lt_asymm hab))
      s.ascending t.ascending
      ((List.perm_ext_iff_of_nodup
        (s.ascending.imp fun hab => fun he => String.lt_irrefl _ (he ▸ hab))
        (t.ascending.imp fun hab => fun he => String.lt_irrefl _ (he ▸ hab))).mpr h)
  cases s
  cases t
  cases hl
  rfl

end NameSet

end Metamodel
