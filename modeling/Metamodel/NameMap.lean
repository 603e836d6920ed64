import Metamodel.NameSet

/-!
# Metamodel.NameMap

Finite maps keyed by name.

A map is the list of its entries in strictly ascending key order, so maps with the same lookups
are the same value (`NameMap.ext_get?`) and listing a map is listing it in name order.
-/

namespace Metamodel

/-- Entries in strictly ascending key order. -/
def AscendingKeys {α : Type} (es : List (String × α)) : Prop := es.Pairwise (·.1 < ·.1)

/-- Put an entry into an ascending list; an entry of the same key is replaced. -/
def putEntry {α : Type} (k : String) (a : α) : List (String × α) → List (String × α)
  | [] => [(k, a)]
  | e :: es =>
    if k < e.1 then (k, a) :: e :: es
    else if k = e.1 then (k, a) :: es
    else e :: putEntry k a es

/-- The value at a key, the first one if a list repeats it. -/
def entryAt {α : Type} (k : String) : List (String × α) → Option α
  | [] => none
  | e :: es => if e.1 = k then some e.2 else entryAt k es

theorem mem_putEntry {α : Type} {k : String} {a : α} {e : String × α} {es : List (String × α)} :
    e ∈ putEntry k a es → e = (k, a) ∨ e ∈ es := by
  induction es with
  | nil => simp [putEntry]
  | cons d es ih =>
    simp only [putEntry]
    split
    · simp
    · split
      · intro h
        rcases List.mem_cons.mp h with h | h <;> simp [h]
      · intro h
        rcases List.mem_cons.mp h with h | h
        · simp [h]
        · rcases ih h with h | h <;> simp [h]

theorem ascendingKeys_putEntry {α : Type} {k : String} {a : α} {es : List (String × α)}
    (h : AscendingKeys es) : AscendingKeys (putEntry k a es) := by
  induction es with
  | nil => simp [putEntry, AscendingKeys]
  | cons d es ih =>
    have hd := List.pairwise_cons.mp h
    simp only [putEntry]
    split
    · rename_i hlt
      refine List.pairwise_cons.mpr ⟨fun z hz => ?_, h⟩
      rcases List.mem_cons.mp hz with rfl | hz
      · exact hlt
      · exact String.lt_trans hlt (hd.1 z hz)
    · split
      · rename_i he
        exact List.pairwise_cons.mpr ⟨fun z hz => he ▸ hd.1 z hz, hd.2⟩
      · rename_i hlt hne
        refine List.pairwise_cons.mpr ⟨fun z hz => ?_, ih hd.2⟩
        rcases mem_putEntry hz with rfl | hz
        · exact name_lt_of_not_lt hlt hne
        · exact hd.1 z hz

theorem entryAt_putEntry {α : Type} {k j : String} {a : α} {es : List (String × α)} :
    entryAt j (putEntry k a es) = if k = j then some a else entryAt j es := by
  induction es with
  | nil => simp [putEntry, entryAt]
  | cons d es ih =>
    simp only [putEntry]
    split
    · simp [entryAt]
    · split
      · rename_i hk
        by_cases hj : k = j <;> simp [entryAt, hj, ← hk]
      · rename_i hne
        by_cases hj : d.1 = j
        · have : ¬ k = j := fun h => hne (h.trans hj.symm)
          simp [entryAt, hj, this]
        · simp [entryAt, hj, ih]

theorem entryAt_eq_some_iff {α : Type} {k : String} {a : α} {es : List (String × α)}
    (h : AscendingKeys es) : entryAt k es = some a ↔ (k, a) ∈ es := by
  induction es with
  | nil => simp [entryAt]
  | cons d es ih =>
    have hd := List.pairwise_cons.mp h
    obtain ⟨j, b⟩ := d
    by_cases hj : j = k
    · subst hj
      have hnot : (j, a) ∉ es := fun hm => String.lt_irrefl j (hd.1 _ hm)
      simp [entryAt, hnot, eq_comm]
    · have : ¬ k = j := fun h => hj h.symm
      simp [entryAt, hj, this, ih hd.2]

/-- Finite map from names, held as its entries in ascending key order. -/
structure NameMap (α : Type) where
  toList : List (String × α)
  ascending : AscendingKeys toList
deriving DecidableEq

namespace NameMap

variable {α : Type}

def empty : NameMap α := ⟨[], .nil⟩

instance : EmptyCollection (NameMap α) := ⟨empty⟩
instance : Inhabited (NameMap α) := ⟨empty⟩

def get? (m : NameMap α) (k : String) : Option α := entryAt k m.toList

def contains (m : NameMap α) (k : String) : Bool := (m.get? k).isSome

def insert (m : NameMap α) (k : String) (a : α) : NameMap α :=
  ⟨putEntry k a m.toList, ascendingKeys_putEntry m.ascending⟩

/-- Keys in ascending order. -/
def keys (m : NameMap α) : List String := m.toList.map (·.1)

/-- Values in ascending order of their keys. -/
def values (m : NameMap α) : List α := m.toList.map (·.2)

def size (m : NameMap α) : Nat := m.toList.length

def isEmpty (m : NameMap α) : Bool := m.toList.isEmpty

@[simp] theorem get?_empty {k : String} : (∅ : NameMap α).get? k = none := rfl

@[simp] theorem get?_insert {m : NameMap α} {k j : String} {a : α} :
    (m.insert k a).get? j = if k = j then some a else m.get? j :=
  entryAt_putEntry

theorem get?_eq_some_iff {m : NameMap α} {k : String} {a : α} :
    m.get? k = some a ↔ (k, a) ∈ m.toList :=
  entryAt_eq_some_iff m.ascending

theorem mem_keys {m : NameMap α} {k : String} : k ∈ m.keys ↔ (m.get? k).isSome := by
  constructor
  · intro h
    obtain ⟨⟨j, a⟩, hm, rfl⟩ := List.mem_map.mp h
    simp [get?_eq_some_iff.mpr hm]
  · intro h
    obtain ⟨a, ha⟩ := Option.isSome_iff_exists.mp h
    exact List.mem_map.mpr ⟨(k, a), get?_eq_some_iff.mp ha, rfl⟩

theorem keys_ascending (m : NameMap α) : m.keys.Pairwise (· < ·) :=
  List.pairwise_map.mpr m.ascending

/-- Every value stands under the name that it gives itself. -/
def KeyedBy (m : NameMap α) (name : α → String) : Prop := ∀ k a, m.get? k = some a → name a = k

@[simp] theorem keyedBy_empty {name : α → String} : (∅ : NameMap α).KeyedBy name := by
  intro k a h
  simp at h

theorem KeyedBy.insert {m : NameMap α} {name : α → String} (h : m.KeyedBy name) (a : α) :
    (m.insert (name a) a).KeyedBy name := by
  intro k b hb
  rw [get?_insert] at hb
  split at hb
  · rename_i hk; cases hb; exact hk
  · exact h k b hb

/-- A map is determined by its lookups. -/
theorem ext_get? {m n : NameMap α} (h : ∀ k, m.get? k = n.get? k) : m = n := by
  have hl : m.toList = n.toList := by
    refine List.Perm.eq_of_pairwise
      (fun a b _ _ hab hba => absurd hba (String.lt_asymm hab))
      m.ascending n.ascending
      ((List.perm_ext_iff_of_nodup
        (m.ascending.imp fun hab => fun he => String.lt_irrefl _ (he ▸ hab))
        (n.ascending.imp fun hab => fun he => String.lt_irrefl _ (he ▸ hab))).mpr ?_)
    rintro ⟨k, a⟩
    rw [← get?_eq_some_iff, ← get?_eq_some_iff, h]
  cases m
  cases n
  cases hl
  rfl

end NameMap

end Metamodel
