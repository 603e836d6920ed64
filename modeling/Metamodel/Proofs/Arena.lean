import Mathlib.Data.List.Nodup
import Mathlib.Data.List.Perm.Subperm
import Metamodel.Resolution.Passes

/-!
# Metamodel.Proofs.Arena

Names and slots of an arena.

* `Arena.Indexed`     — the index is a one-to-one correspondence of names and slots; insertion and
  update keep it.
* `Arena.get?_ofMap`  — an arena made of a map answers as the map does.
* `Arena.map`         — a part of every value; what a loop leaves alone is told by one equation.
* `Arena.definitions` — the raw definitions in an arena of resolved types. Passes leave them alone,
  so through all of a resolution they are `Arena.ofMap` of the registered definitions.
-/

namespace Metamodel

theorem entryAt_eq_none_of_not_mem {α : Type} {k : String} {es : List (String × α)}
    (h : ∀ e ∈ es, e.1 ≠ k) : entryAt k es = none := by
  induction es with
  | nil => rfl
  | cons e es ih =>
    have he : e.1 ≠ k := h e (by simp)
    simp only [entryAt, he, if_false]
    exact ih fun d hd => h d (by simp [hd])

/-- Ascending lists with the same members are the same list. -/
theorem eq_of_ascending {xs ys : List String} (hx : xs.Pairwise (· < ·)) (hy : ys.Pairwise (· < ·))
    (h : ∀ x, x ∈ xs ↔ x ∈ ys) : xs = ys :=
  congrArg NameSet.toList (NameSet.ext_mem (s := ⟨xs, hx⟩) (t := ⟨ys, hy⟩) h)

theorem nodup_of_ascending {ns : List String} (h : ns.Pairwise (· < ·)) : ns.Nodup := by
  refine h.imp ?_
  rintro n _ hlt rfl
  exact String.lt_irrefl n hlt

theorem NameMap.values_eq_filterMap {α : Type} (m : NameMap α) :
    m.values = m.keys.filterMap m.get? := by
  rw [values, keys, List.filterMap_map, ← List.filterMap_eq_map]
  exact List.filterMap_congr fun e he => (get?_eq_some_iff.mpr he).symm

/-- What no step of a loop changes, the loop does not change. -/
theorem foldl_frame {σ ι τ : Type} {f : σ → τ} {step : σ → ι → σ}
    (h : ∀ s i, f (step s i) = f s) (is : List ι) (s : σ) : f (is.foldl step s) = f s := by
  induction is generalizing s with
  | nil => rfl
  | cons i is ih => exact (ih (step s i)).trans (h s i)

/-- A resolved type without what applies to it. -/
def ResolvedType.bare {δ ε : Type} (d : ResolvedType δ ε) : ResolvedType δ Unit :=
  { d with applicability := () }

namespace Arena

section Index

variable {α : Type} {t : Arena α}

/-- The index is a one-to-one correspondence of names and slots. -/
structure Indexed (t : Arena α) : Prop where
  bounded : ∀ {n s}, t.slotOf? n = some s → s < t.size
  injective : ∀ {n k s}, t.slotOf? n = some s → t.slotOf? k = some s → n = k
  covered : ∀ {s}, s < t.size → ∃ n, t.slotOf? n = some s

theorem indexed_empty : (∅ : Arena α).Indexed where
  bounded h := by cases h
  injective h := by cases h
  covered h := by cases h

theorem at?_of_lt {s : Nat} (h : s < t.size) : ∃ a, t.at? s = some a :=
  ⟨t.slots[s], Array.getElem?_eq_getElem h⟩

theorem lt_of_at? {s : Nat} {a : α} (h : t.at? s = some a) : s < t.size :=
  (Array.getElem?_eq_some_iff.mp h).1

/-- There are no more slots than values. -/
theorem length_le_size {slots : List Nat} (h : slots.Nodup) (hlt : ∀ s ∈ slots, s < t.size) :
    slots.length ≤ t.size := by
  have hin : slots ⊆ List.range t.size := fun s hs => List.mem_range.mpr (hlt s hs)
  have hle := (h.subperm hin).length_le
  rwa [List.length_range] at hle

theorem slotOf?_insert {n k : String} {a : α} (h : t.slotOf? n = none) :
    (t.insert n a).1.slotOf? k = if n = k then some t.size else t.slotOf? k := by
  simp only [slotOf?] at h
  simp [insert, h, slotOf?, size]

theorem insert_of_some {n : String} {a : α} {s : Nat} (h : t.slotOf? n = some s) :
    t.insert n a = (t, s) := by
  simp only [slotOf?] at h
  simp [insert, h]

theorem at?_insert {n : String} {a : α} {s : Nat} (h : t.slotOf? n = none) :
    (t.insert n a).1.at? s = if s = t.size then some a else t.at? s := by
  simp only [slotOf?] at h
  simp only [insert, h, at?, size, Array.getElem?_push]
  rfl

theorem size_insert {n : String} {a : α} (h : t.slotOf? n = none) :
    (t.insert n a).1.size = t.size + 1 := by
  simp only [slotOf?] at h
  simp [insert, h, size]

theorem Indexed.insert (ht : t.Indexed) (n : String) (a : α) : (t.insert n a).1.Indexed := by
  cases h : t.slotOf? n with
  | some s => rw [insert_of_some h]; exact ht
  | none =>
    refine ⟨?_, ?_, ?_⟩
    · intro k s hk
      rw [slotOf?_insert h] at hk
      rw [size_insert h]
      split at hk
      · cases hk; omega
      · have := ht.bounded hk
        omega
    · intro j k s hj hk
      rw [slotOf?_insert h] at hj hk
      split at hj <;> split at hk
      · rename_i h₁ h₂; exact h₁.symm.trans h₂
      · cases hj; exact absurd (ht.bounded hk) (by omega)
      · cases hk; exact absurd (ht.bounded hj) (by omega)
      · exact ht.injective hj hk
    · intro s hs
      rw [size_insert h] at hs
      by_cases he : s = t.size
      · exact ⟨n, by rw [slotOf?_insert h, if_pos rfl, he]⟩
      · obtain ⟨k, hk⟩ := ht.covered (show s < t.size by omega)
        have hne : n ≠ k := fun e => by rw [e, hk] at h; cases h
        exact ⟨k, by rw [slotOf?_insert h, if_neg hne, hk]⟩

theorem Indexed.slotOf?_eq_none_iff (ht : t.Indexed) {n : String} :
    t.slotOf? n = none ↔ t.get? n = none := by
  constructor
  · intro h
    simp [get?, h]
  · intro h
    cases hs : t.slotOf? n with
    | none => rfl
    | some s =>
      obtain ⟨a, ha⟩ := at?_of_lt (ht.bounded hs)
      simp [get?, hs, ha] at h

theorem get?_eq_some_iff {n : String} {a : α} :
    t.get? n = some a ↔ ∃ s, t.slotOf? n = some s ∧ t.at? s = some a := by
  simp [get?, Option.bind_eq_some_iff]

theorem get?_of_slotOf? {n : String} {s : Nat} (h : t.slotOf? n = some s) :
    t.get? n = t.at? s := by
  simp [get?, h]

theorem Indexed.get?_insert (ht : t.Indexed) {n k : String} {a : α} (h : t.get? n = none) :
    (t.insert n a).1.get? k = if n = k then some a else t.get? k := by
  have hn := ht.slotOf?_eq_none_iff.mpr h
  by_cases hk : n = k
  · subst hk
    simp [get?, slotOf?_insert hn, at?_insert hn]
  · rw [if_neg hk]
    simp only [get?, slotOf?_insert hn, if_neg hk]
    cases hs : t.slotOf? k with
    | none => rfl
    | some s =>
      have := ht.bounded hs
      simp [at?_insert hn, show s ≠ t.size by omega]

/-- Insertion of ascending entries, by induction on them: names that are new to the arena answer
as the entries do, and the others as before. -/
theorem insertEntries {es : List (String × α)} (hes : AscendingKeys es) :
    ∀ t : Arena α, t.Indexed → (∀ e ∈ es, t.get? e.1 = none) →
      (es.foldl (fun t e => (t.insert e.1 e.2).1) t).Indexed ∧
      ∀ n, (es.foldl (fun t e => (t.insert e.1 e.2).1) t).get? n
        = (entryAt n es).or (t.get? n) := by
  induction es with
  | nil => intro t ht _; exact ⟨ht, fun n => by simp [entryAt]⟩
  | cons e es ih =>
    intro t ht hnew
    have hd := List.pairwise_cons.mp hes
    have he := hnew e (by simp)
    have hes' : ∀ d ∈ es, (t.insert e.1 e.2).1.get? d.1 = none := by
      intro d hmem
      have hne : e.1 ≠ d.1 := fun h => String.lt_irrefl _ (h ▸ hd.1 d hmem)
      rw [ht.get?_insert he, if_neg hne]
      exact hnew d (by simp [hmem])
    obtain ⟨hidx, hget⟩ := ih hd.2 _ (ht.insert e.1 e.2) hes'
    refine ⟨hidx, fun n => ?_⟩
    rw [List.foldl_cons, hget, ht.get?_insert he]
    by_cases hn : e.1 = n
    · have hnone : entryAt n es = none :=
        entryAt_eq_none_of_not_mem fun d hm h => String.lt_irrefl _ (hn ▸ h ▸ hd.1 d hm)
      simp [entryAt, hn, hnone]
    · simp [entryAt, hn]

theorem indexed_ofMap (m : NameMap α) : (ofMap m).Indexed :=
  (insertEntries m.ascending ∅ indexed_empty fun _ _ => rfl).1

@[simp] theorem get?_ofMap (m : NameMap α) (n : String) : (ofMap m).get? n = m.get? n := by
  have h := (insertEntries m.ascending ∅ indexed_empty fun _ _ => rfl).2 n
  exact h.trans Option.or_none

/-- An arena made by insertions, one after the other. -/
def ofEntries (es : List (String × α)) : Arena α := es.foldl (fun t e => (t.insert e.1 e.2).1) ∅

theorem Indexed.foldl_insert (ht : t.Indexed) (es : List (String × α)) :
    (es.foldl (fun t e => (t.insert e.1 e.2).1) t).Indexed := by
  induction es generalizing t with
  | nil => exact ht
  | cons e es ih => exact ih (ht.insert e.1 e.2)

theorem indexed_ofEntries (es : List (String × α)) : (ofEntries es).Indexed :=
  indexed_empty.foldl_insert es

theorem Indexed.slot_eq_iff (ht : t.Indexed) {n k : String} {a b : Nat}
    (hn : t.slotOf? n = some a) (hk : t.slotOf? k = some b) : b = a ↔ n = k := by
  constructor
  · rintro rfl
    exact ht.injective hn hk
  · rintro rfl
    exact Option.some.inj (hk.symm.trans hn)

/-! ## Listings -/

theorem mem_names {n : String} : n ∈ t.names ↔ ∃ s, t.slotOf? n = some s :=
  NameMap.mem_keys.trans Option.isSome_iff_exists

theorem slotsByName_eq (t : Arena α) : t.slotsByName = t.names.filterMap t.slotOf? :=
  t.index.values_eq_filterMap

theorem values_eq (t : Arena α) : t.values = t.names.filterMap t.get? := by
  rw [values, slotsByName_eq, List.filterMap_filterMap]
  rfl

theorem mem_slotsByName {s : Nat} : s ∈ t.slotsByName ↔ ∃ n, t.slotOf? n = some s := by
  simp only [slotsByName_eq, List.mem_filterMap, mem_names]
  exact ⟨fun ⟨n, _, h⟩ => ⟨n, h⟩, fun ⟨n, h⟩ => ⟨n, ⟨s, h⟩, h⟩⟩

theorem Indexed.mem_names_iff (ht : t.Indexed) {n : String} :
    n ∈ t.names ↔ ∃ a, t.get? n = some a := by
  rw [mem_names, ← Option.ne_none_iff_exists', ← Option.ne_none_iff_exists']
  exact not_congr ht.slotOf?_eq_none_iff

/-- The listing by name has every slot once. -/
theorem Indexed.slotsByName_perm (ht : t.Indexed) : t.slotsByName.Perm (List.range t.size) := by
  have hnodup : t.slotsByName.Nodup := by
    rw [slotsByName_eq]
    exact List.Nodup.filterMap (fun n k s hn hk => ht.injective hn hk)
      (nodup_of_ascending (NameMap.keys_ascending t.index))
  refine (List.perm_ext_iff_of_nodup hnodup List.nodup_range).mpr fun s => ?_
  rw [mem_slotsByName, List.mem_range]
  exact ⟨fun ⟨_, hn⟩ => ht.bounded hn, ht.covered⟩

/-- An arena has a slot for each name. -/
theorem Indexed.length_names (ht : t.Indexed) : t.names.length = t.size := by
  have hlength := ht.slotsByName_perm.length_eq
  simp only [slotsByName, NameMap.values, List.length_map, List.length_range] at hlength
  simpa only [names, NameMap.keys, List.length_map] using hlength

theorem names_ofMap (m : NameMap α) : (ofMap m).names = m.keys := by
  refine eq_of_ascending (NameMap.keys_ascending _) m.keys_ascending fun n => ?_
  rw [(indexed_ofMap m).mem_names_iff, NameMap.mem_keys, Option.isSome_iff_exists]
  simp

theorem values_ofMap (m : NameMap α) : (ofMap m).values = m.values := by
  rw [values_eq, names_ofMap, m.values_eq_filterMap, funext (get?_ofMap m)]

end Index

/-! ## Parts of values -/

section Map

variable {α β : Type} {t : Arena α} {g : α → β} {s : Nat}

/-- A part of every value, in the same slots and under the same names. -/
def map (t : Arena α) (g : α → β) : Arena β := { slots := t.slots.map g, index := t.index }

@[simp] theorem slotOf?_map (n : String) : (t.map g).slotOf? n = t.slotOf? n := rfl

@[simp] theorem at?_map (s : Nat) : (t.map g).at? s = (t.at? s).map g := by
  simp [map, at?]

@[simp] theorem get?_map (n : String) : (t.map g).get? n = (t.get? n).map g := by
  simp only [get?, slotOf?_map]
  cases t.slotOf? n <;> simp

/-- What is the same of two arenas stays the same in parts. -/
theorem map_congr {γ : Type} {t' : Arena α} (h : t'.map g = t.map g) (k : β → γ) :
    t'.map (k ∘ g) = t.map (k ∘ g) := by
  have hk := congrArg (·.map k) h
  simpa only [map, Array.map_map] using hk

/-- A change that leaves a part of every value alone leaves that part of the arena alone. -/
theorem map_update {f : α → α} (hf : ∀ a, g (f a) = g a) : (t.update s f).map g = t.map g := by
  simp only [map, update, Arena.mk.injEq, and_true]
  apply Array.ext
  · simp
  · intro i h₁ h₂
    simp only [Array.getElem_map, Array.getElem_modify]
    split
    · exact hf _
    · rfl

end Map

/-! ## Definitions of resolved types -/

section Definitions

variable {δ ε : Type} {t : Arena (ResolvedType δ ε)}

/-- The raw definitions, in the same slots and under the same names. -/
def definitions (t : Arena (ResolvedType δ ε)) : Arena δ :=
  { slots := t.slots.map (·.definition), index := t.index }

@[simp] theorem slotOf?_definitions (n : String) : t.definitions.slotOf? n = t.slotOf? n := rfl

@[simp] theorem names_definitions : t.definitions.names = t.names := rfl

@[simp] theorem size_definitions : t.definitions.size = t.size := by
  simp [definitions, size]

@[simp] theorem at?_definitions (s : Nat) :
    t.definitions.at? s = (t.at? s).map (·.definition) :=
  at?_map s

@[simp] theorem get?_definitions (n : String) :
    t.definitions.get? n = (t.get? n).map (·.definition) :=
  get?_map n

theorem definitions_update {s : Nat} {f : ResolvedType δ ε → ResolvedType δ ε}
    (hf : ∀ d, (f d).definition = d.definition) : (t.update s f).definitions = t.definitions :=
  map_update hf

theorem definitions_insert (n : String) (d : ResolvedType δ ε) :
    (t.insert n d).1.definitions = (t.definitions.insert n d.definition).1 := by
  cases h : t.index.get? n <;> simp [insert, definitions, h]

theorem definitions_unresolved [EmptyCollection ε] (m : NameMap δ) :
    (unresolved m : Arena (ResolvedType δ ε)).definitions = ofMap m := by
  have key : ∀ (es : List (String × δ)) (t : Arena (ResolvedType δ ε)),
      (es.foldl (fun t e => (t.insert e.1 (.ofDefinition e.2)).1) t).definitions
        = es.foldl (fun t e => (t.insert e.1 e.2).1) t.definitions := by
    intro es
    induction es with
    | nil => intro t; rfl
    | cons e es ih => intro t; rw [List.foldl_cons, ih, definitions_insert]; rfl
  have hempty : (∅ : Arena (ResolvedType δ ε)).definitions = ∅ :=
    congrArg (fun a => ({ slots := a } : Arena δ)) List.map_toArray
  rw [unresolved, key, hempty]
  rfl

theorem Indexed.definitions (ht : t.Indexed) : t.definitions.Indexed where
  bounded hs := by rw [size_definitions]; exact ht.bounded hs
  injective := ht.injective
  covered hs := ht.covered (by simpa using hs)

theorem Indexed.of_definitions (h : t.definitions.Indexed) : t.Indexed where
  bounded hs := size_definitions (t := t) ▸ h.bounded hs
  injective := h.injective
  covered hs := h.covered (by simpa using hs)

theorem definitions_congr {t' : Arena (ResolvedType δ ε)}
    (h : t'.map ResolvedType.bare = t.map ResolvedType.bare) : t'.definitions = t.definitions :=
  map_congr h (·.definition)

end Definitions

end Arena

end Metamodel
