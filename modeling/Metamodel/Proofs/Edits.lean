import Metamodel.Proofs.Arena
import Metamodel.Proofs.NameOrder

/-!
# Metamodel.Proofs.Edits

Arenas under any history of insertions and updates.

* `Edit`             — an insertion, or a change of the value in a slot.
* `Arena.OfHistory`  — every name has the slot of its first insertion, and in it the first value
  with what later updates made of it.
* `Arena.Aligned`    — names, slots and values are listed in step, in the byte order of the names.
* `names_keep_their_slots` — any history makes such an arena of an empty one.
-/

namespace Metamodel

/-- A use of an arena that may change it. -/
inductive Edit (α : Type) where
  | insert (name : String) (a : α)
  | update (slot : Nat) (f : α → α)

namespace Edit

variable {α : Type}

def Inserts (n : String) : Edit α → Prop
  | .insert k _ => k = n
  | .update _ _ => False

/-- What an edit makes of the value in slot `s`. -/
def changeAt (s : Nat) (a : α) : Edit α → α
  | .insert _ _ => a
  | .update j f => if j = s then f a else a

/-- What a history makes of the value in slot `s`. -/
def valueAfter (s : Nat) (es : List (Edit α)) (a : α) : α := es.foldl (changeAt s) a

end Edit

/-- What a list finds is all that it asks for, if nothing is missing. -/
theorem map_some_filterMap {α β : Type} {f : α → Option β} {xs : List α}
    (h : ∀ x ∈ xs, ∃ b, f x = some b) : (xs.filterMap f).map some = xs.map f := by
  induction xs with
  | nil => rfl
  | cons x xs ih =>
    obtain ⟨b, hb⟩ := h x List.mem_cons_self
    have hrest := ih fun y hy => h y (List.mem_cons_of_mem x hy)
    simp [hb, hrest]

namespace Arena

variable {α : Type} {t : Arena α} {e : Edit α} {es : List (Edit α)} {n : String} {s : Nat}

def edit (t : Arena α) : Edit α → Arena α
  | .insert n a => (t.insert n a).1
  | .update s f => t.update s f

/-- The arena after a history. -/
def after (t : Arena α) (es : List (Edit α)) : Arena α := es.foldl edit t

/-- What a history makes of an empty arena. -/
def ofEdits (es : List (Edit α)) : Arena α := (∅ : Arena α).after es

theorem after_append {ds : List (Edit α)} : t.after (es ++ ds) = (t.after es).after ds :=
  List.foldl_append

/-! ## One edit -/

theorem Indexed.update (ht : t.Indexed) (s : Nat) (f : α → α) : (t.update s f).Indexed where
  bounded h := by rw [size_update]; exact ht.bounded h
  injective := ht.injective
  covered h := ht.covered (by rwa [size_update] at h)

theorem Indexed.edit (ht : t.Indexed) (e : Edit α) : (t.edit e).Indexed := by
  cases e with
  | insert n a => exact ht.insert n a
  | update s f => exact ht.update s f

/-- An insertion returns the slot that the name has from then on. -/
theorem slotOf?_insert_self (n : String) (a : α) :
    (t.insert n a).1.slotOf? n = some (t.insert n a).2 := by
  cases h : t.slotOf? n with
  | some s => rw [insert_of_some h]; exact h
  | none =>
    rw [slotOf?_insert h, if_pos rfl]
    simp only [slotOf?] at h
    simp [insert, h, size]

theorem slotOf?_edit_of_some (h : t.slotOf? n = some s) : (t.edit e).slotOf? n = some s := by
  cases e with
  | update j f => exact h
  | insert k a =>
    cases hk : t.slotOf? k with
    | some j => rw [edit, insert_of_some hk]; exact h
    | none =>
      have hne : k ≠ n := by
        rintro rfl
        rw [hk] at h
        cases h
      rw [edit, slotOf?_insert hk, if_neg hne]
      exact h

theorem exists_slotOf?_edit :
    (∃ s, (t.edit e).slotOf? n = some s) ↔ (∃ s, t.slotOf? n = some s) ∨ e.Inserts n := by
  cases e with
  | update j f => simp [edit, Edit.Inserts]
  | insert k a =>
    by_cases hk : k = n
    · subst hk
      simp only [Edit.Inserts, or_true, iff_true]
      exact ⟨_, slotOf?_insert_self k a⟩
    · simp only [Edit.Inserts, hk, or_false]
      cases h : t.slotOf? k with
      | some j => rw [edit, insert_of_some h]
      | none => rw [edit, slotOf?_insert h, if_neg hk]

theorem lt_size_edit (h : s < t.size) : s < (t.edit e).size := by
  cases e with
  | update j f => rwa [edit, size_update]
  | insert k a =>
    cases hk : t.slotOf? k with
    | some j => rwa [edit, insert_of_some hk]
    | none =>
      rw [edit, size_insert hk]
      omega

theorem at?_edit (h : s < t.size) : (t.edit e).at? s = (t.at? s).map (e.changeAt s) := by
  obtain ⟨a, ha⟩ := at?_of_lt h
  cases e with
  | update j f =>
    rw [edit, at?_update, ha]
    by_cases hj : j = s <;> simp [Edit.changeAt, hj]
  | insert k b =>
    cases hk : t.slotOf? k with
    | some j => rw [edit, insert_of_some hk, ha]; rfl
    | none =>
      rw [edit, at?_insert hk, if_neg (Nat.ne_of_lt h), ha]
      rfl

/-! ## Histories -/

theorem Indexed.after (ht : t.Indexed) (es : List (Edit α)) : (t.after es).Indexed := by
  induction es generalizing t with
  | nil => exact ht
  | cons e es ih => exact ih (ht.edit e)

theorem indexed_ofEdits (es : List (Edit α)) : (ofEdits es).Indexed := indexed_empty.after es

theorem slotOf?_after_of_some (h : t.slotOf? n = some s) : (t.after es).slotOf? n = some s := by
  induction es generalizing t with
  | nil => exact h
  | cons e es ih => exact ih (slotOf?_edit_of_some h)

theorem exists_slotOf?_after : (∃ s, (t.after es).slotOf? n = some s) ↔
    (∃ s, t.slotOf? n = some s) ∨ ∃ e ∈ es, e.Inserts n := by
  induction es generalizing t with
  | nil => simp [after]
  | cons e es ih =>
    have hrest : (t.after (e :: es)) = (t.edit e).after es := rfl
    rw [hrest, ih, exists_slotOf?_edit, or_assoc]
    simp only [List.mem_cons, exists_eq_or_imp]

theorem at?_after (h : s < t.size) : (t.after es).at? s = (t.at? s).map (Edit.valueAfter s es) := by
  induction es generalizing t with
  | nil => exact Option.map_id_apply.symm
  | cons e es ih =>
    have hrest : (t.after (e :: es)) = (t.edit e).after es := rfl
    rw [hrest, ih (lt_size_edit h), at?_edit h, Option.map_map]
    rfl

/-- An arena that holds what a history put into it. -/
structure OfHistory (t : Arena α) (es : List (Edit α)) : Prop where
  named : ∀ n, (∃ s, t.slotOf? n = some s) ↔ ∃ e ∈ es, e.Inserts n
  /-- Each insertion of a name returned the slot that it still has. -/
  returned : ∀ {before n a later}, es = before ++ .insert n a :: later →
    t.slotOf? n = some ((ofEdits before).insert n a).2
  /-- The slot is the next free one at the first insertion. -/
  slot : ∀ {before n a later}, es = before ++ .insert n a :: later →
    (∀ e ∈ before, ¬ e.Inserts n) → t.slotOf? n = some (ofEdits before).size
  /-- The value is the one of the first insertion, with the later updates of the slot. -/
  value : ∀ {before n a later}, es = before ++ .insert n a :: later →
    (∀ e ∈ before, ¬ e.Inserts n) →
    t.get? n = some (Edit.valueAfter (ofEdits before).size later a)

theorem slotOf?_empty : (∅ : Arena α).slotOf? n = none := rfl

theorem exists_slotOf?_ofEdits :
    (∃ s, (ofEdits es).slotOf? n = some s) ↔ ∃ e ∈ es, e.Inserts n := by
  simp [ofEdits, exists_slotOf?_after, slotOf?_empty]

theorem ofHistory_ofEdits (es : List (Edit α)) : (ofEdits es).OfHistory es := by
  have hsplit : ∀ (before later : List (Edit α)) n a,
      ofEdits (before ++ .insert n a :: later) = ((ofEdits before).insert n a).1.after later :=
    fun _ _ _ _ => after_append
  have hnew : ∀ {before : List (Edit α)} {n}, (∀ e ∈ before, ¬ e.Inserts n) →
      (ofEdits before).slotOf? n = none := by
    intro before n hbefore
    rw [Option.eq_none_iff_forall_ne_some]
    intro s hs
    obtain ⟨e, he, hn⟩ := exists_slotOf?_ofEdits.mp ⟨s, hs⟩
    exact hbefore e he hn
  have hslot : ∀ {before later : List (Edit α)} {n a}, (∀ e ∈ before, ¬ e.Inserts n) →
      (((ofEdits before).insert n a).1.after later).slotOf? n = some (ofEdits before).size := by
    intro before later n a hbefore
    refine slotOf?_after_of_some ?_
    rw [slotOf?_insert (hnew hbefore), if_pos rfl]
  refine ⟨fun n => exists_slotOf?_ofEdits, ?_, ?_, ?_⟩
  · rintro before n a later rfl
    rw [hsplit]
    exact slotOf?_after_of_some (slotOf?_insert_self n a)
  · rintro before n a later rfl hbefore
    rw [hsplit]
    exact hslot hbefore
  · rintro before n a later rfl hbefore
    have hlt : (ofEdits before).size < ((ofEdits before).insert n a).1.size := by
      rw [size_insert (hnew hbefore)]
      omega
    rw [hsplit, get?_of_slotOf? (hslot hbefore), at?_after hlt, at?_insert (hnew hbefore),
      if_pos rfl, Option.map_some]

/-! ## Listings -/

/-- An arena that lists its names, slots and values in step. -/
structure Aligned (t : Arena α) : Prop where
  ascending : t.names.Pairwise fun n k => nameBytes n < nameBytes k
  names : ∀ n, n ∈ t.names ↔ ∃ s, t.slotOf? n = some s
  /-- Every slot is listed once. -/
  slots : t.slotsByName.Perm (List.range t.size)
  slots_of_names : t.slotsByName.map some = t.names.map t.slotOf?
  values_of_names : t.values.map some = t.names.map t.get?
  values_of_slots : t.values.map some = t.slotsByName.map t.at?
  /-- A value is found by its name and in its slot alike. -/
  found : ∀ {n s}, t.slotOf? n = some s → ∃ a, t.get? n = some a ∧ t.at? s = some a

theorem Indexed.aligned (ht : t.Indexed) : t.Aligned where
  ascending := (NameMap.keys_ascending t.index).imp name_lt_iff.mp
  names _ := mem_names
  slots := ht.slotsByName_perm
  slots_of_names := by
    rw [slotsByName_eq]
    exact map_some_filterMap fun n hn => mem_names.mp hn
  values_of_names := by
    rw [values_eq]
    exact map_some_filterMap fun n hn => ht.mem_names_iff.mp hn
  values_of_slots := by
    refine map_some_filterMap fun s hs => ?_
    obtain ⟨n, hn⟩ := mem_slotsByName.mp hs
    exact at?_of_lt (ht.bounded hn)
  found {n s} hn := by
    obtain ⟨a, ha⟩ := at?_of_lt (ht.bounded hn)
    exact ⟨a, (get?_of_slotOf? hn).trans ha, ha⟩

end Arena

/-- After any history, names and slots correspond one to one. A name keeps the slot of its first
insertion, other insertions of it change nothing, and its slot holds the first value with the
updates since. Listings have every entry once, in the byte order of the names. -/
theorem names_keep_their_slots {α : Type} (es : List (Edit α)) :
    (Arena.ofEdits es).Indexed ∧ (Arena.ofEdits es).index.size = (Arena.ofEdits es).size ∧
      (Arena.ofEdits es).OfHistory es ∧ (Arena.ofEdits es).Aligned ∧
      (∀ more n s, (Arena.ofEdits es).slotOf? n = some s →
        (Arena.ofEdits (es ++ more)).slotOf? n = some s) ∧
      ∀ n s a, (Arena.ofEdits es).slotOf? n = some s →
        (Arena.ofEdits es).insert n a = (Arena.ofEdits es, s) := by
  have ht := Arena.indexed_ofEdits es
  have hsize : (Arena.ofEdits es).index.size = (Arena.ofEdits es).size := by
    rw [← ht.length_names, NameMap.size, Arena.names, NameMap.keys, List.length_map]
  refine ⟨ht, hsize, Arena.ofHistory_ofEdits es, ht.aligned, fun more n s hn => ?_,
    fun n s a hn => Arena.insert_of_some hn⟩
  rw [Arena.ofEdits, Arena.after_append]
  exact Arena.slotOf?_after_of_some hn

/-- A name that is inserted again under updates of its slot. -/
def reinserted : List (Edit Nat) :=
  [.insert "zeta" 1, .insert "alpha" 2, .update 0 (· + 10), .insert "zeta" 5, .insert "mu" 3,
    .update 0 (· * 2)]

theorem names_keep_their_slots_reinserted :
    (Arena.ofEdits reinserted).slotOf? "zeta" = some 0 ∧
      (Arena.ofEdits (reinserted ++ reinserted.reverse)).slotOf? "zeta" = some 0 ∧
      (Arena.ofEdits reinserted).insert "zeta" 7 = (Arena.ofEdits reinserted, 0) ∧
      (Arena.ofEdits reinserted).get? "zeta" = some 22 ∧
      (Arena.ofEdits reinserted).get? "alpha" = some 2 := by
  obtain ⟨-, -, hhistory, -, hstays, hsame⟩ := names_keep_their_slots reinserted
  have hfirst : reinserted = [] ++ .insert "zeta" 1 :: reinserted.tail := rfl
  have hsecond : reinserted = [.insert "zeta" 1] ++ .insert "alpha" 2 :: reinserted.tail.tail := rfl
  have hnew : ∀ e ∈ [Edit.insert "zeta" 1], ¬ e.Inserts "alpha" := by simp [Edit.Inserts]
  have hslot := hhistory.slot hfirst fun e he => absurd he List.not_mem_nil
  exact ⟨hslot, hstays _ _ _ hslot, hsame _ _ 7 hslot,
    hhistory.value hfirst fun e he => absurd he List.not_mem_nil, hhistory.value hsecond hnew⟩

end Metamodel
