import Mathlib.Data.List.TakeDrop
import Mathlib.Data.List.TakeWhile
import Metamodel.Definition.Json

/-!
# Metamodel.Proofs.Records

Reading back what was written as a record.

* `Datum.Carries`    — a data format tells JSON values apart the way they were written.
* `Datum.fields?_of_sublist` — the fields of a written record are found again, left out ones included.
* `Datum.required_eq`, `Datum.optional_eq`, `Datum.defaulted_eq` — a field is read as it was written,
  if its value is.
* `Json.isHoldable_int` — integers below `2 ^ 53` can be held.
-/

namespace Metamodel

/-! ## Entries -/

namespace Json

@[simp] theorem lookup_whenPresent {β : Type} {k k' : String} {f : β → Json} {x : Option β} :
    (whenPresent k f x).lookup k' = if k' = k then x.map f else none := by
  cases x with
  | none => simp [whenPresent]
  | some b =>
    rw [whenPresent, List.lookup_cons]
    by_cases h : k' = k
    · simp [h]
    · rw [if_neg h, beq_false_of_ne h]
      rfl

theorem keys_whenPresent {β : Type} {k : String} {f : β → Json} {x : Option β} :
    ((whenPresent k f x).map (·.1)).Sublist [k] := by
  cases x <;> simp [whenPresent]

end Json

namespace Datum

theorem hasRepeatedKey_of_nodup {α : Type} {es : List (String × α)} (h : (es.map (·.1)).Nodup) :
    hasRepeatedKey es = false := by
  induction es with
  | nil => rfl
  | cons e es ih =>
    obtain ⟨hnew, hes⟩ := List.nodup_cons.mp h
    simp only [hasRepeatedKey, ih hes, Bool.or_false, List.any_eq_false, decide_eq_true_eq]
    intro d hd heq
    exact hnew (List.mem_map.mpr ⟨d, hd, heq⟩)

/-- The entries of an object, as the format has them. -/
def carried {α : Type} (carry : Json → α) (es : List (String × Json)) : List (String × α) :=
  es.map fun e => (e.1, carry e.2)

theorem lookup_carried {α : Type} {carry : Json → α} {es : List (String × Json)} {k : String} :
    (carried carry es).lookup k = (es.lookup k).map carry := by
  induction es with
  | nil => rfl
  | cons e es ih =>
    obtain ⟨k', j⟩ := e
    simp only [carried, List.map_cons, List.lookup_cons] at ih ⊢
    cases k == k' <;> simp [ih]

variable {α β : Type} [Datum α]

/-! ## Formats that carry JSON -/

/-- The format gives back what JSON values are made of. -/
structure Carries (carry : Json → α) : Prop where
  text : ∀ s, text? (carry (.str s)) = some s
  int : ∀ i, int? (carry (.int i)) = some i
  choice : ∀ s, choice? (carry (.str s)) = some s
  absent : present? (carry .null) = some none
  present : ∀ j, j ≠ .null → present? (carry j) = some (some (carry j))
  items : ∀ js, items? (carry (.arr js)) = some (js.map carry)
  entries : ∀ es, entries? (carry (.obj es)) = some (es.map fun e => (e.1, carry e.2))
  noRow : ∀ es, row? (carry (.obj es)) = none

theorem carries_json : Carries (id : Json → Json) where
  text _ := rfl
  int _ := rfl
  choice _ := rfl
  absent := rfl
  present j hj := by cases j <;> first | rfl | exact absurd rfl hj
  items js := by simp [items?, Json.items?]
  entries es := by simp [entries?, Json.entries?]
  noRow _ := rfl

theorem carries_tagged : Carries TaggedJson.mk where
  text _ := rfl
  int _ := rfl
  choice _ := rfl
  absent := rfl
  present j hj := by cases j <;> first | rfl | exact absurd rfl hj
  items _ := rfl
  entries _ := rfl
  noRow _ := rfl

variable {carry : Json → α} {es : List (String × Json)} {k : String} {names : List String}

/-- Fields in their declared order, some of them left out, are all known and none is repeated. -/
theorem fields?_of_sublist (hc : Carries carry) (hnames : names.Nodup)
    (hkeys : (es.map (·.1)).Sublist names) :
    fields? names (carry (.obj es)) = some (carried carry es) := by
  have hmap : (carried carry es).map (·.1) = es.map (·.1) := by
    simp [carried]
  have hknown : (carried carry es).filter (·.1 ∈ names) = carried carry es := by
    rw [List.filter_eq_self]
    intro e he
    refine decide_eq_true (hkeys.subset ?_)
    rw [← hmap]
    exact List.mem_map_of_mem he
  have hrepeated : hasRepeatedKey (carried carry es) = false :=
    hasRepeatedKey_of_nodup (hmap ▸ hnames.sublist hkeys)
  have hentries : entries? (carry (.obj es)) = some (carried carry es) := hc.entries es
  simp only [fields?, hc.noRow, hentries, hknown, hrepeated, Bool.false_eq_true, if_false]

/-! ## Fields -/

variable {read : α → Option β} {write : β → Json} {b default : β} {x : Option β} {j : Json}

omit [Datum α] in
theorem required_eq (hk : es.lookup k = some j) (hb : read (carry j) = some b) :
    required (carried carry es) k read = some b := by
  rw [required, lookup_carried, hk, Option.map_some, Option.bind_some, hb]

omit [Datum α] in
theorem defaulted_eq (hk : es.lookup k = some j) (hb : read (carry j) = some b) :
    defaulted (carried carry es) k read default = some b := by
  simp only [defaulted, lookup_carried, hk, Option.map_some, hb]

/-- An entry that is left out is absent, and one that is written is not. -/
theorem optional_eq (hc : Carries carry) (hk : es.lookup k = x.map write)
    (hnull : ∀ b, write b ≠ .null) (hread : ∀ b, read (carry (write b)) = some b) :
    optional (carried carry es) k read = some x := by
  rw [optional, lookup_carried, hk]
  cases x with
  | none => rfl
  | some b => simp [hc.present _ (hnull b), hread]

theorem required_text_eq (hc : Carries carry) {s : String} (hk : es.lookup k = some (.str s)) :
    required (carried carry es) k text? = some s :=
  required_eq hk (hc.text s)

theorem optional_text_eq (hc : Carries carry) {s : Option String}
    (hk : es.lookup k = s.map .str) : optional (carried carry es) k text? = some s :=
  optional_eq hc hk (by simp) hc.text

/-- An entry that is written as `null` is absent. -/
theorem optional_eq_of_null (hc : Carries carry) (hk : es.lookup k = some (.ofOption write x))
    (hnull : ∀ b, write b ≠ .null) (hread : ∀ b, read (carry (write b)) = some b) :
    optional (carried carry es) k read = some x := by
  rw [optional, lookup_carried, hk]
  cases x with
  | none => simp [Json.ofOption, hc.absent]
  | some b => simp [Json.ofOption, hc.present _ (hnull b), hread]

theorem listOf_eq (hc : Carries carry) (hread : ∀ b, read (carry (write b)) = some b)
    (bs : List β) : listOf read (carry (.arr (bs.map write))) = some bs := by
  rw [listOf, hc.items, Option.bind_some]
  induction bs with
  | nil => rfl
  | cons b bs ih =>
    rw [List.map_cons, List.map_cons, List.mapM_cons, hread, ih]
    rfl

theorem defaulted_listOf_eq (hc : Carries carry) {bs : List β}
    (hk : es.lookup k = some (.arr (bs.map write))) (hread : ∀ b, read (carry (write b)) = some b) :
    defaulted (carried carry es) k (listOf read) [] = some bs :=
  defaulted_eq hk (listOf_eq hc hread bs)

theorem oneOf_eq (hc : Carries carry) {members : List β} {name : β → String}
    (hb : members.find? (name · = name b) = some b) :
    oneOf members name (carry (.str (name b))) = some b := by
  rw [oneOf, hc.choice, Option.bind_some, hb]

theorem int32?_eq (hc : Carries carry) (o : Int32) : int32? (carry (.int o.toInt)) = some o := by
  have hrange : Int32.minValue.toInt ≤ o.toInt ∧ o.toInt ≤ Int32.maxValue.toInt :=
    ⟨Int32.minValue_le_toInt o, Int32.toInt_le o⟩
  rw [int32?, hc.int, Option.bind_some, if_pos (by simpa using hrange), Int32.ofInt_toInt]

end Datum

/-! ## Values that can be held -/

namespace Json

@[simp] theorem isHoldable_str {n : Nat} (s : String) : isHoldable n (.str s) = true := by
  simp [isHoldable]

@[simp] theorem isHoldable_arr {n : Nat} {js : List Json} :
    isHoldable (n + 1) (.arr js) = areHoldableItems n js := by
  simp [isHoldable]

@[simp] theorem isHoldable_obj {n : Nat} {es : List (String × Json)} :
    isHoldable (n + 1) (.obj es) = areHoldableEntries n es := by
  simp [isHoldable]

theorem areHoldableItems_map {β : Type} {n : Nat} {write : β → Json}
    (h : ∀ b, isHoldable n (write b) = true) (bs : List β) :
    areHoldableItems n (bs.map write) = true := by
  induction bs with
  | nil => simp [areHoldableItems]
  | cons b bs ih => simp [areHoldableItems, h b, ih]

@[simp] theorem areHoldableEntries_append {n : Nat} {es fs : List (String × Json)} :
    areHoldableEntries n (es ++ fs) = (areHoldableEntries n es && areHoldableEntries n fs) := by
  induction es with
  | nil => simp [areHoldableEntries]
  | cons e es ih => simp [areHoldableEntries, ih, Bool.and_assoc]

theorem areHoldableEntries_whenPresent {β : Type} {n : Nat} {k : String} {write : β → Json}
    (h : ∀ b, isHoldable n (write b) = true) (x : Option β) :
    areHoldableEntries n (whenPresent k write x) = true := by
  cases x with
  | none => simp [whenPresent, areHoldableEntries]
  | some b => simp [whenPresent, areHoldableEntries, h b]

theorem isHoldable_ofOption {β : Type} {n : Nat} {write : β → Json}
    (h : ∀ b, isHoldable n (write b) = true) (x : Option β) :
    isHoldable n (ofOption write x) = true := by
  cases x with
  | none => simp [ofOption, isHoldable]
  | some b => exact h b

/-! ### Numbers -/

theorem nearestDouble_eq {n : Nat} (h : n < Nat.pow 2 53) : nearestDouble n = n := by
  have hunit : Nat.log2 n + 1 - 53 = 0 := by
    by_cases hn : n = 0
    · simp [hn]
    · have := (Nat.log2_lt hn).mpr h
      omega
  simp [nearestDouble, hunit, Nat.mod_one]

theorem le_ofDigitChars (n : Nat) (cs : List Char) : n ≤ Nat.ofDigitChars 10 cs n := by
  induction cs generalizing n with
  | nil => exact Nat.le_refl n
  | cons c cs ih =>
    refine Nat.le_trans ?_ (ih (10 * n + (c.toNat - '0'.toNat)))
    omega

/-- Digits of a number below `2 ^ 64` are all taken. -/
theorem takeDigits_eq {n : Nat} {cs : List Char} (h : Nat.ofDigitChars 10 cs n < Nat.pow 2 64) :
    takeDigits n cs = (Nat.ofDigitChars 10 cs n, []) := by
  induction cs generalizing n with
  | nil => rfl
  | cons c cs ih =>
    have hnext : Decimal.digitsValue [c] + 10 * n = 10 * n + (c.toNat - '0'.toNat) := by
      simp [Decimal.digitsValue, Nat.add_comm]
    have hstep : Nat.ofDigitChars 10 (c :: cs) n
        = Nat.ofDigitChars 10 cs (10 * n + (c.toNat - '0'.toNat)) := rfl
    rw [hstep] at h ⊢
    have hbelow := Nat.lt_of_le_of_lt (le_ofDigitChars _ cs) h
    rw [takeDigits, hnext, if_pos hbelow, ih h]

theorem readLiteral_toDigits (n : Nat) :
    Decimal.Literal.read? (Nat.toDigits 10 n) = some { whole := Nat.toDigits 10 n } := by
  have hdigits : ∀ c ∈ Nat.toDigits 10 n, c.isDigit = true :=
    fun c hc => Nat.isDigit_of_mem_toDigits (by decide) (by decide) hc
  have hne : Nat.toDigits 10 n ≠ [] := Nat.toDigits_ne_nil
  simp only [Decimal.Literal.read?, List.span_eq_takeWhile_dropWhile,
    List.takeWhile_eq_self_iff.mpr hdigits, List.dropWhile_eq_nil_iff.mpr hdigits]
  simp [hne]

/-- An integer below `2 ^ 53` is a double. -/
theorem isHoldableNumber_toDigits {n : Nat} (h : n < Nat.pow 2 53) :
    isHoldableNumber (Nat.toDigits 10 n) = true := by
  have hvalue : Nat.ofDigitChars 10 (Nat.toDigits 10 n) 0 = n :=
    Nat.ofDigitChars_toDigits (by decide) (by decide)
  have htaken : takeDigits 0 (Nat.toDigits 10 n) = (n, []) := by
    rw [takeDigits_eq (by rw [hvalue]; exact Nat.lt_trans h (by decide)), hvalue]
  have hfinite : n < Decimal.infinityBound := Nat.lt_trans h (by decide +kernel)
  have hscaled : (Scaled.ofLiteral { whole := Nat.toDigits 10 n }) = ⟨n, 0⟩ := by
    simp [Scaled.ofLiteral, htaken, takeDigits]
  -- simp passes over the case of a sign by this assumption
  have hunsigned : ∀ r, Nat.toDigits 10 n ≠ '-' :: r := by
    intro r hr
    have hdash : '-' ∈ Nat.toDigits 10 n := by simp [hr]
    exact absurd (Nat.isDigit_of_mem_toDigits (by decide) (by decide) hdash) (by decide)
  simp [isHoldableNumber, readLiteral_toDigits, hscaled, Scaled.isFinite,
    nearestDouble_eq h, nearestDouble_eq (n := 1) (by decide), hfinite, greatestPower]

theorem isHoldable_int {depth : Nat} {i : Int} (h : i.natAbs < Nat.pow 2 53) :
    isHoldable depth (.int i) = true := by
  rw [isHoldable]
  exact isHoldableNumber_toDigits h

theorem isHoldable_int32 {depth : Nat} (o : Int32) : isHoldable depth (.int o.toInt) = true := by
  have hleast := Int32.le_toInt o
  have hgreatest := Int32.toInt_lt o
  have habs : o.toInt.natAbs ≤ 2147483648 := by omega
  exact isHoldable_int (Nat.lt_of_le_of_lt habs (by decide))

end Json

end Metamodel
