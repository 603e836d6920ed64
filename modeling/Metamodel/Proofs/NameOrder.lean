import Mathlib.Tactic.SplitIfs
import Metamodel.NameSet

/-!
# Metamodel.Proofs.NameOrder

Names are ordered by their bytes.

* `Ascending` — encodings of numbers that compare as the numbers do.
* `name_lt_iff` — a name comes before another one if its bytes in UTF-8 do.
-/

namespace Metamodel

/-- The bytes of a name in UTF-8. -/
def nameBytes (n : String) : List UInt8 := n.toUTF8.data.toList

theorem nameBytes_eq (n : String) : nameBytes n = n.toList.flatMap String.utf8EncodeChar := by
  rw [nameBytes, String.toUTF8, ← String.utf8Encode_toList, List.utf8Encode,
    List.data_toByteArray]

/-! ## Code points -/

/-- Encodings of the numbers below a bound compare as the numbers do, whatever comes after them. -/
structure Ascending (bound : Nat) (f : Nat → List UInt8) : Prop where
  append_lt : ∀ {v w} (xs ys : List UInt8), v < w → w < bound → f v ++ xs < f w ++ ys

theorem ofNat_cons_lt {a b : Nat} {xs ys : List UInt8} (h : a < b) (hb : b < 256) :
    UInt8.ofNat a :: xs < UInt8.ofNat b :: ys := by
  refine List.cons_lt_cons_iff.mpr (.inl ?_)
  rw [UInt8.lt_iff_toNat_lt, UInt8.toNat_ofNat', UInt8.toNat_ofNat']
  omega

/-- The lead byte of a longer encoding. -/
theorem ascending_lead {bound k : Nat} (h : bound + k ≤ 256) :
    Ascending bound fun v => [UInt8.ofNat (v % bound + k)] where
  append_lt {v w} xs ys hvw hw := by
    have hv : v % bound = v := Nat.mod_eq_of_lt (Nat.lt_trans hvw hw)
    have hw' : w % bound = w := Nat.mod_eq_of_lt hw
    rw [hv, hw']
    exact ofNat_cons_lt (by omega) (by omega)

/-- One more byte holds six more bits. -/
theorem Ascending.next {bound : Nat} {f : Nat → List UInt8} (hf : Ascending bound f) :
    Ascending (bound * 64) fun v => f (v / 64) ++ [UInt8.ofNat (v % 64 + 128)] where
  append_lt {v w} xs ys hvw hw := by
    rw [List.append_assoc, List.append_assoc]
    have hle : v / 64 ≤ w / 64 := Nat.div_le_div_right (Nat.le_of_lt hvw)
    rcases Nat.lt_or_eq_of_le hle with hlt | heq
    · exact hf.append_lt _ _ hlt (by omega)
    · rw [heq]
      exact List.append_left_lt (ofNat_cons_lt (by omega) (by omega))

theorem encode_lt {c d : Char} (h : c < d) (xs ys : List UInt8) :
    String.utf8EncodeChar c ++ xs < String.utf8EncodeChar d ++ ys := by
  have hcd : c.val.toNat < d.val.toNat := h
  have hd : d.val.toNat < 0x110000 := by
    rcases d.valid with hd | hd
    · exact Nat.lt_trans hd (by decide)
    · exact hd.2
  have two : Ascending 0x800 _ := (ascending_lead (k := 192) (by decide : 32 + 192 ≤ 256)).next
  have three : Ascending 0x10000 _ :=
    (ascending_lead (k := 224) (by decide : 16 + 224 ≤ 256)).next.next
  have four : Ascending 0x200000 _ :=
    (ascending_lead (k := 240) (by decide : 8 + 240 ≤ 256)).next.next.next
  simp only [Nat.div_div_eq_div_mul, Nat.reduceMul, List.cons_append, List.nil_append]
    at two three four
  simp only [String.utf8EncodeChar]
  generalize c.val.toNat = v at hcd
  generalize d.val.toNat = w at hcd hd
  -- encodings of one length compare byte by byte, others by their lead bytes
  split_ifs
  all_goals try omega
  all_goals try exact ofNat_cons_lt (by omega) (by omega)
  · exact two.append_lt xs ys hcd (by omega)
  · exact three.append_lt xs ys hcd (by omega)
  · exact four.append_lt xs ys hcd (by omega)

/-! ## Names -/

theorem flatMap_encode_lt {cs ds : List Char} (h : cs < ds) :
    cs.flatMap String.utf8EncodeChar < ds.flatMap String.utf8EncodeChar := by
  induction h with
  | @nil d ds =>
    rw [List.flatMap_nil, List.flatMap_cons]
    cases hd : String.utf8EncodeChar d with
    | nil => exact absurd hd String.utf8EncodeChar_ne_nil
    | cons b bs => exact List.nil_lt_cons _ _
  | rel h => exact encode_lt h _ _
  | cons h ih =>
    rw [List.flatMap_cons, List.flatMap_cons]
    exact List.append_left_lt ih

theorem name_lt_iff {n k : String} : n < k ↔ nameBytes n < nameBytes k := by
  have hbytes : ∀ {n k : String}, n < k → nameBytes n < nameBytes k := by
    intro n k h
    rw [nameBytes_eq, nameBytes_eq]
    exact flatMap_encode_lt (String.lt_iff.mp h)
  refine ⟨hbytes, fun h => Classical.byContradiction fun hnk => ?_⟩
  by_cases hkn : n = k
  · subst hkn
    exact List.lt_irrefl _ h
  · exact List.lt_irrefl _ (List.lt_trans h (hbytes (name_lt_of_not_lt hnk hkn)))

end Metamodel
