import Metamodel.Decimal

/-!
# Metamodel.Json.Number

Which numbers a value can hold.

A number is held as a double, found in two steps: the first digits of its literal, as many as fit
64 bits, are rounded to a double, and this is scaled by the double of a power of ten. So next to the
greatest double a literal may be too great although the number it stands for is not.
-/

namespace Metamodel
namespace Json

/-- The number `significand * 10 ^ exponent`. -/
structure Scaled where
  significand : Nat
  exponent : Int

/-- Put digits behind a number while it stays below `2 ^ 64`; returns the digits that are left. -/
def takeDigits (n : Nat) : List Char → Nat × List Char
  | [] => (n, [])
  | c :: cs =>
    let next := Decimal.digitsValue [c] + 10 * n
    if next < Nat.pow 2 64 then takeDigits next cs else (n, c :: cs)

/-- Digits that do not fit any more only count, and those of the fraction are tried again. -/
def Scaled.ofLiteral (l : Decimal.Literal) : Scaled :=
  let (n, whole) := takeDigits 0 l.whole
  let (n, fraction) := takeDigits n l.fraction
  ⟨n, l.exponent + whole.length - (l.fraction.length - fraction.length)⟩

/-- The nearest number with at most 53 significant bits, as a double has. A tie goes to the even
one. -/
def nearestDouble (n : Nat) : Nat :=
  let unit := Nat.pow 2 (Nat.log2 n + 1 - 53)
  let q := n / unit
  let r := n % unit
  if unit < 2 * r || (unit = 2 * r && q % 2 = 1) then (q + 1) * unit else q * unit

/-- The greatest power of ten that numbers are scaled by in one step. -/
def greatestPower : Nat := 308

/-- Is the scaled number a double? Numbers that are scaled down are. -/
def Scaled.isFinite (s : Scaled) : Bool :=
  s.significand = 0 || s.exponent < 0
    || (s.exponent ≤ greatestPower
      && nearestDouble s.significand * nearestDouble (Nat.pow 10 s.exponent.toNat)
        < Decimal.infinityBound)

/-- Can a number be held? Its literal may have a sign in front. -/
def isHoldableNumber (literal : List Char) : Bool :=
  let unsigned := match literal with
    | '-' :: r => r
    | _ => literal
  (Decimal.Literal.read? unsigned).any fun l => (Scaled.ofLiteral l).isFinite

end Json
end Metamodel
