/-!
# Metamodel.Decimal

Decimal literals, and whether a double can hold them.

Only the size of a literal matters here: a literal is finite if rounding it to the nearest double
gives a number and not infinity.
-/

namespace Metamodel

/-- The number `digits * 10 ^ exponent`. -/
structure Decimal where
  digits : Nat
  exponent : Int
deriving DecidableEq

namespace Decimal

def digitsValue (cs : List Char) : Nat :=
  cs.foldl (fun n c => 10 * n + (c.toNat - '0'.toNat)) 0

/-- An exponent: an optional sign and at least one digit, to the end. -/
def readExponent? (cs : List Char) : Option Int :=
  let (negative, ds) :=
    match cs with
    | '-' :: r => (true, r)
    | '+' :: r => (false, r)
    | _ => (false, cs)
  if ds ≠ [] && ds.all Char.isDigit then
    let n : Int := digitsValue ds
    some (if negative then -n else n)
  else none

structure Literal where
  whole : List Char
  fraction : List Char := []
  exponent : Int := 0

/-- Digits with at most one point among or beside them, then perhaps an exponent. -/
def Literal.read? (cs : List Char) : Option Literal :=
  let (whole, r) := cs.span Char.isDigit
  let (fraction, r) :=
    match r with
    | '.' :: r => r.span Char.isDigit
    | _ => ([], r)
  if whole = [] && fraction = [] then none
  else
    match r with
    | [] => some { whole, fraction }
    | e :: r =>
      if e = 'e' || e = 'E' then (readExponent? r).map fun exponent => { whole, fraction, exponent }
      else none

def ofLiteral (l : Literal) : Decimal :=
  ⟨digitsValue (l.whole ++ l.fraction), l.exponent - l.fraction.length⟩

def read? (cs : List Char) : Option Decimal := (Literal.read? cs).map ofLiteral

/-- The least number that rounds to infinity: half a step above the greatest double. -/
def infinityBound : Nat := Nat.pow 2 1024 - Nat.pow 2 970

/-- Does the nearest double exist? Exponents far off the bound are decided without powers. -/
def isFinite (d : Decimal) : Bool :=
  let width : Int := (Nat.toDigits 10 d.digits).length
  if d.digits = 0 || width + d.exponent < 300 then true
  else if width + d.exponent > 320 then false
  else if 0 ≤ d.exponent then d.digits * Nat.pow 10 d.exponent.toNat < infinityBound
  else d.digits < infinityBound * Nat.pow 10 (-d.exponent).toNat

end Decimal

end Metamodel
