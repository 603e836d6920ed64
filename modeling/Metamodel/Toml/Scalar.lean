import Metamodel.Decimal
import Metamodel.Json.Reader

/-!
# Metamodel.Toml.Scalar

Values of a TOML document that are written without quotes: truth values, integers, floats, dates
and times. Settings have no use for any of them, so only their form is checked.
-/

namespace Metamodel
namespace Toml

/-- Digits, with single underscores between them. -/
def isGrouped (p : Char → Bool) : List Char → Bool
  | [] => false
  | [c] => p c
  | c :: '_' :: r => p c && isGrouped p r
  | c :: r => p c && isGrouped p r

def ungrouped (cs : List Char) : List Char := cs.filter (· ≠ '_')

def signed (cs : List Char) : Bool × List Char :=
  match cs with
  | '-' :: r => (true, r)
  | '+' :: r => (false, r)
  | _ => (false, cs)

/-! ## Numbers -/

/-- Decimal digits without a leading zero. -/
def isWhole (cs : List Char) : Bool :=
  cs = ['0'] || (cs.head? ≠ some '0' && isGrouped Char.isDigit cs)

/-- Digits of a base whose value fits 63 bits. -/
def isBased (base : Nat) (cs : List Char) : Bool :=
  isGrouped (fun c => (Json.hexDigit? c).any (· < base)) cs
    && (ungrouped cs).foldl (fun n c => base * n + (Json.hexDigit? c).getD 0) 0 < Nat.pow 2 63

/-- An integer of 64 bits; a mark for the base admits no sign. -/
def isInteger (cs : List Char) : Bool :=
  match cs with
  | '0' :: 'x' :: r => isBased 16 r
  | '0' :: 'o' :: r => isBased 8 r
  | '0' :: 'b' :: r => isBased 2 r
  | _ =>
    let (negative, ds) := signed cs
    let n := Decimal.digitsValue (ungrouped ds)
    isWhole ds && (if negative then n ≤ Nat.pow 2 63 else n < Nat.pow 2 63)

def isExponent (cs : List Char) : Bool :=
  match cs with
  | [] => false
  | e :: r => (e = 'e' || e = 'E') && isGrouped Char.isDigit (signed r).2

def isFloatForm (cs : List Char) : Bool :=
  let (whole, r) := cs.span fun c => c.isDigit || c = '_'
  isWhole whole &&
    match r with
    | '.' :: r =>
      let (fraction, r) := r.span fun c => c.isDigit || c = '_'
      isGrouped Char.isDigit fraction && (r = [] || isExponent r)
    | _ => isExponent r

/-- A float is not too great for a double, or one of the values that have names. -/
def isFloat (cs : List Char) : Bool :=
  let (negative, r) := signed cs
  r = ['i', 'n', 'f'] || r = ['n', 'a', 'n']
    || (isFloatForm r && (negative || (Decimal.read? (ungrouped r)).any Decimal.isFinite))

/-! ## Dates and times -/

def digits? (width : Nat) (cs : List Char) : Option Nat :=
  if cs.length = width && cs.all Char.isDigit then some (Decimal.digitsValue cs) else none

def isLeapYear (y : Nat) : Bool := y % 4 = 0 && (y % 100 ≠ 0 || y % 400 = 0)

def daysInMonth (y m : Nat) : Nat :=
  if m = 2 then if isLeapYear y then 29 else 28
  else if m ∈ [4, 6, 9, 11] then 30
  else 31

def isDate : List Char → Bool
  | [y1, y2, y3, y4, '-', m1, m2, '-', d1, d2] =>
    match digits? 4 [y1, y2, y3, y4], digits? 2 [m1, m2], digits? 2 [d1, d2] with
    | some y, some m, some d => 1 ≤ m && m ≤ 12 && 1 ≤ d && d ≤ daysInMonth y m
    | _, _, _ => false
  | _ => false

def isClock : List Char → Bool
  | [h1, h2, ':', m1, m2] =>
    (digits? 2 [h1, h2]).any (· ≤ 23) && (digits? 2 [m1, m2]).any (· ≤ 59)
  | _ => false

/-- A time of day: with seconds, perhaps with a fraction. A leap second counts as the sixtieth. -/
def isTime (cs : List Char) : Bool :=
  isClock (cs.take 5) &&
    match cs.drop 5 with
    | ':' :: s1 :: s2 :: r =>
      (digits? 2 [s1, s2]).any (· ≤ 60) &&
        match r with
        | [] => true
        | '.' :: f => f ≠ [] && f.all Char.isDigit
        | _ => false
    | _ => false

def isOffset : List Char → Bool
  | ['Z'] => true
  | ['z'] => true
  | '+' :: r => isClock r
  | '-' :: r => isClock r
  | _ => false

/-- A time of day that may be followed by an offset. -/
def isZonedTime (cs : List Char) : Bool :=
  let (time, r) := cs.span fun c => c.isDigit || c = ':' || c = '.'
  isTime time && (r = [] || isOffset r)

def isDateTime (cs : List Char) : Bool :=
  isTime cs || isDate cs ||
    (isDate (cs.take 10) &&
      match cs.drop 10 with
      | d :: r => (d = 'T' || d = 't' || d = ' ') && isZonedTime r
      | [] => false)

/-! ## Reading -/

def isScalarChar (c : Char) : Bool := c.isAlphanum || c ∈ ['_', '+', '-', '.', ':']

/-- A date may be set off from a time by one blank. -/
def readWord (cs : List Char) : List Char × List Char :=
  let (word, r) := cs.span isScalarChar
  match r with
  | ' ' :: d :: r' =>
    if isDate word && d.isDigit then
      let (time, r) := (d :: r').span isScalarChar
      (word ++ ' ' :: time, r)
    else (word, r)
  | _ => (word, r)

def skipScalar? (cs : List Char) : Option (List Char) :=
  let (word, r) := readWord cs
  if word = ['t', 'r', 'u', 'e'] || word = ['f', 'a', 'l', 's', 'e'] || isInteger word
      || isFloat word || isDateTime word then some r
  else none

end Toml
end Metamodel
