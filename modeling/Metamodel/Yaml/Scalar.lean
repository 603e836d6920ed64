import Metamodel.Decimal
import Metamodel.Json.Reader

/-!
# Metamodel.Yaml.Scalar

What a plain scalar may be besides a text: null, a truth value, an integer or a float.
-/

namespace Metamodel
namespace Yaml

def isNullWord (s : String) : Bool := s ∈ ["~", "null", "Null", "NULL"]

def isBoolWord (s : String) : Bool :=
  s ∈ ["true", "True", "TRUE", "false", "False", "FALSE"]

/-! ## Integers -/

def digit? (base : Nat) (c : Char) : Option Nat := (Json.hexDigit? c).filter (· < base)

def digitsOf? (base : Nat) (cs : List Char) : Option Nat :=
  if cs = [] then none
  else cs.foldl (fun n c => do return base * (← n) + (← digit? base c)) (some 0)

/-- Digits with a mark for their base; without a mark they are decimal and have no leading zero. -/
def magnitude? : List Char → Option Nat
  | '0' :: 'x' :: r => digitsOf? 16 r
  | '0' :: 'o' :: r => digitsOf? 8 r
  | '0' :: 'b' :: r => digitsOf? 2 r
  | ['0'] => some 0
  | '0' :: _ => none
  | cs => digitsOf? 10 cs

def unsigned? (s : String) : Option Nat :=
  match s.toList with
  | '+' :: r => magnitude? r
  | cs => magnitude? cs

def negative? (s : String) : Option Nat :=
  match s.toList with
  | '-' :: r => magnitude? r
  | _ => none

def signed? (s : String) : Option Int :=
  match unsigned? s with
  | some n => some n
  | none => (negative? s).map fun n => -(n : Int)

/-- The integers that can be told from texts, those of 128 bits. -/
def isInt (s : String) : Bool :=
  (unsigned? s).any (· < Nat.pow 2 128) || (negative? s).any (· ≤ Nat.pow 2 127)

/-! ## Floats -/

/-- Zeros in front make digits a text. -/
def hasLeadingZeros (s : String) : Bool :=
  let cs := match s.toList with
    | '+' :: r => r
    | '-' :: r => r
    | cs => cs
  cs.length > 1 && cs.head? = some '0' && cs.all Char.isDigit

def infinities : List String :=
  [".inf", ".Inf", ".INF", "+.inf", "+.Inf", "+.INF", "-.inf", "-.Inf", "-.INF"]

def notNumbers : List String := [".nan", ".NaN", ".NAN"]

/-- A literal that a double can hold, or the name of a double that is no number. -/
def isFloat (s : String) : Bool :=
  let cs := match s.toList with
    | '+' :: r => r
    | '-' :: r => r
    | cs => cs
  s ∈ infinities || s ∈ notNumbers
    || (!hasLeadingZeros s && (Decimal.read? cs).any Decimal.isFinite)

/-- A plain scalar that is a text and nothing else. -/
def isWord (s : String) : Bool :=
  s ≠ "" && !isNullWord s && !isBoolWord s && !isInt s && !isFloat s

end Yaml
end Metamodel
