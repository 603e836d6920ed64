import Metamodel.Json
import Metamodel.Json.Number

/-!
# Metamodel.Json.Reader

Reading JSON text.

`Json.parse?` accepts one value with blanks around it and nothing else. Every reader takes the
characters that are left and returns those after what it has read.
-/

namespace Metamodel
namespace Json

def isBlank (c : Char) : Bool := c = ' ' || c = '\n' || c = '\t' || c = '\r'

def skipBlank (cs : List Char) : List Char := cs.dropWhile isBlank

/-! ## Strings -/

/-- What a string is written with: characters, and escaped 16-bit units. -/
inductive Piece where
  | char (c : Char)
  | unit (n : Nat)

def hexDigit? (c : Char) : Option Nat :=
  if c.isDigit then some (c.toNat - '0'.toNat)
  else if 'a' ≤ c && c ≤ 'f' then some (c.toNat - 'a'.toNat + 10)
  else if 'A' ≤ c && c ≤ 'F' then some (c.toNat - 'A'.toNat + 10)
  else none

def hexValue? (cs : List Char) : Option Nat :=
  cs.foldl (fun n c => do return 16 * (← n) + (← hexDigit? c)) (some 0)

def escaped? : Char → Option Char
  | '"' => some '"'
  | '\\' => some '\\'
  | '/' => some '/'
  | 'b' => some '\x08'
  | 'f' => some '\x0c'
  | 'n' => some '\n'
  | 'r' => some '\r'
  | 't' => some '\t'
  | _ => none

/-- The pieces of a string up to its closing quote. Control characters must be escaped. -/
def readPieces : List Char → Option (List Piece × List Char)
  | [] => none
  | '"' :: r => some ([], r)
  | '\\' :: 'u' :: a :: b :: c :: d :: r => do
    let n ← hexValue? [a, b, c, d]
    let (ps, r) ← readPieces r
    return (.unit n :: ps, r)
  | '\\' :: e :: r => do
    let c ← escaped? e
    let (ps, r) ← readPieces r
    return (.char c :: ps, r)
  | c :: r =>
    if c < ' ' then none
    else do
      let (ps, r) ← readPieces r
      return (.char c :: ps, r)

def isHighSurrogate (n : Nat) : Bool := 0xD800 ≤ n && n < 0xDC00

def isLowSurrogate (n : Nat) : Bool := 0xDC00 ≤ n && n < 0xE000

/-- The characters of a string; none if a surrogate has no partner. -/
def joinPieces : List Piece → Option (List Char)
  | [] => some []
  | .char c :: ps => (joinPieces ps).map (c :: ·)
  | .unit n :: .unit m :: ps =>
    if isHighSurrogate n then
      if isLowSurrogate m then
        (joinPieces ps).map
          (Char.ofNat (0x10000 + 0x400 * (n - 0xD800) + (m - 0xDC00)) :: ·)
      else none
    else if isLowSurrogate n then none
    else (joinPieces (.unit m :: ps)).map (Char.ofNat n :: ·)
  | .unit n :: ps =>
    if isHighSurrogate n || isLowSurrogate n then none
    else (joinPieces ps).map (Char.ofNat n :: ·)

/-- The text of a string after its opening quote; the text is absent if it has no characters. -/
def readString (cs : List Char) : Option (Option String × List Char) := do
  let (ps, r) ← readPieces cs
  return ((joinPieces ps).map String.ofList, r)

/-! ## Numbers -/

/-- Digits of an integer: at least one, and no leading zero. -/
def readWhole (cs : List Char) : Option (List Char × List Char) :=
  match cs.span Char.isDigit with
  | ([], _) => none
  | ('0' :: _ :: _, _) => none
  | (ds, r) => some (ds, r)

def readFraction (cs : List Char) : Option (List Char × List Char) :=
  match cs with
  | '.' :: r =>
    match r.span Char.isDigit with
    | ([], _) => none
    | (ds, r) => some ('.' :: ds, r)
  | _ => some ([], cs)

def readExponent (cs : List Char) : Option (List Char × List Char) :=
  match cs with
  | [] => some ([], [])
  | e :: r =>
    if e = 'e' || e = 'E' then
      let (sign, r) :=
        match r with
        | '+' :: r => (['+'], r)
        | '-' :: r => (['-'], r)
        | _ => ([], r)
      match r.span Char.isDigit with
      | ([], _) => none
      | (ds, r) => some (e :: sign ++ ds, r)
    else some ([], cs)

def readNumber (cs : List Char) : Option (Json × List Char) := do
  let (sign, r) :=
    match cs with
    | '-' :: r => (['-'], r)
    | _ => ([], cs)
  let (whole, r) ← readWhole r
  let (fraction, r) ← readFraction r
  let (exponent, r) ← readExponent r
  let n : Int := Decimal.digitsValue whole
  if fraction = [] && exponent = [] && !(sign ≠ [] && n = 0) then
    return (.int (if sign = [] then n else -n), r)
  else
    return (.real (String.ofList (sign ++ whole ++ fraction ++ exponent)), r)

/-! ## Values -/

def expect? (word : List Char) (cs : List Char) : Option (List Char) :=
  if word.isPrefixOf cs then some (cs.drop word.length) else none

/-- Entries read so far make an object, unless a key among them has no characters. -/
def objectOf (entries : List (Option String × Json)) : Json :=
  match entries.mapM (fun e => e.1.map (·, e.2)) with
  | some es => .obj es
  | none => .broken

mutual

/-- A value at the head of the text. Every nested value costs a character, so the length of the
text is fuel enough. -/
def readValue : (fuel : Nat) → List Char → Option (Json × List Char)
  | 0, _ => none
  | fuel + 1, cs =>
    match cs with
    | 'n' :: _ => (expect? ['n', 'u', 'l', 'l'] cs).map (.null, ·)
    | 't' :: _ => (expect? ['t', 'r', 'u', 'e'] cs).map (.bool true, ·)
    | 'f' :: _ => (expect? ['f', 'a', 'l', 's', 'e'] cs).map (.bool false, ·)
    | '"' :: r => (readString r).map fun (s, r) => ((s.map Json.str).getD .broken, r)
    | '[' :: r =>
      match skipBlank r with
      | ']' :: r => some (.arr [], r)
      | r => (readItems fuel r).map fun (js, r) => (.arr js, r)
    | '\x7b' :: r =>
      match skipBlank r with
      | '\x7d' :: r => some (.obj [], r)
      | r => (readEntries fuel r).map fun (es, r) => (objectOf es, r)
    | _ => readNumber cs

/-- Items up to the closing bracket, at least one. -/
def readItems : (fuel : Nat) → List Char → Option (List Json × List Char)
  | 0, _ => none
  | fuel + 1, cs => do
    let (j, r) ← readValue fuel cs
    match skipBlank r with
    | ']' :: r => return ([j], r)
    | ',' :: r =>
      let (js, r) ← readItems fuel (skipBlank r)
      return (j :: js, r)
    | _ => none

/-- Entries up to the closing brace, at least one. -/
def readEntries : (fuel : Nat) → List Char → Option (List (Option String × Json) × List Char)
  | 0, _ => none
  | fuel + 1, cs =>
    match cs with
    | '"' :: r => do
      let (key, r) ← readString r
      match skipBlank r with
      | ':' :: r =>
        let (j, r) ← readValue fuel (skipBlank r)
        match skipBlank r with
        | '\x7d' :: r => return ([(key, j)], r)
        | ',' :: r =>
          let (es, r) ← readEntries fuel (skipBlank r)
          return ((key, j) :: es, r)
        | _ => none
      | _ => none
    | _ => none

end

/-- The value that a text holds, if it holds exactly one. -/
def parse? (text : String) : Option Json := do
  let cs := skipBlank text.toList
  let (j, r) ← readValue (cs.length + 1) cs
  if skipBlank r = [] then return j else none

/-! ## Values that can be held -/

mutual

/-- Can a value be held as a whole, nested at most `depth` levels deep? Text without characters
and numbers beyond the doubles cannot. -/
def isHoldable (depth : Nat) : Json → Bool
  | .int i => isHoldableNumber (Nat.toDigits 10 i.natAbs)
  | .real literal => isHoldableNumber literal.toList
  | .arr items => 0 < depth && areHoldableItems (depth - 1) items
  | .obj entries => 0 < depth && areHoldableEntries (depth - 1) entries
  | .broken => false
  | _ => true

def areHoldableItems (depth : Nat) : List Json → Bool
  | [] => true
  | j :: js => isHoldable depth j && areHoldableItems depth js

def areHoldableEntries (depth : Nat) : List (String × Json) → Bool
  | [] => true
  | (_, j) :: es => isHoldable depth j && areHoldableEntries depth es

end

/-- The deepest nesting that is read when a value has to be held before it is understood. -/
def nestingLimit : Nat := 127

end Json
end Metamodel
