import Metamodel.Json.Reader
import Metamodel.Yaml.Cell
import Metamodel.Yaml.Token

/-!
# Metamodel.Yaml.Token.Property

Anchors, aliases, tags, and the directives before a document.
-/

namespace Metamodel
namespace Yaml

def textOf (cells : List Cell) : String := String.ofList (cells.map (·.char))

/-- Characters that may follow the name of an anchor directly. -/
def endsAnchor (cells : List Cell) : Bool :=
  wordEnds cells ||
    cells.head?.any fun c => c.char ∈ ['?', ':', ',', ']', '\x7d', '%', '@', '\x60']

/-- The name of an anchor or alias, after its mark. -/
def readAnchorName (cells : List Cell) : Option (String × List Cell) :=
  let (name, r) := cells.span Cell.isNameChar
  if name ≠ [] && endsAnchor r then some (textOf name, r) else none

/-! ## Tags -/

def isUriChar (brackets : Bool) (c : Cell) : Bool :=
  c.isNameChar
    || c.char ∈ [';', '/', '?', ':', '@', '&', '=', '+', '$', '.', '!', '~', '*', '\'', '(', ')']
    || (brackets && c.char ∈ [',', '[', ']'])

/-- How many bytes the first byte of a character announces, itself included. -/
def byteCount? (b : UInt8) : Option Nat :=
  if b < 0x80 then some 1
  else if b < 0xC0 then none
  else if b < 0xE0 then some 2
  else if b < 0xF0 then some 3
  else if b < 0xF8 then some 4
  else none

/-- How many escaped bytes are due after one more of them. The first byte of a character announces
the others; no more is asked of them than that they are no first bytes. -/
def dueAfter? (due : Nat) (b : UInt8) : Option Nat :=
  match due with
  | 0 => (byteCount? b).map (· - 1)
  | due + 1 => if 0x80 ≤ b && b < 0xC0 then some due else none

/-- The bytes of a tag up to where it ends, while so many escaped bytes are due. -/
def readUriBytes (brackets : Bool) (due : Nat) : List Cell → Option (List UInt8 × List Cell)
  | c :: a :: b :: r =>
    if c.char = '%' then do
      let x := UInt8.ofNat (← Json.hexValue? [a.char, b.char])
      let (bytes, r) ← readUriBytes brackets (← dueAfter? due x) r
      return (x :: bytes, r)
    else if due ≠ 0 then none
    else if isUriChar brackets c then do
      let (bytes, r) ← readUriBytes brackets 0 (a :: b :: r)
      return (c.char.toUInt8 :: bytes, r)
    else some ([], c :: a :: b :: r)
  | c :: r =>
    if c.char = '%' || due ≠ 0 then none
    else if isUriChar brackets c then do
      let (bytes, r) ← readUriBytes brackets 0 r
      return (c.char.toUInt8 :: bytes, r)
    else some ([], c :: r)
  | [] => if due ≠ 0 then none else some ([], [])

/-- The rest of a tag after what has been read of it, all in all at least one byte. -/
def readUri (brackets : Bool) (head : List UInt8) (cells : List Cell) :
    Option (Tag × List Cell) := do
  let (bytes, r) ← readUriBytes brackets 0 cells
  if head = [] && bytes = [] then none else return (.ofBytes (head ++ bytes), r)

/-- A handle: `!`, or a name between two of them. In other places than a directive a single one may
be followed by a name. -/
def readHandle (cells : List Cell) : Option (String × List Cell) :=
  match cells with
  | [] => none
  | c :: r =>
    if c.char ≠ '!' then none
    else
      let (name, r) := r.span Cell.isNameChar
      if startsWith ['!'] r then some ("!" ++ textOf name ++ "!", r.drop 1)
      else some ("!" ++ textOf name, r)

def isClosedHandle (handle : String) : Bool := handle.length > 1 && handle.endsWith "!"

def readTagParts (cells : List Cell) : Option (String × Tag × List Cell) :=
  if startsWith ['!', '<'] cells then do
    let (uri, r) ← readUri true [] (cells.drop 2)
    if startsWith ['>'] r then return ("", uri, r.drop 1) else none
  else do
    let (handle, r) ← readHandle cells
    if isClosedHandle handle then
      let (suffix, r) ← readUri false [] r
      return (handle, suffix, r)
    else
      let (whole, r) ← readUri false handle.toUTF8.toList r
      if whole = .bare then return ("", .bare, r)
      else return ("!", ⟨whole.bytes.drop 1⟩, r)

def readTag (inFlow : Bool) (cells : List Cell) : Option (Token × List Cell) := do
  let (handle, suffix, r) ← readTagParts cells
  if wordEnds r || (inFlow && startsWith [','] r) then return (.tag handle suffix, r) else none

/-! ## Directives -/

/-- A version number has at most nine digits. -/
def readVersionNumber (cells : List Cell) : Option (Nat × List Cell) :=
  let (digits, r) := cells.span (·.char.isDigit)
  if digits = [] || digits.length > 9 then none
  else some (Decimal.digitsValue (digits.map (·.char)), r)

def readVersion (cells : List Cell) : Option (Token × List Cell) := do
  let (major, r) ← readVersionNumber (skipBlanks cells)
  if !startsWith ['.'] r then none
  else
    let (minor, r) ← readVersionNumber (r.drop 1)
    return (.versionDirective major minor, r)

def readTagRule (cells : List Cell) : Option (Token × List Cell) := do
  let (handle, r) ← readHandle (skipBlanks cells)
  if handle ≠ "!" && !isClosedHandle handle then none
  else if !(r.head?.any Cell.isBlank) then none
  else
    let (lead, r) ← readUri true [] (skipBlanks r)
    if wordEnds r then return (.tagDirective handle lead, r) else none

/-- A directive after its percent sign, with the line that holds it. -/
def readDirective (cells : List Cell) : Option (Token × List Cell) := do
  let (name, r) := cells.span Cell.isNameChar
  if !wordEnds r then none
  else
    let (token, r) ←
      if textOf name = "YAML" then readVersion r
      else if textOf name = "TAG" then readTagRule r
      else none
    return (token, ← skipLineEnd? r)

end Yaml
end Metamodel
