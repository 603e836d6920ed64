import Metamodel.Json.Reader
import Metamodel.Yaml.Cell

/-!
# Metamodel.Yaml.Token.Scalar

Scalars in one of the three ways to write them.

* quoted — between single or double quotes, the latter with escapes.
* plain  — without quotes, up to what cannot belong to it.
* block  — indented lines, kept as they are or folded.

Quoted and plain scalars may run over several lines: what stands between two words is a `Gap`, and a
single line break in it reads as a blank. Every reader returns the cells after the scalar; fuel is
the number of cells.
-/

namespace Metamodel
namespace Yaml

/-! ## Gaps -/

/-- What stands between two words. -/
structure Gap where
  /-- Blanks, if there is no line break. -/
  blanks : List Char := []
  isBroken : Bool := false
  firstBreak : List Char := []
  moreBreaks : List Char := []

namespace Gap

/-- What a gap reads as: one line feed is a blank, of several the first is dropped. -/
def text (g : Gap) : List Char :=
  if !g.isBroken then g.blanks
  else if g.firstBreak = ['\n'] then
    if g.moreBreaks = [] then [' '] else g.moreBreaks
  else g.firstBreak ++ g.moreBreaks

/-- Read on in a gap. A tab left of `minColumn` is no indentation. -/
def read (minColumn : Nat) (g : Gap) : List Cell → Option (Gap × List Cell)
  | [] => some (g, [])
  | c :: r =>
    if c.isBlank then
      if !g.isBroken then read minColumn { g with blanks := g.blanks ++ [c.char] } r
      else if c.char = '\t' && c.column < minColumn then none
      else read minColumn g r
    else if c.isBreak then
      if !g.isBroken then
        read minColumn { blanks := [], isBroken := true, firstBreak := [c.char] } r
      else read minColumn { g with moreBreaks := g.moreBreaks ++ [c.char] } r
    else some (g, c :: r)

end Gap

/-! ## Quoted scalars -/

def escaped? : Char → Option Char
  | '0' => some '\x00'
  | 'a' => some '\x07'
  | 'b' => some '\x08'
  | 't' => some '\t'
  | '\t' => some '\t'
  | 'n' => some '\n'
  | 'v' => some '\x0b'
  | 'f' => some '\x0c'
  | 'r' => some '\r'
  | 'e' => some '\x1b'
  | ' ' => some ' '
  | '"' => some '"'
  | '/' => some '/'
  | '\\' => some '\\'
  | 'N' => some '\x85'
  | '_' => some '\xa0'
  | 'L' => some '\u2028'
  | 'P' => some '\u2029'
  | _ => none

/-- Number of hexadecimal digits after an escape letter. -/
def escapeLength? : Char → Option Nat
  | 'x' => some 2
  | 'u' => some 4
  | 'U' => some 8
  | _ => none

def ofCodePoint? (n : Nat) : Option Char :=
  if n.isValidChar then some (Char.ofNat n) else none

/-- The character of an escape sequence, after its backslash. -/
def readEscape (cells : List Cell) : Option (Char × List Cell) :=
  match cells with
  | [] => none
  | e :: r =>
    match escapeLength? e.char with
    | none => (escaped? e.char).map (·, r)
    | some n => do
      let digits := (r.take n).map (·.char)
      if digits.length < n then none
      else return (← ofCodePoint? (← Json.hexValue? digits), r.drop n)

/-- The text of a quoted scalar after its opening quote. -/
def readQuoted (quote : Char) : (fuel : Nat) → List Cell → Option (List Char × List Cell)
  | 0, _ => none
  | fuel + 1, cells =>
    let afterGap (gap : Gap) (r : List Cell) : Option (List Char × List Cell) := do
      let (gap, r) ← gap.read 0 r
      if isDocumentBound r then none
      else
        let (text, r) ← readQuoted quote fuel r
        return (gap.text ++ text, r)
    match cells with
    | [] => none
    | c :: r =>
      if c.isBlank || c.isBreak then afterGap {} (c :: r)
      else if c.char = quote then
        if quote = '\'' && startsWith ['\''] r then do
          let (text, r) ← readQuoted quote fuel (r.drop 1)
          return ('\'' :: text, r)
        else some ([], r)
      else if c.char = '\\' && quote = '"' then
        match r with
        | [] => none
        | e :: r' =>
          if e.isBreak then afterGap { isBroken := true } r'
          else do
            let (x, r) ← readEscape r
            let (text, r) ← readQuoted quote fuel r
            return (x :: text, r)
      else do
        let (text, r) ← readQuoted quote fuel r
        return (c.char :: text, r)

/-! ## Plain scalars -/

def isFlowIndicator (c : Char) : Bool :=
  c = ',' || c = '[' || c = ']' || c = '\x7b' || c = '\x7d'

/-- In a flow collection a colon must not touch what follows it here. -/
def clashesWithColon (c : Cell) : Bool := c.char = '?' || isFlowIndicator c.char

/-- A run of characters that belong to a plain scalar. -/
def readWord (inFlow : Bool) : List Cell → Option (List Char × List Cell)
  | [] => some ([], [])
  | c :: r =>
    if c.isBlank || c.isBreak then some ([], c :: r)
    else if c.char = ':' && inFlow && r.head?.any clashesWithColon then none
    else if c.char = ':' && wordEnds r then some ([], c :: r)
    else if inFlow && isFlowIndicator c.char then some ([], c :: r)
    else (readWord inFlow r).map fun (word, r) => (c.char :: word, r)

structure PlainScalar where
  text : List Char
  /-- Did the scalar end at the beginning of a line? -/
  endsLine : Bool
  rest : List Cell

/-- A plain scalar, `gap` after what has been read of it. Its further lines must be indented to
`minColumn`, except in flow collections. -/
def readPlain (inFlow : Bool) (minColumn : Nat) (gap : Gap) :
    (fuel : Nat) → List Cell → Option PlainScalar
  | 0, _ => none
  | fuel + 1, cells =>
    if isDocumentBound cells || startsWith ['#'] cells then some ⟨[], gap.isBroken, cells⟩
    else do
      let (word, r) ← readWord inFlow cells
      let (lead, gap) : List Char × Gap :=
        if word = [] then ([], gap) else (gap.text ++ word, {})
      match r with
      | [] => return ⟨lead, gap.isBroken, []⟩
      | c :: _ =>
        if !(c.isBlank || c.isBreak) then return ⟨lead, gap.isBroken, r⟩
        else
          let (gap, r) ← gap.read minColumn r
          let outdented := match r with
            | [] => true
            | c :: _ => !inFlow && c.column < minColumn
          if outdented then return ⟨lead, gap.isBroken, r⟩
          else
            let scalar ← readPlain inFlow minColumn gap fuel r
            return { scalar with text := lead ++ scalar.text }

/-! ## Block scalars -/

/-- What becomes of the line breaks at the end of a block scalar. -/
inductive Chomping where
  | strip
  | clip
  | keep
deriving DecidableEq

structure BlockHeader where
  chomping : Chomping := .clip
  /-- Indentation relative to the surrounding block; found out from the text if not given. -/
  increment : Option Nat := none

def chomping? (c : Char) : Option Chomping :=
  if c = '+' then some .keep else if c = '-' then some .strip else none

/-- An indentation indicator: one digit, but not zero. -/
def readIncrement (cells : List Cell) : Option (Option Nat × List Cell) :=
  match cells with
  | [] => some (none, [])
  | c :: r =>
    if c.char = '0' then none
    else if c.char.isDigit then some (some (c.char.toNat - '0'.toNat), r)
    else some (none, c :: r)

def readChomping (cells : List Cell) : Option Chomping × List Cell :=
  match cells with
  | [] => (none, [])
  | c :: r =>
    match chomping? c.char with
    | some x => (some x, r)
    | none => (none, c :: r)

/-- The indicators after `|` or `>`, in either order. -/
def readHeader (cells : List Cell) : Option (BlockHeader × List Cell) :=
  match readChomping cells with
  | (some x, r) => do
    let (increment, r) ← readIncrement r
    return ({ chomping := x, increment }, r)
  | (none, _) => do
    let (increment, r) ← readIncrement cells
    let (x, r) := if increment.isSome then readChomping r else (none, r)
    return ({ chomping := x.getD .clip, increment }, r)

/-- Line breaks and indentation before a line with content, and how deep they reach. With
`indent = 0` the indentation is not known yet. -/
def readBlockGap (indent : Nat) (breaks : List Char) (deepest : Nat) :
    List Cell → Option (List Char × Nat × List Cell)
  | [] => some (breaks, deepest, [])
  | c :: r =>
    let indenting := indent = 0 || c.column < indent
    if indenting && c.char = ' ' then readBlockGap indent breaks deepest r
    else if indenting && c.char = '\t' then none
    else if c.isBreak then readBlockGap indent (breaks ++ [c.char]) (max deepest c.column) r
    else some (breaks, max deepest c.column, c :: r)

/-- What has been read of a block scalar: its text, and the line breaks that follow it. -/
structure BlockText where
  text : List Char := []
  /-- The break that ends the last line. -/
  lastBreak : List Char := []
  moreBreaks : List Char := []
  /-- Did the last line begin with a blank? Such lines are not folded. -/
  isSpaced : Bool := false

namespace BlockText

def addLine (b : BlockText) (folding : Bool) (line lineBreak breaks : List Char) : BlockText :=
  let spaced := line.head?.any fun c => c = ' ' || c = '\t'
  let joint :=
    if folding && b.lastBreak = ['\n'] && !b.isSpaced && !spaced then
      if b.moreBreaks = [] then [' '] else b.moreBreaks
    else b.lastBreak ++ b.moreBreaks
  { text := b.text ++ joint ++ line, lastBreak := lineBreak, moreBreaks := breaks,
    isSpaced := spaced }

def chomp (b : BlockText) : Chomping → List Char
  | .strip => b.text
  | .clip => b.text ++ b.lastBreak
  | .keep => b.text ++ b.lastBreak ++ b.moreBreaks

end BlockText

def readBlockLines (folding : Bool) (indent : Nat) :
    (fuel : Nat) → BlockText → List Cell → Option (BlockText × List Cell)
  | 0, _, _ => none
  | fuel + 1, b, cells =>
    match cells with
    | [] => some (b, [])
    | c :: _ =>
      if c.column ≠ indent then some (b, cells)
      else do
        let (line, r) := cells.span (!·.isBreak)
        let lineBreak := (r.take 1).map (·.char)
        let (breaks, _, r) ← readBlockGap indent [] 0 (r.drop 1)
        readBlockLines folding indent fuel
          (b.addLine folding (line.map (·.char)) lineBreak breaks) r

/-- The text of a block scalar after its `|` or `>`, within a block indented to `outer`, if it is
within one. -/
def readBlock (folding : Bool) (outer : Option Nat) (fuel : Nat) (cells : List Cell) :
    Option (List Char × List Cell) := do
  let (header, r) ← readHeader cells
  let r ← skipLineEnd? r
  let given := match header.increment with
    | none => 0
    | some n => outer.getD 0 + n
  let (breaks, deepest, r) ← readBlockGap given [] 0 r
  let least := match outer with
    | none => 1
    | some n => n + 1
  let indent := if given = 0 then max deepest least else given
  let (b, r) ← readBlockLines folding indent fuel { moreBreaks := breaks } r
  return (b.chomp header.chomping, r)

end Yaml
end Metamodel
