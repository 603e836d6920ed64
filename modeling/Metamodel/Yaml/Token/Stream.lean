import Metamodel.Yaml.Token.Property
import Metamodel.Yaml.Token.Scalar

/-!
# Metamodel.Yaml.Token.Stream

From cells to tokens.

A mapping key shows only afterwards, by the colon behind it. So each place where a key may begin is
remembered as a candidate, and when its colon is met, the tokens that open the key (and the mapping,
where this is its first key) are put in front of it. A candidate is given up when its line ends or
after 1024 bytes; one that could be nothing but a key is an error then.
-/

namespace Metamodel
namespace Yaml

/-- A place where a mapping key may have begun. -/
structure Candidate where
  /-- At the indentation of the block only a key can stand. -/
  isRequired : Bool
  position : Nat
  cell : Cell

/-- How many bytes the colon of a key may be from its beginning. -/
def keyReach : Nat := 1024

structure Stream where
  rest : List Cell
  tokens : Array Token := #[]
  /-- Columns of the open blocks, the innermost first. -/
  indents : List Nat := []
  /-- The candidate of every open flow collection, the innermost first. -/
  flow : List (Option Candidate) := []
  /-- The candidate outside of flow collections. -/
  outer : Option Candidate := none
  keyAllowed : Bool := true

namespace Stream

def inFlow (s : Stream) : Bool := !s.flow.isEmpty

/-- The candidate that a colon here would refer to. -/
def candidate (s : Stream) : Option Candidate :=
  match s.flow with
  | [] => s.outer
  | k :: _ => k

def setCandidate (s : Stream) (k : Option Candidate) : Stream :=
  match s.flow with
  | [] => { s with outer := k }
  | _ :: ks => { s with flow := k :: ks }

def emit (s : Stream) (t : Token) : Stream := { s with tokens := s.tokens.push t }

/-- Put a token in front of those from a position on. -/
def emitAt (s : Stream) (position : Nat) (t : Token) : Stream :=
  { s with tokens := s.tokens.insertIdxIfInBounds position t }

/-- Emit a token for the next `n` cells. -/
def take (s : Stream) (n : Nat) (t : Token) : Stream := { s.emit t with rest := s.rest.drop n }

/-! ## Candidates -/

/-- Give up the candidate of the current collection. -/
def dropCandidate (s : Stream) : Option Stream :=
  if s.candidate.any (·.isRequired) then none else some (s.setCandidate none)

def saveCandidate (s : Stream) (here : Cell) : Option Stream :=
  if !s.keyAllowed then some s
  else do
    let required := !s.inFlow && s.indents.head? = some here.column
    return (← s.dropCandidate).setCandidate (some ⟨required, s.tokens.size, here⟩)

def isStale (here : Cell) (k : Candidate) : Bool :=
  k.cell.line < here.line || k.cell.offset + keyReach < here.offset

def dropStale (s : Stream) (here : Cell) : Option Stream :=
  let fresh (k : Option Candidate) : Option Candidate := k.filter (!isStale here ·)
  if s.outer.any (fun k => k.isRequired && isStale here k) then none
  else some { s with outer := fresh s.outer, flow := s.flow.map fresh }

/-! ## Blocks -/

/-- Close the blocks that are indented deeper than a column. -/
def closeBlocks (column : Option Nat) : List Nat → Array Token → List Nat × Array Token
  | [], ts => ([], ts)
  | i :: is, ts =>
    if column.all (· < i) then closeBlocks column is (ts.push .blockEnd) else (i :: is, ts)

/-- Return to a column, or out of all blocks. Flow collections know no indentation. -/
def outdent (s : Stream) (column : Option Nat) : Stream :=
  if s.inFlow then s
  else
    let (indents, tokens) := closeBlocks column s.indents s.tokens
    { s with indents, tokens }

/-- Open a block at a column that is deeper than the current one. -/
def indent (s : Stream) (column position : Nat) (opening : Token) : Stream :=
  if s.inFlow || s.indents.head?.any (column ≤ ·) then s
  else { s.emitAt position opening with indents := column :: s.indents }

/-! ## Steps -/

/-- Blanks, comments and line breaks before a token. After a line break a key may begin; there tabs
are no blanks. Every line may begin with a byte order mark, which counts as a column. -/
def skipGap (inFlow inComment keyAllowed : Bool) : List Cell → List Cell × Bool
  | [] => ([], keyAllowed)
  | c :: r =>
    if c.isBreak then skipGap inFlow false (keyAllowed || !inFlow) r
    else if inComment then skipGap inFlow true keyAllowed r
    else if c.char = ' ' || (c.char = '\t' && (inFlow || !keyAllowed)) then
      skipGap inFlow false keyAllowed r
    else if c.char = '#' then skipGap inFlow true keyAllowed r
    else if c.char = byteOrderMark && c.column = 0 then skipGap inFlow false keyAllowed r
    else (c :: r, keyAllowed)

/-- A line that belongs to no block. -/
def boundary (s : Stream) : Option Stream := do
  return { ← (s.outdent none).dropCandidate with keyAllowed := false }

def openFlow (s : Stream) (here : Cell) (t : Token) : Option Stream := do
  let s ← s.saveCandidate here
  return { s.take 1 t with flow := none :: s.flow, keyAllowed := true }

def closeFlow (s : Stream) (t : Token) : Option Stream := do
  let s ← s.dropCandidate
  return { s.take 1 t with flow := s.flow.drop 1, keyAllowed := false }

def entry (s : Stream) (here : Cell) : Option Stream :=
  if !s.inFlow && !s.keyAllowed then none
  else do
    let s ← (s.indent here.column s.tokens.size .blockSequenceStart).dropCandidate
    return { s.take 1 .blockEntry with keyAllowed := true }

def key (s : Stream) (here : Cell) : Option Stream :=
  if !s.inFlow && !s.keyAllowed then none
  else do
    let s ← (s.indent here.column s.tokens.size .blockMappingStart).dropCandidate
    return { s.take 1 .key with keyAllowed := !s.inFlow }

def value (s : Stream) (here : Cell) : Option Stream :=
  match s.candidate with
  | some k =>
    let s := (s.emitAt k.position .key).indent k.cell.column k.position .blockMappingStart
    some { (s.setCandidate none).take 1 .value with keyAllowed := false }
  | none =>
    if !s.inFlow && !s.keyAllowed then none
    else
      let s := s.indent here.column s.tokens.size .blockMappingStart
      some { s.take 1 .value with keyAllowed := !s.inFlow }

def withCandidate (s : Stream) (here : Cell) (read : Stream → Option (Token × List Cell)) :
    Option Stream := do
  let s ← s.saveCandidate here
  let (t, rest) ← read s
  return { s.emit t with rest, keyAllowed := false }

def plain (s : Stream) (here : Cell) : Option Stream := do
  let s ← s.saveCandidate here
  let minColumn := match s.indents with
    | [] => 0
    | i :: _ => i + 1
  let scalar ← readPlain s.inFlow minColumn {} (s.rest.length + 1) s.rest
  return { s.emit (.scalar (String.ofList scalar.text) .plain) with
    rest := scalar.rest, keyAllowed := scalar.endsLine }

def block (s : Stream) (folding : Bool) : Option Stream := do
  let s ← s.dropCandidate
  let (text, rest) ← readBlock folding s.indents.head? (s.rest.length + 1) (s.rest.drop 1)
  return { s.emit (.scalar (String.ofList text) (if folding then .folded else .literal)) with
    rest, keyAllowed := true }

def quoted (s : Stream) (here : Cell) : Option Stream :=
  s.withCandidate here fun s => do
    let (text, rest) ← readQuoted here.char (s.rest.length + 1) (s.rest.drop 1)
    return (.scalar (String.ofList text) .quoted, rest)

def isIndicator (c : Char) : Bool :=
  c ∈ ['-', '?', ':', ',', '[', ']', '\x7b', '\x7d', '#', '&', '*', '!', '|', '>', '\'', '"', '%',
    '@', '\x60']

/-- May a plain scalar begin here? Three indicators may begin one if a word goes on after them. -/
def beginsPlain (s : Stream) (here : Cell) (after : List Cell) : Bool :=
  !(here.isBlank || here.isBreak || isIndicator here.char)
    || (here.char = '-' && !(after.head?.any Cell.isBlank))
    || (!s.inFlow && (here.char = '?' || here.char = ':') && !wordEnds after)

def token (s : Stream) (here : Cell) (after : List Cell) : Option Stream :=
  let indicates := s.inFlow || wordEnds after
  if here.column = 0 && here.char = '%' then do
    let s ← s.boundary
    let (t, rest) ← readDirective after
    return { s.emit t with rest }
  else if isMarker documentStartMark s.rest then do return (← s.boundary).take 3 .documentStart
  else if isMarker documentEndMark s.rest then do return (← s.boundary).take 3 .documentEnd
  else match here.char with
    | '[' => s.openFlow here .flowSequenceStart
    | '\x7b' => s.openFlow here .flowMappingStart
    | ']' => s.closeFlow .flowSequenceEnd
    | '\x7d' => s.closeFlow .flowMappingEnd
    | ',' => do return { (← s.dropCandidate).take 1 .flowEntry with keyAllowed := true }
    | '*' => s.withCandidate here fun _ => (readAnchorName after).map fun (n, r) => (.alias n, r)
    | '&' => s.withCandidate here fun _ => (readAnchorName after).map fun (n, r) => (.anchor n, r)
    | '!' => s.withCandidate here fun s => readTag s.inFlow s.rest
    | '\'' => s.quoted here
    | '"' => s.quoted here
    | c =>
      if c = '-' && wordEnds after then s.entry here
      else if c = '?' && indicates then s.key here
      else if c = ':' && indicates then s.value here
      else if c = '|' && !s.inFlow then s.block false
      else if c = '>' && !s.inFlow then s.block true
      else if s.beginsPlain here after then s.plain here
      else none

/-- Read on to the end. Every token but the closing ones takes a cell, so the number of cells is
fuel enough. -/
def run : (fuel : Nat) → Stream → Option (Array Token)
  | 0, _ => none
  | fuel + 1, s =>
    let (rest, keyAllowed) := skipGap s.inFlow false s.keyAllowed s.rest
    let s := { s with rest, keyAllowed }
    match rest with
    | [] => s.boundary.map (·.tokens)
    | here :: after => do
      let s ← s.dropStale here
      run fuel (← (s.outdent (some here.column)).token here after)

end Stream

def tokens? (text : String) : Option (List Token) := do
  let cells ← cells? text
  return (← Stream.run (cells.length + 1) { rest := cells }).toList

end Yaml
end Metamodel
