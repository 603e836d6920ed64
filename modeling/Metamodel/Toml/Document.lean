import Metamodel.Toml.Scalar
import Metamodel.Toml.Text

/-!
# Metamodel.Toml.Document

TOML documents.

A document is a table. Its lines put values into the table or, after a header, into one of the
tables within it. No key is given a value twice, and a table is defined in one place only: by one
header, by dotted keys that stand together, or inline.
-/

namespace Metamodel
namespace Toml

/-- How a table came about. -/
inductive Origin where
  /-- By the header of a table inside it. -/
  | implicit
  /-- By dotted keys. -/
  | dotted
  /-- By its own header. -/
  | header
deriving DecidableEq

inductive Item where
  | text (s : String)
  /-- Any other value that has no parts. -/
  | scalar
  | array (items : List Item)
  | inlineTable (entries : List (String × Item))
  | table (origin : Origin) (entries : List (String × Item))
  /-- An array of tables under one header, the latest first. -/
  | tables (latest : List (String × Item)) (earlier : List (List (String × Item)))

abbrev Entries := List (String × Item)

namespace Entries

def has (es : Entries) (k : String) : Bool := es.any (·.1 = k)

def replace (es : Entries) (k : String) (a : Item) : Entries :=
  es.map fun e => if e.1 = k then (k, a) else e

/-- Give a value to a dotted key. The last table on the way must be one that dotted keys made,
unless it is the table that the key is written in. -/
def put (value : Item) : (path : List String) → (mayTake : Bool) → Entries → Option Entries
  | [], _, _ => none
  | [k], mayTake, es => if mayTake && !has es k then some (es ++ [(k, value)]) else none
  | k :: ks, _, es =>
    match es.lookup k with
    | none => (put value ks true []).map fun es' => es ++ [(k, .table .dotted es')]
    | some (.table origin es') =>
      if origin = .header then none
      else (put value ks (origin = .dotted) es').map fun es' => es.replace k (.table origin es')
    | some (.tables latest earlier) =>
      (put value ks false latest).map fun es' => es.replace k (.tables es' earlier)
    | some _ => none

/-- Change the entries of the table that a header names. -/
def within (f : Entries → Option Entries) : (path : List String) → Entries → Option Entries
  | [], es => f es
  | k :: ks, es =>
    match es.lookup k with
    | none => (within f ks []).map fun es' => es ++ [(k, .table .implicit es')]
    | some (.table origin es') => (within f ks es').map fun es' => es.replace k (.table origin es')
    | some (.tables latest earlier) =>
      (within f ks latest).map fun es' => es.replace k (.tables es' earlier)
    | some _ => none

/-- Define a table by its header. Only one that other headers implied may be there already. -/
def define (k : String) (es : Entries) : Option Entries :=
  match es.lookup k with
  | none => some (es ++ [(k, .table .header [])])
  | some (.table .implicit es') => some (es.replace k (.table .header es'))
  | some _ => none

def extend (k : String) (es : Entries) : Option Entries :=
  match es.lookup k with
  | none => some (es ++ [(k, .tables [] [])])
  | some (.tables latest earlier) => some (es.replace k (.tables [] (latest :: earlier)))
  | some _ => none

end Entries

/-! ## Lines -/

def skipComment (cs : List Char) : List Char :=
  match cs with
  | '#' :: r => r.dropWhile isTextChar
  | _ => cs

/-- The rest after the end of a line, where a comment may stand. -/
def skipLineEnd? (cs : List Char) : Option (List Char) :=
  match skipComment (skipBlanks cs) with
  | [] => some []
  | r => lineBreak? r

/-- Blanks, comments and line breaks between the items of an array. -/
def skipSpace : (fuel : Nat) → List Char → List Char
  | 0, cs => cs
  | fuel + 1, cs =>
    let r := skipBlanks cs
    match lineBreak? r with
    | some r => skipSpace fuel r
    | none =>
      match r with
      | '#' :: _ =>
        match lineBreak? (skipComment r) with
        | some r => skipSpace fuel r
        | none => r
      | _ => r

/-! ## Keys -/

def isBareChar (c : Char) : Bool := c.isAlphanum || c = '_' || c = '-'

/-- One part of a key: bare, or quoted on one line. -/
def readKeyPart (cs : List Char) : Option (String × List Char) :=
  match cs with
  | '"' :: r => (readBasic r).map fun (k, r) => (String.ofList k, r)
  | '\'' :: r => (readLiteral r).map fun (k, r) => (String.ofList k, r)
  | _ =>
    let (k, r) := cs.span isBareChar
    if k = [] then none else some (String.ofList k, r)

/-- Parts with points between them, and blanks around all of them. -/
def readKeyParts : (fuel : Nat) → List Char → Option (List String × List Char)
  | 0, _ => none
  | fuel + 1, cs => do
    let (part, r) ← readKeyPart (skipBlanks cs)
    match skipBlanks r with
    | '.' :: r =>
      let (parts, r) ← readKeyParts fuel r
      return (part :: parts, r)
    | r => return ([part], r)

/-- The most parts of a key, and the deepest nesting of arrays and inline tables. -/
def nestingLimit : Nat := 79

def readKey (cs : List Char) : Option (List String × List Char) := do
  let (parts, r) ← readKeyParts (cs.length + 1) cs
  if parts.length ≤ nestingLimit then return (parts, r) else none

/-! ## Values -/

abbrev ValueReader := List Char → Option (Item × List Char)

/-- Items of an array up to its bracket; a comma may follow the last one. -/
def readItems (read : ValueReader) : (fuel : Nat) → List Char → Option (List Item × List Char)
  | 0, _ => none
  | fuel + 1, cs =>
    match skipSpace cs.length cs with
    | ']' :: r => some ([], r)
    | r => do
      let (a, r) ← read r
      match skipSpace r.length r with
      | ']' :: r => return ([a], r)
      | ',' :: r =>
        let (as, r) ← readItems read fuel r
        return (a :: as, r)
      | _ => none

def readPair (read : ValueReader) (cs : List Char) : Option (List String × Item × List Char) := do
  let (key, r) ← readKey cs
  match r with
  | '=' :: r =>
    let (a, r) ← read (skipBlanks r)
    return (key, a, r)
  | _ => none

/-- Entries of an inline table up to its brace, at least one, all on one line. -/
def readEntries (read : ValueReader) (es : Entries) :
    (fuel : Nat) → List Char → Option (Entries × List Char)
  | 0, _ => none
  | fuel + 1, cs => do
    let (key, a, r) ← readPair read cs
    let es ← es.put a key true
    match skipBlanks r with
    | '\x7d' :: r => return (es, r)
    | ',' :: r => readEntries read es fuel r
    | _ => none

def readLeaf : ValueReader := fun cs =>
  match cs with
  | '"' :: _ => (readString? cs).map fun (s, r) => (.text (String.ofList s), r)
  | '\'' :: _ => (readString? cs).map fun (s, r) => (.text (String.ofList s), r)
  | _ => (skipScalar? cs).map fun r => (.scalar, r)

/-- A value, nested at most `depth` levels deep. -/
def readValue : (depth : Nat) → ValueReader
  | 0, cs => readLeaf cs
  | depth + 1, cs =>
    match cs with
    | '[' :: r =>
      (readItems (readValue depth) (r.length + 1) r).map fun (as, r) => (.array as, r)
    | '\x7b' :: r =>
      match skipBlanks r with
      | '\x7d' :: r => some (.inlineTable [], r)
      | r =>
        (readEntries (readValue depth) [] (r.length + 1) r).map fun (es, r) => (.inlineTable es, r)
    | _ => readLeaf cs

/-! ## Documents -/

/-- A header after its opening brackets: the key, and what follows the closing brackets. -/
def readHeader (closing : List Char) (cs : List Char) : Option (List String × List Char) := do
  let (key, r) ← readKey cs
  return (key, ← Json.expect? closing r)

def readLines : (fuel : Nat) → (path : List String) → Entries → List Char → Option Entries
  | 0, _, _, _ => none
  | fuel + 1, path, es, cs =>
    match skipBlanks cs with
    | [] => some es
    | '[' :: '[' :: r => do
      let (key, r) ← readHeader [']', ']'] r
      let es ← es.within (Entries.extend (key.getLastD "")) key.dropLast
      readLines fuel key es (← skipLineEnd? r)
    | '[' :: r => do
      let (key, r) ← readHeader [']'] r
      let es ← es.within (Entries.define (key.getLastD "")) key.dropLast
      readLines fuel key es (← skipLineEnd? r)
    | r =>
      match skipLineEnd? r with
      | some r => readLines fuel path es r
      | none => do
        let (key, a, r) ← readPair (readValue nestingLimit) r
        let es ← es.within (Entries.put a key true) path
        readLines fuel path es (← skipLineEnd? r)

/-- The entries of a document. A byte order mark may stand in front. -/
def parse? (text : String) : Option Entries :=
  let cs := match text.toList with
    | '\ufeff' :: r => r
    | cs => cs
  readLines (cs.length + 1) [] [] cs

end Toml
end Metamodel
