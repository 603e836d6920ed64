/-!
# Metamodel.Yaml.Cell

The characters of a document and where they stand.

YAML cares for the column of almost everything. A text is laid out once as a list of cells, each a
character with its place; line breaks of one or two characters become one line feed, except for the
separators U+2028 and U+2029, which keep their own character.
-/

namespace Metamodel
namespace Yaml

/-- A character of a document. Lines and columns count from zero. -/
structure Cell where
  char : Char
  line : Nat
  column : Nat
  /-- Bytes before this one. -/
  offset : Nat

def byteOrderMark : Char := '\ufeff'

/-- Characters that may stand in a document at all. -/
def isAllowed (c : Char) : Bool :=
  c = '\t' || c = '\n' || c = '\r' || (' ' ≤ c && c ≤ '~') || c = '\x85'
    || (0xA0 ≤ c.toNat && c.toNat ≤ 0xD7FF) || (0xE000 ≤ c.toNat && c.toNat ≤ 0xFFFD)
    || 0x10000 ≤ c.toNat

def layOut (line column offset : Nat) : List Char → List Cell
  | [] => []
  | '\r' :: '\n' :: r => ⟨'\n', line, column, offset⟩ :: layOut (line + 1) 0 (offset + 2) r
  | c :: r =>
    if c = '\n' || c = '\r' || c = '\x85' then
      ⟨'\n', line, column, offset⟩ :: layOut (line + 1) 0 (offset + c.utf8Size) r
    else if c = '\u2028' || c = '\u2029' then
      ⟨c, line, column, offset⟩ :: layOut (line + 1) 0 (offset + c.utf8Size) r
    else ⟨c, line, column, offset⟩ :: layOut line (column + 1) (offset + c.utf8Size) r

/-- The cells of a text, if all its characters are allowed. -/
def cells? (text : String) : Option (List Cell) :=
  let cs := text.toList
  if cs.all isAllowed then some (layOut 0 0 0 cs) else none

namespace Cell

def isBreak (c : Cell) : Bool := c.char = '\n' || c.char = '\u2028' || c.char = '\u2029'

def isBlank (c : Cell) : Bool := c.char = ' ' || c.char = '\t'

/-- Letters, digits and the two joining characters that names may have. -/
def isNameChar (c : Cell) : Bool := c.char.isAlphanum || c.char = '_' || c.char = '-'

end Cell

/-- Does a word end here: at a blank, a line break or the end of the text? -/
def wordEnds : List Cell → Bool
  | [] => true
  | c :: _ => c.isBlank || c.isBreak

def startsWith : List Char → List Cell → Bool
  | [], _ => true
  | _ :: _, [] => false
  | x :: xs, c :: cs => c.char = x && startsWith xs cs

/-- Three characters that make a line of their own, or begin one. -/
def isMarker (mark : List Char) (cells : List Cell) : Bool :=
  match cells with
  | [] => false
  | c :: _ => c.column = 0 && startsWith mark cells && wordEnds (cells.drop 3)

def documentStartMark : List Char := ['-', '-', '-']

def documentEndMark : List Char := ['.', '.', '.']

def isDocumentBound (cells : List Cell) : Bool :=
  isMarker documentStartMark cells || isMarker documentEndMark cells

def skipBlanks (cells : List Cell) : List Cell := cells.dropWhile Cell.isBlank

/-- The cells after the rest of a line that may hold nothing but blanks and a comment. -/
def skipLineEnd? (cells : List Cell) : Option (List Cell) :=
  let r := skipBlanks cells
  let r := if startsWith ['#'] r then r.dropWhile (!·.isBreak) else r
  match r with
  | [] => some []
  | c :: r => if c.isBreak then some r else none

end Yaml
end Metamodel
