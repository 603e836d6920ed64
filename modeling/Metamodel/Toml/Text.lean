import Metamodel.Json.Reader

/-!
# Metamodel.Toml.Text

Strings of a TOML document, in their four forms: basic and literal, each on one line or on several.

Basic strings have escapes and stand between double quotes, literal strings have none and stand
between single quotes. On several lines the quotes are tripled, and one or two quotes may stand
next to the closing ones. Every reader starts after the opening quotes.
-/

namespace Metamodel
namespace Toml

def isBlank (c : Char) : Bool := c = ' ' || c = '\t'

def skipBlanks (cs : List Char) : List Char := cs.dropWhile isBlank

/-- Characters that may stand in text: tabs, and all but control characters. -/
def isTextChar (c : Char) : Bool := c = '\t' || (' ' ≤ c && c ≠ '\x7f')

/-- The rest after a line break, if one begins here. -/
def lineBreak? : List Char → Option (List Char)
  | '\n' :: r => some r
  | '\r' :: '\n' :: r => some r
  | _ => none

def escaped? : Char → Option Char
  | 'b' => some '\x08'
  | 't' => some '\t'
  | 'n' => some '\n'
  | 'f' => some '\x0c'
  | 'r' => some '\r'
  | '"' => some '"'
  | '\\' => some '\\'
  | _ => none

/-- The character of a code point written in hexadecimal digits. -/
def codePoint? (digits : List Char) : Option Char := do
  let n ← Json.hexValue? digits
  if n.isValidChar then return Char.ofNat n else none

/-- Put a character in front of what a reader returns. -/
def andThen (c : Char) (rest : Option (List Char × List Char)) :
    Option (List Char × List Char) :=
  rest.map fun (text, r) => (c :: text, r)

def readBasic : List Char → Option (List Char × List Char)
  | [] => none
  | '"' :: r => some ([], r)
  | '\\' :: 'u' :: a :: b :: c :: d :: r => do andThen (← codePoint? [a, b, c, d]) (readBasic r)
  | '\\' :: 'U' :: a :: b :: c :: d :: e :: f :: g :: h :: r => do
    andThen (← codePoint? [a, b, c, d, e, f, g, h]) (readBasic r)
  | '\\' :: e :: r => do andThen (← escaped? e) (readBasic r)
  | c :: r => if isTextChar c then andThen c (readBasic r) else none

def readLiteral : List Char → Option (List Char × List Char)
  | [] => none
  | '\'' :: r => some ([], r)
  | c :: r => if isTextChar c then andThen c (readLiteral r) else none

/-! ## Several lines -/

def extraQuotes (quote : Char) (cs : List Char) : List Char × List Char :=
  let n := ((cs.take 2).takeWhile (· = quote)).length
  (List.replicate n quote, cs.drop n)

/-- A string on several lines. While `skipping`, blanks and line breaks are left out, as they are
after a backslash at the end of a line. -/
def readBasicLines : (skipping : Bool) → List Char → Option (List Char × List Char)
  | _, [] => none
  | _, '"' :: '"' :: '"' :: r => some (extraQuotes '"' r)
  | skipping, '\r' :: '\n' :: r =>
    if skipping then readBasicLines true r else andThen '\n' (readBasicLines false r)
  | skipping, '\n' :: r =>
    if skipping then readBasicLines true r else andThen '\n' (readBasicLines false r)
  | _, '\\' :: 'u' :: a :: b :: c :: d :: r => do
    andThen (← codePoint? [a, b, c, d]) (readBasicLines false r)
  | _, '\\' :: 'U' :: a :: b :: c :: d :: e :: f :: g :: h :: r => do
    andThen (← codePoint? [a, b, c, d, e, f, g, h]) (readBasicLines false r)
  | _, '\\' :: e :: r =>
    if (lineBreak? (skipBlanks (e :: r))).isSome then readBasicLines true (e :: r)
    else do andThen (← escaped? e) (readBasicLines false r)
  | skipping, c :: r =>
    if skipping && isBlank c then readBasicLines true r
    else if isTextChar c then andThen c (readBasicLines false r)
    else none

def readLiteralLines : List Char → Option (List Char × List Char)
  | [] => none
  | '\'' :: '\'' :: '\'' :: r => some (extraQuotes '\'' r)
  | '\r' :: '\n' :: r => andThen '\n' (readLiteralLines r)
  | '\n' :: r => andThen '\n' (readLiteralLines r)
  | c :: r => if isTextChar c then andThen c (readLiteralLines r) else none

/-- A line break right after the opening quotes is left out. -/
def skipFirstBreak (cs : List Char) : List Char := (lineBreak? cs).getD cs

def readString? : List Char → Option (List Char × List Char)
  | '"' :: '"' :: '"' :: r => readBasicLines false (skipFirstBreak r)
  | '"' :: r => readBasic r
  | '\'' :: '\'' :: '\'' :: r => readLiteralLines (skipFirstBreak r)
  | '\'' :: r => readLiteral r
  | _ => none

end Toml
end Metamodel
