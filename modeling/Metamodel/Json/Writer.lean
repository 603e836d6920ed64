import Metamodel.Json

/-!
# Metamodel.Json.Writer

Writing JSON text, on one line or indented by two blanks a level.
-/

namespace Metamodel
namespace Json

def hexChar (n : Nat) : Char := Nat.digitChar (n % 16)

/-- Quotes, backslashes and control characters are escaped, all else stands for itself. -/
def escape (c : Char) : List Char :=
  match c with
  | '"' => ['\\', '"']
  | '\\' => ['\\', '\\']
  | '\n' => ['\\', 'n']
  | '\r' => ['\\', 'r']
  | '\t' => ['\\', 't']
  | '\x08' => ['\\', 'b']
  | '\x0c' => ['\\', 'f']
  | _ =>
    if c < ' ' then ['\\', 'u', '0', '0', hexChar (c.toNat / 16), hexChar c.toNat]
    else [c]

def quote (s : String) : String :=
  String.ofList ('"' :: s.toList.flatMap escape ++ ['"'])

mutual

def compact : Json → String
  | .null => "null"
  | .bool b => if b then "true" else "false"
  | .int i => toString i
  | .real literal => literal
  | .str s => quote s
  | .arr items => "[" ++ String.intercalate "," (compactItems items) ++ "]"
  | .obj entries => "\x7b" ++ String.intercalate "," (compactEntries entries) ++ "\x7d"
  | .broken => "null"

def compactItems : List Json → List String
  | [] => []
  | j :: js => compact j :: compactItems js

def compactEntries : List (String × Json) → List String
  | [] => []
  | (k, j) :: es => (quote k ++ ":" ++ compact j) :: compactEntries es

end

def newline (level : Nat) : String := String.ofList ('\n' :: List.replicate (2 * level) ' ')

/-- Brackets around lines; nothing stands between the brackets of an empty list. -/
def bracketed (level : Nat) (opening closing : String) (lines : List String) : String :=
  if lines = [] then opening ++ closing
  else
    opening ++ newline (level + 1) ++ String.intercalate ("," ++ newline (level + 1)) lines
      ++ newline level ++ closing

mutual

/-- The indented text of a value that stands at a level. -/
def pretty (level : Nat) : Json → String
  | .arr items => bracketed level "[" "]" (prettyItems (level + 1) items)
  | .obj entries => bracketed level "\x7b" "\x7d" (prettyEntries (level + 1) entries)
  | .null => "null"
  | .bool b => if b then "true" else "false"
  | .int i => toString i
  | .real literal => literal
  | .str s => quote s
  | .broken => "null"

def prettyItems (level : Nat) : List Json → List String
  | [] => []
  | j :: js => pretty level j :: prettyItems level js

def prettyEntries (level : Nat) : List (String × Json) → List String
  | [] => []
  | (k, j) :: es => (quote k ++ ": " ++ pretty level j) :: prettyEntries level es

end

end Json
end Metamodel
