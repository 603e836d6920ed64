/-!
# Metamodel.Json

JSON values.

Numbers are told apart by how they are written: `int` for integer literals, `real` for literals
with a fraction or an exponent, and for `-0`. An object is the list of its entries, repeated keys
included. `broken` stands for text that is well-formed JSON but holds an unpaired surrogate, so
that it has no characters; it may be skipped, but not read.
-/

namespace Metamodel

inductive Json where
  | null
  | bool (b : Bool)
  | int (i : Int)
  | real (literal : String)
  | str (s : String)
  | arr (items : List Json)
  | obj (entries : List (String × Json))
  | broken
deriving Inhabited

namespace Json

/-- The value of the first entry with a key; nothing for values that are no objects. -/
def get? (j : Json) (key : String) : Option Json :=
  match j with
  | .obj entries => entries.lookup key
  | _ => none

def str? : Json → Option String
  | .str s => some s
  | _ => none

def items? : Json → Option (List Json)
  | .arr items => some items
  | _ => none

/-- An optional value, `null` when absent. -/
def ofOption {α : Type} (f : α → Json) : Option α → Json
  | none => .null
  | some a => f a

def strs (names : List String) : Json := .arr (names.map .str)

def nat (n : Nat) : Json := .int n

/-- An entry that is left out when there is nothing to write. -/
def whenPresent {α : Type} (key : String) (f : α → Json) : Option α → List (String × Json)
  | none => []
  | some a => [(key, f a)]

/-! ## Repeated keys -/

/-- The entries of a list that are not overruled by a later one of the same key. -/
def keepLast : List (String × Json) → List (String × Json)
  | [] => []
  | e :: es => if es.any (·.1 = e.1) then keepLast es else e :: keepLast es

mutual

/-- Every object as a map: of a repeated key the last value counts. -/
def lastWins : Json → Json
  | .arr items => .arr (lastWinsItems items)
  | .obj entries => .obj (keepLast (lastWinsEntries entries))
  | j => j

def lastWinsItems : List Json → List Json
  | [] => []
  | j :: js => lastWins j :: lastWinsItems js

def lastWinsEntries : List (String × Json) → List (String × Json)
  | [] => []
  | (k, j) :: es => (k, lastWins j) :: lastWinsEntries es

end

end Json

end Metamodel
