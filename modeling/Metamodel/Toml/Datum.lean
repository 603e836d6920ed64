import Metamodel.Datum
import Metamodel.Toml.Document

/-!
# Metamodel.Toml.Datum

TOML as a data format for settings.

Only strings are texts. A member of a fixed set is a string, or a table with the member as its only
key and nothing in it.
-/

namespace Metamodel
namespace Toml
namespace Item

def text? : Item → Option String
  | .text s => some s
  | _ => none

def entries? : Item → Option Entries
  | .inlineTable es => some es
  | .table _ es => some es
  | _ => none

def items? : Item → Option (List Item)
  | .array items => some items
  | .tables latest earlier => some ((latest :: earlier).reverse.map (.table .header))
  | _ => none

def isEmpty (a : Item) : Bool := a.entries?.any List.isEmpty || a.items?.any List.isEmpty

def choice? (a : Item) : Option String :=
  match a with
  | .text s => some s
  | _ =>
    match a.entries? with
    | some [(s, b)] => if b.isEmpty then some s else none
    | _ => none

instance : Datum Item where
  text? := text?
  word? := text?
  present? a := some (some a)
  int? _ := none
  nat? _ := none
  choice? := choice?
  items? := items?
  entries? := entries?
  row? _ := none

end Item
end Toml
end Metamodel
