/-!
# Metamodel.Datum

Values of a data format, as the readers of definitions see them.

A format says which of its values are texts, integers, lists, maps and so on; records are read
from any format by the same readers. A record is a map from field names, or, in formats that allow
it, the row of its fields in their declared order. A known field given twice is refused; unknown
fields are skipped, whatever they hold.
-/

namespace Metamodel

/-- What a value is read as. A record may also be read from something simpler, without fields. -/
inductive Layout where
  | leaf
  | listOf (item : Layout)
  | record (fields : List (String × Layout))

/-- A data format with values of type `α`. -/
class Datum (α : Type) where
  /-- The text of a value that may stand where a text is wanted. -/
  text? : α → Option String
  /-- A value that can be nothing else but a text. -/
  word? : α → Option String
  /-- The value itself, or nothing where it stands for an absent one. A value that only claims to
  is refused. -/
  present? : α → Option (Option α)
  int? : α → Option Int
  nat? : α → Option Nat
  /-- The written form of a member of a small fixed set. -/
  choice? : α → Option String
  items? : α → Option (List α)
  entries? : α → Option (List (String × α))
  /-- A record written as the row of its fields. -/
  row? : α → Option (List α)
  /-- A value marked as being of a kind of its own; where several forms are allowed it is none of
  them. -/
  isMarked : α → Bool := fun _ => false

namespace Datum

variable {α β : Type} [Datum α]

def hasRepeatedKey : List (String × α) → Bool
  | [] => false
  | e :: es => es.any (·.1 = e.1) || hasRepeatedKey es

/-- The known fields of a record. A row may leave out fields at its end. -/
def fields? (names : List String) (a : α) : Option (List (String × α)) :=
  match row? a with
  | some items => if items.length ≤ names.length then some (names.zip items) else none
  | none =>
    match entries? a with
    | none => none
    | some entries =>
      let known := entries.filter (·.1 ∈ names)
      if hasRepeatedKey known then none else some known

def required (fields : List (String × α)) (key : String) (read : α → Option β) : Option β :=
  (fields.lookup key).bind read

/-- A field with a value to fall back on when it is not there. -/
def defaulted (fields : List (String × α)) (key : String) (read : α → Option β) (default : β) :
    Option β :=
  match fields.lookup key with
  | none => some default
  | some a => read a

def optional (fields : List (String × α)) (key : String) (read : α → Option β) :
    Option (Option β) :=
  match fields.lookup key with
  | none => some none
  | some a =>
    match present? a with
    | none => none
    | some none => some none
    | some (some a) => (read a).map some

def listOf (read : α → Option β) (a : α) : Option (List β) := (items? a).bind (·.mapM read)

def oneOf (members : List β) (name : β → String) (a : α) : Option β :=
  (choice? a).bind fun s => members.find? (name · = s)

def int32? (a : α) : Option Int32 :=
  (int? a).bind fun i =>
    if Int32.minValue.toInt ≤ i && i ≤ Int32.maxValue.toInt then some (Int32.ofInt i) else none

def uint32? (a : α) : Option UInt32 :=
  (nat? a).bind fun n => if n < UInt32.size then some (UInt32.ofNat n) else none

end Datum

end Metamodel
