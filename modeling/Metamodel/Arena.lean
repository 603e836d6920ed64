import Metamodel.NameMap

/-!
# Metamodel.Arena

Named values in numbered slots.

A value keeps the slot of its first insertion for ever, so references between values can be slots;
listings go by name, whatever the order of insertion was.
-/

namespace Metamodel

structure Arena (α : Type) where
  slots : Array α := #[]
  index : NameMap Nat := ∅

namespace Arena

variable {α : Type}

def empty : Arena α := {}

instance : EmptyCollection (Arena α) := ⟨empty⟩
instance : Inhabited (Arena α) := ⟨empty⟩

/-- Add a value under a name. A name already present keeps its slot and its value. -/
def insert (t : Arena α) (name : String) (a : α) : Arena α × Nat :=
  match t.index.get? name with
  | some slot => (t, slot)
  | none =>
    ({ slots := t.slots.push a, index := t.index.insert name t.slots.size }, t.slots.size)

def slotOf? (t : Arena α) (name : String) : Option Nat := t.index.get? name

def at? (t : Arena α) (slot : Nat) : Option α := t.slots[slot]?

def get? (t : Arena α) (name : String) : Option α := (t.slotOf? name).bind t.at?

/-- Change the value in a slot; the name index stays as it is. -/
def update (t : Arena α) (slot : Nat) (f : α → α) : Arena α :=
  { t with slots := t.slots.modify slot f }

def names (t : Arena α) : List String := t.index.keys

/-- Slots in ascending order of their names. -/
def slotsByName (t : Arena α) : List Nat := t.index.values

def values (t : Arena α) : List α := t.slotsByName.filterMap t.at?

def size (t : Arena α) : Nat := t.slots.size

def isEmpty (t : Arena α) : Bool := t.slots.isEmpty

/-- An arena of the values of a map, in name order. -/
def ofMap (m : NameMap α) : Arena α :=
  m.toList.foldl (fun t e => (t.insert e.1 e.2).1) ∅

@[simp] theorem slotOf?_update {t : Arena α} {slot : Nat} {f : α → α} {name : String} :
    (t.update slot f).slotOf? name = t.slotOf? name := rfl

@[simp] theorem names_update {t : Arena α} {slot : Nat} {f : α → α} :
    (t.update slot f).names = t.names := rfl

@[simp] theorem slotsByName_update {t : Arena α} {slot : Nat} {f : α → α} :
    (t.update slot f).slotsByName = t.slotsByName := rfl

@[simp] theorem size_update {t : Arena α} {slot : Nat} {f : α → α} :
    (t.update slot f).size = t.size := by
  simp [size, update]

@[simp] theorem at?_update {t : Arena α} {slot j : Nat} {f : α → α} :
    (t.update slot f).at? j = if slot = j then (t.at? j).map f else t.at? j := by
  simp only [at?, update, Array.getElem?_modify]

end Arena

end Metamodel
