import Metamodel.Resolution.Findings
import Metamodel.ResolvedType

/-!
# Metamodel.Resolution.Lineage

Supertype chains over an arena of resolved types, and what is computed along them.

* `Arena.lineage`           — the slots from a type up to its root, or the defect on the way.
* `Arena.linkSubtypes`      — every type is recorded in each of its ancestors.
* `Arena.inheritAttributes` — every type collects the attributes along its chain, root-most first.

A broken link is blamed on the type that holds it, and a loop on its least member, so all climbs
that run into one flaw report it alike. The two loops go over the types in name order; a type
whose climb fails is noted and left out.
-/

namespace Metamodel
namespace Arena

variable {δ ε : Type} [SupertypedDef δ]

/-- Follow the supertype link of the type in a slot. -/
def superSlot (t : Arena (ResolvedType δ ε)) (label : String) (slot : Nat) :
    Except Defect (Option Nat) :=
  match t.at? slot with
  | none => .ok none
  | some d =>
    match d.supertype with
    | none => .ok none
    | some link =>
      match link.target? with
      | none => .error (.missingSupertypeName (SupertypedDef.hierarchy δ) d.name label)
      | some target =>
        match t.slotOf? target with
        | none => .error (.missingSupertypeDef (SupertypedDef.hierarchy δ) d.name target label)
        | some s => .ok (some s)

def namesAt (t : Arena (ResolvedType δ ε)) (slots : List Nat) : List String :=
  slots.filterMap fun s => (t.at? s).map ResolvedType.name

def leastName? (names : List String) : Option String := (NameSet.ofList names).toList.head?

/-- A path that would go on to its own slot `s` loops from there on. -/
def loopDefect (t : Arena (ResolvedType δ ε)) (label : String) (path : List Nat) (s : Nat) :
    Defect :=
  .supertypeCycle (SupertypedDef.hierarchy δ).category
    ((leastName? (t.namesAt (path.dropWhile (· ≠ s)))).getD "") label

/-- Climb on from `slot`, the last slot of `path`. The slots not met so far bound the climb. -/
def climb (t : Arena (ResolvedType δ ε)) (label : String) (unmet path : List Nat) (slot : Nat) :
    Except Defect (List Nat) :=
  match t.superSlot label slot with
  | .error d => .error d
  | .ok none => .ok path
  | .ok (some s) =>
    if _h : s ∈ unmet then climb t label (unmet.erase s) (path ++ [s]) s
    else .error (t.loopDefect label path s)
termination_by unmet.length
decreasing_by
  have := List.length_pos_of_mem _h
  rw [List.length_erase_of_mem _h]
  omega

/-- The slots of a type and its ancestors, the type first. -/
def lineage (t : Arena (ResolvedType δ ε)) (label : String) (slot : Nat) :
    Except Defect (List Nat) :=
  t.climb label ((List.range t.size).erase slot) [slot] slot

/-- Record a type as a subtype of its ancestors; of the nearest one it is a direct subtype. -/
def markAncestors (t : Arena (ResolvedType δ ε)) (name : String) :
    List Nat → Arena (ResolvedType δ ε)
  | [] => t
  | parent :: others =>
    others.foldl (fun t s => t.update s (·.addSubtype name false))
      (t.update parent (·.addSubtype name true))

/-- Record the type in a slot in its ancestors, the rest of its chain. -/
def markChain (t : Arena (ResolvedType δ ε)) (slot : Nat) (chain : List Nat) :
    Arena (ResolvedType δ ε) :=
  match t.at? slot with
  | none => t
  | some d => t.markAncestors d.name chain.tail

/-- Record every type in the subtype sets of its ancestors. -/
def linkSubtypes (t : Arena (ResolvedType δ ε)) (found : Findings) :
    Except Fault (Arena (ResolvedType δ ε) × Findings) :=
  t.slotsByName.foldlM
    (fun s slot =>
      s.2.orNote (s.1.lineage s.2.label slot) s.1 (s.1.markChain slot))
    (t, found)

/-- The attributes of a chain of slots, of the last slot first. -/
def attributesAlong (t : Arena (ResolvedType δ ε)) (chain : List Nat) : List AttributeDef :=
  chain.reverse.flatMap fun s =>
    match t.at? s with
    | none => []
    | some d => d.ownAttributes

/-- Give the type in a slot the attributes along its chain. -/
def inheritAlong (t : Arena (ResolvedType δ ε)) (slot : Nat) (chain : List Nat) :
    Arena (ResolvedType δ ε) :=
  t.update slot (·.setAttributes (t.attributesAlong chain))

/-- Give every type the attributes of its ancestors and its own. -/
def inheritAttributes (t : Arena (ResolvedType δ ε)) (found : Findings) :
    Except Fault (Arena (ResolvedType δ ε) × Findings) :=
  t.slotsByName.foldlM
    (fun s slot =>
      s.2.orNote (s.1.lineage s.2.label slot) s.1 (s.1.inheritAlong slot))
    (t, found)

end Arena
end Metamodel
