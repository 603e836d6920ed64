import Metamodel.ResolvedType

/-!
# Metamodel.Resolution.Sweep

Depth-first visit of a type and everything reachable through subtype sets.

Each slot is visited once, however many paths lead to it, so sets of any shape are fine: loops,
diamonds, and names that are not in the arena. Visits may share a state, such as a count of them.
-/

namespace Metamodel
namespace Arena

variable {δ ε σ : Type}

/-- Slots of the subtypes of the type in a slot, in name order. -/
def subtypeSlots (t : Arena (ResolvedType δ ε)) (slot : Nat) : List Nat :=
  match t.at? slot with
  | none => []
  | some d => d.subtypes.toList.filterMap t.slotOf?

/-- Visit the type in a slot with the state of the visits before. -/
def visitAt (visit : ResolvedType δ ε → σ → ResolvedType δ ε × σ)
    (s : Arena (ResolvedType δ ε) × σ) (slot : Nat) : Arena (ResolvedType δ ε) × σ :=
  (s.1.update slot fun d => (visit d s.2).1,
    (s.1.at? slot).elim s.2 fun d => (visit d s.2).2)

/-- Visit the pending slots, the first one first. `unmet` holds the slots not visited so far and
`order` those visited, as they came. -/
def sweepFrom (visit : ResolvedType δ ε → σ → ResolvedType δ ε × σ)
    (s : Arena (ResolvedType δ ε) × σ) (unmet pending order : List Nat) :
    (Arena (ResolvedType δ ε) × σ) × List Nat :=
  match pending with
  | [] => (s, order)
  | slot :: rest =>
    if _h : slot ∈ unmet then
      let s' := visitAt visit s slot
      let next := (s'.1.subtypeSlots slot).filter (· ∈ unmet.erase slot)
      sweepFrom visit s' (unmet.erase slot) (next ++ rest) (order ++ [slot])
    else sweepFrom visit s unmet rest order
termination_by (unmet.length, pending.length)
decreasing_by
  · apply Prod.Lex.left
    have := List.length_pos_of_mem _h
    rw [List.length_erase_of_mem _h]
    omega
  · apply Prod.Lex.right
    simp

/-- Visit a slot and everything below it, beginning with the state `u`. Returns the slots in the
order of their visits, too. -/
def sweepWith (t : Arena (ResolvedType δ ε)) (start : Nat)
    (visit : ResolvedType δ ε → σ → ResolvedType δ ε × σ) (u : σ) :
    (Arena (ResolvedType δ ε) × σ) × List Nat :=
  sweepFrom visit (t, u) (List.range t.size) [start] []

/-- Visits that share no state. Returns the slots in the order of their visits. -/
def sweep (t : Arena (ResolvedType δ ε)) (start : Nat)
    (visit : ResolvedType δ ε → ResolvedType δ ε) : Arena (ResolvedType δ ε) × List Nat :=
  let swept := t.sweepWith start (fun d u => (visit d, u)) ()
  (swept.1.1, swept.2)

end Arena
end Metamodel
