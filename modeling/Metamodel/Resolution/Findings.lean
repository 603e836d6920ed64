import Metamodel.Fault
import Metamodel.Settings

/-!
# Metamodel.Resolution.Findings

Defects met in the course of a resolution, reported as the error mode says.

A loop notes the defect of an item and goes on with the next one. Failing fast, the first note
ends the resolution; collecting, the notes are kept, each once, until the pass is over.
-/

namespace Metamodel

structure Findings where
  mode : ErrorMode
  label : String
  /-- Defects noted so far, in the order of their first notes. -/
  defects : List Defect := []

namespace Findings

/-- Note a defect: fail with it, or keep it if it is new. -/
def note (found : Findings) (d : Defect) : Except Fault Findings :=
  match found.mode with
  | .failFast => .error (.defect d)
  | .collectAll =>
    if d ∈ found.defects then .ok found
    else .ok { found with defects := found.defects ++ [d] }

/-- Go on from `s` with a value, or note the defect in its place and stay with `s`. -/
def orNote {α σ : Type} (found : Findings) (x : Except Defect α) (s : σ) (next : α → σ) :
    Except Fault (σ × Findings) :=
  match x with
  | .ok a => .ok (next a, found)
  | .error d => (found.note d).map (s, ·)

/-- End of a loop: fail with all that was kept. -/
def checkpoint (found : Findings) : Except Fault Unit :=
  match found.defects with
  | [] => .ok ()
  | ds => .error (.resolutionFailed found.label (ds.map .defect))

end Findings

end Metamodel
