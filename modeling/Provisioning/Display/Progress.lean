import Provisioning.Display.Line
import Provisioning.Flow.Event

/-!
# Progress of runs

While a flow runs, failures and cancellations of stages are told.
-/

namespace Provisioning

/-- The lines that tell of an event. -/
def Event.progress : Event → List Line
  | .stageError stage detail => [.plain s!"  ✗ {stage.name} ({detail})"]
  | .stageRollback stage status _ => [.plain s!"  ↺ {stage.name} {status.text}"]
  | _ => []

end Provisioning
