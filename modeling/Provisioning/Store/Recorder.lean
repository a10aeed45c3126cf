import Provisioning.Flow.Event
import Provisioning.Store.Basic

/-!
# Recording runs

The events of a run become rows: the outermost flow a flow, each nested flow the flow of an
application, and each stage a stage. An event that the store declines changes nothing.
-/

namespace Provisioning

/-- The parameter that holds the tenant. -/
def tenantParam : String := "tenantId"

/-- The parameter that holds the word for what is done. -/
def typeParam : String := "type"

/-- The parameter that holds the application. -/
def applicationIdParam : String := "applicationId"

namespace Store

/-- The store after a change, or as it was when the change is declined. -/
def orUnchanged (s : Store) (changed : Except StoreError Store) : Store :=
  match changed with
  | .ok s' => s'
  | .error _ => s

/-- Inserts the row of a flow that is announced. -/
def recordFlow (s : Store) (flow : FlowInfo) : Store :=
  let text (key : String) : String := (flow.scope.text? key).getD ""
  if flow.isRoot then
    s.orUnchanged (s.insertFlow flow.id (text tenantParam) (text typeParam))
  else
    s.orUnchanged (s.insertApplicationFlow flow.id
      { flowId := flow.rootId, tenantId := text tenantParam
        applicationId := text applicationIdParam, type := text typeParam })

/-- Moves a flow to a status. -/
def recordFlowStatus (s : Store) (flow : FlowInfo) (status : ExecutionStatus) : Store :=
  if flow.isRoot then (s.updateFlow flow.id status).2
  else (s.updateApplicationFlow flow.id status).2

/-- The store after an event. -/
def record (s : Store) : Event → Store
  | .flowQueued flow => s.recordFlow flow
  | .stageQueued stage => s.orUnchanged (s.insertStage stage.id stage.flowId stage.name)
  | .flowStart flow => s.recordFlowStatus flow .inProgress
  | .flowFinish flow status => s.recordFlowStatus flow status
  | .stageStart stage => (s.updateStage stage.id .inProgress none).2
  | .stageSuccess stage => (s.updateStage stage.id .finished none).2
  | .stageError stage detail => (s.updateStage stage.id .failed (some detail)).2
  | .stageRollback stage status detail => (s.updateStage stage.id status (some detail)).2
  | .stageSkipped stage reason => (s.updateStage stage.id .skipped (some s!"SKIPPED: {reason}")).2

/-- The store after a run. -/
def recordAll (s : Store) (events : List Event) : Store := events.foldl record s

end Store

end Provisioning
