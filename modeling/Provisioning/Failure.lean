import Provisioning.Flow.Status
import Provisioning.Refusal
import Provisioning.Store.Basic

/-!
# Failures of commands

A command fails when its request is refused, when something around it cannot be read, or when the
flow that it runs does not succeed.
-/

namespace Provisioning

/-- Why a command fails. -/
inductive Failure where
  /-- The request is refused. -/
  | refused (refusal : Refusal)
  /-- The applications that the tenant has cannot be looked up. -/
  | entitledMissing (cause : Failure)
  /-- A request for a state comes without a plan. -/
  | planRequired
  /-- The file of an application cannot be read. -/
  | unreadableDescriptor (path : String)
  /-- The file of an application holds something else. -/
  | invalidDescriptor (path : String)
  /-- The configuration cannot be read. -/
  | unreadableConfig (path : String)
  /-- The configuration is not in the format that its name announces. -/
  | invalidConfig (format path : String)
  /-- There shall be no workers. -/
  | noWorkers
  /-- Delays shall shrink. -/
  | shrinkingDelays
  /-- The database cannot be opened. -/
  | unusableDatabase (path : String)
  /-- The store fails. -/
  | store (error : StoreError)
  /-- The flow did not succeed. -/
  | flow (flowId : String) (status : ExecutionStatus)
  /-- The flow broke off without a report. -/
  | brokenOff (flowId : String)
deriving DecidableEq, Repr

namespace Failure

/-- The refusal behind a failure, if there is one. -/
def refusal? : Failure → Option Refusal
  | refused r => some r
  | entitledMissing cause => cause.refusal?
  | _ => none

/-- The word for the kind of the failure. -/
def kind (f : Failure) : String :=
  match f.refusal? with
  | some r => r.kind.text
  | none => "Error"

/-- What is said about a failure. -/
def message : Failure → String
  | refused r => r.message
  | entitledMissing _ => "Entitled applications are missing from the registry"
  | planRequired => "A transition plan is required for STATE requests"
  | unreadableDescriptor path => s!"Could not read descriptor {path}"
  | invalidDescriptor path => s!"Invalid application descriptor {path}"
  | unreadableConfig path => s!"Could not read config file: {path}"
  | invalidConfig format path => s!"Invalid {format} format in {path}"
  | noWorkers => "pool_size must be at least 1"
  | shrinkingDelays => "retry.backoff_factor must be >= 1.0"
  | unusableDatabase path => s!"Failed to open database {path}"
  | store e => e.message
  | flow flowId status => s!"Flow {flowId} finished with status {status.text}"
  | brokenOff flowId => s!"Flow {flowId} finished without reporting a result"

/-- A result that may be refused, as one that may fail. -/
def ofRefusal {α : Type} (x : Except Refusal α) : Except Failure α := x.mapError refused

end Failure

end Provisioning
