import Provisioning.Application.Basic
import Provisioning.Application.Format
import Provisioning.Application.Id
import Provisioning.Calendar
import Provisioning.Collaborator.Basic
import Provisioning.Collaborator.Change
import Provisioning.Collaborator.Error
import Provisioning.Collaborator.Ledger
import Provisioning.Collaborator.Memory
import Provisioning.Collaborator.Retry
import Provisioning.CommandLine.Grammar
import Provisioning.CommandLine.Host
import Provisioning.CommandLine.Invocation
import Provisioning.CommandLine.Output
import Provisioning.CommandLine.Parse
import Provisioning.CommandLine.Run
import Provisioning.Config.Basic
import Provisioning.Config.Format
import Provisioning.Data.Basic
import Provisioning.Data.Json
import Provisioning.Data.Number
import Provisioning.Data.Toml.Document
import Provisioning.Data.Toml.Read
import Provisioning.Data.Toml.Scalar
import Provisioning.Data.Toml.Token
import Provisioning.Decimal.Binary64
import Provisioning.Decimal.Nearest
import Provisioning.Decimal.Places
import Provisioning.Decimal.Shortest
import Provisioning.Dependencies.Universe
import Provisioning.Display.Line
import Provisioning.Display.Progress
import Provisioning.Display.Time
import Provisioning.Entitlement.Capabilities
import Provisioning.Entitlement.FlowPlan
import Provisioning.Entitlement.Format
import Provisioning.Entitlement.Request
import Provisioning.Entitlement.Service
import Provisioning.Entitlement.Stage
import Provisioning.Entitlement.Validation
import Provisioning.Failure
import Provisioning.Files
import Provisioning.Flow.Basic
import Provisioning.Flow.Error
import Provisioning.Flow.Event
import Provisioning.Flow.Format
import Provisioning.Flow.Params
import Provisioning.Flow.Report
import Provisioning.Flow.Run
import Provisioning.Flow.Script
import Provisioning.Flow.Stage
import Provisioning.Flow.Status
import Provisioning.Integrity.Basic
import Provisioning.Integrity.Dependencies
import Provisioning.Integrity.Interfaces
import Provisioning.Layering.Applications
import Provisioning.Layering.Basic
import Provisioning.Layering.Modules
import Provisioning.Main
import Provisioning.Ordered.Map
import Provisioning.Ordered.Set
import Provisioning.Plan
import Provisioning.Power
import Provisioning.Proofs.Entitlement.Checks
import Provisioning.Proofs.Entitlement.Consistency
import Provisioning.Proofs.Entitlement.Convergence
import Provisioning.Proofs.Entitlement.Effects
import Provisioning.Proofs.Entitlement.Layout
import Provisioning.Proofs.Entitlement.Lookup
import Provisioning.Proofs.Entitlement.Runs
import Provisioning.Proofs.Entitlement.Tasks
import Provisioning.Proofs.Entitlement.Undoing
import Provisioning.Proofs.Entitlement.Versions
import Provisioning.Proofs.Flow.Compensation
import Provisioning.Proofs.Flow.Concurrent
import Provisioning.Proofs.Flow.Fates
import Provisioning.Proofs.Flow.Leaves
import Provisioning.Proofs.Flow.Lifecycle
import Provisioning.Proofs.Flow.Nesting
import Provisioning.Proofs.Flow.Outcome
import Provisioning.Proofs.Flow.Places
import Provisioning.Proofs.Flow.Reported
import Provisioning.Proofs.Flow.Seats
import Provisioning.Proofs.Flow.Trace
import Provisioning.Proofs.Flow.Truth
import Provisioning.Proofs.Flow.Unwinding
import Provisioning.Proofs.Flow.Walk
import Provisioning.Proofs.Layering.Canonical
import Provisioning.Proofs.Layering.Coverage
import Provisioning.Proofs.Ledger.Calls
import Provisioning.Proofs.Ledger.Cancellation
import Provisioning.Proofs.Ledger.Modules
import Provisioning.Proofs.Ledger.Owners
import Provisioning.Proofs.Ledger.Remains
import Provisioning.Proofs.Ordered.Lookup
import Provisioning.Proofs.Store.Recording
import Provisioning.Proofs.Store.Rows
import Provisioning.Proofs.Store.Tables
import Provisioning.Proofs.Version.Order
import Provisioning.Refusal
import Provisioning.Registry
import Provisioning.Store.Basic
import Provisioning.Store.Edit
import Provisioning.Store.Format
import Provisioning.Store.Image
import Provisioning.Store.Query
import Provisioning.Store.Record
import Provisioning.Store.Recorder
import Provisioning.Store.Time
import Provisioning.Text.Blank
import Provisioning.Text.DecimalDigit
import Provisioning.Text.Number
import Provisioning.Text.Path
import Provisioning.Text.Quoted
import Provisioning.Text.Ranges
import Provisioning.Text.Split
import Provisioning.Text.Unprintable
import Provisioning.Text.Uuid
import Provisioning.Version.Basic
import Provisioning.Version.Comparator
import Provisioning.Version.Grammar
import Provisioning.Version.Interface
import Provisioning.Version.Range
import Provisioning.Proofs.Dependencies.Circles
import Provisioning.Proofs.Dependencies.Reordering
import Provisioning.Proofs.Entitlement.Validity
import Provisioning.Proofs.Entitlement.Arrangement
import Provisioning.Proofs.Flow.Episodes
import Provisioning.Proofs.Entitlement.Episodes
import Provisioning.Proofs.Ledger.InStep
import Provisioning.Proofs.Ledger.Agreement
import Provisioning.Proofs.Entitlement.Completion
import Provisioning.Proofs.Ledger.Balance
import Provisioning.Proofs.Ledger.Sparing
import Provisioning.Proofs.Ledger.Enabled
import Provisioning.Proofs.Flow.Chronicle
import Provisioning.Proofs.Entitlement.Masking
import Provisioning.Proofs.Entitlement.Modes
import Provisioning.Proofs.Entitlement.Paths
import Provisioning.Proofs.Layering.Modules
import Provisioning.Proofs.Application.Identifiers
import Provisioning.Proofs.Entitlement.Transition
import Provisioning.Proofs.Ledger.Reversal
import Provisioning.Proofs.Ledger.Replacement
import Provisioning.Proofs.Ledger.Atomicity
import Provisioning.Proofs.Store.Forward
import Provisioning.Proofs.Entitlement.Reordering
import Provisioning.Proofs.Flow.Contexts
import Provisioning.Proofs.Flow.Isolation
import Provisioning.Proofs.Version.Ranges
import Provisioning.Proofs.Application.Separation
import Provisioning.Proofs.Application.CutPoints
import Provisioning.Proofs.Entitlement.Selection
import Provisioning.Proofs.Flow.Announcement
import Provisioning.Proofs.Collaborator.Attempts
import Provisioning.Proofs.Flow.Schedules
import Provisioning.Proofs.Entitlement.Schedules
