import RustEvents.Foundation.LabelledRuns
import RustEvents.Foundation.IndexedTable
import RustEvents.Foundation.FencedCell
import RustEvents.Foundation.PrefixCodes
import RustEvents.Foundation.Projections
import RustEvents.Foundation.ChunkedSweeps
import RustEvents.Foundation.ContestedSweeps
import RustEvents.Foundation.Records
import RustEvents.Foundation.Obligations
import RustEvents.Foundation.Drives
import RustEvents.Foundation.LockOrder
import RustEvents.Foundation.Receivers
import RustEvents.Model.Text
import RustEvents.Model.Errors
import RustEvents.Model.Schema
import RustEvents.Model.Builder
import RustEvents.Model.Serde
import RustEvents.Model.Runtime
import RustEvents.Model.Dispatch
import RustEvents.Model.Purge
import RustEvents.Model.Start
import RustEvents.Model.History
import RustEvents.Model.Shutdown
import RustEvents.Worker.Statements
import RustEvents.Worker.Reasons
import RustEvents.Worker.Rows
import RustEvents.Worker.Steps
import RustEvents.Worker.Invocations
import RustEvents.Worker.Fencing
import RustEvents.Worker.Superseded
import RustEvents.Worker.Independence
import RustEvents.Worker.Atomicity
import RustEvents.Worker.Verdicts
import RustEvents.Worker.SafeReasons
import RustEvents.Worker.ErrorClasses
import RustEvents.Worker.DecodeLeaks
import RustEvents.Worker.Timeouts
import RustEvents.Worker.Origins
import RustEvents.Queue.Jobs
import RustEvents.Queue.Agreement
import RustEvents.Queue.LostAnswers
import RustEvents.Queue.Progress
import RustEvents.Queue.Budget
import RustEvents.Queue.Turns
import RustEvents.Dispatch.Effects
import RustEvents.Dispatch.Rejections
import RustEvents.Dispatch.HeaderLimits
import RustEvents.Dispatch.Fanout
import RustEvents.Dispatch.Plans
import RustEvents.Dispatch.Tenants
import RustEvents.Dispatch.Concurrent
import RustEvents.Dispatch.Ownership
import RustEvents.Dispatch.Idempotency
import RustEvents.Dispatch.Admission
import RustEvents.Dispatch.Traces
import RustEvents.Dispatch.Serial
import RustEvents.Dispatch.Interleaved
import RustEvents.Dispatch.LockWaits
import RustEvents.Builder.Registrations
import RustEvents.Builder.ConcurrencyKeys
import RustEvents.Purge.Sweeps
import RustEvents.Purge.Orders
import RustEvents.Purge.Cutoffs
import RustEvents.System.Lifecycle
import RustEvents.System.Absorbing
import RustEvents.System.KeyRetention
import RustEvents.System.PurgeSafety
import RustEvents.System.RowInvariants
import RustEvents.System.AuditCounters
import RustEvents.System.SingleStart
import RustEvents.System.Chronicle
import RustEvents.System.Integrity
import RustEvents.System.Provenance
import RustEvents.System.Downstream
import RustEvents.System.TypedHandlers
import RustEvents.System.Accounts
import RustEvents.System.PurgeLoad
import RustEvents.System.Retention
import RustEvents.System.RetentionWindow
import RustEvents.System.Histories
