import PreActive.Foundation.Program
import PreActive.Foundation.System
import PreActive.Foundation.Table
import PreActive.Python.Values
import PreActive.Python.Json
import PreActive.Python.JsonRoundTrip
import PreActive.Python.JsonOrder
import PreActive.Python.Number
import PreActive.Kernel.Schema
import PreActive.Kernel.State
import PreActive.Kernel.Statements
import PreActive.Kernel.Store
import PreActive.Kernel.Operations
import PreActive.Kernel.Context
import PreActive.Kernel.Tools
import PreActive.Kernel.Engine
import PreActive.Kernel.System
import PreActive.Kernel.Transactions
import PreActive.Kernel.Rows
import PreActive.Kernel.Changes
import PreActive.Kernel.ToolPaths
import PreActive.Kernel.Decisions
import PreActive.Kernel.StorePaths
import PreActive.Kernel.WorkerPaths
import PreActive.Kernel.Paths
import PreActive.Kernel.Dispatch
import PreActive.Kernel.Ledger
import PreActive.Kernel.Lifecycle
import PreActive.Kernel.Fence
import PreActive.Kernel.Successors
import PreActive.Kernel.Ownership
import PreActive.Kernel.Barrier
import PreActive.Kernel.Confinement
import PreActive.Foundation.Crash
import PreActive.Kernel.Ideal
import PreActive.Kernel.Replay
import PreActive.Kernel.Invocation
import PreActive.Kernel.Attempts
import PreActive.Kernel.Solo
import PreActive.Kernel.Transparency
import PreActive.Kernel.Queue
import PreActive.Kernel.Binding
import PreActive.Kernel.Journal
import PreActive.Kernel.Occurrences
import PreActive.Kernel.Scheduler
import PreActive.Kernel.Requests
import PreActive.Kernel.Moves
import PreActive.Kernel.Pace
import PreActive.Kernel.Refusals
import PreActive.Kernel.Origins
import PreActive.Kernel.Recovery
import PreActive.Foundation.Sequence
import PreActive.Kernel.Retries
import PreActive.Foundation.Selection
import PreActive.Kernel.Budget
import PreActive.Kernel.Recency
import PreActive.Foundation.Trace
import PreActive.Kernel.DedupKeys
import PreActive.Python.Strip
import PreActive.Kernel.CatchUp
import PreActive.Kernel.Settlement
import PreActive.Kernel.StepRetry
import PreActive.Foundation.Pattern
import PreActive.Bridge.Protocol
import PreActive.Bridge.Markup
import PreActive.Bridge.FailClosed
import PreActive.Bridge.RoundTrip
import PreActive.Bridge.Adapter
import PreActive.Bridge.EndToEnd
import PreActive.Foundation.Ranking
import PreActive.Foundation.Strike
import PreActive.Kernel.Interrupts
import PreActive.Kernel.ProcessControl
import PreActive.Kernel.Retrieval
import PreActive.Kernel.ReadRetry
import PreActive.Kernel.SchemaMeaning
import PreActive.Kernel.Validation
import PreActive.Kernel.SchemaReading
import PreActive.Foundation.Session
import PreActive.Foundation.Rely
import PreActive.Foundation.Turns
import PreActive.Foundation.Exclusive
import PreActive.Kernel.Daemon
import PreActive.Kernel.Hosting
import PreActive.Kernel.EventSteps
import PreActive.Kernel.Recurring
import PreActive.Kernel.Draining
import PreActive.Kernel.Attention
import PreActive.Kernel.Harmless
import PreActive.Kernel.Prompting
import PreActive.Bridge.Service
import PreActive.Bridge.Deciding
import PreActive.Kernel.Dialogue
import PreActive.Kernel.Integrity
