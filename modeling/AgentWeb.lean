import AgentWeb.Isolation
import AgentWeb.Resume
import AgentWeb.SeenOrder
import AgentWeb.TerminalEvent
import AgentWeb.StreamRace
import AgentWeb.Coherence
import AgentWeb.Orphans
import AgentWeb.Watchdog
import AgentWeb.LateCancel
import AgentWeb.StartFailure
import AgentWeb.CleanDrain
import AgentWeb.Overspent
import AgentWeb.Ledger
import AgentWeb.Metering
import AgentWeb.StderrFrames
import AgentWeb.Chunking
import AgentWeb.Billing
import AgentWeb.Occupancy
import AgentWeb.Restarts
import AgentWeb.GluedLines
import AgentWeb.LineCaps
import AgentWeb.Revocation
import AgentWeb.Quota
import AgentWeb.QuotaRace
import AgentWeb.DurableRows
import AgentWeb.SyncRace
import AgentWeb.StorageContract
import AgentWeb.Containment
import AgentWeb.Refusals
import AgentWeb.Failures
import AgentWeb.Capping
import AgentWeb.Truncation
import AgentWeb.Recognition
import AgentWeb.Relaying
import AgentWeb.Rendering
import AgentWeb.Answers
import AgentWeb.Secrets
import AgentWeb.TenantIsolation
import AgentWeb.Elision
import AgentWeb.CappedLines
import AgentWeb.Buffers
import AgentWeb.Deadline
import AgentWeb.Greeting
import AgentWeb.StderrLog
import AgentWeb.Columns
import AgentWeb.UploadLeftovers
import AgentWeb.TypeGate
import AgentWeb.TextSniff
import AgentWeb.SeqCount
import AgentWeb.Throttle
import AgentWeb.RetryAfter
import AgentWeb.LockOrder
import AgentWeb.Histogram
import AgentWeb.Registration
import AgentWeb.BestEffort
import AgentWeb.Rehydration
import AgentWeb.FileNames
import AgentWeb.Decimals
import AgentWeb.Rounding
import AgentWeb.ShortestFloat
import AgentWeb.JsonNumbers
import AgentWeb.JsonWriter
import AgentWeb.JsonCodec
import AgentWeb.JsonAscii
import AgentWeb.OpLines
import AgentWeb.EventSource
import AgentWeb.EventStream
import AgentWeb.Connections
import AgentWeb.RelayedFrames
import AgentWeb.Traces
import AgentWeb.Writes
import AgentWeb.Background
import AgentWeb.Integrity
import AgentWeb.Unwinding
import AgentWeb.Purging
import AgentWeb.InFlight
import AgentWeb.KillSwitch
import AgentWeb.Html
import AgentWeb.RenderAnswer
import AgentWeb.SignIn
import AgentWeb.FinishedRuns
