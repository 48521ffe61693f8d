import Taymna.Agent.AppleScript
import Taymna.Agent.Balloon
import Taymna.Agent.Countdown
import Taymna.Agent.CountdownWindow
import Taymna.Agent.Credentials
import Taymna.Agent.Decommission
import Taymna.Agent.Delivery
import Taymna.Agent.DesktopSession
import Taymna.Agent.Downtime
import Taymna.Agent.EncodedCommand
import Taymna.Agent.Escalation
import Taymna.Agent.FinalSeconds
import Taymna.Agent.FinalWarning
import Taymna.Agent.LinuxNotifier
import Taymna.Agent.Notifier
import Taymna.Agent.OfflineExpiry
import Taymna.Agent.Reconcile
import Taymna.Agent.Renaming
import Taymna.Agent.ServerTime
import Taymna.Agent.SetBack
import Taymna.Agent.StateFile
import Taymna.Agent.TrustedTime
import Taymna.Agent.Wire
import Taymna.Api.AgentFrames
import Taymna.Api.Alone
import Taymna.Api.Deadlines
import Taymna.Api.Extensions
import Taymna.Api.Hub
import Taymna.Api.HubOperators
import Taymna.Api.HubRuns
import Taymna.Api.HubSockets
import Taymna.Api.HubView
import Taymna.Api.Idempotence
import Taymna.Api.Instruction
import Taymna.Api.Lifecycle
import Taymna.Api.MissingRow
import Taymna.Api.Occupancy
import Taymna.Api.Operations
import Taymna.Api.Pending
import Taymna.Api.RangeTotals
import Taymna.Api.Redemption
import Taymna.Api.Removal
import Taymna.Api.Replacement
import Taymna.Api.Reports
import Taymna.Api.Revocation
import Taymna.Api.Secrets
import Taymna.Api.Server
import Taymna.Api.SessionRows
import Taymna.Api.Sessions
import Taymna.Api.Summary
import Taymna.Api.Sweeping
import Taymna.Api.UsedTime
import Taymna.Api.Wire
import Taymna.Automata.Backoff
import Taymna.Automata.Custody
import Taymna.Automata.Family
import Taymna.Automata.Mailbox
import Taymna.Automata.Pool
import Taymna.Automata.Register
import Taymna.Automata.Turns
import Taymna.Number.Double
import Taymna.System.Acknowledgement
import Taymna.System.Enrollment
import Taymna.System.Fleet
import Taymna.System.OperatorSocket
import Taymna.System.Orphans
import Taymna.System.Reordering
import Taymna.System.ReportRequest
import Taymna.System.SessionSync
import Taymna.System.Wire
import Taymna.Text.Base64
import Taymna.Text.Csv
import Taymna.Text.Digits
import Taymna.Text.Json
import Taymna.Text.Lines
import Taymna.Text.Number
import Taymna.Text.Percent
import Taymna.Text.Quoted
import Taymna.Text.Replace
import Taymna.Text.Serde
import Taymna.Text.Template
import Taymna.Time.Calendar
import Taymna.Time.Intervals
import Taymna.Time.Iso
import Taymna.Time.Midnights
import Taymna.Time.Offsets
import Taymna.Time.Rfc3339
import Taymna.Time.Zone
import Taymna.Web.CardActions
import Taymna.Web.Convergence
import Taymna.Web.DailyUsage
import Taymna.Web.MachineCard
import Taymna.Web.Machines
import Taymna.Web.Overtaken
import Taymna.Web.Realtime
import Taymna.Web.ReportRange
import Taymna.Web.UsageReport
