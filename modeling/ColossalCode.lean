import ColossalCode.Orchestrator.Resume
import ColossalCode.Orchestrator.Inject
import ColossalCode.Orchestrator.Verified
import ColossalCode.Orchestrator.Cancel
import ColossalCode.Orchestrator.Status
import ColossalCode.Backend.Events
import ColossalCode.Backend.ToolCalls
import ColossalCode.Sessionizer.TableRuns
import ColossalCode.Sessionizer.Deadlock
import ColossalCode.Approval.Answers
import ColossalCode.Dispatch.Granted
import ColossalCode.Pty.Late
import ColossalCode.ModelServer.Budget
import ColossalCode.ModelServer.InUse
import ColossalCode.ModelServer.PullJobs
import ColossalCode.A2A.Streams
import ColossalCode.Scoped.Undisturbed
import ColossalCode.Semantic.Mirror
import ColossalCode.Runtime.Turns
import ColossalCode.Runtime.Context
import ColossalCode.ToolsBinary.Arguments
import ColossalCode.Auth.Written
import ColossalCode.Ui.Turns
import ColossalCode.Ui.Replaced
import ColossalCode.Ui.Delivery
import ColossalCode.Conversation.Intact
import ColossalCode.Conversation.Identity
import ColossalCode.Agent.Reentry
import ColossalCode.Orchestrator.Spawned
import ColossalCode.ModelServer.Reload
import ColossalCode.Orchestrator.Dependencies
import ColossalCode.Ui.Attribution
import ColossalCode.A2A.Isolation
import ColossalCode.ModelServer.Telling
import ColossalCode.Rpc.Exact
import ColossalCode.PlanView.Mirror
import ColossalCode.A2A.Texts
import ColossalCode.Nu.Fork
import ColossalCode.Nu.ForkAgrees
import ColossalCode.Pty.CwdProbe
import ColossalCode.Pty.Stripped
import ColossalCode.Pty.TrackedEnv
import ColossalCode.Sandbox.ReadOnly
import ColossalCode.Sandbox.Chain
import ColossalCode.Agent.GitChanges
import ColossalCode.Backend.ToolNames
import ColossalCode.ModelServer.Translate
import ColossalCode.ModelServer.Unload
import ColossalCode.PlanView.SessionOrder
import ColossalCode.Semantic.ChangeRange
import ColossalCode.Agent.Restore
import ColossalCode.Dispatch.Roots
import ColossalCode.Sessionizer.Atomic
import ColossalCode.Output.Paths
import ColossalCode.Backend.Denoted
import ColossalCode.Nu.RoundTrip
import ColossalCode.Ui.EventRoundTrip
import ColossalCode.A2A.Lifecycle
import ColossalCode.ToolsBinary.Edits
import ColossalCode.ToolsBinary.Search
import ColossalCode.Ui.Config
import ColossalCode.ModelServer.Settings
import ColossalCode.Chunker.Coverage
import ColossalCode.Ui.FileChanges
import ColossalCode.Ui.Formatting
import ColossalCode.Agent.CancelRequest
import ColossalCode.Agent.Summaries
