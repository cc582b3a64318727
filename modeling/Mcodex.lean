import Mcodex.Lib.Effect
import Mcodex.Lib.Transition
import Mcodex.AccountPool.LeaseTable
import Mcodex.AccountPool.Store
import Mcodex.AccountPool.Quota
import Mcodex.AccountPool.Fencing
import Mcodex.AccountPool.HealthPool
import Mcodex.AccountPool.Convergence
import Mcodex.AccountPool.ProbeExclusion
import Mcodex.AccountPool.SelectionSpec
import Mcodex.AccountPool.SelectionOrder
import Mcodex.AccountPool.StartupAgreement
import Mcodex.Runtime.Acquisition
import Mcodex.Runtime.Failover
import Mcodex.Runtime.Report
import Mcodex.Runtime.LeaseHost
import Mcodex.Runtime.LeaseAuthority
import Mcodex.ExecPolicy.Restart
import Mcodex.Config.Origins
import Mcodex.NetworkProxy.Runtime
import Mcodex.NetworkProxy.Allowlist
import Mcodex.RemoteControl.ClientTracker
import Mcodex.RemoteControl.ConnectionLife
import Mcodex.RemoteControl.Delivery
import Mcodex.ApplyPatch.Streaming
import Mcodex.ApplyPatch.Approved
import Mcodex.ApplyPatch.Replacements
import Mcodex.Shell.PlainCommands
import Mcodex.Rollout.ForwardFold
import Mcodex.Rollout.Rollback
import Mcodex.Rollout.Prompt
import Mcodex.Rollout.TurnIds
import Mcodex.Rollout.RollbackAgreement
import Mcodex.Rollout.ListingPages
import Mcodex.Rollout.Truncation
import Mcodex.StreamParser.AssistantText
import Mcodex.Permissions.Bridge
import Mcodex.Permissions.Preapproval
import Mcodex.Permissions.Effective
import Mcodex.Permissions.Widening
import Mcodex.ExecServer.SessionRegistry
import Mcodex.ExecServer.LocalProcess
import Mcodex.ExecServer.OrderedEvents
import Mcodex.ExecServer.RpcClient
import Mcodex.UnifiedExec.ProcessIds
import Mcodex.Agents.Slots
import Mcodex.Agents.Descendants
import Mcodex.Logs.Retention
import Mcodex.Memories.Stage1Claims
import Mcodex.Memories.Consolidation
import Mcodex.Memories.Forgetting
import Mcodex.Threads.ListThreads
import Mcodex.Threads.Batches
import Mcodex.Threads.Edits
import Mcodex.Trace.Snapshots
import Mcodex.CodeMode.Delivery
import Mcodex.CodeMode.Answers
import Mcodex.CodeMode.Values
import Mcodex.AgentJobs.Csv
import Mcodex.AgentJobs.Progress
import Mcodex.AgentJobs.Reports
import Mcodex.AgentJobs.Template
import Mcodex.Guardian.Reviews
import Mcodex.Guardian.Rendering
import Mcodex.Guardian.Pairing
import Mcodex.UnifiedExec.HeadTailBuffer
import Mcodex.Output.ItemTruncation
import Mcodex.Readiness.WakeUp
import Mcodex.FuzzyMatch.Matching
import Mcodex.StreamParser.Utf8Stream
import Mcodex.NetworkProxy.HostNames
import Mcodex.NetworkProxy.Approvals
import Mcodex.Tui.Conservation
import Mcodex.Tui.MentionCodec
import Mcodex.Tui.AtomicElements
import Mcodex.Tui.HistorySearch
import Mcodex.MessageHistory.Sharing
import Mcodex.Runtime.CollaborationTree
import Mcodex.Secrets.LocalBackend
