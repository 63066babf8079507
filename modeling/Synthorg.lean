import Synthorg.TaskEngine.Proofs.Tokens
import Synthorg.Initiative.Proofs.PlanAdvance
import Synthorg.Initiative.Proofs.ExtensionGraft
import Synthorg.AuditChain.Proofs.Binding
import Synthorg.AuditChain.Proofs.Restart
import Synthorg.Compaction.Proofs.WellFormed
import Synthorg.Workflow.Proofs.Settled
import Synthorg.Subsystems.Proofs.Handoff
import Synthorg.Subsystems.Proofs.Captured
import Synthorg.Budget.Proofs.CountedOnce
import Synthorg.Communication.Hierarchy
import Synthorg.Communication.Proofs.Delivery
import Synthorg.Kanban.Proofs.Moves
import Synthorg.Approvals.Proofs.Once
import Synthorg.Idempotency.Proofs.Replay
import Synthorg.Sprints.Proofs.Sweep
import Synthorg.Coordination.Proofs.Gated
import Synthorg.Scheduler.Proofs.KeptLock
import Synthorg.Settings.Proofs.SinglePoll
import Synthorg.EventStream.Proofs.Resolutions
import Synthorg.EventStream.Proofs.Delivered
import Synthorg.Sidecar.Proofs.Narrowed
import Synthorg.Sidecar.Proofs.Serial
import Synthorg.Workers.Proofs.Accounted
import Synthorg.Settings.Proofs.Fresh
import Synthorg.Settings.Proofs.NeverWeakened
import Synthorg.Versioning.Proofs.Exact
import Synthorg.Providers.Proofs.Admitted
import Synthorg.Workspace.Proofs.InTurn
import Synthorg.Auth.Proofs.Survives
import Synthorg.Auth.Proofs.ChangeKills
import Synthorg.Workspace.Proofs.Restored
import Synthorg.Providers.Proofs.Latched
import Synthorg.Providers.Proofs.Replayed
import Synthorg.Providers.ToolCalls
import Synthorg.Approvals.Proofs.Resumed
import Synthorg.Decomposition.Rollup
import Synthorg.Decomposition.Proofs.StoredOrder
import Synthorg.Decomposition.Proofs.Vocabulary
import Synthorg.Core.Proofs.ShortestPath
import Synthorg.Initiative.Proofs.CriticalPath
import Synthorg.Coordination.Proofs.Groups
import Synthorg.RateLimits.Proofs.Permits
import Synthorg.Sandbox.Proofs.InUse
import Synthorg.Communication.Proofs.Ceiling
import Synthorg.Core.Proofs.References
import Synthorg.Budget.Proofs.Quota
import Synthorg.Decomposition.Proofs.Embedded
import Synthorg.Workflow.Proofs.Diffed
import Synthorg.Coordination.Proofs.FailFast
import Synthorg.Workflow.Condition
import Synthorg.Budget.Rebalance
import Synthorg.Security.Detectors
import Synthorg.Security.Timeout
import Synthorg.Sidecar.Egress
import Synthorg.Memory.Ranking
import Synthorg.RateLimits.SlidingWindow
import Synthorg.Core.LockMap
import Synthorg.Sandbox.OwnerKey
import Synthorg.Sandbox.Mount
import Synthorg.Workspace.EditPlan
import Synthorg.Workspace.Pending
import Synthorg.Core.Pagination
