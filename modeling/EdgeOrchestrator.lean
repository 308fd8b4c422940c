import EdgeOrchestrator.Foundation.DelimitedText
import EdgeOrchestrator.Foundation.StackWalk
import EdgeOrchestrator.Foundation.Places
import EdgeOrchestrator.Foundation.Execution
import EdgeOrchestrator.Foundation.LruCache
import EdgeOrchestrator.Foundation.LongestPrefix
import EdgeOrchestrator.Foundation.PackedBlocks
import EdgeOrchestrator.Foundation.IndexedLog
import EdgeOrchestrator.Foundation.Gaps
import EdgeOrchestrator.Foundation.Words
import EdgeOrchestrator.Foundation.ShellReading
import EdgeOrchestrator.Foundation.CoupledQueues
import EdgeOrchestrator.Foundation.KeyedFold
import EdgeOrchestrator.Core.Types
import EdgeOrchestrator.Core.Error
import EdgeOrchestrator.Storage.Objects
import EdgeOrchestrator.Storage.Store
import EdgeOrchestrator.Storage.Hashing
import EdgeOrchestrator.Storage.TreeHashing
import EdgeOrchestrator.Storage.PutHistory
import EdgeOrchestrator.Storage.AppendOnly
import EdgeOrchestrator.Storage.ConcurrentPuts
import EdgeOrchestrator.Storage.CommitIdentity
import EdgeOrchestrator.Storage.ReadVerification
import EdgeOrchestrator.Storage.CanonicalTrees
import EdgeOrchestrator.Storage.TreeDiff
import EdgeOrchestrator.Storage.Packfile
import EdgeOrchestrator.Storage.Confinement
import EdgeOrchestrator.P2P.Events
import EdgeOrchestrator.P2P.ProjectExchange
import EdgeOrchestrator.P2P.ExactlyOnce
import EdgeOrchestrator.P2P.ServedRequests
import EdgeOrchestrator.P2P.Protocol
import EdgeOrchestrator.P2P.Framing
import EdgeOrchestrator.P2P.Swarm
import EdgeOrchestrator.Raft.StateMachine
import EdgeOrchestrator.Raft.Storage
import EdgeOrchestrator.Raft.Network
import EdgeOrchestrator.Raft.Node
import EdgeOrchestrator.Raft.CommittedReplay
import EdgeOrchestrator.Raft.PersistBeforeSend
import EdgeOrchestrator.Raft.VoteSafety
import EdgeOrchestrator.Raft.LogRefinement
import EdgeOrchestrator.Raft.CacheTransparency
import EdgeOrchestrator.Raft.LogReads
import EdgeOrchestrator.Raft.ReadLimits
import EdgeOrchestrator.Raft.Compaction
import EdgeOrchestrator.Raft.Snapshots
import EdgeOrchestrator.Raft.NodeRecord
import EdgeOrchestrator.Raft.ReplicatedState
import EdgeOrchestrator.Raft.SnapshotReplay
import EdgeOrchestrator.Orchestration.Topology
import EdgeOrchestrator.Orchestration.Registration
import EdgeOrchestrator.Sandbox.Qlean
import EdgeOrchestrator.Sandbox.MachineReuse
import EdgeOrchestrator.Sandbox.ReplyOrder
import EdgeOrchestrator.Sandbox.PhaseBudgets
import EdgeOrchestrator.Sandbox.ExitCodes
import EdgeOrchestrator.Node.ProjectClient
import EdgeOrchestrator.Node.ResultFinality
import EdgeOrchestrator.Node.CasFetch
import EdgeOrchestrator.Node.Waiters
import EdgeOrchestrator.Node.FetchIndependence
import EdgeOrchestrator.Node.EventMonitor
import EdgeOrchestrator.Node.AskedPeers
import EdgeOrchestrator.Node.Backpressure
import EdgeOrchestrator.Node.SnapshotIntegrity
import EdgeOrchestrator.Node.AnswerAcceptance
import EdgeOrchestrator.Node.LostWakeUp
import EdgeOrchestrator.Node.RemoteHash
import EdgeOrchestrator.Node.Routing
import EdgeOrchestrator.Node.LiveIncarnation
import EdgeOrchestrator.Node.WaiterLifetime
import EdgeOrchestrator.Node.ProjectTraffic
import EdgeOrchestrator.Node.TaskOwnership
import EdgeOrchestrator.Node.DispatchFailure
import EdgeOrchestrator.Node.TaskRecords
import EdgeOrchestrator.Foundation.ClosingChannel
import EdgeOrchestrator.Orchestration.RoleEngine
import EdgeOrchestrator.Orchestration.Failover
import EdgeOrchestrator.Node.CapableNodes
import EdgeOrchestrator.Node.InlineSnapshots
import EdgeOrchestrator.Node.WorkDirectories
import EdgeOrchestrator.Node.ResultGrace
import EdgeOrchestrator.Node.JsonRpc
import EdgeOrchestrator.Node.IpcServer
import EdgeOrchestrator.Sandbox.ImageTemplates
import EdgeOrchestrator.Node.Config
import EdgeOrchestrator.Node.Bootstrap
import EdgeOrchestrator.Agent.Workspace
import EdgeOrchestrator.Agent.ScanLimits
import EdgeOrchestrator.Agent.Plan
import EdgeOrchestrator.Agent.PlanStability
import EdgeOrchestrator.Foundation.Codecs
import EdgeOrchestrator.Foundation.BoundedRounds
import EdgeOrchestrator.Foundation.SharedLog
import EdgeOrchestrator.Foundation.Base64
import EdgeOrchestrator.Core.Text
import EdgeOrchestrator.Wire.Serde
import EdgeOrchestrator.Wire.Documents
import EdgeOrchestrator.Wire.Messages
import EdgeOrchestrator.Wire.Exchanges
import EdgeOrchestrator.Wire.Versions
import EdgeOrchestrator.Wire.Mesh
import EdgeOrchestrator.Wire.RaftTraffic
import EdgeOrchestrator.Node.ProjectSubmission
import EdgeOrchestrator.Wire.WorkspaceDelivery
import EdgeOrchestrator.Wire.ResultDelivery
import EdgeOrchestrator.Wire.ProjectNetwork
import EdgeOrchestrator.Raft.Replicas
import EdgeOrchestrator.Wire.TaskRouting
import EdgeOrchestrator.Agent.ClusterClient
import EdgeOrchestrator.Agent.Waiting
import EdgeOrchestrator.Agent.PlanReplies
import EdgeOrchestrator.Agent.Attempts
import EdgeOrchestrator.Agent.Outputs
