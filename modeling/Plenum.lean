import Plenum.Core.Dict
import Plenum.Core.Exec
import Plenum.Core.Ends
import Plenum.Core.Run
import Plenum.Core.Intervals
import Plenum.Core.KeyedFold
import Plenum.Core.Quorum
import Plenum.Common.Util
import Plenum.Common.Types
import Plenum.Common.Ledger
import Plenum.Server.Propagator
import Plenum.Server.Models
import Plenum.Server.HasActionQueue
import Plenum.Common.LedgerManager
import Plenum.Common.LedgerFrame
import Plenum.Scenarios.CatchingUp
import Plenum.Common.CatchupTarget
import Plenum.Common.CatchupReplies
import Plenum.Common.HonestReplies
import Plenum.Server.Databases
import Plenum.Server.ReplicaState
import Plenum.Server.Replica
import Plenum.Server.OrderingProtocol
import Plenum.Server.ReplicaWrites
import Plenum.Server.ReplicaRefinement
import Plenum.Server.PrimaryChange
import Plenum.Scenarios.FourNodes
import Plenum.Server.VoteOrder
import Plenum.Server.InSequence
import Plenum.Server.ReqHandler
import Plenum.Server.StateRebuild
import Plenum.Server.Batch
import Plenum.Server.Votes
import Plenum.Server.Agreement
import Plenum.Server.Node
import Plenum.Server.NodeProtocol
import Plenum.Server.Execution
import Plenum.Server.OrderedOnce
import Plenum.Server.PrimaryElector
import Plenum.Server.Quorums
import Plenum.Common.Signing
import Plenum.Server.Monitor
import Plenum.Server.CatchupState
import Plenum.Server.PoolReqHandler
import Plenum.Server.PoolManager
import Plenum.Server.DynamicValidation
import Plenum.Persistence.ClientReqRepStoreFile
import Plenum.Server.ConsistencyProofs
import Plenum.Server.Participating
import Plenum.Server.ViewChange
import Plenum.Server.Replay
import Plenum.Server.ReplicaFrame
import Plenum.Server.PendingPrePrepares
import Plenum.Server.WaitingVotes
import Plenum.Common.TwoLists
import Plenum.Server.CommitAtomic
import Plenum.Persistence.ReqIdrToTxn
import Plenum.Core.LruCache
import Plenum.Server.StewardCache
import Plenum.Common.Json
import Plenum.Client.GetReply
import Plenum.Server.WaterMarks
import Plenum.Server.CheckpointIntervals
import Plenum.Server.StableCheckpoints
import Plenum.Server.PropagateQuorum
import Plenum.Server.NodeRouting
import Plenum.Server.FutureMessages
import Plenum.Server.FaultParameters
import Plenum.Server.Election
import Plenum.Scenarios.FourElectors
import Plenum.Server.ElectorSteps
import Plenum.Server.PrimaryQuorum
import Plenum.Server.ReelectionRounds
import Plenum.Server.ElectingNode
import Plenum.Server.ElectionPool
import Plenum.Server.PreviousPrimary
import Plenum.Core.Ranges
import Plenum.Common.CatchupReqs
import Plenum.Common.MissingTxns
import Plenum.Common.SyncRuns
import Plenum.Common.ProofTimer
import Plenum.Common.Confirmations
import Plenum.Common.ServeCatchup
import Plenum.Server.AddedInstances
import Plenum.Server.RepeatingActions
import Plenum.Client.TxnLog
import Plenum.Client.PoolTxns
import Plenum.Client.Retry
import Plenum.Common.Throttler
import Plenum.Common.SignedForm
import Plenum.Core.Leads
import Plenum.Server.ClientLatencies
import Plenum.Server.TotalRequests
import Plenum.Server.StewardBound
import Plenum.Core.Numerals
import Plenum.Common.Fields
import Plenum.Core.Base58
import Plenum.Common.HexRoots
import Plenum.Common.MerkleRoots
import Plenum.Server.ActionRuns
import Plenum.Common.Batched
import Plenum.Server.ObsoleteBatches
import Plenum.Server.TotalOrder
import Plenum.Server.PoolRefinement
import Plenum.Common.CatchupRound
import Plenum.Common.ReceivedMessages
import Plenum.Server.OutwardSteps
import Plenum.Server.NodeLedgers
import Plenum.Server.LedgerAgreement
import Plenum.Client.CommittedReplies
import Plenum.Core.Base58Decode
import Plenum.Common.DidVerifier
import Plenum.Client.Wallet
import Plenum.Server.ClientAuthn
