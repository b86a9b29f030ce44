import Safenet.Lib.Trace
import Safenet.Lib.Table
import Safenet.Lib.Bytes
import Safenet.Proofs.Staking
import Safenet.Proofs.SentinelOracle
import Safenet.Proofs.Replay
import Safenet.Proofs.SafenetGuard
import Safenet.Proofs.FROSTCoordinator
import Safenet.Contracts.FROSTCoordinator
import Safenet.Proofs.Coordinator
import Safenet.Proofs.Consensus
import Safenet.Proofs.BlockWatcher
import Safenet.Proofs.OracleGate
import Safenet.Proofs.Observer
import Safenet.Proofs.RequestLifecycle
import Safenet.Proofs.StakingTimelock
import Safenet.Proofs.EpochForest
import Safenet.Proofs.Boundary
import Safenet.Proofs.Warp
import Safenet.Proofs.Watcher
import Safenet.Proofs.Reorgs
import Safenet.Proofs.SecureVerdict
import Safenet.Proofs.Keystream
import Safenet.Proofs.Reconciliation
import Safenet.Proofs.KeygenRuns
import Safenet.Proofs.Hashing
import Safenet.Proofs.GroupLaw
import Safenet.Proofs.ShareVerification
import Safenet.Proofs.Participation
import Safenet.Proofs.ShareDelivery
import Safenet.Proofs.AttestationTrailer
import Safenet.Proofs.GovernanceDelay
import Safenet.Proofs.BatchGas
import Safenet.Proofs.Submissions
import Safenet.Proofs.AddressPoisoning
import Safenet.Proofs.MultiSend
import Safenet.Proofs.Aggregation
import Safenet.Proofs.HashToField
import Safenet.Proofs.SentinelVerdicts
import Safenet.Proofs.SentinelClaims
import Safenet.Proofs.OnchainShares
import Safenet.Proofs.ThresholdSigning
import Safenet.Proofs.RolloverRuns
import Safenet.Proofs.EpochClock
import Safenet.Core.Driver
import Safenet.Lib.Related
import Safenet.Lib.Simulation
import Safenet.Proofs.Driver
import Safenet.Proofs.DriverRuns
import Safenet.Proofs.DriverQueue
import Safenet.Proofs.DriverEffects
