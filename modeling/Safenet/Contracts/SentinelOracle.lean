/-
`contracts/src/SentinelOracle.sol`: sentinels commit to a vote on a request with a bond,
reveal it, and are paid from the fee of the request and from each other's bonds.

A call answers with the events it emits; the transfers it makes the fee token do are among
them, as the events of the token.
-/
import Safenet.Contracts.ERC20
import Safenet.Contracts.SentinelOracleRequests

namespace Safenet.Contracts.SentinelOracle

open Fallible (require)
open SentinelOracleCommitment (Vote Commitment)

/-- The immutables, with the address of the contract. -/
structure Deployment where
  this : Address
  arbitrator : Address
  governance : Address
  proposer : Address
  commitWindow : BitVec 32
  revealWindow : BitVec 32
  governanceDelay : BitVec 32
  arbitrationTimeout : BitVec 32
deriving DecidableEq, Repr

structure State where
  bondConfig : BondConfig
  protocolFundsReceiverConfig : DelayedAddress
  feeConfig : DelayedUint96
  daoFeeShareConfig : DelayedUint96
  sentinelMap : SentinelMap
  requests : SentinelOracleRequestMap.T
  commitments : B256 → SentinelOracleCommitmentMap.T

/-- The storage of the oracle and of the fee token. -/
structure World where
  oracle : State
  token : ERC20.T

inductive Event where
  | newRequest (requestId : B256) (sponsor : Address)
      (fee bondTarget daoFeeShare slashAmount commitDeadline revealDeadline : Nat)
  | committed (requestId : B256) (sentinel : Address) (bondAmount : Nat)
  | revealed (requestId : B256) (sentinel : Address) (approved : Bool) (bondAmount : Nat)
      (reason : Bytes)
  | disputeTriggered (requestId : B256) (deadline : Nat)
  | disputeResolved (requestId : B256) (outcome : SentinelOracleRequest.State) (slashed : Nat)
      (context : Bytes)
  | disputeOutOfScope (requestId : B256) (context : Bytes)
  | arbitrationTimedOut (requestId : B256)
  | requestTimedOut (requestId : B256)
  | oracleResult (requestId : B256) (sponsor : Address) (approved : Bool)
  | claimed (requestId : B256) (sentinel : Address) (bondReturn feeReward : Nat)
  | feeScheduled (newValue activeAtBlock : Nat)
  | daoFeeShareScheduled (newValue activeAtBlock : Nat)
  | protocolFundsReceiverScheduled (newValue : Address) (activeAtBlock : Nat)
  | bondConfigScheduled (newBondMultiplier newSlashingMultiplier activeAtBlock : Nat)
  | sentinelScheduled (sentinel : Address) (activeAtBlock : Nat)
  | sentinelRemoved (sentinel : Address)
  /-- The `Transfer` event of the fee token. -/
  | transfer (source recipient : Address) (value : Nat)
deriving DecidableEq, Repr

structure ConstructorParams where
  arbitrator : Address
  governance : Address
  protocolFundsReceiver : Address
  proposer : Address
  feeToken : Address
  requestFee : BitVec 96
  initialBondMultiplier : BitVec 32
  initialSlashingMultiplier : BitVec 32
  initialDaoFeeShare : BitVec 24
  commitWindow : BitVec 32
  revealWindow : BitVec 32
  governanceDelay : BitVec 32
  arbitrationTimeout : BitVec 32
deriving DecidableEq, Repr

/-- The constructor. -/
def deploy (this : Address) (params : ConstructorParams) : Except Error (Deployment × State) := do
  require (params.arbitrator ≠ 0) .invalidAddress
  require (params.governance ≠ 0) .invalidAddress
  require (params.protocolFundsReceiver ≠ 0) .invalidAddress
  require (params.proposer ≠ 0) .invalidAddress
  require (params.feeToken ≠ 0) .invalidAddress
  require (0 < params.requestFee.toNat) .zeroFee
  require (0 < params.commitWindow.toNat) .zeroWindow
  require (0 < params.revealWindow.toNat) .zeroWindow
  require (params.initialDaoFeeShare.toNat ≤ feeShareDenominator) .invalidFeeShare
  require (0 < params.arbitrationTimeout.toNat) .zeroWindow
  let bondConfig ← BondConfig.init params.initialBondMultiplier.toNat
    params.initialSlashingMultiplier.toNat
  return ({ this
            arbitrator := params.arbitrator
            governance := params.governance
            proposer := params.proposer
            commitWindow := params.commitWindow
            revealWindow := params.revealWindow
            governanceDelay := params.governanceDelay
            arbitrationTimeout := params.arbitrationTimeout },
    { bondConfig
      protocolFundsReceiverConfig := Delayed.init params.protocolFundsReceiver
      feeConfig := Delayed.init params.requestFee.toNat
      daoFeeShareConfig := Delayed.init params.initialDaoFeeShare.toNat
      sentinelMap := fun _ => 0
      requests := fun _ => SentinelOracleRequest.empty
      commitments := fun _ _ => SentinelOracleCommitment.empty })

/-! ### The fee token -/

/-- `FEE_TOKEN.safeTransferFrom(source, address(this), value)`. -/
def collect (deployment : Deployment) (token : ERC20.T) (source : Address) (value : Nat) :
    Except Error (ERC20.T × List Event) := do
  let token ← (ERC20.transferFrom token deployment.this source deployment.this value).mapError
    fun _ => .token
  return (token, [.transfer source deployment.this value])

/-- `FEE_TOKEN.safeTransfer(recipient, value)`. -/
def pay (deployment : Deployment) (token : ERC20.T) (recipient : Address) (value : Nat) :
    Except Error (ERC20.T × List Event) := do
  let token ← (ERC20.transfer token deployment.this recipient value).mapError fun _ => .token
  return (token, [.transfer deployment.this recipient value])

/-- A transfer made only if there is something to pay. -/
def payPositive (deployment : Deployment) (token : ERC20.T) (recipient : Address) (value : Nat) :
    Except Error (ERC20.T × List Event) :=
  if 0 < value then pay deployment token recipient value else .ok (token, [])

/-! ### Voting -/

def postRequest (deployment : Deployment) (env : Env) (world : World) (requestId : B256)
    (sponsor : Address) : Except Error (World × List Event) := do
  let s := world.oracle
  require (env.sender = deployment.proposer) .notProposer
  let (feeConfig, currentFee) := s.feeConfig.applyPending env.number
  let (bondConfig, current) := s.bondConfig.applyPending env.number
  let bondWide ← checkedMul 256 currentFee current.bondMultiplier Error.arithmetic
  let bondTarget ← toUint 96 bondWide .safeCast
  let slashWide ← checkedMul 256 currentFee current.slashingMultiplier Error.arithmetic
  let slashAmount ← toUint 96 slashWide .safeCast
  let (daoFeeShareConfig, daoFeeShare) := s.daoFeeShareConfig.applyPending env.number
  let currentDaoFeeShare := daoFeeShare % 2 ^ 24
  let commitDeadlineWide ← checkedAdd 256 env.number deployment.commitWindow.toNat Error.arithmetic
  let revealDeadlineWide ←
    checkedAdd 256 commitDeadlineWide deployment.revealWindow.toNat Error.arithmetic
  let commitDeadline ← toUint 64 commitDeadlineWide .safeCast
  let revealDeadline ← toUint 64 revealDeadlineWide .safeCast
  let requests ← SentinelOracleRequestMap.create s.requests env.number requestId sponsor currentFee
    bondTarget currentDaoFeeShare slashAmount commitDeadline revealDeadline
  let (token, transfers) ← collect deployment world.token sponsor currentFee
  return (⟨{ s with feeConfig, bondConfig, daoFeeShareConfig, requests }, token⟩,
    .newRequest requestId sponsor currentFee bondTarget currentDaoFeeShare slashAmount
      commitDeadline revealDeadline :: transfers)

/-- Stores a request and the commitments to it. -/
def State.store (s : State) (requestId : B256) (request : SentinelOracleRequest.T)
    (commitments : SentinelOracleCommitmentMap.T) : State :=
  { s with
    requests := Function.update s.requests requestId request
    commitments := Function.update s.commitments requestId commitments }

def commit (deployment : Deployment) (env : Env) (world : World) (requestId commitHash : B256) :
    Except Error (World × List Event) := do
  let s := world.oracle
  require (s.sentinelMap.isActive env.number env.sender) .sentinelNotActive
  let request ← SentinelOracleRequestMap.get s.requests requestId
  let (request, bondAmount) ← SentinelOracleRequest.applyCommit request env.number
  let commitments ← SentinelOracleCommitmentMap.add (s.commitments requestId) env.sender commitHash
    bondAmount
  let (token, transfers) ← collect deployment world.token env.sender bondAmount
  return (⟨s.store requestId request commitments, token⟩,
    .committed requestId env.sender bondAmount :: transfers)

/-! ### Finalisation -/

/-- The payments of `finalize` after the slashed bonds, and the event that ends it. -/
def announce (deployment : Deployment) (token : ERC20.T) (requestId : B256)
    (sponsor fundsReceiver : Address) (arbitrationDeadline : Nat)
    (result : SentinelOracleRequest.Finalization) : Except Error (ERC20.T × List Event) :=
  match result.newState with
  | .frozen => .ok (token, [.disputeTriggered requestId arbitrationDeadline])
  | .timedOut => do
      let (token, transfers) ← pay deployment token sponsor result.refundFee
      return (token, transfers ++ [.requestTimedOut requestId])
  | _ => do
      let (token, transfers) ← payPositive deployment token fundsReceiver result.daoCut
      return (token, transfers ++
        [.oracleResult requestId sponsor (result.newState = .resolvedApproved)])

def finalize (deployment : Deployment) (env : Env) (world : World) (requestId : B256) :
    Except Error (World × List Event) := do
  let s := world.oracle
  let request ← SentinelOracleRequestMap.get s.requests requestId
  let sponsor := request.terms.sponsor
  let wide ← checkedAdd 256 env.number deployment.arbitrationTimeout.toNat Error.arithmetic
  let arbitrationDeadline ← toUint 64 wide .safeCast
  let (request, result) ←
    SentinelOracleRequest.finalize request env.number arbitrationDeadline feeShareDenominator
  let (protocolFundsReceiverConfig, fundsReceiver) :=
    s.protocolFundsReceiverConfig.applyPending env.number
  let (token, slashed) ←
    payPositive deployment world.token fundsReceiver result.unrevealedBond
  let (token, events) ←
    announce deployment token requestId sponsor fundsReceiver arbitrationDeadline result
  return (⟨{ s.store requestId request (s.commitments requestId) with
    protocolFundsReceiverConfig }, token⟩, slashed ++ events)

def reveal (keccak256 : Keccak) (deployment : Deployment) (env : Env) (world : World)
    (requestId : B256) (approve : Bool) (salt : B256) (reason : Bytes) :
    Except Error (World × List Event) := do
  let s := world.oracle
  let request ← SentinelOracleRequestMap.get s.requests requestId
  let bondAmount := (s.commitments requestId env.sender).bondAmount
  let commitments ← SentinelOracleCommitmentMap.reveal keccak256 (s.commitments requestId) requestId
    env.sender approve salt reason
  let (request, allRevealed) ← SentinelOracleRequest.applyReveal request env.number approve
  let world := { world with oracle := s.store requestId request commitments }
  let revealed := Event.revealed requestId env.sender approve bondAmount reason
  if allRevealed then do
    let (world, events) ← finalize deployment env world requestId
    return (world, revealed :: events)
  else
    return (world, [revealed])

def claim (deployment : Deployment) (env : Env) (world : World) (requestId : B256) :
    Except Error (World × List Event) := do
  let s := world.oracle
  let request ← SentinelOracleRequestMap.get s.requests requestId
  let state ← SentinelOracleRequest.requireResolved request
  let commitment := s.commitments requestId env.sender
  let claimed ← SentinelOracleCommitment.markClaimed commitment
  let feeReward ← SentinelOracleRequest.calcFeeReward request state commitment.vote
  let bondReturn ← checkedSub commitment.bondAmount
    (SentinelOracleRequest.slashAmountFor request state commitment.vote) Error.arithmetic
  let totalClaim ← checkedAdd 256 bondReturn feeReward Error.arithmetic
  let (token, transfers) ← payPositive deployment world.token env.sender totalClaim
  return (⟨s.store requestId request
      (Function.update (s.commitments requestId) env.sender claimed), token⟩,
    transfers ++ [.claimed requestId env.sender bondReturn feeReward])

/-! ### Arbitration -/

def resolveDispute (deployment : Deployment) (env : Env) (world : World) (requestId : B256)
    (approveWins : Bool) (context : Bytes) : Except Error (World × List Event) := do
  let s := world.oracle
  require (env.sender = deployment.arbitrator) .notArbitrator
  let request ← SentinelOracleRequestMap.get s.requests requestId
  let sponsor := request.terms.sponsor
  let (request, ruling) ←
    SentinelOracleRequest.resolveDispute request approveWins feeShareDenominator
  let (protocolFundsReceiverConfig, fundsReceiver) :=
    s.protocolFundsReceiverConfig.applyPending env.number
  let (token, refund) ← pay deployment world.token sponsor ruling.feeAmount
  let surplus ← checkedSub ruling.slashed ruling.feeAmount Error.arithmetic
  let gain ← checkedAdd 128 surplus ruling.daoCut Error.arithmetic
  let (token, slashed) ← pay deployment token fundsReceiver gain
  return (⟨{ s.store requestId request (s.commitments requestId) with
      protocolFundsReceiverConfig }, token⟩,
    refund ++ slashed ++ [.disputeResolved requestId ruling.outcome ruling.slashed context])

def timeoutArbitration (deployment : Deployment) (env : Env) (world : World) (requestId : B256) :
    Except Error (World × List Event) := do
  let s := world.oracle
  let request ← SentinelOracleRequestMap.get s.requests requestId
  let sponsor := request.terms.sponsor
  let (request, refundFee) ← SentinelOracleRequest.timeoutArbitration request env.number
  let (token, refund) ← pay deployment world.token sponsor refundFee
  return (⟨s.store requestId request (s.commitments requestId), token⟩,
    refund ++ [.arbitrationTimedOut requestId])

def markOutOfScope (deployment : Deployment) (env : Env) (world : World) (requestId : B256)
    (context : Bytes) : Except Error (World × List Event) := do
  let s := world.oracle
  require (env.sender = deployment.arbitrator) .notArbitrator
  let request ← SentinelOracleRequestMap.get s.requests requestId
  let sponsor := request.terms.sponsor
  let (request, refundFee) ← SentinelOracleRequest.outOfScope request
  let (token, refund) ← pay deployment world.token sponsor refundFee
  return (⟨s.store requestId request (s.commitments requestId), token⟩,
    refund ++ [.disputeOutOfScope requestId context])

/-! ### Governance -/

def onlyGovernance (deployment : Deployment) (env : Env) : Except Error PUnit :=
  require (env.sender = deployment.governance) .notGovernance

def addSentinel (deployment : Deployment) (env : Env) (s : State) (sentinel : Address) :
    Except Error (State × List Event) := do
  onlyGovernance deployment env
  let (sentinelMap, activeAt) ←
    s.sentinelMap.add env.number sentinel deployment.governanceDelay.toNat
  return ({ s with sentinelMap }, [.sentinelScheduled sentinel activeAt])

def removeSentinel (deployment : Deployment) (env : Env) (s : State) (sentinel : Address) :
    Except Error (State × List Event) := do
  onlyGovernance deployment env
  let sentinelMap ← s.sentinelMap.remove sentinel
  return ({ s with sentinelMap }, [.sentinelRemoved sentinel])

def scheduleBondConfig (deployment : Deployment) (env : Env) (s : State)
    (newBondMultiplier newSlashingMultiplier : BitVec 32) : Except Error (State × List Event) := do
  onlyGovernance deployment env
  let (bondConfig, activeAt) ← BondConfig.schedule s.bondConfig env.number newBondMultiplier.toNat
    newSlashingMultiplier.toNat deployment.governanceDelay.toNat
  return ({ s with bondConfig },
    [.bondConfigScheduled newBondMultiplier.toNat newSlashingMultiplier.toNat activeAt])

def applyBondConfig (env : Env) (s : State) : State :=
  { s with bondConfig := (s.bondConfig.applyPending env.number).1 }

def scheduleProtocolFundsReceiver (deployment : Deployment) (env : Env) (s : State)
    (newValue : Address) : Except Error (State × List Event) := do
  onlyGovernance deployment env
  require (newValue ≠ 0) .invalidAddress
  let (protocolFundsReceiverConfig, activeAt) ← s.protocolFundsReceiverConfig.schedule env.number
    newValue deployment.governanceDelay.toNat
  return ({ s with protocolFundsReceiverConfig },
    [.protocolFundsReceiverScheduled newValue activeAt])

def applyProtocolFundsReceiver (env : Env) (s : State) : State :=
  { s with protocolFundsReceiverConfig := (s.protocolFundsReceiverConfig.applyPending env.number).1 }

def scheduleFee (deployment : Deployment) (env : Env) (s : State) (newValue : BitVec 96) :
    Except Error (State × List Event) := do
  onlyGovernance deployment env
  require (0 < newValue.toNat) .zeroFee
  let (feeConfig, activeAt) ←
    s.feeConfig.schedule env.number newValue.toNat deployment.governanceDelay.toNat
  return ({ s with feeConfig }, [.feeScheduled newValue.toNat activeAt])

def applyFee (env : Env) (s : State) : State :=
  { s with feeConfig := (s.feeConfig.applyPending env.number).1 }

def scheduleDaoFeeShare (deployment : Deployment) (env : Env) (s : State)
    (newValue : BitVec 24) : Except Error (State × List Event) := do
  onlyGovernance deployment env
  require (newValue.toNat ≤ feeShareDenominator) .invalidFeeShare
  let (daoFeeShareConfig, activeAt) ←
    s.daoFeeShareConfig.schedule env.number newValue.toNat deployment.governanceDelay.toNat
  return ({ s with daoFeeShareConfig }, [.daoFeeShareScheduled newValue.toNat activeAt])

def applyDaoFeeShare (env : Env) (s : State) : State :=
  { s with daoFeeShareConfig := (s.daoFeeShareConfig.applyPending env.number).1 }

/-! ### Calls -/

inductive Call where
  | postRequest (requestId : B256) (sponsor : Address)
  | commit (requestId commitHash : B256)
  | reveal (requestId : B256) (approve : Bool) (salt : B256) (reason : Bytes)
  | finalize (requestId : B256)
  | claim (requestId : B256)
  | resolveDispute (requestId : B256) (approveWins : Bool) (context : Bytes)
  | timeoutArbitration (requestId : B256)
  | markOutOfScope (requestId : B256) (context : Bytes)
  | addSentinel (sentinel : Address)
  | removeSentinel (sentinel : Address)
  | scheduleBondConfig (newBondMultiplier newSlashingMultiplier : BitVec 32)
  | applyBondConfig
  | scheduleProtocolFundsReceiver (newValue : Address)
  | applyProtocolFundsReceiver
  | scheduleFee (newValue : BitVec 96)
  | applyFee
  | scheduleDaoFeeShare (newValue : BitVec 24)
  | applyDaoFeeShare
deriving DecidableEq, Repr

/-- The request a call is about. -/
def Call.requestId? : Call → Option B256
  | .postRequest requestId _ | .commit requestId _ | .reveal requestId _ _ _ | .finalize requestId
  | .claim requestId | .resolveDispute requestId _ _ | .timeoutArbitration requestId
  | .markOutOfScope requestId _ => some requestId
  | _ => none

/-- A call that leaves the token alone. -/
def onOracle (world : World) (result : Except Error (State × List Event)) :
    Except Error (World × List Event) :=
  result.map fun (s, events) => ({ world with oracle := s }, events)

def call (keccak256 : Keccak) (deployment : Deployment) (env : Env) (world : World) :
    Call → Except Error (World × List Event)
  | .postRequest requestId sponsor => postRequest deployment env world requestId sponsor
  | .commit requestId commitHash => commit deployment env world requestId commitHash
  | .reveal requestId approve salt reason =>
      reveal keccak256 deployment env world requestId approve salt reason
  | .finalize requestId => finalize deployment env world requestId
  | .claim requestId => claim deployment env world requestId
  | .resolveDispute requestId approveWins context =>
      resolveDispute deployment env world requestId approveWins context
  | .timeoutArbitration requestId => timeoutArbitration deployment env world requestId
  | .markOutOfScope requestId context => markOutOfScope deployment env world requestId context
  | .addSentinel sentinel => onOracle world (addSentinel deployment env world.oracle sentinel)
  | .removeSentinel sentinel => onOracle world (removeSentinel deployment env world.oracle sentinel)
  | .scheduleBondConfig newBondMultiplier newSlashingMultiplier =>
      onOracle world (scheduleBondConfig deployment env world.oracle newBondMultiplier
        newSlashingMultiplier)
  | .applyBondConfig => .ok ({ world with oracle := applyBondConfig env world.oracle }, [])
  | .scheduleProtocolFundsReceiver newValue =>
      onOracle world (scheduleProtocolFundsReceiver deployment env world.oracle newValue)
  | .applyProtocolFundsReceiver =>
      .ok ({ world with oracle := applyProtocolFundsReceiver env world.oracle }, [])
  | .scheduleFee newValue => onOracle world (scheduleFee deployment env world.oracle newValue)
  | .applyFee => .ok ({ world with oracle := applyFee env world.oracle }, [])
  | .scheduleDaoFeeShare newValue =>
      onOracle world (scheduleDaoFeeShare deployment env world.oracle newValue)
  | .applyDaoFeeShare => .ok ({ world with oracle := applyDaoFeeShare env world.oracle }, [])

/-- What happens next: a call to the oracle, or a call to the fee token by anybody but the
oracle, whose own token calls are all made above. -/
inductive Input (deployment : Deployment) where
  | call (env : Env) (call : Call)
  | token (sender : { a : Address // a ≠ deployment.this }) (call : ERC20.Call)

/-- One step of the oracle and the fee token. -/
def step (keccak256 : Keccak) (deployment : Deployment) (world : World) :
    Input deployment → World × Except Error (List Event)
  | .call env c => transact world (call keccak256 deployment env world c)
  | .token sender c =>
      transact world (((ERC20.call world.token sender c).mapError fun _ => Error.token).map
        fun token => ({ world with token }, []))

end Safenet.Contracts.SentinelOracle
