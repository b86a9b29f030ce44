/-
The transition function of a sentinel, `SentinelTransition` of `sentinel/src/service.rs`.

The salt of a reveal is derived from the account key.  A hash map has no order, so the actions of a
new block come in the order of the request ids here.
-/
import Safenet.Sentinel.Hashing
import Safenet.Sentinel.State

namespace Safenet.Sentinel

open Contracts (Keccak)
open SentinelRequestState

/-- The account of the sentinel. -/
structure Signer where
  address : Address
  revealSalt : B256 → B256

structure SentinelTransition where
  oracle : Address
  consensus : Address
  signer : Signer
  chainId : B256
  /-- For how long a proposal is kept that no request follows. -/
  votingWindow : Nat

namespace SentinelTransition

variable (keccak256 : Keccak) (t : SentinelTransition)

/-- Starts tracking a proposed transaction and has it checked. -/
def handleOracleTransactionProposed (state : State) (block blockTimestamp : Nat)
    (event : TransactionProposed) : State × List Command :=
  if event.oracle ≠ t.oracle then (state, [])
  else
    let requestId := oracleTxProposalHash keccak256 t.chainId t.consensus event.epoch event.oracle
      event.oracleData event.safeTxHash
    match state.lookup requestId with
    | some _ => (state, [])
    | none =>
        (state.insert requestId (.waitingForEngineCheck (saturatingAdd block t.votingWindow) none),
          [.effect (.engineCheck requestId event.transaction blockTimestamp block)])

/-- Locks a bond behind a blind commitment. -/
def commitVote (state : State) (requestId : B256) (approve : Bool) (reason : String)
    (request : Request) : State × List Command :=
  let salt := t.signer.revealSalt requestId
  let hash := commitHash keccak256 t.signer.address requestId approve salt reason
  (state.insert requestId (.collectingCommitments
      { approve
        reason
        slashAmount := request.slashAmount
        commitDeadline := request.commitDeadline
        revealDeadline := request.revealDeadline
        committedCount := 0
        selfCommitted := false }),
    [.action ⟨.approveToken request.bondTarget, some request.commitDeadline⟩,
      .action ⟨.commit requestId hash, some request.commitDeadline⟩])

/-- Commits to the vote of the verdict, or keeps it until the request opens. -/
def handleEngineCheckResult (state : State) (requestId : B256) (outcome : CheckOutcome) :
    State × List Command :=
  match state.lookup requestId with
  | some (.waitingForEngineCheck deadline request) =>
      let state := state.erase requestId
      match outcome.vote with
      | none => (state, [])
      | some (approve, reason) =>
          match request with
          | some request => t.commitVote keccak256 state requestId approve reason request
          | none => (state.insert requestId (.waitingForRequest approve reason deadline), [])
  | _ => (state, [])

/-- Commits to the vote on a request that opens, or keeps its terms until the check is over. -/
def handleNewRequest (state : State) (requestId : B256) (request : Request) : State × List Command :=
  match state.lookup requestId with
  | some (.waitingForRequest approve reason _) =>
      t.commitVote keccak256 (state.erase requestId) requestId approve reason request
  | some (.waitingForEngineCheck deadline none) =>
      (state.insert requestId (.waitingForEngineCheck deadline (some request)), [])
  | _ => (state, [])

/-- Counts a commitment. -/
def handleCommitted (state : State) (requestId : B256) (sentinel : Address) : State × List Command :=
  match state.lookup requestId with
  | some (.collectingCommitments round) =>
      (state.insert requestId (.collectingCommitments
        { round with
          committedCount := round.committedCount + 1
          selfCommitted := round.selfCommitted || sentinel = t.signer.address }), [])
  | _ => (state, [])

/-- Leaves the voting: to wait for the outcome if that is worth the gas, else for good. -/
def finalize (state : SentinelRequestState) (requestId : B256) :
    Option SentinelRequestState × List Command :=
  match state with
  | .collectingVotes round =>
      let timedOut : Bool := round.revealedCount = 0
      if !round.selfRevealed && !timedOut then (none, [])
      else (some (.waitingForOutcome round.approve round.slashAmount),
        [.action ⟨.finalize requestId, none⟩])
  | _ => (none, [])

/-- Counts a revealed vote, and finalizes the request after the last one. -/
def handleRevealed (state : State) (requestId : B256) (sentinel : Address) (approved : Bool) :
    State × List Command :=
  match state.lookup requestId with
  | some (.collectingVotes round) =>
      let round :=
        { round with
          revealedCount := round.revealedCount + 1
          approveCount := round.approveCount + (if approved then 1 else 0)
          denyCount := round.denyCount + (if approved then 0 else 1)
          selfRevealed := round.selfRevealed || sentinel = t.signer.address }
      if round.revealedCount < round.committedCount then
        (state.insert requestId (.collectingVotes round), [])
      else
        let (update, actions) := finalize (.collectingVotes round) requestId
        match update with
        | none => (state.erase requestId, actions)
        | some entry => (state.insert requestId entry, actions)
  | _ => (state, [])

/-- What becomes of a request in a new block. -/
def advanceRequest (block : Nat) (id : B256) : SentinelRequestState →
    Option SentinelRequestState × List Command
  | .waitingForEngineCheck deadline request =>
      if block ≤ (request.map Request.commitDeadline).getD deadline then
        (some (.waitingForEngineCheck deadline request), [])
      else (none, [])
  | .waitingForRequest approve reason deadline =>
      if block ≤ deadline then (some (.waitingForRequest approve reason deadline), []) else (none, [])
  | .collectingCommitments round =>
      if block ≤ round.commitDeadline then (some (.collectingCommitments round), [])
      else if !round.selfCommitted then (none, [])
      else
        let salt := t.signer.revealSalt id
        (some (.collectingVotes
            { approve := round.approve
              slashAmount := round.slashAmount
              revealDeadline := round.revealDeadline
              committedCount := round.committedCount
              revealedCount := 0
              approveCount := 0
              denyCount := 0
              selfRevealed := false }),
          [.action ⟨.reveal id round.approve salt round.reason, some round.revealDeadline⟩])
  | .collectingVotes round =>
      if block ≤ round.revealDeadline then (some (.collectingVotes round), [])
      else finalize (.collectingVotes round) id
  | .waitingForOutcome approve slashAmount => (some (.waitingForOutcome approve slashAmount), [])
  | .waitingForDisputeResolution approve slashAmount arbitrationDeadline =>
      if block ≤ arbitrationDeadline then
        (some (.waitingForDisputeResolution approve slashAmount arbitrationDeadline), [])
      else (none, [.action ⟨.timeoutArbitration id, none⟩, .action ⟨.claim id, none⟩])

/-- Moves every request on. -/
def handleBlockAdvance (state : State) (block : Nat) : State × List Command :=
  (state.filterMap fun id entry => (t.advanceRequest block id entry).1,
    state.rows.flatMap fun row => (t.advanceRequest block row.1 row.2).2)

/-- Claims after the ruling on a dispute. -/
def handleResolved (state : State) (requestId : B256) : State × List Command :=
  match state.lookup requestId with
  | some (.waitingForDisputeResolution ..) =>
      (state.erase requestId, [.action ⟨.claim requestId, none⟩])
  | _ => (state, [])

/-- Claims after a dispute without a ruling. -/
def handleArbitrationTimeout (state : State) (requestId : B256) : State × List Command :=
  match state.lookup requestId with
  | some _ => (state.erase requestId, [.action ⟨.claim requestId, none⟩])
  | none => (state, [])

/-- Claims if a bond was posted. -/
def claimPosted (state : State) (requestId : B256) : State × List Command :=
  match state.lookup requestId with
  | some entry =>
      if entry.approveAndSlashAmount.isNone then (state.erase requestId, [])
      else (state.erase requestId, [.action ⟨.claim requestId, none⟩])
  | none => (state, [])

def handleRequestTimedOut (state : State) (requestId : B256) : State × List Command :=
  claimPosted state requestId

def handleOracleResult (state : State) (requestId : B256) : State × List Command :=
  claimPosted state requestId

/-- Waits for the ruling if a bond was posted. -/
def handleDisputeTriggered (state : State) (requestId : B256) (deadline : Nat) :
    State × List Command :=
  match state.lookup requestId with
  | some entry =>
      match entry.approveAndSlashAmount with
      | some (approve, slashAmount) =>
          (state.insert requestId (.waitingForDisputeResolution approve slashAmount deadline), [])
      | none => (state.erase requestId, [])
  | none => (state, [])

/-- The handler of an event of the oracle.  A claim only feeds a metric. -/
def handleOracleEvent (state : State) : SentinelOracleEvents → State × List Command
  | .newRequest requestId bondTarget slashAmount commitDeadline revealDeadline =>
      t.handleNewRequest keccak256 state requestId
        ⟨bondTarget, slashAmount, commitDeadline, revealDeadline⟩
  | .committed requestId sentinel => t.handleCommitted state requestId sentinel
  | .revealed requestId sentinel approved => t.handleRevealed state requestId sentinel approved
  | .requestTimedOut requestId => handleRequestTimedOut state requestId
  | .oracleResult requestId => handleOracleResult state requestId
  | .disputeTriggered requestId deadline => handleDisputeTriggered state requestId deadline
  | .disputeResolved requestId => handleResolved state requestId
  | .arbitrationTimedOut requestId => handleArbitrationTimeout state requestId
  | .disputeOutOfScope requestId => handleArbitrationTimeout state requestId
  | .claimed _ => (state, [])

def applyTransition (state : State) : Message → State × List Command
  | .newBlock block => t.handleBlockAdvance state block
  | .event log =>
      match log.data with
      | .consensus event =>
          t.handleOracleTransactionProposed keccak256 state log.block.number log.block.timestamp event
      | .oracle event => t.handleOracleEvent keccak256 state event
  | .resume (.engineCheckResult requestId outcome) =>
      t.handleEngineCheckResult keccak256 state requestId outcome

end SentinelTransition

end Safenet.Sentinel
