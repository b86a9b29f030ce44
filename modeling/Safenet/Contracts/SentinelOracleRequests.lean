/-
The requests and the commitments of the sentinel oracle, and the parameters its
governance changes with a delay:
`contracts/src/libraries/SentinelOracleRequests.sol`, `SentinelOracleCommitments.sol`,
`DelayedAddress.sol`, `DelayedUint96.sol`, `BondConfig.sol` and `SentinelMap.sol`.

`block.number` is passed as `number`.
-/
import Safenet.Contracts.Evm

namespace Safenet.Contracts

open Fallible (require)

namespace SentinelOracle

/-- The panics of the compiler. -/
inductive Panic where
  /-- An overflow or underflow in checked arithmetic. -/
  | arithmetic
  | divisionByZero
deriving DecidableEq, Repr

/-- Why a call to the oracle reverted. -/
inductive Error where
  | notArbitrator
  | notGovernance
  | notProposer
  | invalidAddress
  | zeroFee
  | zeroWindow
  | sentinelNotActive
  | invalidFeeShare
  | requestNotPending
  | requestNotFrozen
  | requestNotResolved
  | commitWindowClosed
  | revealWindowNotOpen
  | revealWindowClosed
  | finalizeTooEarly
  | arbitrationNotTimedOut
  | requestAlreadyExists
  | requestNotFound
  | commitDeadlineInPast
  | revealDeadlineNotAfterCommit
  | nothingToClaim
  | alreadyClaimed
  | alreadyCommitted
  | alreadyRevealed
  | invalidReveal
  | notCommitted
  | invalidCommitHash
  | invalidBondMultiplier
  | invalidSlashingMultiplier
  | sentinelAlreadyScheduled
  | sentinelNotScheduled
  /-- `SafeCast` refused a value. -/
  | safeCast
  | panic (panic : Panic)
  /-- The fee token reverted. -/
  | token
deriving DecidableEq, Repr

def feeShareDenominator : Nat := 100000

/-- The error of checked arithmetic. -/
def Error.arithmetic : Error := .panic .arithmetic

end SentinelOracle

open SentinelOracle (Error)

/-! ### Delayed parameters -/

/-- A parameter with a scheduled change; `pendingActiveAt` is zero when there is none. -/
structure Delayed (α : Type) where
  value : α
  pendingActiveAt : Nat
  pendingValue : α
deriving DecidableEq, Repr

namespace Delayed

variable {α : Type} [Zero α]

def init (initialValue : α) : Delayed α := ⟨initialValue, 0, 0⟩

/-- Applies a change that is due; answers the value in force. -/
def applyPending (self : Delayed α) (number : Nat) : Delayed α × α :=
  if self.pendingActiveAt = 0 ∨ number < self.pendingActiveAt then (self, self.value)
  else (⟨self.pendingValue, 0, 0⟩, self.pendingValue)

/-- Schedules a change; answers the block it becomes active at. -/
def schedule (self : Delayed α) (number : Nat) (newValue : α) (governanceDelay : Nat) :
    Except Error (Delayed α × Nat) := do
  let self := (self.applyPending number).1
  let wide ← checkedAdd 256 number governanceDelay Error.arithmetic
  let activeAt ← toUint 64 wide .safeCast
  return ({ self with pendingValue := newValue, pendingActiveAt := activeAt }, activeAt)

end Delayed

/-- `DelayedAddress.T`. -/
abbrev DelayedAddress := Delayed Address

/-- `DelayedUint96.T`. -/
abbrev DelayedUint96 := Delayed Nat

/-- The two multipliers of the bond configuration, `uint32` both. -/
structure Multipliers where
  bondMultiplier : Nat
  slashingMultiplier : Nat
deriving DecidableEq, Repr

instance : Zero Multipliers := ⟨⟨0, 0⟩⟩

/-- `BondConfig.T`. -/
abbrev BondConfig := Delayed Multipliers

namespace BondConfig

/-- The requirements on a pair of multipliers. -/
def check (bondMultiplier slashingMultiplier : Nat) : Except Error PUnit := do
  require (0 < bondMultiplier) .invalidBondMultiplier
  require (0 < slashingMultiplier && slashingMultiplier ≤ bondMultiplier)
    .invalidSlashingMultiplier

def init (initialBondMultiplier initialSlashingMultiplier : Nat) : Except Error BondConfig := do
  check initialBondMultiplier initialSlashingMultiplier
  return Delayed.init ⟨initialBondMultiplier, initialSlashingMultiplier⟩

def schedule (self : BondConfig) (number newBondMultiplier newSlashingMultiplier : Nat)
    (governanceDelay : Nat) : Except Error (BondConfig × Nat) := do
  check newBondMultiplier newSlashingMultiplier
  Delayed.schedule self number ⟨newBondMultiplier, newSlashingMultiplier⟩ governanceDelay

end BondConfig

/-! ### Sentinels -/

/-- `SentinelMap.T`: the block from which a sentinel is active, or zero. -/
abbrev SentinelMap := Address → Nat

namespace SentinelMap

def add (self : SentinelMap) (number : Nat) (sentinel : Address) (governanceDelay : Nat) :
    Except Error (SentinelMap × Nat) := do
  require (sentinel ≠ 0) .invalidAddress
  require (self sentinel = 0) .sentinelAlreadyScheduled
  let activeAt ← checkedAdd 256 number governanceDelay Error.arithmetic
  return (Function.update self sentinel activeAt, activeAt)

def remove (self : SentinelMap) (sentinel : Address) : Except Error SentinelMap := do
  require (self sentinel ≠ 0) .sentinelNotScheduled
  return Function.update self sentinel 0

def isActive (self : SentinelMap) (number : Nat) (sentinel : Address) : Bool :=
  self sentinel ≠ 0 && self sentinel ≤ number

end SentinelMap

/-! ### Commitments -/

namespace SentinelOracleCommitment

inductive Vote where
  /-- Never committed. -/
  | none
  /-- Committed, not yet revealed. -/
  | pending
  | approved
  | denied
deriving DecidableEq, Repr

structure Commitment where
  commitHash : B256
  bondAmount : Nat
  vote : Vote
  claimed : Bool
deriving DecidableEq, Repr

/-- A commitment that was never written. -/
def empty : Commitment := ⟨0, 0, .none, false⟩

def markClaimed (self : Commitment) : Except Error Commitment := do
  require (0 < self.bondAmount) .nothingToClaim
  require (!self.claimed) .alreadyClaimed
  return { self with claimed := true }

/-- `keccak256(abi.encodePacked(approve, salt, sentinel, requestId, reason))`. -/
def computeHash (keccak256 : Keccak) (sentinel : Address) (requestId : B256) (approve : Bool)
    (salt : B256) (reason : Bytes) : B256 :=
  keccak256 (Bytes.digits 1 (if approve then 1 else 0) ++ Bytes.word salt ++
    Bytes.digits 20 sentinel.toNat ++ Bytes.word requestId ++ reason)

end SentinelOracleCommitment

open SentinelOracleCommitment (Vote Commitment)

namespace SentinelOracleCommitmentMap

/-- The commitments of one request. -/
abbrev T := Address → Commitment

def add (self : T) (sentinel : Address) (commitHash : B256) (bondAmount : Nat) :
    Except Error T := do
  require (commitHash ≠ 0) .invalidCommitHash
  require ((self sentinel).vote = .none) .alreadyCommitted
  return Function.update self sentinel ⟨commitHash, bondAmount, .pending, false⟩

def reveal (keccak256 : Keccak) (self : T) (requestId : B256) (sentinel : Address)
    (approve : Bool) (salt : B256) (reason : Bytes) : Except Error T := do
  let commitment := self sentinel
  require (commitment.vote ≠ .none) .notCommitted
  require (commitment.vote = .pending) .alreadyRevealed
  require (SentinelOracleCommitment.computeHash keccak256 sentinel requestId approve salt reason =
    commitment.commitHash) .invalidReveal
  return Function.update self sentinel
    { commitment with vote := if approve then .approved else .denied }

end SentinelOracleCommitmentMap

/-! ### Requests -/

namespace SentinelOracleRequest

inductive State where
  /-- Never created. -/
  | none
  | pending
  | frozen
  | resolvedApproved
  | resolvedDenied
  | timedOut
deriving DecidableEq, Repr

/-- Written once.  The deadlines are `uint64`, the amounts `uint96`. -/
structure Terms where
  commitDeadline : Nat
  daoFeeShare : Nat
  revealDeadline : Nat
  bondTarget : Nat
  sponsor : Address
  slashAmount : Nat
deriving DecidableEq, Repr

/-- The fee is a `uint96`, the deadline a `uint64`, the counts are `uint16`. -/
structure Progress where
  state : State
  fee : Nat
  arbitrationDeadline : Nat
  committedCount : Nat
  revealedCount : Nat
  approveSentinelCount : Nat
  denySentinelCount : Nat
deriving DecidableEq, Repr

structure T where
  terms : Terms
  progress : Progress
deriving DecidableEq, Repr

/-- A request that was never written. -/
def empty : T := ⟨⟨0, 0, 0, 0, 0, 0⟩, ⟨.none, 0, 0, 0, 0, 0, 0⟩⟩

/-- Counts a commitment; answers the bond to pay. -/
def applyCommit (self : T) (number : Nat) : Except Error (T × Nat) := do
  let prog := self.progress
  require (prog.state = .pending) .requestNotPending
  require (number ≤ self.terms.commitDeadline) .commitWindowClosed
  let committedCount ← checkedAdd 16 prog.committedCount 1 Error.arithmetic
  return ({ self with progress := { prog with committedCount } }, self.terms.bondTarget)

/-- One more if the side is chosen. -/
def bump (chosen : Bool) (count : Nat) : Except Error Nat :=
  if chosen then checkedAdd 16 count 1 Error.arithmetic else .ok count

/-- Counts a revealed vote; answers whether it was the last one. -/
def applyReveal (self : T) (number : Nat) (approve : Bool) : Except Error (T × Bool) := do
  let prog := self.progress
  require (prog.state = .pending) .requestNotPending
  require (self.terms.commitDeadline < number) .revealWindowNotOpen
  require (number ≤ self.terms.revealDeadline) .revealWindowClosed
  let revealedCount ← checkedAdd 16 prog.revealedCount 1 Error.arithmetic
  let approveSentinelCount ← bump approve prog.approveSentinelCount
  let denySentinelCount ← bump (!approve) prog.denySentinelCount
  return ({ self with
    progress := { prog with revealedCount, approveSentinelCount, denySentinelCount } },
    revealedCount = prog.committedCount)

/-- Leaves a fee that the winners can share evenly; answers what the DAO gets. -/
def applyDaoFeeCut (self : T) (feeAmount feeShareDenominator winningSideCount : Nat) :
    Except Error (T × Nat) := do
  let product ← checkedMul 256 feeAmount self.terms.daoFeeShare Error.arithmetic
  let wideCut ← checkedDiv product feeShareDenominator (.panic .divisionByZero)
  let rawDaoCut := wideCut % 2 ^ 96
  let remainingFee ← checkedSub feeAmount rawDaoCut Error.arithmetic
  let remainder ← checkedMod remainingFee winningSideCount (.panic .divisionByZero)
  let daoCut ← checkedAdd 96 rawDaoCut remainder Error.arithmetic
  let fee ← checkedSub remainingFee remainder Error.arithmetic
  return ({ self with progress := { self.progress with fee } }, daoCut)

/-- What `finalize` hands to its caller. -/
structure Finalization where
  newState : State
  refundFee : Nat
  unrevealedBond : Nat
  daoCut : Nat
deriving DecidableEq, Repr

/-- The state of a request of which a side is established, and the cut of the DAO. -/
def establish (self : T) (arbitrationDeadline feeShareDenominator : Nat) :
    Except Error (T × State × Nat) :=
  let prog := self.progress
  let approveMet : Bool := 0 < prog.approveSentinelCount
  let denyMet : Bool := 0 < prog.denySentinelCount
  if approveMet && denyMet then
    .ok ({ self with progress := { prog with arbitrationDeadline } }, .frozen, 0)
  else do
    let winningSideCount := if approveMet then prog.approveSentinelCount else prog.denySentinelCount
    let (self, daoCut) ← applyDaoFeeCut self prog.fee feeShareDenominator winningSideCount
    return (self, if approveMet then .resolvedApproved else .resolvedDenied, daoCut)

def finalize (self : T) (number arbitrationDeadline feeShareDenominator : Nat) :
    Except Error (T × Finalization) := do
  let prog := self.progress
  require (prog.state = .pending) .requestNotPending
  let everyoneRevealed := 0 < prog.committedCount && prog.revealedCount = prog.committedCount
  let nothingToReveal := prog.committedCount = 0 && self.terms.commitDeadline < number
  require (self.terms.revealDeadline < number || everyoneRevealed || nothingToReveal)
    .finalizeTooEarly
  if 0 < prog.approveSentinelCount ∨ 0 < prog.denySentinelCount then do
    let (self, newState, daoCut) ← establish self arbitrationDeadline feeShareDenominator
    let nonRevealerCount ← checkedSub prog.committedCount prog.revealedCount Error.arithmetic
    -- unchecked in the source
    let unrevealedBond := nonRevealerCount * self.terms.slashAmount % 2 ^ 128
    return ({ self with progress := { self.progress with state := newState } },
      ⟨newState, 0, unrevealedBond, daoCut⟩)
  else
    return ({ self with progress := { prog with fee := 0, state := .timedOut } },
      ⟨.timedOut, prog.fee, 0, 0⟩)

/-- Gives up a frozen request; answers the fee to refund. -/
def outOfScope (self : T) : Except Error (T × Nat) := do
  require (self.progress.state = .frozen) .requestNotFrozen
  return ({ self with progress := { self.progress with fee := 0, state := .timedOut } },
    self.progress.fee)

def timeoutArbitration (self : T) (number : Nat) : Except Error (T × Nat) := do
  require (self.progress.arbitrationDeadline < number) .arbitrationNotTimedOut
  outOfScope self

/-- The states in which committers may claim. -/
def State.resolved : State → Bool
  | .resolvedApproved | .resolvedDenied | .timedOut => true
  | .none | .pending | .frozen => false

def requireResolved (self : T) : Except Error State := do
  require self.progress.state.resolved .requestNotResolved
  return self.progress.state

def calcFeeReward (self : T) (state : State) (vote : Vote) : Except Error Nat :=
  if vote ≠ .approved ∧ vote ≠ .denied then
    .ok 0
  else if state ≠ .resolvedApproved ∧ state ≠ .resolvedDenied then
    .ok 0
  else if decide (vote = .approved) ≠ decide (state = .resolvedApproved) then
    .ok 0
  else
    let winningSideCount :=
      if state = .resolvedApproved then self.progress.approveSentinelCount
      else self.progress.denySentinelCount
    checkedDiv self.progress.fee winningSideCount (.panic .divisionByZero)

def slashAmountFor (self : T) (state : State) (vote : Vote) : Nat :=
  let approveSentinelCount := self.progress.approveSentinelCount
  let denySentinelCount := self.progress.denySentinelCount
  if vote ≠ .approved ∧ vote ≠ .denied then
    if 0 < approveSentinelCount ∨ 0 < denySentinelCount then self.terms.slashAmount else 0
  else if state ≠ .resolvedApproved ∧ state ≠ .resolvedDenied then
    0
  else if approveSentinelCount = 0 ∨ denySentinelCount = 0 then
    0
  else if decide (vote = .approved) ≠ decide (state = .resolvedApproved) then
    self.terms.slashAmount
  else
    0

/-- What `resolveDispute` hands to its caller. -/
structure Ruling where
  outcome : State
  slashed : Nat
  feeAmount : Nat
  daoCut : Nat
deriving DecidableEq, Repr

def resolveDispute (self : T) (approveWins : Bool) (feeShareDenominator : Nat) :
    Except Error (T × Ruling) := do
  let prog := self.progress
  require (prog.state = .frozen) .requestNotFrozen
  let losingSideCount := if approveWins then prog.denySentinelCount else prog.approveSentinelCount
  -- unchecked in the source
  let slashed := losingSideCount * self.terms.slashAmount % 2 ^ 128
  let outcome := if approveWins then State.resolvedApproved else .resolvedDenied
  let winningSideCount := if approveWins then prog.approveSentinelCount else prog.denySentinelCount
  let (self, daoCut) ← applyDaoFeeCut { self with progress := { prog with state := outcome } }
    prog.fee feeShareDenominator winningSideCount
  return (self, ⟨outcome, slashed, prog.fee, daoCut⟩)

end SentinelOracleRequest

namespace SentinelOracleRequestMap

/-- `mapping(bytes32 requestId => SentinelOracleRequest.T)`. -/
abbrev T := B256 → SentinelOracleRequest.T

def create (self : T) (number : Nat) (requestId : B256) (sponsor : Address)
    (fee bondTarget daoFeeShare slashAmount commitDeadline revealDeadline : Nat) :
    Except Error T := do
  require ((self requestId).progress.state = .none) .requestAlreadyExists
  require (number < commitDeadline) .commitDeadlineInPast
  require (commitDeadline < revealDeadline) .revealDeadlineNotAfterCommit
  return Function.update self requestId
    ⟨⟨commitDeadline, daoFeeShare, revealDeadline, bondTarget, sponsor, slashAmount⟩,
      ⟨.pending, fee, 0, 0, 0, 0, 0⟩⟩

def get (self : T) (requestId : B256) : Except Error SentinelOracleRequest.T := do
  let request := self requestId
  require (request.progress.state ≠ .none) .requestNotFound
  return request

end SentinelOracleRequestMap

end Safenet.Contracts
