/-
The snapshotted state of a sentinel, `sentinel/src/state.rs`, with the verdicts of
`sentinel/src/engine.rs`, the actions of `action.rs`, the effects of `effect.rs` and the events of
`bindings.rs`.

Of an event only the fields that a handler reads are kept; what only feeds a metric is left out.
-/
import Safenet.Contracts.ConsensusMessages
import Safenet.Core.StateMachine
import Safenet.Lib.Table

namespace Safenet.Sentinel

open Contracts (SafeTransaction.T)

/-! ### Verdicts -/

/-- The text between the characters before the first `c` and those after it, `str::split_once`. -/
def splitOnce (c : Char) : List Char → Option (List Char × List Char)
  | [] => none
  | x :: xs => if x = c then some ([], xs) else (splitOnce c xs).map fun (before, after) => (x :: before, after)

/-- `u32::from_str`. -/
def parseU32 (src : List Char) : Option (BitVec 32) :=
  let digits := if src.head? = some '+' then src.tail else src
  if digits = [] ∨ digits.all Char.isDigit = false then none
  else
    let value := Nat.ofDigitChars 10 digits 0
    if value < 2 ^ 32 then some (BitVec.ofNat 32 value) else none

/-- A rule of the charter, `R-{section}.{rule}`. -/
structure RuleId where
  sectionNumber : BitVec 32
  ruleNumber : BitVec 32
deriving DecidableEq, Repr

namespace RuleId

def toString (id : RuleId) : String :=
  "R-" ++ id.sectionNumber.toNat.repr ++ "." ++ id.ruleNumber.toNat.repr

def parse (code : String) : Option RuleId :=
  match code.toList with
  | 'R' :: '-' :: rest => do
      let (before, after) ← splitOnce '.' rest
      let sectionNumber ← parseU32 before
      let ruleNumber ← parseU32 after
      return ⟨sectionNumber, ruleNumber⟩
  | _ => none

end RuleId

/-- The result of checking a proposed transaction. -/
inductive CheckOutcome where
  | approved
  | denied (rule : RuleId)
  /-- There is no verdict. -/
  | unknown
deriving DecidableEq, Repr

/-- The vote and the reason of a verdict. -/
def CheckOutcome.vote : CheckOutcome → Option (Bool × String)
  | .approved => some (true, "")
  | .denied rule => some (false, rule.toString)
  | .unknown => none

/-! ### Requests -/

/-- What a request asks for, kept while the check of its proposal is outstanding. -/
structure Request where
  bondTarget : Nat
  slashAmount : Nat
  commitDeadline : Nat
  revealDeadline : Nat
deriving DecidableEq, Repr

namespace SentinelRequestState

/-- The counter is of all `Committed` events, from any sentinel. -/
structure CollectingCommitments where
  approve : Bool
  reason : String
  slashAmount : Nat
  commitDeadline : Nat
  revealDeadline : Nat
  committedCount : Nat
  selfCommitted : Bool
deriving DecidableEq, Repr

structure CollectingVotes where
  approve : Bool
  slashAmount : Nat
  revealDeadline : Nat
  committedCount : Nat
  revealedCount : Nat
  approveCount : Nat
  denyCount : Nat
  selfRevealed : Bool
deriving DecidableEq, Repr

end SentinelRequestState

open SentinelRequestState in
/-- What a sentinel keeps of a request. -/
inductive SentinelRequestState where
  | waitingForEngineCheck (deadline : Nat) (request : Option Request)
  | waitingForRequest (approve : Bool) (reason : String) (deadline : Nat)
  | collectingCommitments (round : CollectingCommitments)
  | collectingVotes (round : CollectingVotes)
  | waitingForOutcome (approve : Bool) (slashAmount : Nat)
  | waitingForDisputeResolution (approve : Bool) (slashAmount arbitrationDeadline : Nat)
deriving DecidableEq, Repr

/-- The vote and the amount at stake, if a bond was posted. -/
def SentinelRequestState.approveAndSlashAmount : SentinelRequestState → Option (Bool × Nat)
  | .waitingForEngineCheck .. | .waitingForRequest .. => none
  | .collectingCommitments round =>
      if round.selfCommitted then some (round.approve, round.slashAmount) else none
  | .collectingVotes round => some (round.approve, round.slashAmount)
  | .waitingForOutcome approve slashAmount => some (approve, slashAmount)
  | .waitingForDisputeResolution approve slashAmount _ => some (approve, slashAmount)

/-- The requests by their ids. -/
abbrev State := Table B256 SentinelRequestState

/-! ### Actions, effects and events -/

inductive SentinelActionKind where
  | approveToken (bond : Nat)
  | commit (id hash : B256)
  | reveal (id : B256) (approve : Bool) (salt : B256) (reason : String)
  | finalize (id : B256)
  | claim (id : B256)
  | timeoutArbitration (id : B256)
deriving DecidableEq, Repr

structure SentinelAction where
  kind : SentinelActionKind
  expiresAt : Option Nat
deriving DecidableEq, Repr

inductive Effect where
  | engineCheck (requestId : B256) (transaction : SafeTransaction.T) (proposalTimestamp block : Nat)
deriving DecidableEq

inductive Resume where
  | engineCheckResult (requestId : B256) (outcome : CheckOutcome)
deriving DecidableEq, Repr

/-- The event of the consensus contract. -/
structure TransactionProposed where
  safeTxHash : B256
  oracle : Address
  epoch : BitVec 64
  oracleData : Bytes
  transaction : SafeTransaction.T
deriving DecidableEq

/-- The events of the oracle. -/
inductive SentinelOracleEvents where
  | newRequest (requestId : B256) (bondTarget slashAmount commitDeadline revealDeadline : Nat)
  | committed (requestId : B256) (sentinel : Address)
  | revealed (requestId : B256) (sentinel : Address) (approved : Bool)
  | disputeTriggered (requestId : B256) (deadline : Nat)
  | disputeResolved (requestId : B256)
  | requestTimedOut (requestId : B256)
  | oracleResult (requestId : B256)
  | arbitrationTimedOut (requestId : B256)
  | disputeOutOfScope (requestId : B256)
  | claimed (requestId : B256)
deriving DecidableEq, Repr

inductive SentinelEvents where
  | oracle (event : SentinelOracleEvents)
  | consensus (event : TransactionProposed)
deriving DecidableEq

abbrev Command := Core.Command SentinelAction Effect

abbrev Message := Core.Message SentinelEvents Resume

end Safenet.Sentinel
