/-
The snapshotted state of the validator, `validator/src/state/mod.rs`, with the actions,
effects, resumes and events of `validator/src/service` and `validator/src/bindings.rs`.

Of an event only the fields that a handler reads are kept.  The variants of the two state
machines carry records, named after them.
-/
import Safenet.Core.StateMachine
import Safenet.Validator.Frost

namespace Safenet.Validator

open Contracts (Keccak)
open Contracts.Coordinator (SignNonces SignSelection)

/-! ### Key generation -/

/-- The secrets of a key generation whose commitments are being collected. -/
inductive KeyGenCommitment where
  /-- The secrets are missing until the setup resumes. -/
  | participating (poap : List B256) (secrets : Option Secrets)
  | observing
deriving DecidableEq

inductive KeyGenParticipation where
  | participating (sharingState : SharingState)
  | observing (groupCommitments : GroupCommitments)
deriving DecidableEq

/-- The group commitments, regardless of participation. -/
def KeyGenParticipation.groupCommitments : KeyGenParticipation → GroupCommitments
  | .participating sharingState => sharingState.groupCommitments
  | .observing groupCommitments => groupCommitments

inductive KeyGenConfirmation where
  | observing
  /-- Some shares could not be verified. -/
  | collecting (shares : Table Address VerifiedShare)
  | confirmed (keyShare : KeyShare)
deriving DecidableEq

/-- The finalized key share, if there is one. -/
def KeyGenConfirmation.keyShare : KeyGenConfirmation → Option KeyShare
  | .confirmed keyShare => some keyShare
  | _ => none

/-- The complaints against one participant; `total` is a `u16`. -/
structure Complaint where
  total : Nat
  unresponded : Finset Address
deriving DecidableEq

structure ConfirmationDeadlines where
  complain : Nat
  response : Nat
  confirm : Nat
deriving DecidableEq

namespace RolloverState

structure CollectingCommitments where
  nextEpoch : EpochId
  group : Group
  secrets : KeyGenCommitment
  commitments : Table Address VerifiedCommitment
  deadline : Option Nat
deriving DecidableEq

structure CollectingShares where
  nextEpoch : EpochId
  group : Group
  participation : KeyGenParticipation
  shared : Finset Address
  shares : Table Address VerifiedShare
  complaints : Table Address Complaint
  deadline : Option Nat
deriving DecidableEq

structure CollectingConfirmations where
  nextEpoch : EpochId
  group : Group
  participation : KeyGenParticipation
  status : KeyGenConfirmation
  confirmations : Finset Address
  complaints : Table Address Complaint
  deadlines : Option ConfirmationDeadlines
deriving DecidableEq

structure SigningRollover where
  nextEpoch : ℕ+
  group : Group
  keyShare : Option KeyShare
  message : B256
deriving DecidableEq

end RolloverState

open RolloverState in
/-- The epoch rollover and key generation machine. -/
inductive RolloverState where
  | waitingForGenesis
  | halted
  | epochStaged (nextEpoch : ℕ+)
  | epochSkipped (nextEpoch : ℕ+)
  | collectingCommitments (round : CollectingCommitments)
  | collectingShares (round : CollectingShares)
  | collectingConfirmations (round : CollectingConfirmations)
  | signingRollover (rollover : SigningRollover)
deriving DecidableEq

/-- The epoch the machine works toward, nothing once it halted. -/
def RolloverState.nextEpoch : RolloverState → Option EpochId
  | .waitingForGenesis => some .genesis
  | .halted => none
  | .epochStaged next => some (.number next)
  | .epochSkipped next => some (.number next)
  | .collectingCommitments round => some round.nextEpoch
  | .collectingShares round => some round.nextEpoch
  | .collectingConfirmations round => some round.nextEpoch
  | .signingRollover rollover => some (.number rollover.nextEpoch)

/-! ### Signing -/

/-- What a group signs. -/
inductive Packet where
  | epochRollover (activeEpoch : EpochId) (proposedEpoch : ℕ+) (rolloverBlock : Nat) (groupId : B256)
      (groupKey : Point)
  | transaction (epoch : EpochId) (oracle : Address) (oracleData : Bytes)
      (transaction : SafeTransaction)
deriving DecidableEq

/-- The epoch whose group signs the packet. -/
def Packet.epoch : Packet → EpochId
  | .epochRollover activeEpoch _ _ _ _ => activeEpoch
  | .transaction epoch _ _ _ => epoch

/-- The shares for one selection of signers. -/
structure SigningSelection where
  sharesFrom : Finset Address
  lastSigner : Option Address
deriving DecidableEq

namespace SigningState

/-- The packet was verified; a `Sign` event opens the round. -/
structure WaitingForRequest where
  keyShare : KeyShare
  groupId : B256
  /-- Who was to request the signature, nobody if it was everyone. -/
  responsible : Option Address
  packet : Packet
  oracleApproved : Bool
  signers : Finset Address
  deadline : Nat
deriving DecidableEq

structure WaitingForOracle where
  keyShare : KeyShare
  oracle : Address
  groupId : B256
  signatureId : B256
  packet : Packet
  signers : Finset Address
  deadline : Nat
deriving DecidableEq

structure CollectNonceCommitments where
  keyShare : KeyShare
  groupId : B256
  signatureId : B256
  committed : Table Address CommittedNonces
  packet : Packet
  signers : Finset Address
  deadline : Nat
deriving DecidableEq

structure CollectSigningShares where
  keyShare : KeyShare
  groupId : B256
  signatureId : B256
  committed : Table Address CommittedNonces
  selections : Table B256 SigningSelection
  packet : Packet
  signers : Finset Address
  deadline : Nat
deriving DecidableEq

structure WaitingForAttestation where
  signatureId : B256
  packet : Packet
  deadline : Nat
deriving DecidableEq

end SigningState

open SigningState in
/-- A signing session. -/
inductive SigningState where
  | waitingForRequest (session : WaitingForRequest)
  | waitingForOracle (session : WaitingForOracle)
  | collectNonceCommitments (session : CollectNonceCommitments)
  | collectSigningShares (session : CollectSigningShares)
  | waitingForAttestation (session : WaitingForAttestation)
deriving DecidableEq

namespace SigningState

/-- The signature id, once one is assigned. -/
def signatureId : SigningState → Option B256
  | .waitingForRequest _ => none
  | .waitingForOracle s => some s.signatureId
  | .collectNonceCommitments s => some s.signatureId
  | .collectSigningShares s => some s.signatureId
  | .waitingForAttestation s => some s.signatureId

def packet : SigningState → Packet
  | .waitingForRequest s => s.packet
  | .waitingForOracle s => s.packet
  | .collectNonceCommitments s => s.packet
  | .collectSigningShares s => s.packet
  | .waitingForAttestation s => s.packet

def deadline : SigningState → Nat
  | .waitingForRequest s => s.deadline
  | .waitingForOracle s => s.deadline
  | .collectNonceCommitments s => s.deadline
  | .collectSigningShares s => s.deadline
  | .waitingForAttestation s => s.deadline

end SigningState

/-! ### The state -/

/-- A resolved epoch that this validator takes part in. -/
structure Epoch where
  group : Group
  keyShare : KeyShare
deriving DecidableEq

structure State where
  rollover : RolloverState
  activeEpoch : EpochId
  epochs : Table EpochId Epoch
  /-- The signing sessions by message. -/
  signing : Table B256 SigningState
  signatureIdToMessage : Table B256 B256

/-- The state of a fresh validator. -/
def State.default : State where
  rollover := .waitingForGenesis
  activeEpoch := .genesis
  epochs := .empty
  signing := .empty
  signatureIdToMessage := .empty

/-! ### Inputs and outputs -/

/-- A call made once a ceremony completes. -/
structure Callback where
  target : Address
  context : Bytes
deriving DecidableEq, Repr

/-- What the validator does onchain. -/
inductive Action where
  | keyGenAndCommit (participants : B256) (count threshold : Nat) (context : B256)
      (poap : List B256) (commitment : Contracts.FROSTCoordinator.KeyGenCommitment)
      (expiresAt : Option Nat)
  | keyGenSecretShare (groupId : B256) (share : Contracts.FROSTCoordinator.KeyGenSecretShare)
      (expiresAt : Option Nat)
  | keyGenComplain (groupId : B256) (accused : Address) (expiresAt : Option Nat)
  | keyGenConfirm (groupId : B256) (callback : Option Callback) (expiresAt : Option Nat)
  | keyGenComplaintResponse (groupId : B256) (plaintiff : Address) (secretShare : B256)
      (expiresAt : Option Nat)
  | commitNonces (signatureId : B256) (nonces : SignNonces) (expiresAt : Nat)
  | signShare (signatureId : B256) (share : SignatureShare) (callback : Callback) (expiresAt : Nat)
  | sign (groupId message : B256) (expiresAt : Nat)
  | attestTransaction (epoch : EpochId) (oracle : Address) (oracleDataHash chainId : B256)
      (safe : Address) (safeTxStructHash signatureId : B256) (expiresAt : Nat)
  | stageEpoch (proposedEpoch : ℕ+) (rolloverBlock : Nat) (groupId signatureId : B256)
      (expiresAt : Nat)
deriving DecidableEq

/-- What is kept of a group's secrets. -/
inductive RetainedSecrets where
  | nonces
  | all
deriving DecidableEq, Repr

/-- What the validator asks its effect handler for. -/
inductive Effect where
  | keyGenSetup (groupId : B256) (count threshold : Nat)
  | generateNonces (groupId signatureId : B256) (keyShare : KeyShare)
  | useNonces (message signatureId : B256)
  | reconcileGroupSecrets (block : Nat) (groups : Table B256 RetainedSecrets)
deriving DecidableEq

/-- What the effect handler answers. -/
inductive Resume where
  | noop
  | setup (groupId : B256) (secrets : Secrets)
  | nonceCommitments (signatureId : B256) (nonces : SignNonces)
  | nonces (message : B256) (nonces : SigningNonces)
deriving DecidableEq

/-- The events of the consensus, coordinator and oracle contracts. -/
inductive Event where
  | keyGen (gid : B256)
  | keyGenCommitted (gid : B256) (participant : Address)
      (commitment : Contracts.FROSTCoordinator.KeyGenCommitment)
  | keyGenSecretShared (gid : B256) (participant : Address)
      (share : Contracts.FROSTCoordinator.KeyGenSecretShare)
  | keyGenConfirmed (gid : B256) (participant : Address)
  | keyGenComplained (gid : B256) (plaintiff accused : Address)
  | keyGenComplaintResponded (gid : B256) (plaintiff accused : Address) (secretShare : B256)
  | sign (gid message sid : B256)
  | signCommittedNonces (sid : B256) (participant : Address) (nonces : SignNonces)
  | signShared (sid selectionRoot : B256) (participant : Address)
  | signCompleted (sid : B256)
  | epochStaged (proposedEpoch : Nat) (groupId signatureId : B256)
  | transactionProposed (oracle : Address) (epoch : Nat) (oracleData : Bytes)
      (transaction : SafeTransaction)
  | transactionAttested (safeTxHash : B256) (oracle : Address) (epoch : Nat)
      (oracleDataHash signatureId : B256)
  | oracleResult (requestId : B256) (approved : Bool)
  /-- The events without a handler. -/
  | other
deriving DecidableEq

abbrev Message := Core.Message Event Resume

abbrev Command := Core.Command Action Effect

/-- What the transition function takes from outside. -/
structure Externals extends FrostCrate where
  keccak256 : Keccak

/-- The transition function is parameterized over the configuration of the machine. -/
structure Transition where
  account : Address
  genesis : ParticipantSet
  consensus : ConsensusDomain
  config : ValidatorConfig
  externals : Externals

end Safenet.Validator
