/-
The transaction guard of `contracts/src/guard/SafenetGuard.sol` with its libraries:
the signature extension and the attestation trailer it carries, the announcements, and
the forest of known epochs.

Hashing and signature verification are parameters (`Crypto`).  `nonce()` of the calling
Safe is a static call, so its answer is part of the environment: `none` when it reverts.
-/
import Mathlib.Logic.Function.Basic
import Safenet.Contracts.ConsensusMessages

namespace Safenet.Contracts

open Fallible (require)

/-- The primitives the guard is built on. -/
structure Crypto where
  keccak256 : Keccak
  /-- `FROST.verify` returns without reverting. -/
  verify : Secp256k1.Point → FROST.Signature → B256 → Bool

namespace SafenetGuard

/-- Why a call to the guard reverted. -/
inductive Error where
  | invalidAddress
  | invalidParameter
  | notOnCurve
  | unknownParent
  | epochNotAdvancing
  /-- `FROST.verify` reverted. -/
  | invalidSignature
  | announcementAlreadyExists
  | announcementNotFound
  | windowOverflow
  | malformedSignatureExtension
  | malformedAttestationTrailer
  | untrustedAttestationKey
  | attestationNotFound
  /-- A value out of range for its ABI type. -/
  | abiDecode
  /-- The calling account does not answer `nonce()`. -/
  | nonceCall
  /-- An overflow or underflow in checked arithmetic. -/
  | arithmetic
deriving DecidableEq, Repr

/-- The events of the guard. -/
inductive Event where
  | epochRolledOver (parentEpoch epoch : BitVec 64) (parentKey groupKey : Secp256k1.Point)
  | transactionAnnounced (safe : Address) (announcementHash : B256) (activeFrom activeUntil : Nat)
  | announcementCancelled (safe : Address) (announcementHash : B256)
  | announcementConsumed (safe : Address) (announcementHash : B256)
deriving DecidableEq, Repr

end SafenetGuard

open SafenetGuard (Error Event)

/-! ### Signature extensions and the attestation trailer -/

namespace SignatureExtension

/-- The word that ends the blob. -/
def lastWord (signatures : Bytes) : B256 :=
  BitVec.ofNat 256 (Bytes.value (signatures.drop (signatures.length - 32)))

/-- The blob ends with the type hash. -/
def has (signatures : Bytes) (typeHash : B256) : Bool :=
  32 ≤ signatures.length && lastWord signatures = typeHash

/-- The payload of an extension, found through the length word before the type hash. -/
def payload (signatures : Bytes) (typeHash : B256) : Except Error Bytes := do
  require (64 ≤ signatures.length && lastWord signatures = typeHash) .malformedSignatureExtension
  let stop := signatures.length - 64
  let payloadLength := Bytes.value ((signatures.drop stop).take 32)
  require (payloadLength ≤ stop) .malformedSignatureExtension
  return (signatures.drop (stop - payloadLength)).take payloadLength

end SignatureExtension

namespace AttestationTrailer

/-- What an attestation trailer carries. -/
structure Attestation where
  epoch : BitVec 64
  oracle : Address
  oracleDataHash : B256
  groupKey : Secp256k1.Point
  signature : FROST.Signature
deriving DecidableEq, Repr

/-- `keccak256("SafenetGuard.AttestationTrailer.v1")`. -/
def TYPE_HASH (keccak : Keccak) : B256 := keccak (Bytes.ascii "SafenetGuard.AttestationTrailer.v1")

/-- The blob ends with the trailer's type hash. -/
def hasTrailer (keccak : Keccak) (signatures : Bytes) : Bool :=
  SignatureExtension.has signatures (TYPE_HASH keccak)

/-- The word at a position of an ABI encoding. -/
def wordAt (payload : Bytes) (i : Nat) : Nat := Bytes.value ((payload.drop (32 * i)).take 32)

/-- `abi.decode`: a value too wide for its type reverts. -/
def decodePayload (payload : Bytes) : Except Error Attestation := do
  require (wordAt payload 0 < 2 ^ 64) .abiDecode
  require (wordAt payload 1 < 2 ^ 160) .abiDecode
  let word := fun i => BitVec.ofNat 256 (wordAt payload i)
  return {
    epoch := BitVec.ofNat 64 (wordAt payload 0)
    oracle := BitVec.ofNat 160 (wordAt payload 1)
    oracleDataHash := word 2
    groupKey := ⟨word 3, word 4⟩
    signature := ⟨⟨word 5, word 6⟩, word 7⟩ }

/-- The attestation of a blob that ends in a trailer. -/
def decode (keccak : Keccak) (signatures : Bytes) : Except Error Attestation := do
  let payload ← SignatureExtension.payload signatures (TYPE_HASH keccak)
  require (payload.length = 256) .malformedAttestationTrailer
  decodePayload payload

end AttestationTrailer

/-! ### Announcements -/

namespace TransactionAnnouncement

/-- The parameters of an announced transaction: all of a Safe transaction but the nonce. -/
structure AnnouncedTransaction where
  target : Address
  value : B256
  data : Bytes
  operation : Operation
  safeTxGas : B256
  baseGas : B256
  gasPrice : B256
  gasToken : Address
  refundReceiver : Address
deriving DecidableEq, Repr

/-- When an announcement may be used; `activeFrom = 0` means there is none. -/
structure Window where
  activeFrom : Nat
  activeUntil : Nat
deriving DecidableEq, Repr

/-- `mapping(address safe => mapping(bytes32 txHash => Window window))`. -/
abbrev Entries := Address → B256 → Window

/-- The deleted entry. -/
def noWindow : Window := ⟨0, 0⟩

/-- Writes one entry. -/
def set (entries : Entries) (safe : Address) (txHash : B256) (window : Window) : Entries :=
  Function.update entries safe (Function.update (entries safe) txHash window)

/-- `abi.encode` of the parameters with the data hashed. -/
def encode (keccak : Keccak) (t : AnnouncedTransaction) : Bytes :=
  [toWord t.target, t.value, keccak t.data, t.operation.toWord, t.safeTxGas, t.baseGas, t.gasPrice,
    toWord t.gasToken, toWord t.refundReceiver].flatMap Bytes.word

/-- The key of an announcement. -/
def hash (keccak : Keccak) (t : AnnouncedTransaction) : B256 := keccak (encode keccak t)

/-- Records a new announcement unless one is still usable or maturing. -/
def announce (entries : Entries) (timestamp : Nat) (safe : Address) (txHash : B256)
    (delay window : Nat) : Except Error (Entries × Nat × Nat) := do
  let existing := entries safe txHash
  require (existing.activeFrom = 0 || existing.activeUntil < timestamp) .announcementAlreadyExists
  let activeFrom ← checkedAdd 256 timestamp delay .arithmetic
  let activeUntil ← checkedAdd 256 activeFrom window .arithmetic
  require (activeUntil ≤ 2 ^ 128 - 1) .windowOverflow
  return (set entries safe txHash ⟨activeFrom % 2 ^ 128, activeUntil % 2 ^ 128⟩,
    activeFrom, activeUntil)

/-- Withdraws an announcement. -/
def cancel (entries : Entries) (safe : Address) (txHash : B256) : Except Error Entries := do
  require ((entries safe txHash).activeFrom ≠ 0) .announcementNotFound
  return set entries safe txHash noWindow

/-- Uses up an announcement inside its window; `none` when there is none to use. -/
def consume (entries : Entries) (timestamp : Nat) (safe : Address) (txHash : B256) :
    Option Entries :=
  let w := entries safe txHash
  if w.activeFrom ≠ 0 ∧ w.activeFrom ≤ timestamp ∧ timestamp ≤ w.activeUntil then
    some (set entries safe txHash noWindow)
  else none

end TransactionAnnouncement

/-! ### Epochs -/

namespace EpochRollover

/-- `mapping(groupKeyX => mapping(groupKeyY => mapping(epoch => bool)))`. -/
abbrev Entries := Secp256k1.Point → BitVec 64 → Bool

/-- The pair was recorded. -/
def isKnown (entries : Entries) (groupKey : Secp256k1.Point) (epoch : BitVec 64) : Bool :=
  entries groupKey epoch

/-- Records a pair. -/
def record (entries : Entries) (groupKey : Secp256k1.Point) (epoch : BitVec 64) : Entries :=
  Function.update entries groupKey (Function.update (entries groupKey) epoch true)

/-- The forest with the genesis pair only. -/
def initializeEpochs (genesisEpoch : BitVec 64) (genesisKey : Secp256k1.Point) : Except Error Entries := do
  let _ ← (Secp256k1.requireNonZero genesisKey).mapError fun _ => Error.notOnCurve
  return record (fun _ _ => false) genesisKey genesisEpoch

/-- Records a pair that a known parent signed. -/
def rollover (crypto : Crypto) (entries : Entries) (domainSeparator : B256)
    (parentKey : Secp256k1.Point) (parentEpoch proposedEpoch rolloverBlock : BitVec 64)
    (newGroupKey : Secp256k1.Point) (signature : FROST.Signature) :
    Except Error (Entries × List Event) := do
  require (isKnown entries parentKey parentEpoch) .unknownParent
  require (parentEpoch < proposedEpoch) .epochNotAdvancing
  let _ ← (Secp256k1.requireNonZero newGroupKey).mapError fun _ => Error.notOnCurve
  let message := ConsensusMessages.epochRollover crypto.keccak256 domainSeparator parentEpoch
    proposedEpoch rolloverBlock newGroupKey
  require (crypto.verify parentKey signature message) .invalidSignature
  if isKnown entries newGroupKey proposedEpoch then return (entries, [])
  else
    return (record entries newGroupKey proposedEpoch,
      [.epochRolledOver parentEpoch proposedEpoch parentKey newGroupKey])

end EpochRollover

/-! ### The guard -/

namespace SafenetGuard

/-- What is fixed at deployment. -/
structure Immutables where
  /-- `address(this)`. -/
  self : Address
  consensusDomainSeparator : B256
  allowTxDelay : Nat
  allowTxWindow : Nat
deriving DecidableEq, Repr

/-- The storage of the guard. -/
structure State where
  epochs : EpochRollover.Entries
  announcements : TransactionAnnouncement.Entries

/-- The arguments of the constructor. -/
structure Deployment where
  self : Address
  consensusChainId : B256
  consensusAddress : Address
  initialEpoch : BitVec 64
  initialGroupKey : Secp256k1.Point
  allowTransactionDelay : Nat
  allowTransactionWindow : Nat

/-- The constructor. -/
def deploy (crypto : Crypto) (args : Deployment) : Except Error (Immutables × State) := do
  require (args.consensusAddress ≠ 0) .invalidAddress
  require (args.allowTransactionDelay ≠ 0 && args.allowTransactionDelay ≤ 2 ^ 64 - 1 &&
    args.allowTransactionWindow ≠ 0 && args.allowTransactionWindow ≤ 2 ^ 64 - 1) .invalidParameter
  let epochs ← EpochRollover.initializeEpochs args.initialEpoch args.initialGroupKey
  return (
    { self := args.self
      consensusDomainSeparator :=
        ConsensusMessages.domain crypto.keccak256 args.consensusChainId args.consensusAddress
      allowTxDelay := args.allowTransactionDelay
      allowTxWindow := args.allowTransactionWindow },
    { epochs, announcements := fun _ _ => TransactionAnnouncement.noWindow })

/-- The arguments of `checkTransaction`; the executor is not used. -/
structure CheckArgs where
  tx : TransactionAnnouncement.AnnouncedTransaction
  signatures : Bytes
  msgSender : Address
deriving DecidableEq, Repr

/-- The calls of the guard. -/
inductive Call where
  | updateEpoch (parentKey : Secp256k1.Point) (parentEpoch proposedEpoch rolloverBlock : BitVec 64)
      (newGroupKey : Secp256k1.Point) (signature : FROST.Signature)
  | announceTransaction (announcement : TransactionAnnouncement.AnnouncedTransaction)
  | cancelAnnouncement (announcementHash : B256)
  /-- With what `nonce()` of the caller answers. -/
  | checkTransaction (args : CheckArgs) (safeNonce : Option B256)
deriving DecidableEq, Repr

/-- The first four bytes of the hash of a signature. -/
def selector (keccak : Keccak) (signature : String) : Bytes :=
  (Bytes.word (keccak (Bytes.ascii signature))).take 4

/-- The selector of `announceTransaction`. -/
def announceSelector (keccak : Keccak) : Bytes := selector keccak
  "announceTransaction((address,uint256,bytes,uint8,uint256,uint256,uint256,address,address))"

/-- The selector of `cancelAnnouncement`. -/
def cancelSelector (keccak : Keccak) : Bytes := selector keccak "cancelAnnouncement(bytes32)"

/-- A plain call of the guard's own escape-hatch functions. -/
def isAutoAllowed (crypto : Crypto) (imm : Immutables)
    (tx : TransactionAnnouncement.AnnouncedTransaction) : Bool :=
  if tx.target ≠ imm.self ∨ tx.value ≠ 0 ∨ tx.operation ≠ .call ∨ tx.gasPrice ≠ 0 ∨
      tx.data.length < 4 then false
  else
    tx.data.take 4 = announceSelector crypto.keccak256 ||
      tx.data.take 4 = cancelSelector crypto.keccak256

/-- The Safe transaction that is being executed. -/
def safeTransaction (env : Env) (tx : TransactionAnnouncement.AnnouncedTransaction)
    (nonce : B256) : SafeTransaction.T where
  chainId := env.chainId
  safe := env.sender
  target := tx.target
  value := tx.value
  data := tx.data
  operation := tx.operation
  safeTxGas := tx.safeTxGas
  baseGas := tx.baseGas
  gasPrice := tx.gasPrice
  gasToken := tx.gasToken
  refundReceiver := tx.refundReceiver
  nonce := nonce

/-- The attestation path: the trailer has to verify for a known key. -/
def checkAttestation (crypto : Crypto) (imm : Immutables) (state : State) (env : Env)
    (args : CheckArgs) (safeNonce : Option B256) : Except Error PUnit := do
  let attestation ← AttestationTrailer.decode crypto.keccak256 args.signatures
  require (EpochRollover.isKnown state.epochs attestation.groupKey attestation.epoch)
    .untrustedAttestationKey
  match safeNonce with
  | none => throw .nonceCall
  | some next => do
      -- The Safe has incremented its nonce before it calls the guard.
      let nonce ← checkedSub next.toNat 1 .arithmetic
      let safeTxHash := SafeTransaction.hash crypto.keccak256
        (safeTransaction env args.tx (BitVec.ofNat 256 nonce))
      let message := ConsensusMessages.transactionProposal crypto.keccak256
        imm.consensusDomainSeparator attestation.epoch attestation.oracle
        attestation.oracleDataHash safeTxHash
      require (crypto.verify attestation.groupKey attestation.signature message) .invalidSignature

/-- The hook a Safe calls before it executes a transaction. -/
def checkTransaction (crypto : Crypto) (imm : Immutables) (state : State) (env : Env)
    (args : CheckArgs) (safeNonce : Option B256) : Except Error (State × List Event) :=
  if isAutoAllowed crypto imm args.tx then return (state, [])
  else if AttestationTrailer.hasTrailer crypto.keccak256 args.signatures then do
    let _ ← checkAttestation crypto imm state env args safeNonce
    return (state, [])
  else
    let announcementHash := TransactionAnnouncement.hash crypto.keccak256 args.tx
    match TransactionAnnouncement.consume state.announcements env.timestamp env.sender
        announcementHash with
    | some announcements =>
        return ({ state with announcements }, [.announcementConsumed env.sender announcementHash])
    | none => throw .attestationNotFound

/-- Any call of the guard. -/
def call (crypto : Crypto) (imm : Immutables) (state : State) (env : Env) :
    Call → Except Error (State × List Event)
  | .updateEpoch parentKey parentEpoch proposedEpoch rolloverBlock newGroupKey signature => do
      let (epochs, events) ← EpochRollover.rollover crypto state.epochs imm.consensusDomainSeparator
        parentKey parentEpoch proposedEpoch rolloverBlock newGroupKey signature
      return ({ state with epochs }, events)
  | .announceTransaction announcement => do
      let announcementHash := TransactionAnnouncement.hash crypto.keccak256 announcement
      let (announcements, activeFrom, activeUntil) ← TransactionAnnouncement.announce
        state.announcements env.timestamp env.sender announcementHash imm.allowTxDelay
        imm.allowTxWindow
      return ({ state with announcements },
        [.transactionAnnounced env.sender announcementHash activeFrom activeUntil])
  | .cancelAnnouncement announcementHash => do
      let announcements ← TransactionAnnouncement.cancel state.announcements env.sender
        announcementHash
      return ({ state with announcements }, [.announcementCancelled env.sender announcementHash])
  | .checkTransaction args safeNonce => checkTransaction crypto imm state env args safeNonce

/-- A call as a step of the contract. -/
def step (crypto : Crypto) (imm : Immutables) (state : State) (input : Env × Call) :
    State × Except Error (List Event) :=
  transact state (call crypto imm state input.1 input.2)

end SafenetGuard

end Safenet.Contracts
