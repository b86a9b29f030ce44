/-
The whole of `contracts/src/FROSTCoordinator.sol`: key generation as modelled in
`Safenet.Contracts.FROSTCoordinator`, and the signing ceremonies over it, with
`contracts/src/libraries/FROSTSignatureId.sol` and
`contracts/src/libraries/FROSTSignatureShares.sol`.

`keyGenConfirmWithCallback` and `signShareWithCallback` are `keyGenConfirm` and `signShare`
followed by a call to the target, which may call back.  All storage is written by then, so
what the target does is what later calls of the run do.
-/
import Safenet.Contracts.FROST
import Safenet.Contracts.FROSTCoordinator

namespace Safenet.Contracts

open Fallible (require)

namespace Coordinator

/-- What the coordinator takes from outside. -/
structure Externals extends FROSTCoordinator.Verifiers where
  sha256 : Bytes → B256
  ecrecover : B256 → Nat → B256 → B256 → Address

/-- The precompiles among them. -/
def Externals.precompiles (externals : Externals) : FROST.Precompiles where
  keccak256 := externals.keccak256
  sha256 := externals.sha256
  ecrecover := externals.ecrecover

/-- Why a call reverted. -/
inductive Error where
  /-- A call of key generation reverted. -/
  | keyGen (error : FROSTCoordinator.Error)
  | invalidMessage
  | groupNotInitialized
  | groupNotReady
  | notSigning
  | notSigned
  | wrongSignature
  | invalidParticipant
  | alreadyIncluded
  | notIncluded
  | curve (error : Secp256k1.Error)
  | frost (error : FROST.Error)
  /-- An overflow in checked arithmetic. -/
  | arithmetic
deriving DecidableEq, Repr

end Coordinator

open Coordinator (Externals)

/-! ### Signature identifiers -/

namespace FROSTSignatureId

/-- The identifier of the `seq`-th ceremony of a group; `seq` is a `uint64`. -/
def create (gid : B256) (seq : Nat) : Except Coordinator.Error B256 := do
  let number ← checkedAdd 64 seq 1 .arithmetic
  return gid ||| BitVec.ofNat 256 number

/-- The group of a ceremony. -/
def group (sid : B256) : B256 := FROSTGroupId.mask sid

end FROSTSignatureId

/-! ### Signature shares -/

namespace FROSTSignatureShares

/-- What was submitted for one selection of signers. -/
structure Aggregate where
  /-- The leaf of every participant that submitted its share, zero otherwise. -/
  participants : Address → B256
  signature : FROST.Signature

/-- `mapping(bytes32 root => Aggregate)`. -/
abbrev T := B256 → Aggregate

/-- The storage of an aggregate that was never written. -/
def emptyAggregate : Aggregate := ⟨fun _ => 0, ⟨Secp256k1.zero, 0⟩⟩

/-- The leaf of a participant's share. -/
def hash (keccak256 : Keccak) (participant : Address) (share : FROST.SignatureShare)
    (r : Secp256k1.Point) : B256 :=
  keccak256 ([toWord participant, share.r.x, share.r.y, share.l, r.x, r.y].flatMap Bytes.word)

/-- Adds a share to the aggregate of its selection; answers the aggregated signature. -/
def register (externals : Externals) (self : T) (participant : Address)
    (share : FROST.SignatureShare) (r : Secp256k1.Point) (root : B256) (proof : List B256) :
    Except Coordinator.Error (T × FROST.Signature) := do
  let aggregate := self root
  require (aggregate.participants participant = 0) .alreadyIncluded
  let leaf := hash externals.keccak256 participant share r
  require (externals.merkleProof proof root leaf) .notIncluded
  let sum ← (Secp256k1.add aggregate.signature.r share.r).mapError Coordinator.Error.curve
  let z := Secp256k1.addmod aggregate.signature.z.toNat share.z.toNat Secp256k1.N
  let signature := ⟨sum, BitVec.ofNat 256 z⟩
  return (Function.update self root
    ⟨Function.update aggregate.participants participant leaf, signature⟩, signature)

/-- The signature aggregated for a selection. -/
def groupSignature (self : T) (root : B256) : FROST.Signature := (self root).signature

end FROSTSignatureShares

/-! ### The coordinator -/

namespace Coordinator

open FROSTCoordinator (Groups)

structure SignNonces where
  d : Secp256k1.Point
  e : Secp256k1.Point
deriving DecidableEq, Repr

structure SignSelection where
  r : Secp256k1.Point
  root : B256
deriving DecidableEq, Repr

/-- A signing ceremony. -/
structure Signature where
  message : B256
  /-- The selection it completed under, zero until then. -/
  signed : B256
  shares : FROSTSignatureShares.T

/-- The storage of a ceremony that was never written. -/
def emptySignature : Signature := ⟨0, 0, fun _ => FROSTSignatureShares.emptyAggregate⟩

structure State where
  groups : Groups
  signatures : B256 → Signature

/-- The contract after its deployment. -/
def deployed : State := ⟨FROSTCoordinator.deployed, fun _ => emptySignature⟩

inductive Event where
  | keyGen (event : FROSTCoordinator.Event)
  | sign (initiator : Address) (gid message sid : B256) (sequence : Nat)
  | signCommittedNonces (sid : B256) (participant : Address) (nonces : SignNonces)
  | signShared (sid selectionRoot : B256) (participant : Address) (z : B256)
  | signCompleted (sid selectionRoot : B256) (signature : FROST.Signature)
deriving DecidableEq, Repr

/-- The group key of a finalised group. -/
def groupKey (s : State) (gid : B256) : Except Error Secp256k1.Point := do
  require ((s.groups gid).state.status = .finalized) .groupNotReady
  return (s.groups gid).key

/-- Starts a signing ceremony; answers its identifier. -/
def sign (s : State) (sender : Address) (gid message : B256) :
    Except Error (State × B256 × List Event) := do
  require (message ≠ 0) .invalidMessage
  let group := s.groups gid
  let state := group.state
  require (0 < state.count) .groupNotInitialized
  require (state.status = .finalized) .groupNotReady
  let sequence := state.sequence
  let next ← checkedAdd 64 sequence 1 .arithmetic
  let sid ← FROSTSignatureId.create gid sequence
  return ({ groups := Function.update s.groups gid { group with state := { state with sequence := next } }
            signatures := Function.update s.signatures sid { s.signatures sid with message } },
    sid, [.sign sender gid message sid sequence])

/-- The group and the message of a ceremony. -/
def signatureGroupAndMessage (s : State) (sid : B256) :
    Except Error (FROSTCoordinator.Group × B256) := do
  let message := (s.signatures sid).message
  require (message ≠ 0) .notSigning
  return (s.groups (FROSTSignatureId.group sid), message)

/-- Commits a nonce pair. -/
def signCommitNonces (s : State) (sender : Address) (sid : B256) (nonces : SignNonces) :
    Except Error (State × List Event) := do
  let (group, _) ← signatureGroupAndMessage s sid
  require ((group.participants.states sender).status = .confirmed) .invalidParticipant
  let _ ← (Secp256k1.requireNonZero nonces.d).mapError Error.curve
  let _ ← (Secp256k1.requireNonZero nonces.e).mapError Error.curve
  return (s, [.signCommittedNonces sid sender nonces])

/-- The verification share of a participant. -/
def getKey (participants : FROSTParticipantMap.T) (participant : Address) :
    Except Error Secp256k1.Point := do
  let y := participants.keys participant
  require (y ≠ Secp256k1.zero) .invalidParticipant
  return y

/-- Ends `signShare`: a share that completes the selection must give a valid signature, and the
first that does completes the ceremony. -/
def complete (externals : Externals) (s : State) (sid : B256) (key : Secp256k1.Point)
    (message : B256) (selection : SignSelection) (accumulator : FROST.Signature)
    (shared : List Event) : Except Error (State × Bool × List Event) := do
  if ← (Secp256k1.eq selection.r accumulator.r).mapError Error.curve then do
    let _ ← (FROST.verify externals.precompiles key accumulator message).mapError Error.frost
    if (s.signatures sid).signed = 0 then
      return ({ s with
          signatures := Function.update s.signatures sid
            { s.signatures sid with signed := selection.root } }, true,
        shared ++ [.signCompleted sid selection.root accumulator])
    else return (s, false, shared)
  else return (s, false, shared)

/-- Adds the caller's share to its selection; answers whether it completed the ceremony. -/
def signShare (externals : Externals) (s : State) (sender : Address) (sid : B256)
    (selection : SignSelection) (share : FROST.SignatureShare) (proof : List B256) :
    Except Error (State × Bool × List Event) := do
  let (group, message) ← signatureGroupAndMessage s sid
  let key := group.key
  let participant ← getKey group.participants sender
  let _ ← (FROST.verifyShare externals.precompiles key selection.r participant share
    message).mapError Error.frost
  let signature := s.signatures sid
  let (shares, accumulator) ← FROSTSignatureShares.register externals signature.shares sender share
    selection.r selection.root proof
  let s := { s with signatures := Function.update s.signatures sid { signature with shares } }
  complete externals s sid key message selection accumulator
    [.signShared sid selection.root sender share.z]

/-- The signature of a completed ceremony of the given group and message. -/
def signatureVerify (s : State) (sid gid message : B256) : Except Error FROST.Signature := do
  let signature := s.signatures sid
  let signed := signature.signed
  require (signed ≠ 0) .notSigned
  require (gid = FROSTSignatureId.group sid && message = signature.message) .wrongSignature
  return FROSTSignatureShares.groupSignature signature.shares signed

/-- The signature of a completed ceremony. -/
def signatureValue (s : State) (sid : B256) : Except Error FROST.Signature := do
  let signature := s.signatures sid
  let signed := signature.signed
  require (signed ≠ 0) .notSigned
  return FROSTSignatureShares.groupSignature signature.shares signed

/-- The calls that write. -/
inductive Call where
  | keyGen (call : FROSTCoordinator.Call)
  | sign (gid message : B256)
  | signCommitNonces (sid : B256) (nonces : SignNonces)
  | signShare (sid : B256) (selection : SignSelection) (share : FROST.SignatureShare)
      (proof : List B256)
deriving DecidableEq, Repr

/-- Any call. -/
def call (externals : Externals) (s : State) (sender : Address) :
    Call → Except Error (State × List Event)
  | .keyGen c => do
      let (groups, events) ←
        (FROSTCoordinator.call externals.toVerifiers s.groups sender c).mapError Error.keyGen
      return ({ s with groups }, events.map Event.keyGen)
  | .sign gid message => do
      let (s, _, events) ← sign s sender gid message
      return (s, events)
  | .signCommitNonces sid nonces => signCommitNonces s sender sid nonces
  | .signShare sid selection share proof => do
      let (s, _, events) ← signShare externals s sender sid selection share proof
      return (s, events)

/-- A call as a step of the contract. -/
def step (externals : Externals) (s : State) (input : Address × Call) :
    State × Except Error (List Event) :=
  transact s (call externals s input.1 input.2)

end Coordinator

end Safenet.Contracts
