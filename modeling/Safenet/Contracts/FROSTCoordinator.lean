/-
Key generation in `contracts/src/FROSTCoordinator.sol`, with
`contracts/src/libraries/FROSTParticipantMap.sol` and
`contracts/src/libraries/FROSTGroupId.sol`.

Verifying a proof of knowledge and a Merkle proof are parameters (`Verifiers`): the
first bottoms out in the `ecrecover` precompile, the second is a library outside the
repository.  Of the groups, the signing half of the contract (`Contracts/Coordinator.lean`)
writes the number of ceremonies only.
-/
import Mathlib.Logic.Function.Basic
import Safenet.Contracts.Secp256k1

namespace Safenet.Contracts

open Fallible (require)

namespace FROSTCoordinator

/-- The checks the coordinator hands out. -/
structure Verifiers where
  keccak256 : Keccak
  /-- `FROST.verifyProofOfKnowledge` returns without reverting. -/
  proofOfKnowledge : Address → Secp256k1.Point → FROST.Signature → Bool
  /-- `MerkleProof.verifyCalldata(proof, root, leaf)`. -/
  merkleProof : List B256 → B256 → B256 → Bool

/-- Why a call reverted. -/
inductive Error where
  | invalidGroupParameters
  | invalidGroupCommitment
  | groupNotReady
  | invalidSecretShare
  /-- `FROST.verifyProofOfKnowledge` reverted. -/
  | invalidProofOfKnowledge
  | invalidRootHash
  | alreadyInitialized
  | invalidParticipant
  | notParticipating
  | alreadySet
  | alreadyComplained
  | notComplaining
  | unrespondedComplaints
  | curve (error : Secp256k1.Error)
  /-- An overflow or underflow in checked arithmetic. -/
  | arithmetic
  /-- An index out of bounds. -/
  | outOfBounds
deriving DecidableEq, Repr

end FROSTCoordinator

/-! ### Participants -/

namespace FROSTParticipantMap

open FROSTCoordinator (Error Verifiers)

inductive ParticipantStatus where
  | none
  | registered
  | confirmed
deriving DecidableEq, Repr

inductive ComplaintStatus where
  | none
  | submitted
  | responded
deriving DecidableEq, Repr

/-- The counters are `uint16`. -/
structure ParticipantState where
  status : ParticipantStatus
  complaints : Nat
  accusations : Nat
deriving DecidableEq, Repr

structure T where
  root : B256
  states : Address → ParticipantState
  keys : Address → Secp256k1.Point
  complaints : Address → Address → ComplaintStatus

/-- The storage of a map that was never written. -/
def empty : T where
  root := 0
  states := fun _ => ⟨.none, 0, 0⟩
  keys := fun _ => Secp256k1.zero
  complaints := fun _ _ => .none

/-- Sets the root of the participants, once. -/
def init (self : T) (root : B256) : Except Error T := do
  require (root ≠ 0) .invalidRootHash
  require (self.root = 0) .alreadyInitialized
  return { self with root }

def initialized (self : T) : Bool := self.root ≠ 0

/-- Registers a participant that proves to be in the tree. -/
def register (verifiers : Verifiers) (self : T) (participant : Address) (poap : List B256) :
    Except Error T := do
  let state := self.states participant
  require (state.status = .none) .invalidParticipant
  require (verifiers.merkleProof poap self.root (toWord participant)) .notParticipating
  return { self with
    states := Function.update self.states participant { state with status := .registered } }

/-- Sets the verification share of a participant, once. -/
def set (self : T) (participant : Address) (y : Secp256k1.Point) : Except Error T := do
  let _ ← (Secp256k1.requireNonZero y).mapError Error.curve
  require ((self.states participant).status = .registered) .invalidParticipant
  require (self.keys participant = Secp256k1.zero) .alreadySet
  return { self with keys := Function.update self.keys participant y }

/-- Files a complaint; answers how often the accused was accused. -/
def complain (self : T) (plaintiff accused : Address) : Except Error (T × Nat) := do
  require (plaintiff ≠ accused) .invalidParticipant
  require (self.complaints plaintiff accused = .none) .alreadyComplained
  let plaintiffState := self.states plaintiff
  require (plaintiffState.status = .registered) .invalidParticipant
  let accusedState := self.states accused
  require (accusedState.status ≠ .none) .invalidParticipant
  let filed ← checkedAdd 16 plaintiffState.complaints 1 .arithmetic
  let totalAccusations ← checkedAdd 16 accusedState.accusations 1 .arithmetic
  let states := Function.update self.states plaintiff { plaintiffState with complaints := filed }
  return ({ self with
    complaints := Function.update self.complaints plaintiff
      (Function.update (self.complaints plaintiff) accused .submitted)
    states := Function.update states accused { accusedState with accusations := totalAccusations } },
    totalAccusations)

/-- Answers a complaint. -/
def respond (self : T) (plaintiff accused : Address) : Except Error T := do
  require (self.complaints plaintiff accused = .submitted) .notComplaining
  let state := self.states plaintiff
  let unresponded ← checkedSub state.complaints 1 .arithmetic
  return { self with
    complaints := Function.update self.complaints plaintiff
      (Function.update (self.complaints plaintiff) accused .responded)
    states := Function.update self.states plaintiff { state with complaints := unresponded } }

/-- Confirms a participant without open complaints. -/
def confirm (self : T) (participant : Address) : Except Error T := do
  let state := self.states participant
  require (state.status = .registered) .invalidParticipant
  require (state.complaints = 0) .unrespondedComplaints
  return { self with
    states := Function.update self.states participant { state with status := .confirmed } }

end FROSTParticipantMap

namespace FROSTGroupId

/-- Clears the low eight bytes. -/
def mask (raw : B256) : B256 :=
  raw &&& 0xffffffffffffffffffffffffffffffffffffffffffffffff0000000000000000#256

/-- The identifier of a group. -/
def create (keccak : Keccak) (participants : B256) (count threshold : Nat) (context : B256) : B256 :=
  mask (keccak ([participants, BitVec.ofNat 256 count, BitVec.ofNat 256 threshold, context].flatMap
    Bytes.word))

end FROSTGroupId

/-! ### The coordinator -/

namespace FROSTCoordinator

inductive GroupStatus where
  | uninitialized
  | committing
  | sharing
  | confirming
  | compromised
  | finalized
deriving DecidableEq, Repr

/-- `count`, `threshold` and `pending` are `uint16`, `sequence` is `uint64`. -/
structure GroupState where
  status : GroupStatus
  count : Nat
  threshold : Nat
  pending : Nat
  sequence : Nat
deriving DecidableEq, Repr

structure Group where
  participants : FROSTParticipantMap.T
  state : GroupState
  key : Secp256k1.Point

/-- The storage of a group that was never written. -/
def emptyGroup : Group where
  participants := FROSTParticipantMap.empty
  state := ⟨.uninitialized, 0, 0, 0, 0⟩
  key := Secp256k1.zero

structure KeyGenCommitment where
  q : Secp256k1.Point
  pop : FROST.Signature
  c : List Secp256k1.Point
  pok : FROST.Signature
deriving DecidableEq, Repr

structure KeyGenSecretShare where
  y : Secp256k1.Point
  f : List B256
deriving DecidableEq, Repr

/-- The events of key generation. -/
inductive Event where
  | keyGen (gid participants : B256) (count threshold : Nat) (context : B256)
  | keyGenCommitted (gid : B256) (participant : Address) (commitment : KeyGenCommitment)
      (committed : Bool)
  | keyGenSecretShared (gid : B256) (participant : Address) (share : KeyGenSecretShare)
      (shared : Bool)
  | keyGenConfirmed (gid : B256) (participant : Address) (confirmed : Bool)
  | keyGenComplained (gid : B256) (plaintiff accused : Address) (compromised : Bool)
  | keyGenComplaintResponded (gid : B256) (plaintiff accused : Address) (secretShare : B256)
deriving DecidableEq, Repr

/-- `mapping(FROSTGroupId.T => Group)`. -/
abbrev Groups := B256 → Group

/-- Starts a key generation. -/
def keyGen (verifiers : Verifiers) (groups : Groups) (participants : B256) (count threshold : Nat)
    (context : B256) : Except Error (Groups × List Event) := do
  require (threshold ≤ count && 1 < threshold) .invalidGroupParameters
  let gid := FROSTGroupId.create verifiers.keccak256 participants count threshold context
  let group := groups gid
  let map ← FROSTParticipantMap.init group.participants participants
  let state := ⟨.committing, count, threshold, count, 0⟩
  return (Function.update groups gid { group with participants := map, state },
    [.keyGen gid participants count threshold context])

/-- Registers the caller with its commitment. -/
def keyGenCommit (verifiers : Verifiers) (groups : Groups) (sender : Address) (gid : B256)
    (poap : List B256) (commitment : KeyGenCommitment) : Except Error (Groups × List Event) := do
  let group := groups gid
  let state := group.state
  require (state.status = .committing) .groupNotReady
  let pending ← checkedSub state.pending 1 .arithmetic
  let committed := pending = 0
  let state :=
    if committed then { state with status := .sharing, pending := state.count }
    else { state with pending }
  require (commitment.c.length = state.threshold) .invalidGroupCommitment
  match commitment.c with
  | [] => throw .outOfBounds
  | c₀ :: _ => do
      require (verifiers.proofOfKnowledge sender c₀ commitment.pok) .invalidProofOfKnowledge
      require (verifiers.proofOfKnowledge sender commitment.q commitment.pop)
        .invalidProofOfKnowledge
      let participants ← FROSTParticipantMap.register verifiers group.participants sender poap
      let key ← (Secp256k1.add group.key c₀).mapError Error.curve
      return (Function.update groups gid { participants, state, key },
        [.keyGenCommitted gid sender commitment committed])

/-- Starts the key generation if nobody has, then registers the caller. -/
def keyGenAndCommit (verifiers : Verifiers) (groups : Groups) (sender : Address)
    (participants : B256) (count threshold : Nat) (context : B256) (poap : List B256)
    (commitment : KeyGenCommitment) : Except Error (Groups × List Event) := do
  let gid := FROSTGroupId.create verifiers.keccak256 participants count threshold context
  if FROSTParticipantMap.initialized (groups gid).participants then
    keyGenCommit verifiers groups sender gid poap commitment
  else do
    let (groups, started) ← keyGen verifiers groups participants count threshold context
    let (groups, committed) ← keyGenCommit verifiers groups sender gid poap commitment
    return (groups, started ++ committed)

/-- Publishes the caller's verification share and encrypted secret shares. -/
def keyGenSecretShare (groups : Groups) (sender : Address) (gid : B256)
    (share : KeyGenSecretShare) : Except Error (Groups × List Event) := do
  let group := groups gid
  let state := group.state
  require (state.status = .sharing) .groupNotReady
  let pending ← checkedSub state.pending 1 .arithmetic
  let shared := pending = 0
  let state :=
    if shared then { state with pending := state.count, status := .confirming }
    else { state with pending }
  -- `count - 1` is unchecked here
  require (share.f.length = (state.count + (2 ^ 16 - 1)) % 2 ^ 16) .invalidSecretShare
  let participants ← FROSTParticipantMap.set group.participants sender share.y
  return (Function.update groups gid { group with participants, state },
    [.keyGenSecretShared gid sender share shared])

/-- Confirms the caller's part in the key generation. -/
def keyGenConfirm (groups : Groups) (sender : Address) (gid : B256) :
    Except Error (Groups × List Event) := do
  let group := groups gid
  let state := group.state
  require (state.status = .confirming) .groupNotReady
  let participants ← FROSTParticipantMap.confirm group.participants sender
  let pending ← checkedSub state.pending 1 .arithmetic
  let confirmed := pending = 0
  let state := if confirmed then { state with pending, status := .finalized } else { state with pending }
  return (Function.update groups gid { group with participants, state },
    [.keyGenConfirmed gid sender confirmed])

/-- Complains about another participant. -/
def keyGenComplain (groups : Groups) (sender : Address) (gid : B256) (accused : Address) :
    Except Error (Groups × List Event) := do
  let group := groups gid
  let state := group.state
  require (state.status = .sharing || state.status = .confirming) .groupNotReady
  let (participants, total) ← FROSTParticipantMap.complain group.participants sender accused
  let compromised := state.threshold ≤ total
  let state := if compromised then { state with status := .compromised } else state
  return (Function.update groups gid { group with participants, state },
    [.keyGenComplained gid sender accused compromised])

/-- Answers a complaint by revealing the secret share. -/
def keyGenComplaintResponse (groups : Groups) (sender : Address) (gid : B256) (plaintiff : Address)
    (secretShare : B256) : Except Error (Groups × List Event) := do
  let group := groups gid
  require (group.state.status = .sharing || group.state.status = .confirming) .groupNotReady
  let participants ← FROSTParticipantMap.respond group.participants plaintiff sender
  return (Function.update groups gid { group with participants },
    [.keyGenComplaintResponded gid plaintiff sender secretShare])

/-- The calls of key generation. -/
inductive Call where
  | keyGen (participants : B256) (count threshold : Nat) (context : B256)
  | keyGenCommit (gid : B256) (poap : List B256) (commitment : KeyGenCommitment)
  | keyGenAndCommit (participants : B256) (count threshold : Nat) (context : B256)
      (poap : List B256) (commitment : KeyGenCommitment)
  | keyGenSecretShare (gid : B256) (share : KeyGenSecretShare)
  | keyGenConfirm (gid : B256)
  | keyGenComplain (gid : B256) (accused : Address)
  | keyGenComplaintResponse (gid : B256) (plaintiff : Address) (secretShare : B256)
deriving DecidableEq, Repr

/-- Any call of key generation. -/
def call (verifiers : Verifiers) (groups : Groups) (sender : Address) :
    Call → Except Error (Groups × List Event)
  | .keyGen participants count threshold context =>
      keyGen verifiers groups participants count threshold context
  | .keyGenCommit gid poap commitment => keyGenCommit verifiers groups sender gid poap commitment
  | .keyGenAndCommit participants count threshold context poap commitment =>
      keyGenAndCommit verifiers groups sender participants count threshold context poap commitment
  | .keyGenSecretShare gid share => keyGenSecretShare groups sender gid share
  | .keyGenConfirm gid => keyGenConfirm groups sender gid
  | .keyGenComplain gid accused => keyGenComplain groups sender gid accused
  | .keyGenComplaintResponse gid plaintiff secretShare =>
      keyGenComplaintResponse groups sender gid plaintiff secretShare

/-- A call as a step of the contract. -/
def step (verifiers : Verifiers) (groups : Groups) (input : Address × Call) :
    Groups × Except Error (List Event) :=
  transact groups (call verifiers groups input.1 input.2)

/-- The contract after its deployment. -/
def deployed : Groups := fun _ => emptyGroup

end FROSTCoordinator

end Safenet.Contracts
