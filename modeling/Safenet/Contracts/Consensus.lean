/-
`contracts/src/Consensus.sol`, together with the coordinator it talks to.

The two contracts call each other: proposals start ceremonies, stagings and attestations read
completed ones, and the coordinator's `...WithCallback` functions call back.  A `World` holds the
storage of both and the number of the latest block, which never goes back: an input says how many
blocks have passed.

The oracle is outside: whether it accepts a request is part of the input.  When it is called all
storage is written, so what it does on its own is what later calls of the run do.
-/
import Safenet.Contracts.ConsensusMessages
import Safenet.Contracts.Coordinator

namespace Safenet.Contracts

open Fallible (require)

namespace SafeId

/-- The chain and the address of a Safe in one word; the chain identifier has 96 bits. -/
def create (chainId : B256) (safe : Address) : Option B256 :=
  if chainId.toNat < 2 ^ 96 then some (chainId <<< 160 ||| toWord safe) else none

end SafeId

namespace Consensus

open Coordinator (Externals)

/-- An epoch number, `uint64`. -/
abbrev Epoch := BitVec 64

structure Epochs where
  previous : Epoch
  active : Epoch
  /-- Zero if no epoch is staged. -/
  staged : Epoch
  rolloverBlock : BitVec 64
deriving DecidableEq, Repr

structure State where
  epochs : Epochs
  groups : Epoch → B256
  attestations : B256 → B256
  validatorStakers : Address → Address

/-- The storage after the constructor. -/
def deploy (groupId : B256) : State where
  epochs := ⟨0, 0, 0, 0⟩
  groups := Function.update (fun _ => 0) 0 groupId
  attestations := fun _ => 0
  validatorStakers := fun _ => 0

/-- The addresses of the two contracts. -/
structure Deployment where
  this : Address
  coordinator : Address
deriving DecidableEq, Repr

/-- Why a call reverted. -/
inductive Error where
  | invalidRollover
  | alreadyAttested
  | unknownSignatureSelector
  | notCoordinator
  | chainIdOverflow
  /-- The coordinator reverted. -/
  | coordinator (error : Coordinator.Error)
  /-- The oracle reverted. -/
  | oracle
  /-- Data that does not decode. -/
  | decoding
deriving DecidableEq, Repr

inductive Event where
  | validatorStakerSet (validator staker : Address)
  | epochProposed (activeEpoch proposedEpoch : Epoch) (rolloverBlock : BitVec 64) (groupId : B256)
      (groupKey : Secp256k1.Point)
  | epochStaged (activeEpoch proposedEpoch : Epoch) (rolloverBlock : BitVec 64) (groupId : B256)
      (groupKey : Secp256k1.Point) (signatureId : B256) (attestation : FROST.Signature)
  | epochRolledOver (newActiveEpoch : Epoch)
  | transactionProposed (safeTxHash safeId : B256) (oracle : Address) (epoch : Epoch)
      (oracleData : Bytes) (transaction : SafeTransaction.T)
  | transactionAttested (safeTxHash safeId : B256) (oracle : Address) (epoch : Epoch)
      (oracleDataHash signatureId : B256) (attestation : FROST.Signature)
  /-- An event of the coordinator. -/
  | coordinator (event : Coordinator.Event)
deriving DecidableEq, Repr

/-- The storage of both contracts, and the latest block. -/
structure World where
  number : Nat
  consensus : State
  coordinator : Coordinator.State

/-! ### Epochs -/

/-- The epochs with a due rollover applied, and whether there was one. -/
def epochsWithRollover (epochs : Epochs) (number : Nat) : Epochs × Bool :=
  if epochs.staged ≠ 0 ∧ epochs.rolloverBlock.toNat ≤ number then
    (⟨epochs.active, epochs.staged, 0, 0⟩, true)
  else (epochs, false)

/-- Stores a due rollover. -/
def processRollover (s : State) (number : Nat) : State × Epochs × List Event :=
  let (epochs, rolledOver) := epochsWithRollover s.epochs number
  if rolledOver then ({ s with epochs }, epochs, [.epochRolledOver epochs.active])
  else (s, epochs, [])

def requireValidRollover (epochs : Epochs) (proposedEpoch : Epoch) (rolloverBlock : BitVec 64)
    (number : Nat) : Except Error PUnit :=
  require (epochs.active < proposedEpoch && number < rolloverBlock.toNat && epochs.staged = 0)
    .invalidRollover

/-- The active epoch and its group, as of a block. -/
def getActiveEpoch (s : State) (number : Nat) : Epoch × B256 :=
  let (epochs, _) := epochsWithRollover s.epochs number
  (epochs.active, s.groups epochs.active)

/-! ### Proposals and attestations -/

section Calls

variable (externals : Externals) (deployment : Deployment)

def domainSeparator (env : Env) : B256 :=
  ConsensusMessages.domain externals.keccak256 env.chainId deployment.this

/-- Starts a ceremony of a group on the coordinator. -/
def requestSignature (world : World) (gid message : B256) : Except Error (World × List Event) := do
  let (coordinator, _, events) ←
    (Coordinator.sign world.coordinator deployment.this gid message).mapError Error.coordinator
  return ({ world with coordinator }, events.map Event.coordinator)

def proposeEpoch (env : Env) (world : World) (proposedEpoch : Epoch) (rolloverBlock : BitVec 64)
    (groupId : B256) : Except Error (World × List Event) := do
  let (consensus, epochs, rolled) := processRollover world.consensus env.number
  requireValidRollover epochs proposedEpoch rolloverBlock env.number
  let groupKey ← (Coordinator.groupKey world.coordinator groupId).mapError Error.coordinator
  let message := ConsensusMessages.epochRollover externals.keccak256
    (domainSeparator externals deployment env) epochs.active proposedEpoch rolloverBlock groupKey
  let (world, signing) ← requestSignature deployment { world with consensus }
    (consensus.groups epochs.active) message
  return (world, rolled ++
    .epochProposed epochs.active proposedEpoch rolloverBlock groupId groupKey :: signing)

def stageEpoch (env : Env) (world : World) (proposedEpoch : Epoch) (rolloverBlock : BitVec 64)
    (groupId signatureId : B256) : Except Error (World × List Event) := do
  let (consensus, epochs, rolled) := processRollover world.consensus env.number
  requireValidRollover epochs proposedEpoch rolloverBlock env.number
  let groupKey ← (Coordinator.groupKey world.coordinator groupId).mapError Error.coordinator
  let message := ConsensusMessages.epochRollover externals.keccak256
    (domainSeparator externals deployment env) epochs.active proposedEpoch rolloverBlock groupKey
  let attestation ← (Coordinator.signatureVerify world.coordinator signatureId
    (consensus.groups epochs.active) message).mapError Error.coordinator
  return ({ world with
      consensus := { consensus with
        epochs := { epochs with staged := proposedEpoch, rolloverBlock }
        groups := Function.update consensus.groups proposedEpoch groupId
        -- written without a look at what is there
        attestations := Function.update consensus.attestations message signatureId } },
    rolled ++ [.epochStaged epochs.active proposedEpoch rolloverBlock groupId groupKey signatureId
      attestation])

def proposeTransaction (env : Env) (world : World) (oracle : Address) (oracleData : Bytes)
    (transaction : SafeTransaction.T) (accepted : Bool) : Except Error (World × List Event) := do
  let (consensus, epochs, rolled) := processRollover world.consensus env.number
  let safeTxHash := SafeTransaction.hash externals.keccak256 transaction
  let message := ConsensusMessages.transactionProposal externals.keccak256
    (domainSeparator externals deployment env) epochs.active oracle (externals.keccak256 oracleData)
    safeTxHash
  require (consensus.attestations message = 0) .alreadyAttested
  match SafeId.create transaction.chainId transaction.safe with
  | none => throw .chainIdOverflow
  | some safeId => do
      let (world, signing) ← requestSignature deployment { world with consensus }
        (consensus.groups epochs.active) message
      require accepted .oracle
      return (world, rolled ++
        .transactionProposed safeTxHash safeId oracle epochs.active oracleData transaction :: signing)

def attestTransaction (env : Env) (world : World) (epoch : Epoch) (oracle : Address)
    (oracleDataHash chainId : B256) (safe : Address) (safeTxStructHash signatureId : B256) :
    Except Error (World × List Event) := do
  let consensus := world.consensus
  let safeTxHash := SafeTransaction.partialHash externals.keccak256 chainId safe safeTxStructHash
  let message := ConsensusMessages.transactionProposal externals.keccak256
    (domainSeparator externals deployment env) epoch oracle oracleDataHash safeTxHash
  require (consensus.attestations message = 0) .alreadyAttested
  let attestation ← (Coordinator.signatureVerify world.coordinator signatureId
    (consensus.groups epoch) message).mapError Error.coordinator
  match SafeId.create chainId safe with
  | none => throw .chainIdOverflow
  | some safeId =>
      return ({ world with
          consensus := { consensus with
            attestations := Function.update consensus.attestations message signatureId } },
        [.transactionAttested safeTxHash safeId oracle epoch oracleDataHash signatureId attestation])

/-! ### Callbacks of the coordinator -/

/-- The `i`-th word of ABI-encoded data. -/
def wordAt (data : Bytes) (i : Nat) : B256 :=
  BitVec.ofNat 256 (Bytes.value ((data.drop (32 * i)).take 32))

/-- `abi.decode` of a narrower unsigned value. -/
def decodeUint (bits : Nat) (data : Bytes) (i : Nat) : Except Error (BitVec bits) := do
  let value := (wordAt data i).toNat
  require (value < 2 ^ bits) .decoding
  return BitVec.ofNat bits value

def onKeyGenCompleted (env : Env) (world : World) (groupId : B256) (context : Bytes) :
    Except Error (World × List Event) := do
  require (env.sender = deployment.coordinator) .notCoordinator
  require (64 ≤ context.length) .decoding
  let proposedEpoch ← decodeUint 64 context 0
  let rolloverBlock ← decodeUint 64 context 1
  proposeEpoch externals deployment env world proposedEpoch rolloverBlock groupId

/-- `stageEpoch(uint64,uint64,bytes32,bytes32)`. -/
def stageEpochSelector : Bytes := [0xea#8, 0x5e#8, 0xea#8, 0xfa#8]

/-- `attestTransaction(uint64,address,bytes32,uint256,address,bytes32,bytes32)`. -/
def attestTransactionSelector : Bytes := [0xd4#8, 0x94#8, 0x00#8, 0xf8#8]

def onSignCompleted (env : Env) (world : World) (signatureId : B256) (context : Bytes) :
    Except Error (World × List Event) := do
  require (env.sender = deployment.coordinator) .notCoordinator
  -- `bytes4(context)` fills up with zeros
  let selector := (context ++ List.replicate 4 0).take 4
  let arguments := context.drop 4
  if selector = stageEpochSelector then do
    require (4 + 96 ≤ context.length) .decoding
    let proposedEpoch ← decodeUint 64 arguments 0
    let rolloverBlock ← decodeUint 64 arguments 1
    stageEpoch externals deployment env world proposedEpoch rolloverBlock (wordAt arguments 2)
      signatureId
  else if selector = attestTransactionSelector then do
    require (4 + 192 ≤ context.length) .decoding
    let epoch ← decodeUint 64 arguments 0
    let oracle ← decodeUint 160 arguments 1
    let safe ← decodeUint 160 arguments 4
    attestTransaction externals deployment env world epoch oracle (wordAt arguments 2)
      (wordAt arguments 3) safe (wordAt arguments 5) signatureId
  else throw .unknownSignatureSelector

/-! ### The two contracts together -/

/-- A call of the coordinator. -/
def onCoordinator (env : Env) (world : World) (c : Coordinator.Call) :
    Except Error (World × List Event) := do
  let (coordinator, events) ←
    (Coordinator.call externals world.coordinator env.sender c).mapError Error.coordinator
  return ({ world with coordinator }, events.map Event.coordinator)

/-- `keyGenConfirmWithCallback` with this contract as the target. -/
def keyGenConfirmWithCallback (env : Env) (world : World) (gid : B256) (context : Bytes) :
    Except Error (World × List Event) := do
  let (world, events) ← onCoordinator externals env world (.keyGen (.keyGenConfirm gid))
  if .coordinator (.keyGen (.keyGenConfirmed gid env.sender true)) ∈ events then do
    let (world, called) ← onKeyGenCompleted externals deployment
      { env with sender := deployment.coordinator } world gid context
    return (world, events ++ called)
  else return (world, events)

/-- `signShareWithCallback` with this contract as the target. -/
def signShareWithCallback (env : Env) (world : World) (sid : B256)
    (selection : Coordinator.SignSelection) (share : FROST.SignatureShare) (proof : List B256)
    (context : Bytes) : Except Error (World × List Event) := do
  let (coordinator, signed, shared) ← (Coordinator.signShare externals world.coordinator env.sender
    sid selection share proof).mapError Error.coordinator
  let world := { world with coordinator }
  let events := shared.map Event.coordinator
  if signed then do
    let (world, called) ← onSignCompleted externals deployment
      { env with sender := deployment.coordinator } world sid context
    return (world, events ++ called)
  else return (world, events)

/-- The calls of both contracts that write. -/
inductive Call where
  | setValidatorStaker (staker : Address)
  | proposeEpoch (proposedEpoch : Epoch) (rolloverBlock : BitVec 64) (groupId : B256)
  | stageEpoch (proposedEpoch : Epoch) (rolloverBlock : BitVec 64) (groupId signatureId : B256)
  /-- `accepted` says whether the oracle takes the request. -/
  | proposeTransaction (oracle : Address) (oracleData : Bytes) (transaction : SafeTransaction.T)
      (accepted : Bool)
  | attestTransaction (epoch : Epoch) (oracle : Address) (oracleDataHash chainId : B256)
      (safe : Address) (safeTxStructHash signatureId : B256)
  | onKeyGenCompleted (groupId : B256) (context : Bytes)
  | onSignCompleted (signatureId : B256) (context : Bytes)
  | coordinator (call : Coordinator.Call)
  | keyGenConfirmWithCallback (gid : B256) (context : Bytes)
  | signShareWithCallback (sid : B256) (selection : Coordinator.SignSelection)
      (share : FROST.SignatureShare) (proof : List B256) (context : Bytes)
deriving DecidableEq, Repr

/-- Any call. -/
def call (env : Env) (world : World) : Call → Except Error (World × List Event)
  | .setValidatorStaker staker =>
      return ({ world with
          consensus := { world.consensus with
            validatorStakers := Function.update world.consensus.validatorStakers env.sender staker } },
        [.validatorStakerSet env.sender staker])
  | .proposeEpoch proposedEpoch rolloverBlock groupId =>
      proposeEpoch externals deployment env world proposedEpoch rolloverBlock groupId
  | .stageEpoch proposedEpoch rolloverBlock groupId signatureId =>
      stageEpoch externals deployment env world proposedEpoch rolloverBlock groupId signatureId
  | .proposeTransaction oracle oracleData transaction accepted =>
      proposeTransaction externals deployment env world oracle oracleData transaction accepted
  | .attestTransaction epoch oracle oracleDataHash chainId safe safeTxStructHash signatureId =>
      attestTransaction externals deployment env world epoch oracle oracleDataHash chainId safe
        safeTxStructHash signatureId
  | .onKeyGenCompleted groupId context =>
      onKeyGenCompleted externals deployment env world groupId context
  | .onSignCompleted signatureId context =>
      onSignCompleted externals deployment env world signatureId context
  | .coordinator c => onCoordinator externals env world c
  | .keyGenConfirmWithCallback gid context =>
      keyGenConfirmWithCallback externals deployment env world gid context
  | .signShareWithCallback sid selection share proof context =>
      signShareWithCallback externals deployment env world sid selection share proof context

/-- A call, made `passed` blocks after the one before. -/
structure Input where
  passed : Nat
  sender : Address
  timestamp : Nat
  chainId : B256
  call : Call
deriving DecidableEq, Repr

/-- The environment of an input. -/
def Input.env (input : Input) (world : World) : Env :=
  ⟨input.sender, input.timestamp, world.number + input.passed, input.chainId⟩

/-- A call as a step of the world. -/
def step (world : World) (input : Input) : World × Except Error (List Event) :=
  let now := { world with number := world.number + input.passed }
  transact now (call externals deployment (input.env world) now input.call)

end Calls

/-- Both contracts after their deployment. -/
def deployed (number : Nat) (groupId : B256) : World := ⟨number, deploy groupId, Coordinator.deployed⟩

end Consensus

end Safenet.Contracts
