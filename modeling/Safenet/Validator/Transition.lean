/-
The transition function of the validator: `apply_transition` of `validator/src/state/mod.rs`,
with `transactions.rs` and `secrets.rs` of the same directory.
-/
import Safenet.Validator.Keygen

namespace Safenet.Validator

namespace Transition

variable (t : Transition)

/-! ### Transactions -/

/-- The session for a proposed transaction. -/
def proposalSession (epoch : Epoch) (packet : Packet) (block : Nat) : SigningState :=
  .waitingForRequest
    { keyShare := epoch.keyShare
      groupId := epoch.group.id
      responsible := none
      packet
      oracleApproved := false
      signers := epoch.group.participants
      deadline := t.signingDeadline block }

/-- Opens a session for a proposed transaction, once per message. -/
def handleTransactionProposed (state : State) (block : Nat) (oracle : Address) (epoch : EpochId)
    (oracleData : Bytes) (transaction : SafeTransaction) : State × List Command :=
  match state.epochs.lookup epoch with
  | none => (state, [])
  | some participatingEpoch =>
      if oracle ∈ t.config.oracles then
        let message := t.consensus.transactionPacketHash t.externals.keccak256 epoch oracle oracleData
          transaction
        match state.signing.lookup message with
        | some _ => (state, [])
        | none =>
            ({ state with
                signing := state.signing.insert message (t.proposalSession participatingEpoch
                  (.transaction epoch oracle oracleData transaction) block) }, [])
      else (state, [])

/-- Forgets the session of an attested transaction. -/
def handleTransactionAttested (state : State) (safeTxHash : B256) (oracle : Address) (epoch : EpochId)
    (oracleDataHash : B256) : State × List Command :=
  handleSignAttested state
    (t.consensus.transactionProposalHash t.externals.keccak256 epoch oracle oracleDataHash safeTxHash)

/-! ### Secrets -/

/-- The oldest epoch that is active or has a session. -/
def oldestEpoch (state : State) : EpochId :=
  (state.signing.rows.map fun row => row.2.packet.epoch).foldl min state.activeEpoch

/-- What to keep for the key generation, while this validator takes part in it. -/
def retainedKeyGen : RolloverState → Option (B256 × RetainedSecrets)
  | .collectingConfirmations round =>
      match round.status, round.participation with
      | .confirmed _, _ => some (round.group.id, .nonces)
      | _, .participating _ => some (round.group.id, .all)
      | _, .observing _ => none
  | .signingRollover rollover => rollover.keyShare.map fun _ => (rollover.group.id, .nonces)
  | .collectingCommitments round =>
      match round.secrets with
      | .participating _ _ => some (round.group.id, .all)
      | .observing => none
  | .collectingShares round =>
      match round.participation with
      | .participating _ => some (round.group.id, .all)
      | .observing _ => none
  | _ => none

/-- The secrets that the state still needs. -/
def retainedGroups (state : State) : Table B256 RetainedSecrets :=
  let groups := state.epochs.rows.foldl (fun groups row => groups.insert row.2.group.id .nonces)
    Table.empty
  match retainedKeyGen state.rollover with
  | some (groupId, retained) => groups.insert groupId retained
  | none => groups

/-- Drops the epochs without sessions and reconciles the stored secrets. -/
def handleGroupReconciliation (state : State) (block : Nat) : State × List Command :=
  let state := { state with epochs := state.epochs.filter fun epoch _ => oldestEpoch state ≤ epoch }
  (state, [.effect (.reconcileGroupSecrets block (retainedGroups state))])

/-! ### The transition -/

/-- A new block: the clock, the timeouts and the reconciliation, one after the other. -/
def newBlock (state : State) (block : Nat) : State × List Command :=
  let rollover := t.handleRolloverNewBlock state block
  let keyGen := rollover.1.withRollover (t.keyGenTimeouts rollover.1.rollover block)
  let signing := t.handleSigningTimeouts keyGen.1 block
  let reconciliation := handleGroupReconciliation signing.1 block
  (reconciliation.1, rollover.2 ++ keyGen.2 ++ signing.2 ++ reconciliation.2)

/-- An event; `oracle` is the contract that emitted it. -/
def onEvent (state : State) (block : Nat) (oracle : Address) : Event → State × List Command
  | .keyGen gid => state.withRollover (t.genesisKeyGen state.rollover gid)
  | .keyGenCommitted gid participant commitment =>
      state.withRollover (t.keyGenCommitted state.rollover block gid participant commitment)
  | .keyGenSecretShared gid participant share =>
      state.withRollover (t.keyGenSecretShared state.rollover block gid participant share)
  | .keyGenConfirmed gid participant => t.handleKeyGenConfirmed state block gid participant
  | .keyGenComplained gid plaintiff accused =>
      state.withRollover (t.keyGenComplained state.rollover block gid plaintiff accused)
  | .keyGenComplaintResponded gid plaintiff accused secretShare =>
      state.withRollover
        (t.keyGenComplaintResponded state.rollover block gid plaintiff accused secretShare)
  | .sign gid message sid => t.handleSign state block gid message sid
  | .signCommittedNonces sid participant nonces =>
      t.handleSignCommittedNonces state block sid participant nonces
  | .signShared sid selectionRoot participant => handleSignShared state sid selectionRoot participant
  | .signCompleted sid => t.handleSignCompleted state block sid
  | .epochStaged proposedEpoch groupId _ => handleEpochStaged state proposedEpoch groupId
  | .transactionProposed eventOracle epoch oracleData transaction =>
      t.handleTransactionProposed state block eventOracle (.fromRaw epoch) oracleData transaction
  | .transactionAttested safeTxHash eventOracle epoch oracleDataHash _ =>
      t.handleTransactionAttested state safeTxHash eventOracle (.fromRaw epoch) oracleDataHash
  | .oracleResult requestId isApproved => t.handleOracleResult state block oracle requestId isApproved
  | .other => (state, [])

def onResume (state : State) : Resume → State × List Command
  | .noop => (state, [])
  | .setup groupId secrets => state.withRollover (t.keyGenSetup state.rollover groupId secrets)
  | .nonceCommitments signatureId nonces => handleNonceCommitments state signatureId nonces
  | .nonces message nonces => t.handleNonces state message nonces

/-- `apply_transition`. -/
def applyTransition (state : State) : Message → State × List Command
  | .newBlock block => t.newBlock state block
  | .event log => t.onEvent state log.block.number log.address log.data
  | .resume result => t.onResume state result

/-- The validator as a service of the state machine. -/
def stateTransition : Core.StateTransition State Event Resume Action Effect := ⟨t.applyTransition⟩

end Transition

end Safenet.Validator
