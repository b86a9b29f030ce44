/-
Epoch rollover and key generation, `validator/src/state/keygen.rs`.

Most handlers only replace the rollover state; they are functions on it, and `withRollover` puts
the result into the state.  Collection lengths are compared as `u16`.
-/
import Safenet.Validator.Sign

namespace Safenet.Validator

open Contracts.FROSTCoordinator (KeyGenSecretShare)
open RolloverState

/-- `len as u16`. -/
def lenU16 (n : Nat) : Nat := n % 2 ^ 16

/-- `State { rollover, ..state }`. -/
def State.withRollover (state : State) (result : RolloverState × List Command) : State × List Command :=
  ({ state with rollover := result.1 }, result.2)

/-- Skips the epoch, or halts for good at genesis. -/
def rolloverFailure : EpochId → RolloverState
  | .number next => .epochSkipped next
  | .genesis => .halted

namespace Transition

variable (t : Transition)

/-- The deadline of a round that starts at a block. -/
def keyGenDeadline (block : Nat) : Nat := saturatingAdd block t.config.keyGenTimeout

/-- The participants of a numbered epoch. -/
def epochParticipants (number : ℕ+) (excluded : Finset Address) : Option ParticipantSet :=
  participantsSet t.externals.keccak256 t.config.participants
    (.number t.config.consensus number excluded)

/-! ### Starting and restarting -/

/-- Starts a ceremony, as a participant or as an observer. -/
def startKeyGen (nextEpoch : EpochId) (participants : ParticipantSet) (deadline : Option Nat) :
    RolloverState × List Command :=
  match participants.participateAs t.externals.keccak256 t.account with
  | some (group, poap) =>
      (.collectingCommitments
        { nextEpoch, group, secrets := .participating poap none, commitments := .empty, deadline },
        [.effect (.keyGenSetup group.id group.count group.threshold)])
  | none =>
      (.collectingCommitments
        { nextEpoch
          group := participants.group t.externals.keccak256
          secrets := .observing
          commitments := .empty
          deadline }, [])

/-- Restarts a ceremony without some participants; genesis cannot be restarted. -/
def restartKeyGenExcluding (nextEpoch : EpochId) (excluded : Finset Address)
    (deadline : Option Nat) : RolloverState × List Command :=
  match nextEpoch.number?.bind fun number => t.epochParticipants number excluded with
  | some participants => t.startKeyGen nextEpoch participants deadline
  | none => (rolloverFailure nextEpoch, [])

/-- The participation once every commitment is there. -/
def participate (group : Group) (secrets : Option Secrets)
    (commitments : Table Address VerifiedCommitment) (deadline : Option Nat) :
    Except Error (KeyGenParticipation × List Command) :=
  match secrets with
  | some secrets => do
      let shares ← generateSecretShares t.externals.toFrostCrate secrets commitments
      return (.participating shares.1, [.action (.keyGenSecretShare group.id shares.2 deadline)])
  | none => do
      let commitments ← groupCommitments t.externals.toFrostCrate commitments
      return (.observing commitments, [])

def finalizeKeyGenCommitments (nextEpoch : EpochId) (group : Group) (secrets : Option Secrets)
    (commitments : Table Address VerifiedCommitment) (deadline : Option Nat) :
    RolloverState × List Command :=
  match t.participate group secrets commitments deadline with
  | .ok (participation, commands) =>
      (.collectingShares
        { nextEpoch, group, participation, shared := ∅, shares := .empty, complaints := .empty,
          deadline }, commands)
  | .error _ => (rolloverFailure nextEpoch, [])

/-- `proposed * blocks_per_epoch`. -/
def rolloverBlock (proposedEpoch : ℕ+) : Nat := saturatingMul proposedEpoch t.config.blocksPerEpoch

/-- The callback that proposes the epoch once the last participant confirms. -/
def keyGenConfirmationCallback : EpochId → Option Callback
  | .genesis => none
  | .number n => some ⟨t.config.consensus,
      [BitVec.ofNat 256 n, BitVec.ofNat 256 (t.rolloverBlock n)].flatMap Bytes.word⟩

def confirmKeyGen (epoch : EpochId) (group : Group) (sharingState : SharingState)
    (shares : Table Address VerifiedShare) (deadlines : Option ConfirmationDeadlines) :
    Except Error (KeyGenConfirmation × List Command) := do
  let keyShare ← finalizeKeyShare t.externals.toFrostCrate sharingState shares
  return (.confirmed keyShare,
    [.action (.keyGenConfirm group.id (t.keyGenConfirmationCallback epoch)
      (deadlines.map ConfirmationDeadlines.confirm))])

/-! ### Commitments -/

/-- `handle_genesis_key_gen`. -/
def genesisKeyGen (rollover : RolloverState) (gid : B256) : RolloverState × List Command :=
  match rollover with
  | .waitingForGenesis =>
      if gid = (t.genesis.group t.externals.keccak256).id then
        t.startKeyGen .genesis t.genesis none
      else (rollover, [])
  | _ => (rollover, [])

/-- The commitment to publish, unless it is already onchain. -/
def publishCommitment (round : CollectingCommitments) (poap : List B256) (secrets : Secrets) :
    List Command :=
  if (round.commitments.lookup t.account).isSome then []
  else [.action (.keyGenAndCommit round.group.root round.group.count round.group.threshold
    round.group.context poap secrets.commitment round.deadline)]

/-- `handle_key_gen_setup`. -/
def keyGenSetup (rollover : RolloverState) (groupId : B256) (secrets : Secrets) :
    RolloverState × List Command :=
  match rollover with
  | .collectingCommitments round =>
      match round.secrets with
      | .participating poap none =>
          if groupId = round.group.id then
            let commands := t.publishCommitment round poap secrets
            if lenU16 round.commitments.rows.length ≠ round.group.count then
              (.collectingCommitments { round with secrets := .participating poap (some secrets) },
                commands)
            else
              -- every participant had already committed
              let result := t.finalizeKeyGenCommitments round.nextEpoch round.group (some secrets)
                round.commitments (round.deadline.map t.keyGenDeadline)
              (result.1, commands ++ result.2)
          else (rollover, [])
      | _ => (rollover, [])
  | _ => (rollover, [])

/-- The commitments with a new one, if it is valid. -/
def addCommitment (round : CollectingCommitments) (participant : Address)
    (commitment : Contracts.FROSTCoordinator.KeyGenCommitment) :
    Table Address VerifiedCommitment :=
  match verifyCommitment t.externals.toFrostCrate participant commitment with
  | .ok commitment => round.commitments.insert participant commitment
  | .error _ => round.commitments

/-- `handle_key_gen_committed`. -/
def keyGenCommitted (rollover : RolloverState) (block : Nat) (gid : B256) (participant : Address)
    (commitment : Contracts.FROSTCoordinator.KeyGenCommitment) : RolloverState × List Command :=
  match rollover with
  | .collectingCommitments round =>
      if round.group.id = gid then
        let commitments := t.addCommitment round participant commitment
        if lenU16 commitments.rows.length ≠ round.group.count then
          (.collectingCommitments { round with commitments }, [])
        else
          let deadline := round.deadline.map fun _ => t.keyGenDeadline block
          match round.secrets with
          | .observing =>
              t.finalizeKeyGenCommitments round.nextEpoch round.group none commitments deadline
          | .participating _ (some secrets) =>
              t.finalizeKeyGenCommitments round.nextEpoch round.group (some secrets) commitments
                deadline
          -- the setup finalizes the round once it resumes
          | .participating _ none => (.collectingCommitments { round with commitments }, [])
      else (rollover, [])
  | _ => (rollover, [])

/-! ### Secret shares -/

/-- The shares with the one of a broadcast, or the complaint about it. -/
def addShare (round : CollectingShares) (block : Nat) (participant : Address)
    (encryptedShares : List B256) : Table Address VerifiedShare × List Command :=
  match round.participation with
  | .participating sharingState =>
      match verifyEncryptedSecretShare t.externals.toFrostCrate sharingState participant
          encryptedShares with
      | .ok share => (round.shares.insert participant share, [])
      | .error _ => (round.shares, [.action (.keyGenComplain round.group.id participant
          (round.deadline.map fun _ => t.keyGenDeadline block))])
  | .observing _ => (round.shares, [])

/-- The round with a broadcast, if its public part is valid. -/
def registerShare (round : CollectingShares) (block : Nat) (participant : Address)
    (share : KeyGenSecretShare) : CollectingShares × List Command :=
  match verifySecretShare t.externals.toFrostCrate round.participation.groupCommitments participant
      share with
  | .ok encryptedShares =>
      let result := t.addShare round block participant encryptedShares
      ({ round with shared := insert participant round.shared, shares := result.1 }, result.2)
  | .error _ => (round, [])

/-- The deadlines of a confirmation round that starts at a block. -/
def confirmationDeadlines (block : Nat) : ConfirmationDeadlines where
  complain := saturatingAdd block t.config.keyGenTimeout
  response := saturatingAdd block (saturatingMul t.config.keyGenTimeout 2)
  confirm := saturatingAdd block (saturatingMul t.config.keyGenTimeout 3)

/-- The status at the start of the confirmation round: finalized if every share was valid. -/
def initialStatus (round : CollectingShares) (deadlines : Option ConfirmationDeadlines) :
    Except Error (KeyGenConfirmation × List Command) :=
  match round.participation with
  | .participating sharingState =>
      if lenU16 round.shares.rows.length = round.group.count then
        t.confirmKeyGen round.nextEpoch round.group sharingState round.shares deadlines
      else .ok (.collecting round.shares, [])
  | .observing _ => .ok (.observing, [])

/-- Every participant has shared.  A failed finalization drops the commands. -/
def startConfirmations (round : CollectingShares) (block : Nat) (commands : List Command) :
    RolloverState × List Command :=
  let deadlines := round.deadline.map fun _ => t.confirmationDeadlines block
  match t.initialStatus round deadlines with
  | .ok (status, confirmCommands) =>
      (.collectingConfirmations
        { nextEpoch := round.nextEpoch
          group := round.group
          participation := round.participation
          status
          confirmations := ∅
          complaints := round.complaints
          deadlines }, commands ++ confirmCommands)
  | .error _ => (rolloverFailure round.nextEpoch, [])

/-- `handle_key_gen_secret_shared`. -/
def keyGenSecretShared (rollover : RolloverState) (block : Nat) (gid : B256) (participant : Address)
    (share : KeyGenSecretShare) : RolloverState × List Command :=
  match rollover with
  | .collectingShares round =>
      if round.group.id = gid then
        let registered := t.registerShare round block participant share
        if lenU16 registered.1.shared.card ≠ round.group.count then
          (.collectingShares registered.1, registered.2)
        else t.startConfirmations registered.1 block registered.2
      else (rollover, [])
  | _ => (rollover, [])

/-! ### Complaints -/

/-- The complaints with one more. -/
def addComplaint (complaints : Table Address Complaint) (plaintiff accused : Address)
    (requiresResponse : Bool) : Complaint :=
  let complaint := (complaints.lookup accused).getD ⟨0, ∅⟩
  ⟨complaint.total + 1,
    if requiresResponse then insert plaintiff complaint.unresponded else complaint.unresponded⟩

/-- The answer to a complaint against this validator. -/
def revealShare (participation : KeyGenParticipation) (group : Group) (plaintiff accused : Address)
    (requiresResponse : Bool) (expiresAt : Option Nat) : List Command :=
  match participation with
  | .participating sharingState =>
      if accused = t.account ∧ requiresResponse then
        match revealSecretShare t.externals.toFrostCrate sharingState plaintiff with
        | .ok secretShare =>
            [.action (.keyGenComplaintResponse group.id plaintiff secretShare expiresAt)]
        | .error _ => []
      else []
  | .observing _ => []

/-- `handle_key_gen_complained`. -/
def keyGenComplained (rollover : RolloverState) (block : Nat) (gid : B256)
    (plaintiff accused : Address) : RolloverState × List Command :=
  match rollover with
  | .collectingShares round =>
      if round.group.id = gid then
        let deadline := round.deadline.map fun _ => t.keyGenDeadline block
        let complaint := addComplaint round.complaints plaintiff accused true
        if round.group.threshold ≤ complaint.total then
          t.restartKeyGenExcluding round.nextEpoch (round.group.alsoExclude {accused}) deadline
        else
          (.collectingShares { round with complaints := round.complaints.insert accused complaint },
            t.revealShare round.participation round.group plaintiff accused true deadline)
      else (rollover, [])
  | .collectingConfirmations round =>
      if round.group.id = gid then
        let deadline := round.deadlines.map fun _ => t.keyGenDeadline block
        -- a late complaint counts, but requires no response
        let requiresResponse := round.deadlines.all fun deadlines => block ≤ deadlines.complain
        let complaint := addComplaint round.complaints plaintiff accused requiresResponse
        if round.group.threshold ≤ complaint.total then
          t.restartKeyGenExcluding round.nextEpoch (round.group.alsoExclude {accused}) deadline
        else
          (.collectingConfirmations
              { round with complaints := round.complaints.insert accused complaint },
            t.revealShare round.participation round.group plaintiff accused requiresResponse
              (round.deadlines.map ConfirmationDeadlines.response))
      else (rollover, [])
  | _ => (rollover, [])

/-- The complaint that a response resolves, with the response taken out. -/
def respond (complaints : Table Address Complaint) (plaintiff accused : Address) : Option Complaint :=
  match complaints.lookup accused with
  | some complaint =>
      if plaintiff ∈ complaint.unresponded then
        some { complaint with unresponded := complaint.unresponded.erase plaintiff }
      else none
  | none => none

/-- The confirmation status with a revealed share. -/
def addRevealed (status : KeyGenConfirmation) (plaintiff accused : Address) (share : VerifiedShare) :
    KeyGenConfirmation :=
  match status with
  | .collecting shares =>
      if plaintiff = t.account then .collecting (shares.insert accused share) else .collecting shares
  | status => status

/-- Finalizes the key share if the revealed share was the last one missing. -/
def confirmRevealed (round : CollectingConfirmations) : RolloverState × List Command :=
  match round.participation, round.status with
  | .participating sharingState, .collecting shares =>
      if lenU16 shares.rows.length = round.group.count then
        match t.confirmKeyGen round.nextEpoch round.group sharingState shares round.deadlines with
        | .ok (status, commands) => (.collectingConfirmations { round with status }, commands)
        | .error _ => (rolloverFailure round.nextEpoch, [])
      else (.collectingConfirmations round, [])
  | _, _ => (.collectingConfirmations round, [])

/-- `handle_key_gen_complaint_responded`. -/
def keyGenComplaintResponded (rollover : RolloverState) (block : Nat) (gid : B256)
    (plaintiff accused : Address) (secretShare : B256) : RolloverState × List Command :=
  match rollover with
  | .collectingShares round =>
      if round.group.id = gid then
        match respond round.complaints plaintiff accused with
        | none => (rollover, [])
        | some complaint =>
            match verifyRevealedSecretShare t.externals.toFrostCrate
                round.participation.groupCommitments plaintiff accused secretShare with
            | .ok share =>
                (.collectingShares
                  { round with
                    complaints := round.complaints.insert accused complaint
                    shares := if plaintiff = t.account then round.shares.insert accused share
                      else round.shares }, [])
            | .error _ =>
                t.restartKeyGenExcluding round.nextEpoch (round.group.alsoExclude {accused})
                  (round.deadline.map fun _ => t.keyGenDeadline block)
      else (rollover, [])
  | .collectingConfirmations round =>
      if round.group.id = gid ∧ round.deadlines.all fun deadlines => block ≤ deadlines.response then
        match respond round.complaints plaintiff accused with
        | none => (rollover, [])
        | some complaint =>
            match verifyRevealedSecretShare t.externals.toFrostCrate
                round.participation.groupCommitments plaintiff accused secretShare with
            | .ok share =>
                t.confirmRevealed
                  { round with
                    complaints := round.complaints.insert accused complaint
                    status := t.addRevealed round.status plaintiff accused share }
            | .error _ =>
                t.restartKeyGenExcluding round.nextEpoch (round.group.alsoExclude {accused})
                  (round.deadlines.map fun _ => t.keyGenDeadline block)
      else (rollover, [])
  | _ => (rollover, [])

/-! ### Confirmations and staging -/

/-- `finalize_key_gen`: registers the epoch if this validator has a key share. -/
def finalizeKeyGen (state : State) (epoch : EpochId) (group : Group) (keyShare : Option KeyShare) :
    State :=
  match keyShare with
  | some keyShare => { state with epochs := state.epochs.insert epoch { group, keyShare } }
  | none => state

/-- The genesis group is complete: the key generation for the next epoch begins. -/
def genesisConfirmed (state : State) (block : Nat) (round : CollectingConfirmations) :
    State × List Command :=
  let next := nextNumber block t.config.blocksPerEpoch
  let state := finalizeKeyGen { state with rollover := .epochSkipped next } .genesis round.group
    round.status.keyShare
  match t.epochParticipants next ∅ with
  | some participants =>
      state.withRollover (t.startKeyGen (.number next) participants (some (t.keyGenDeadline block)))
  | none => (state, [])

/-- The session for the rollover of the active epoch. -/
def rolloverSession (epoch : Epoch) (packet : Packet) (participant : Address) (block : Nat) :
    SigningState :=
  .waitingForRequest
    { keyShare := epoch.keyShare
      groupId := epoch.group.id
      responsible := some participant
      packet
      oracleApproved := false
      signers := epoch.group.participants
      deadline := t.signingDeadline block }

/-- What the active epoch signs to hand over to the group of a confirmed round. -/
def rolloverPacket (activeEpoch : EpochId) (round : CollectingConfirmations) (proposed : ℕ+) : Packet :=
  .epochRollover activeEpoch proposed (t.rolloverBlock proposed) round.group.id
    round.participation.groupCommitments.groupKey

/-- The hash of that packet. -/
def rolloverMessage (activeEpoch : EpochId) (round : CollectingConfirmations) (proposed : ℕ+) : B256 :=
  t.consensus.epochRolloverHash t.externals.keccak256 activeEpoch proposed (t.rolloverBlock proposed)
    round.participation.groupCommitments.groupKey

/-- The group of a numbered epoch is complete: the active epoch signs its rollover. -/
def epochConfirmed (state : State) (block : Nat) (round : CollectingConfirmations) (proposed : ℕ+)
    (participant : Address) : State :=
  let message := t.rolloverMessage state.activeEpoch round proposed
  let packet := t.rolloverPacket state.activeEpoch round proposed
  { state with
    rollover := .signingRollover
      { nextEpoch := proposed, group := round.group, keyShare := round.status.keyShare, message }
    signing := match state.epochs.lookup state.activeEpoch with
      | some epoch => state.signing.insert message (t.rolloverSession epoch packet participant block)
      | none => state.signing }

def handleKeyGenConfirmed (state : State) (block : Nat) (gid : B256) (participant : Address) :
    State × List Command :=
  match state.rollover with
  | .collectingConfirmations round =>
      if round.group.id = gid then
        let confirmations := insert participant round.confirmations
        if lenU16 confirmations.card ≠ round.group.count then
          ({ state with rollover := .collectingConfirmations { round with confirmations } }, [])
        else
          match round.nextEpoch with
          | .genesis => t.genesisConfirmed state block round
          | .number proposed => (t.epochConfirmed state block round proposed participant, [])
      else (state, [])
  | _ => (state, [])

def handleEpochStaged (state : State) (proposedEpoch : Nat) (groupId : B256) : State × List Command :=
  match state.rollover with
  | .signingRollover rollover =>
      if rollover.group.id = groupId then
        handleSignAttested
          (finalizeKeyGen { state with rollover := .epochStaged rollover.nextEpoch }
            (.number rollover.nextEpoch) rollover.group rollover.keyShare) rollover.message
      else (state, [])
  | .waitingForGenesis =>
      -- a validator that joins partway through recovers from the staged epoch
      ({ state with
          rollover := if h : 0 < proposedEpoch then .epochSkipped ⟨proposedEpoch, h⟩ else .halted },
        [])
  | _ => (state, [])

/-! ### The block clock -/

/-- A staged epoch becomes active. -/
def activate (state : State) (target : ℕ+) : State :=
  match state.rollover with
  | .epochStaged _ => { state with activeEpoch := .number target }
  | _ => state

def handleRolloverNewBlock (state : State) (block : Nat) : State × List Command :=
  match state.rollover.nextEpoch.bind EpochId.number? with
  | none => (state, [])
  | some target =>
      let next := nextNumber block t.config.blocksPerEpoch
      if next ≤ target then (state, [])
      else
        match t.epochParticipants next ∅ with
        | some participants => (activate state target).withRollover
            (t.startKeyGen (.number next) participants (some (t.keyGenDeadline block)))
        | none => ({ activate state target with rollover := .epochSkipped next }, [])

/-- The setup never resumed and the round is over. -/
def stuck (round : CollectingCommitments) (block : Nat) : Bool :=
  match round.secrets, round.deadline with
  | .participating _ none, some deadline =>
      deadline ≤ block && lenU16 round.commitments.rows.length = round.group.count
  | _, _ => false

/-- The participants with an unanswered complaint. -/
def unresponded (complaints : Table Address Complaint) : Finset Address :=
  (complaints.filter fun _ complaint => complaint.unresponded ≠ ∅).keys

/-- The participants to exclude from a confirmation round, if it is late. -/
def lateConfirmations (round : CollectingConfirmations) (block : Nat) : Option (Finset Address) :=
  match round.deadlines with
  | none => none
  | some deadlines =>
      if deadlines.response ≤ block ∧ unresponded round.complaints ≠ ∅ then
        some (round.group.alsoExclude (unresponded round.complaints))
      else if deadlines.confirm ≤ block then some (round.group.excludeAllOthers round.confirmations)
      else none

/-- The epoch to restart, with the participants to exclude. -/
def stalled (rollover : RolloverState) (block : Nat) : Option (EpochId × Finset Address) :=
  match rollover with
  | .collectingCommitments round =>
      if round.deadline.any (· ≤ block) then
        some (round.nextEpoch, round.group.excludeAllOthers round.commitments.keys)
      else none
  | .collectingShares round =>
      if round.deadline.any (· ≤ block) then
        some (round.nextEpoch, round.group.excludeAllOthers round.shared)
      else none
  | .collectingConfirmations round =>
      (lateConfirmations round block).map fun excluded => (round.nextEpoch, excluded)
  | _ => none

/-- The rest of `handle_key_gen_timeouts`. -/
def restartStalled (rollover : RolloverState) (block : Nat) : RolloverState × List Command :=
  match stalled rollover block with
  | some (nextEpoch, excluded) =>
      t.restartKeyGenExcluding nextEpoch excluded (some (t.keyGenDeadline block))
  | none => (rollover, [])

/-- `handle_key_gen_timeouts`. -/
def keyGenTimeouts (rollover : RolloverState) (block : Nat) : RolloverState × List Command :=
  match rollover with
  | .collectingCommitments round =>
      if stuck round block then (rolloverFailure round.nextEpoch, [])
      else t.restartStalled rollover block
  | _ => t.restartStalled rollover block

end Transition

end Safenet.Validator
