/-
The signing sessions, `validator/src/state/sign.rs`.

What an event does to one session is a function on the session; the handlers find the
session and keep the index of signature ids.  A handler that puts back what it took out leaves
the state alone here.
-/
import Safenet.Validator.State

namespace Safenet.Validator

open Contracts (Keccak)
open Contracts.Coordinator (SignNonces)
open SigningState

/-! ### Packets -/

namespace Packet

/-- The four byte selector of a function. -/
def selector (keccak : Keccak) (signature : String) : Bytes :=
  (Bytes.word (keccak (Bytes.ascii signature))).take 4

/-- The calldata that submits the signature, with a zero signature id. -/
def attestationCallback (keccak : Keccak) (consensus : Address) : Packet → Callback
  | .epochRollover _ proposedEpoch rolloverBlock groupId _ =>
      ⟨consensus, selector keccak "stageEpoch(uint64,uint64,bytes32,bytes32)" ++
        [BitVec.ofNat 256 proposedEpoch, BitVec.ofNat 256 rolloverBlock, groupId, 0].flatMap
          Bytes.word⟩
  | .transaction epoch oracle oracleData tx =>
      ⟨consensus, selector keccak
          "attestTransaction(uint64,address,bytes32,uint256,address,bytes32,bytes32)" ++
        [BitVec.ofNat 256 epoch.rawValue, Contracts.toWord oracle, keccak oracleData, tx.chainId,
          Contracts.toWord tx.safe, safeTxStructHash keccak tx, 0].flatMap Bytes.word⟩

/-- The call that submits the signature directly. -/
def attestationAction (keccak : Keccak) (signatureId : B256) (expiresAt : Nat) : Packet → Action
  | .epochRollover _ proposedEpoch rolloverBlock groupId _ =>
      .stageEpoch proposedEpoch rolloverBlock groupId signatureId expiresAt
  | .transaction epoch oracle oracleData tx =>
      .attestTransaction epoch oracle (keccak oracleData) tx.chainId tx.safe
        (safeTxStructHash keccak tx) signatureId expiresAt

end Packet

/-- The element with the largest key, the last one of several (`Iterator::max_by_key`). -/
def maxByKey {α : Type} (key : α → Nat) (l : List α) : Option α :=
  l.foldl (fun best x =>
    match best with
    | none => some x
    | some b => if key b ≤ key x then some x else some b) none

namespace Transition

variable (t : Transition)

/-! ### One session -/

/-- The deadline of a round that starts at a block. -/
def signingDeadline (block : Nat) : Nat := saturatingAdd block t.config.signingTimeout

/-- A request opens the round, or puts it on hold until the oracle answers. -/
def requested (session : WaitingForRequest) (sid : B256) (block : Nat) : SigningState × List Command :=
  match session.packet, session.oracleApproved with
  | .transaction _ oracle _ _, false =>
      (.waitingForOracle
        { keyShare := session.keyShare
          oracle
          groupId := session.groupId
          signatureId := sid
          packet := session.packet
          signers := session.signers
          deadline := saturatingAdd block t.config.oracleTimeout }, [])
  | _, _ =>
      (.collectNonceCommitments
        { keyShare := session.keyShare
          groupId := session.groupId
          signatureId := sid
          committed := .empty
          packet := session.packet
          signers := session.signers
          deadline := t.signingDeadline block },
        [.effect (.generateNonces session.groupId sid session.keyShare)])

/-- The oracle approved. -/
def approved (session : WaitingForOracle) (block : Nat) : SigningState × List Command :=
  (.collectNonceCommitments
    { keyShare := session.keyShare
      groupId := session.groupId
      signatureId := session.signatureId
      committed := .empty
      packet := session.packet
      signers := session.signers
      deadline := t.signingDeadline block },
    [.effect (.generateNonces session.groupId session.signatureId session.keyShare)])

/-- Adds the first valid commitment of a signer. -/
def addNonces (session : CollectNonceCommitments) (participant : Address) (nonces : SignNonces) :
    Table Address CommittedNonces :=
  if participant ∈ session.signers then
    match session.committed.lookup participant, verifyCommittedNonces participant nonces with
    | none, .ok nonces => session.committed.insert participant nonces
    | _, _ => session.committed
  else session.committed

/-- The signing round starts with these commitments. -/
def sharesRound (session : CollectNonceCommitments) (committed : Table Address CommittedNonces)
    (signers : Finset Address) (message : B256) (block : Nat) : SigningState × List Command :=
  (.collectSigningShares
    { keyShare := session.keyShare
      groupId := session.groupId
      signatureId := session.signatureId
      committed
      selections := .empty
      packet := session.packet
      signers
      deadline := t.signingDeadline block },
    [.effect (.useNonces message session.signatureId)])

/-- A commitment; the last one starts the signing round. -/
def nonceCommitted (session : CollectNonceCommitments) (message : B256) (block : Nat)
    (participant : Address) (nonces : SignNonces) : SigningState × List Command :=
  let committed := addNonces session participant nonces
  if committed.rows.length < session.signers.card then
    (.collectNonceCommitments { session with committed }, [])
  else t.sharesRound session committed session.signers message block

/-- A published share counts for its selection. -/
def shared (session : CollectSigningShares) (selectionRoot : B256) (participant : Address) :
    CollectSigningShares :=
  let selection := (session.selections.lookup selectionRoot).getD ⟨∅, none⟩
  { session with
    selections := session.selections.insert selectionRoot
      ⟨insert participant selection.sharesFrom, some participant⟩ }

def completed (session : CollectSigningShares) (block : Nat) : SigningState :=
  .waitingForAttestation
    { signatureId := session.signatureId
      packet := session.packet
      deadline := t.signingDeadline block }

/-- What becomes of a session at its deadline. -/
structure TimedOut where
  kept : Option SigningState
  /-- The signature id that is removed from the index. -/
  unlinked : Option B256
  commands : List Command

/-- The responsible party is removed, and everyone becomes responsible. -/
def requestTimedOut (session : WaitingForRequest) (message : B256) (block : Nat) : TimedOut :=
  match session.responsible with
  | none => ⟨none, none, []⟩
  | some previouslyResponsible =>
      let signers := session.signers.erase previouslyResponsible
      if signers.card < session.keyShare.groupThreshold ∨ t.account ∉ signers then ⟨none, none, []⟩
      else
        ⟨some (.waitingForRequest
            { session with signers, responsible := none, deadline := t.signingDeadline block }),
          none, [.action (.sign session.groupId message (t.signingDeadline block))]⟩

/-- The round goes on with the signers that committed. -/
def noncesTimedOut (session : CollectNonceCommitments) (message : B256) (block : Nat) : TimedOut :=
  if session.committed.rows.length < session.keyShare.groupThreshold ∨
      (session.committed.lookup t.account).isNone then
    ⟨none, some session.signatureId, []⟩
  else
    let round := t.sharesRound session session.committed session.committed.keys message block
    ⟨some round.1, none, round.2⟩

/-- The largest selection of at least the group threshold. -/
def canonicalSelection (session : CollectSigningShares) : SigningSelection :=
  (maxByKey (fun selection => selection.sharesFrom.card)
    ((session.selections.rows.map Prod.snd).filter fun selection =>
      session.keyShare.groupThreshold ≤ selection.sharesFrom.card)).getD ⟨∅, none⟩

/-- The ceremony restarts with the canonical selection; its last signer is responsible. -/
def sharesTimedOut (session : CollectSigningShares) (message : B256) (block : Nat) : TimedOut :=
  let selection := canonicalSelection session
  if selection.sharesFrom.card < session.keyShare.groupThreshold ∨
      t.account ∉ selection.sharesFrom then
    ⟨none, some session.signatureId, []⟩
  else
    ⟨some (.waitingForRequest
        { keyShare := session.keyShare
          groupId := session.groupId
          responsible := selection.lastSigner
          packet := session.packet
          oracleApproved := true
          signers := selection.sharesFrom
          deadline := t.signingDeadline block }),
      some session.signatureId,
      if selection.lastSigner = some t.account then
        [.action (.sign session.groupId message (t.signingDeadline block))]
      else []⟩

/-- A session at a new block. -/
def timedOut (block : Nat) (message : B256) (session : SigningState) : TimedOut :=
  if block < session.deadline then ⟨some session, none, []⟩
  else
    match session with
    | .waitingForRequest s => t.requestTimedOut s message block
    | .waitingForOracle s => ⟨none, some s.signatureId, []⟩
    | .collectNonceCommitments s => t.noncesTimedOut s message block
    | .collectSigningShares s => t.sharesTimedOut s message block
    | .waitingForAttestation s =>
        ⟨none, some s.signatureId, [.action (s.packet.attestationAction t.externals.keccak256
          s.signatureId (t.signingDeadline block))]⟩

/-! ### The handlers -/

def handleSign (state : State) (block : Nat) (gid message sid : B256) : State × List Command :=
  match state.signing.lookup message with
  | some (.waitingForRequest session) =>
      if session.groupId = gid then
        let round := t.requested session sid block
        ({ state with
            signing := state.signing.insert message round.1
            signatureIdToMessage := state.signatureIdToMessage.insert sid message }, round.2)
      else (state, [])
  | _ => (state, [])

def handleNonceCommitments (state : State) (signatureId : B256) (nonces : SignNonces) :
    State × List Command :=
  match (state.signatureIdToMessage.lookup signatureId).bind state.signing.lookup with
  | some (.collectNonceCommitments session) =>
      if session.signatureId = signatureId then
        (state, [.action (.commitNonces signatureId nonces session.deadline)])
      else (state, [])
  | _ => (state, [])

def handleOracleResult (state : State) (block : Nat) (oracle : Address) (requestId : B256)
    (isApproved : Bool) : State × List Command :=
  match state.signing.lookup requestId with
  | some (.waitingForOracle session) =>
      if session.oracle = oracle then
        if isApproved then
          let round := t.approved session block
          ({ state with signing := state.signing.insert requestId round.1 }, round.2)
        else
          ({ state with
              signing := state.signing.erase requestId
              signatureIdToMessage := state.signatureIdToMessage.erase session.signatureId }, [])
      else (state, [])
  | _ => (state, [])

def handleSignCommittedNonces (state : State) (block : Nat) (sid : B256) (participant : Address)
    (nonces : SignNonces) : State × List Command :=
  match state.signatureIdToMessage.lookup sid with
  | none => (state, [])
  | some message =>
      match state.signing.lookup message with
      | some (.collectNonceCommitments session) =>
          let round := t.nonceCommitted session message block participant nonces
          ({ state with signing := state.signing.insert message round.1 }, round.2)
      | _ => (state, [])

def handleNonces (state : State) (message : B256) (nonces : SigningNonces) : State × List Command :=
  match state.signing.lookup message with
  | some (.collectSigningShares session) =>
      match signatureShare t.externals.toFrostCrate t.externals.keccak256 session.keyShare nonces
          session.committed message with
      | .ok share =>
          (state, [.action (.signShare session.signatureId share
            (session.packet.attestationCallback t.externals.keccak256 t.config.consensus)
            session.deadline)])
      | .error _ => (state, [])
  | _ => (state, [])

def handleSignShared (state : State) (sid selectionRoot : B256) (participant : Address) :
    State × List Command :=
  match state.signatureIdToMessage.lookup sid with
  | none => (state, [])
  | some message =>
      match state.signing.lookup message with
      | some (.collectSigningShares session) =>
          ({ state with
              signing := state.signing.insert message
                (.collectSigningShares (shared session selectionRoot participant)) }, [])
      | _ => (state, [])

def handleSignCompleted (state : State) (block : Nat) (sid : B256) : State × List Command :=
  match state.signatureIdToMessage.lookup sid with
  | none => (state, [])
  | some message =>
      match state.signing.lookup message with
      | some (.collectSigningShares session) =>
          ({ state with signing := state.signing.insert message (t.completed session block) }, [])
      | _ => (state, [])

/-- Forgets the session of an attested message. -/
def handleSignAttested (state : State) (message : B256) : State × List Command :=
  let index := match (state.signing.lookup message).bind SigningState.signatureId with
    | some signatureId => state.signatureIdToMessage.erase signatureId
    | none => state.signatureIdToMessage
  ({ state with signing := state.signing.erase message, signatureIdToMessage := index }, [])

/-- The signature ids that the sessions drop at a block. -/
def unlinked (state : State) (block : Nat) : List B256 :=
  state.signing.rows.filterMap fun row => (t.timedOut block row.1 row.2).unlinked

/-- `signing.retain`: every session at once, in the order of the messages. -/
def handleSigningTimeouts (state : State) (block : Nat) : State × List Command :=
  ({ state with
      signing := state.signing.filterMap fun message session =>
        (t.timedOut block message session).kept
      signatureIdToMessage := state.signatureIdToMessage.eraseAll (t.unlinked state block) },
    state.signing.rows.flatMap fun row => (t.timedOut block row.1 row.2).commands)

end Transition

end Safenet.Validator
