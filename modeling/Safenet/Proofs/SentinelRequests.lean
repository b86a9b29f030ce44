/-
What a message does to one request of a sentinel.

A message never looks at another request: `requestStep` is the machine that a single request goes
through, and `applyTransition_request` says that a sentinel runs one such machine for each id.
-/
import Safenet.Sentinel.Service

namespace Safenet.Sentinel

open Contracts (Keccak)
open SentinelRequestState

/-- The request an action is about. -/
def SentinelActionKind.id? : SentinelActionKind → Option B256
  | .approveToken _ => none
  | .commit id _ | .reveal id _ _ _ | .finalize id | .claim id | .timeoutArbitration id => some id

/-- The action of a command, if it is about the request. -/
def Command.about? (r : B256) : Command → Option SentinelActionKind
  | .action action => if action.kind.id? = some r then some action.kind else none
  | .effect _ => none

/-- The actions about a request. -/
def acts (r : B256) (commands : List Command) : List SentinelActionKind :=
  commands.filterMap (Command.about? r)

section Acts

variable {r : B256}

@[simp] theorem acts_nil : acts r [] = [] := rfl

theorem acts_cons_effect (effect : Effect) (commands : List Command) :
    acts r (.effect effect :: commands) = acts r commands := rfl

theorem acts_cons_action (action : SentinelAction) (commands : List Command) :
    acts r (.action action :: commands) =
      if action.kind.id? = some r then action.kind :: acts r commands else acts r commands := by
  by_cases h : action.kind.id? = some r
  · have habout : Command.about? r (.action action) = some action.kind := if_pos h
    rw [if_pos h, acts, List.filterMap_cons_some habout]
    rfl
  · have habout : Command.about? r (.action action) = none := if_neg h
    rw [if_neg h, acts, List.filterMap_cons_none habout]
    rfl

end Acts

/-- The request an event of the oracle is about. -/
def SentinelOracleEvents.requestId : SentinelOracleEvents → B256
  | .newRequest requestId .. | .committed requestId _ | .revealed requestId ..
  | .disputeTriggered requestId _ | .disputeResolved requestId | .requestTimedOut requestId
  | .oracleResult requestId | .arbitrationTimedOut requestId | .disputeOutOfScope requestId
  | .claimed requestId => requestId

namespace SentinelTransition

variable (keccak256 : Keccak) (t : SentinelTransition) (r : B256)

/-- The id of the request for a proposal. -/
def proposalId (event : TransactionProposed) : B256 :=
  oracleTxProposalHash keccak256 t.chainId t.consensus event.epoch event.oracle event.oracleData
    event.safeTxHash

/-- The hash that a vote is committed with. -/
def sealed (approve : Bool) (reason : String) : B256 :=
  commitHash keccak256 t.signer.address r approve (t.signer.revealSalt r) reason

/-! ### One request -/

/-- A vote that was just committed. -/
def opened (approve : Bool) (reason : String) (request : Request) :
    Option SentinelRequestState × List SentinelActionKind :=
  (some (.collectingCommitments
      { approve
        reason
        slashAmount := request.slashAmount
        commitDeadline := request.commitDeadline
        revealDeadline := request.revealDeadline
        committedCount := 0
        selfCommitted := false }),
    [.commit r (t.sealed keccak256 r approve reason)])

/-- The verdict arrives. -/
def requestChecked (outcome : CheckOutcome) : Option SentinelRequestState →
    Option SentinelRequestState × List SentinelActionKind
  | some (.waitingForEngineCheck deadline request) =>
      match outcome.vote, request with
      | none, _ => (none, [])
      | some (approve, reason), some request => t.opened keccak256 r approve reason request
      | some (approve, reason), none => (some (.waitingForRequest approve reason deadline), [])
  | entry => (entry, [])

/-- One more revealed vote. -/
def counted (round : CollectingVotes) (sentinel : Address) (approved : Bool) : CollectingVotes :=
  { round with
    revealedCount := round.revealedCount + 1
    approveCount := round.approveCount + (if approved then 1 else 0)
    denyCount := round.denyCount + (if approved then 0 else 1)
    selfRevealed := round.selfRevealed || sentinel = t.signer.address }

/-- The end of the voting. -/
def closed (round : CollectingVotes) : Option SentinelRequestState × List SentinelActionKind :=
  if !round.selfRevealed && decide (round.revealedCount ≠ 0) then (none, [])
  else (some (.waitingForOutcome round.approve round.slashAmount), [.finalize r])

/-- An undisputed end of the request. -/
def settled : Option SentinelRequestState → Option SentinelRequestState × List SentinelActionKind
  | some entry => (none, if entry.approveAndSlashAmount.isNone then [] else [.claim r])
  | none => (none, [])

/-- The end of a dispute without a ruling. -/
def unruled : Option SentinelRequestState → Option SentinelRequestState × List SentinelActionKind
  | some _ => (none, [.claim r])
  | none => (none, [])

/-- An event about the request. -/
def requestEvent (entry : Option SentinelRequestState) : SentinelOracleEvents →
    Option SentinelRequestState × List SentinelActionKind
  | .newRequest _ bondTarget slashAmount commitDeadline revealDeadline =>
      let request : Request := ⟨bondTarget, slashAmount, commitDeadline, revealDeadline⟩
      match entry with
      | some (.waitingForRequest approve reason _) => t.opened keccak256 r approve reason request
      | some (.waitingForEngineCheck deadline none) =>
          (some (.waitingForEngineCheck deadline (some request)), [])
      | entry => (entry, [])
  | .committed _ sentinel =>
      match entry with
      | some (.collectingCommitments round) =>
          (some (.collectingCommitments
            { round with
              committedCount := round.committedCount + 1
              selfCommitted := round.selfCommitted || sentinel = t.signer.address }), [])
      | entry => (entry, [])
  | .revealed _ sentinel approved =>
      match entry with
      | some (.collectingVotes round) =>
          let round := t.counted round sentinel approved
          if round.revealedCount < round.committedCount then (some (.collectingVotes round), [])
          else closed r round
      | entry => (entry, [])
  | .requestTimedOut _ | .oracleResult _ => settled r entry
  | .disputeTriggered _ deadline =>
      ((entry.bind approveAndSlashAmount).map fun posted =>
        .waitingForDisputeResolution posted.1 posted.2 deadline, [])
  | .disputeResolved _ =>
      match entry with
      | some (.waitingForDisputeResolution ..) => (none, [.claim r])
      | entry => (entry, [])
  | .arbitrationTimedOut _ | .disputeOutOfScope _ => unruled r entry
  | .claimed _ => (entry, [])

/-- The vote is revealed. -/
def revealing (round : CollectingCommitments) : Option SentinelRequestState × List SentinelActionKind :=
  (some (.collectingVotes
      { approve := round.approve
        slashAmount := round.slashAmount
        revealDeadline := round.revealDeadline
        committedCount := round.committedCount
        revealedCount := 0
        approveCount := 0
        denyCount := 0
        selfRevealed := false }),
    [.reveal r round.approve (t.signer.revealSalt r) round.reason])

/-- The request in a new block. -/
def requestBlock (block : Nat) : Option SentinelRequestState →
    Option SentinelRequestState × List SentinelActionKind
  | some (.waitingForEngineCheck deadline request) =>
      if block ≤ (request.map Request.commitDeadline).getD deadline then
        (some (.waitingForEngineCheck deadline request), [])
      else (none, [])
  | some (.waitingForRequest approve reason deadline) =>
      if block ≤ deadline then (some (.waitingForRequest approve reason deadline), []) else (none, [])
  | some (.collectingCommitments round) =>
      if block ≤ round.commitDeadline then (some (.collectingCommitments round), [])
      else if !round.selfCommitted then (none, [])
      else t.revealing r round
  | some (.collectingVotes round) =>
      if block ≤ round.revealDeadline then (some (.collectingVotes round), []) else closed r round
  | some (.waitingForDisputeResolution approve slashAmount arbitrationDeadline) =>
      if block ≤ arbitrationDeadline then
        (some (.waitingForDisputeResolution approve slashAmount arbitrationDeadline), [])
      else (none, [.timeoutArbitration r, .claim r])
  | entry => (entry, [])

/-- One request. -/
def requestStep (entry : Option SentinelRequestState) : Message →
    Option SentinelRequestState × List SentinelActionKind
  | .newBlock block => t.requestBlock r block entry
  | .event log =>
      match log.data with
      | .consensus event =>
          if event.oracle = t.oracle ∧ t.proposalId keccak256 event = r ∧ entry = none then
            (some (.waitingForEngineCheck (saturatingAdd log.block.number t.votingWindow) none), [])
          else (entry, [])
      | .oracle event =>
          if event.requestId = r then t.requestEvent keccak256 r entry event else (entry, [])
  | .resume (.engineCheckResult requestId outcome) =>
      if requestId = r then t.requestChecked keccak256 r outcome entry else (entry, [])

/-! ### A sentinel runs one machine for each request -/

variable {keccak256 t r}

/-- A handler of an event about `requestId` reads and writes that request only. -/
def Handles (requestId r : B256) (state : State) (next : State × List Command)
    (expected : Option SentinelRequestState × List SentinelActionKind) : Prop :=
  (next.1.lookup r, acts r next.2) = if requestId = r then expected else (state.lookup r, [])

variable {state : State} {requestId : B256}

/-- Writes the request, with these actions about it. -/
private theorem handles_insert {entry : SentinelRequestState} {commands : List Command}
    {kinds : List SentinelActionKind} (hown : acts requestId commands = kinds)
    (hother : requestId ≠ r → acts r commands = []) :
    Handles requestId r state (state.insert requestId entry, commands) (some entry, kinds) := by
  unfold Handles
  by_cases h : requestId = r
  · subst h
    simp [hown]
  · simp [h, Table.lookup_insert, Ne.symm h, hother h]

private theorem handles_keep {entry : Option SentinelRequestState} (h : state.lookup requestId = entry) :
    Handles requestId r state (state, []) (entry, []) := by
  unfold Handles
  by_cases hr : requestId = r
  · subst hr
    simp [h]
  · simp [hr]

/-- Removes the request, with these actions about it. -/
private theorem handles_erase {commands : List Command} {kinds : List SentinelActionKind}
    (hown : acts requestId commands = kinds) (hother : requestId ≠ r → acts r commands = []) :
    Handles requestId r state (state.erase requestId, commands) (none, kinds) := by
  unfold Handles
  by_cases h : requestId = r
  · subst h
    simp [Table.lookup_erase, hown]
  · simp [h, Table.lookup_erase, Ne.symm h, hother h]

private theorem handles_commitVote {approve : Bool} {reason : String} {request : Request} :
    Handles requestId r state
      (t.commitVote keccak256 (state.erase requestId) requestId approve reason request)
      (t.opened keccak256 requestId approve reason request) := by
  unfold Handles commitVote opened sealed
  by_cases h : requestId = r
  · subst h
    simp [acts_cons_action, SentinelActionKind.id?]
  · simp [acts_cons_action, SentinelActionKind.id?, h, Table.lookup_insert, Table.lookup_erase,
      Ne.symm h]

private theorem handles_checked {outcome : CheckOutcome} :
    Handles requestId r state (t.handleEngineCheckResult keccak256 state requestId outcome)
      (t.requestChecked keccak256 requestId outcome (state.lookup requestId)) := by
  unfold handleEngineCheckResult requestChecked
  cases hentry : state.lookup requestId with
  | none => exact handles_keep hentry
  | some entry =>
      cases entry with
      | waitingForEngineCheck deadline request =>
          cases hvote : outcome.vote with
          | none => exact handles_erase rfl fun _ => rfl
          | some vote =>
              obtain ⟨approve, reason⟩ := vote
              cases request with
              | none =>
                  unfold Handles
                  by_cases h : requestId = r
                  · subst h
                    simp
                  · simp [h, Table.lookup_insert, Table.lookup_erase, Ne.symm h]
              | some request => exact handles_commitVote
      | _ => exact handles_keep hentry

private theorem handles_newRequest (request : Request) {entry : Option SentinelRequestState}
    (h : state.lookup requestId = entry) :
    Handles requestId r state (t.handleNewRequest keccak256 state requestId request)
      (t.requestEvent keccak256 requestId entry (.newRequest requestId request.bondTarget
        request.slashAmount request.commitDeadline request.revealDeadline)) := by
  unfold handleNewRequest
  rw [h]
  cases entry with
  | none => exact handles_keep h
  | some entry =>
      cases entry with
      | waitingForRequest approve reason deadline => exact handles_commitVote
      | waitingForEngineCheck deadline request? =>
          cases request? with
          | none => exact handles_insert rfl fun _ => rfl
          | some _ => exact handles_keep h
      | _ => exact handles_keep h

private theorem handles_committed {sentinel : Address} {entry : Option SentinelRequestState}
    (h : state.lookup requestId = entry) :
    Handles requestId r state (t.handleCommitted state requestId sentinel)
      (t.requestEvent keccak256 requestId entry (.committed requestId sentinel)) := by
  unfold handleCommitted
  rw [h]
  cases entry with
  | none => exact handles_keep h
  | some entry =>
      cases entry with
      | collectingCommitments round => exact handles_insert rfl fun _ => rfl
      | _ => exact handles_keep h

/-- The end of the voting is the same for the list of requests and for one. -/
private theorem finalize_eq (round : CollectingVotes) :
    ((finalize (.collectingVotes round) requestId).1,
        acts requestId (finalize (.collectingVotes round) requestId).2) = closed requestId round ∧
      (requestId ≠ r → acts r (finalize (.collectingVotes round) requestId).2 = []) := by
  unfold finalize closed
  by_cases hdrop : (!round.selfRevealed && decide (round.revealedCount ≠ 0)) = true
  · have hdrop' : (!round.selfRevealed && !decide (round.revealedCount = 0)) = true := by
      simpa using hdrop
    simp only [if_pos hdrop, if_pos hdrop']
    exact ⟨rfl, fun _ => rfl⟩
  · have hdrop' : ¬(!round.selfRevealed && !decide (round.revealedCount = 0)) = true := by
      simpa using hdrop
    simp only [if_neg hdrop, if_neg hdrop']
    refine ⟨by simp [acts_cons_action, SentinelActionKind.id?], fun hne => ?_⟩
    simp [acts_cons_action, SentinelActionKind.id?, hne]

private theorem handles_revealed {sentinel : Address} {approved : Bool}
    {entry : Option SentinelRequestState} (h : state.lookup requestId = entry) :
    Handles requestId r state (t.handleRevealed state requestId sentinel approved)
      (t.requestEvent keccak256 requestId entry (.revealed requestId sentinel approved)) := by
  unfold handleRevealed
  rw [h]
  cases entry with
  | none => exact handles_keep h
  | some entry =>
      cases entry with
      | collectingVotes round =>
          show Handles requestId r state
            (if (t.counted round sentinel approved).revealedCount < round.committedCount then
                (state.insert requestId (.collectingVotes (t.counted round sentinel approved)), [])
              else _)
            (if (t.counted round sentinel approved).revealedCount < round.committedCount then
                (some (.collectingVotes (t.counted round sentinel approved)), [])
              else closed requestId (t.counted round sentinel approved))
          by_cases hlt : (t.counted round sentinel approved).revealedCount < round.committedCount
          · rw [if_pos hlt, if_pos hlt]
            exact handles_insert rfl fun _ => rfl
          · rw [if_neg hlt, if_neg hlt]
            obtain ⟨hown, hother⟩ :
                _ = closed requestId (t.counted round sentinel approved) ∧ (requestId ≠ r → acts r _ = []) :=
              finalize_eq (t.counted round sentinel approved)
            split
            next update actions hfinalize =>
              have hcounted : finalize (.collectingVotes (t.counted round sentinel approved)) requestId =
                  (update, actions) := hfinalize
              rw [hcounted] at hown hother
              rw [← hown]
              cases update with
              | none => exact handles_erase rfl hother
              | some entry => exact handles_insert rfl hother
      | _ => exact handles_keep h

private theorem handles_claimPosted {entry : Option SentinelRequestState}
    (h : state.lookup requestId = entry) :
    Handles requestId r state (claimPosted state requestId) (settled requestId entry) := by
  unfold claimPosted
  rw [h]
  cases entry with
  | none => exact handles_keep h
  | some entry =>
      unfold settled
      by_cases hposted : entry.approveAndSlashAmount.isNone = true
      · simp only [if_pos hposted]
        exact handles_erase rfl fun _ => rfl
      · simp only [if_neg hposted]
        exact handles_erase (by simp [acts_cons_action, SentinelActionKind.id?]) fun hne => by
          simp [acts_cons_action, SentinelActionKind.id?, hne]

private theorem acts_claim : acts requestId [.action ⟨.claim requestId, none⟩] = [.claim requestId] := by
  simp [acts_cons_action, SentinelActionKind.id?]

private theorem acts_claim_of_ne (h : requestId ≠ r) : acts r [.action ⟨.claim requestId, none⟩] = [] := by
  simp [acts_cons_action, SentinelActionKind.id?, h]

private theorem handles_disputeTriggered {deadline : Nat} {entry : Option SentinelRequestState}
    (h : state.lookup requestId = entry) :
    Handles requestId r state (handleDisputeTriggered state requestId deadline)
      (t.requestEvent keccak256 requestId entry (.disputeTriggered requestId deadline)) := by
  unfold handleDisputeTriggered
  rw [h]
  cases entry with
  | none => exact handles_keep h
  | some entry =>
      cases hposted : entry.approveAndSlashAmount with
      | none =>
          have hnext : t.requestEvent keccak256 requestId (some entry) (.disputeTriggered requestId deadline) =
              (none, []) := by simp [requestEvent, hposted]
          rw [hnext]
          simp only [hposted]
          exact handles_erase rfl fun _ => rfl
      | some posted =>
          have hnext : t.requestEvent keccak256 requestId (some entry) (.disputeTriggered requestId deadline) =
              (some (.waitingForDisputeResolution posted.1 posted.2 deadline), []) := by
            simp [requestEvent, hposted]
          rw [hnext]
          simp only [hposted]
          exact handles_insert rfl fun _ => rfl

private theorem handles_resolved {entry : Option SentinelRequestState}
    (h : state.lookup requestId = entry) :
    Handles requestId r state (handleResolved state requestId)
      (t.requestEvent keccak256 requestId entry (.disputeResolved requestId)) := by
  unfold handleResolved
  rw [h]
  cases entry with
  | none => exact handles_keep h
  | some entry =>
      cases entry with
      | waitingForDisputeResolution => exact handles_erase acts_claim acts_claim_of_ne
      | _ => exact handles_keep h

private theorem handles_arbitrationTimeout {entry : Option SentinelRequestState}
    (h : state.lookup requestId = entry) :
    Handles requestId r state (handleArbitrationTimeout state requestId) (unruled requestId entry) := by
  unfold handleArbitrationTimeout
  rw [h]
  cases entry with
  | none => exact handles_keep h
  | some entry => exact handles_erase acts_claim acts_claim_of_ne

private theorem handles_oracleEvent (event : SentinelOracleEvents) :
    Handles event.requestId r state (t.handleOracleEvent keccak256 state event)
      (t.requestEvent keccak256 event.requestId (state.lookup event.requestId) event) := by
  cases event with
  | newRequest requestId bondTarget slashAmount commitDeadline revealDeadline =>
      exact handles_newRequest ⟨bondTarget, slashAmount, commitDeadline, revealDeadline⟩ rfl
  | committed => exact handles_committed rfl
  | revealed => exact handles_revealed rfl
  | disputeTriggered => exact handles_disputeTriggered rfl
  | disputeResolved => exact handles_resolved rfl
  | requestTimedOut => exact handles_claimPosted rfl
  | oracleResult => exact handles_claimPosted rfl
  | arbitrationTimedOut => exact handles_arbitrationTimeout rfl
  | disputeOutOfScope => exact handles_arbitrationTimeout rfl
  | claimed => exact handles_keep rfl

/-- What becomes of a request in a new block is only about that request. -/
private theorem advanceRequest_eq (block : Nat) (entry : SentinelRequestState) :
    ((t.advanceRequest block requestId entry).1, acts requestId (t.advanceRequest block requestId entry).2) =
        t.requestBlock requestId block (some entry) ∧
      (requestId ≠ r → acts r (t.advanceRequest block requestId entry).2 = []) := by
  cases entry with
  | waitingForEngineCheck =>
      simp only [advanceRequest, requestBlock]
      split_ifs
      · exact ⟨rfl, fun _ => rfl⟩
      · exact ⟨rfl, fun _ => rfl⟩
  | waitingForRequest =>
      simp only [advanceRequest, requestBlock]
      split_ifs
      · exact ⟨rfl, fun _ => rfl⟩
      · exact ⟨rfl, fun _ => rfl⟩
  | collectingCommitments round =>
      simp only [advanceRequest, requestBlock]
      split_ifs
      · exact ⟨rfl, fun _ => rfl⟩
      · exact ⟨rfl, fun _ => rfl⟩
      · refine ⟨by simp [acts_cons_action, SentinelActionKind.id?, revealing], fun hne => ?_⟩
        simp [acts_cons_action, SentinelActionKind.id?, hne]
  | collectingVotes round =>
      simp only [advanceRequest, requestBlock]
      split_ifs
      · exact ⟨rfl, fun _ => rfl⟩
      · exact finalize_eq round
  | waitingForOutcome => exact ⟨rfl, fun _ => rfl⟩
  | waitingForDisputeResolution =>
      simp only [advanceRequest, requestBlock]
      split_ifs
      · exact ⟨rfl, fun _ => rfl⟩
      · refine ⟨by simp [acts_cons_action, SentinelActionKind.id?], fun hne => ?_⟩
        simp [acts_cons_action, SentinelActionKind.id?, hne]

private theorem acts_flatMap {rows : List (B256 × SentinelRequestState)}
    (f : B256 × SentinelRequestState → List Command) :
    acts r (rows.flatMap f) = rows.flatMap fun row => acts r (f row) :=
  List.filterMap_flatMap

/-- **A message does to each request what it does to the request alone.** -/
theorem applyTransition_request (state : State) (message : Message) :
    ((t.applyTransition keccak256 state message).1.lookup r,
        acts r (t.applyTransition keccak256 state message).2) =
      t.requestStep keccak256 r (state.lookup r) message := by
  cases message with
  | newBlock block =>
      show ((state.filterMap _).lookup r, acts r (state.rows.flatMap _)) = t.requestBlock r block _
      rw [Table.lookup_filterMap, acts_flatMap,
        Table.flatMap_rows (k := r) fun row _ hne => (advanceRequest_eq block row.2).2 hne]
      cases state.lookup r with
      | none => rfl
      | some entry => exact (advanceRequest_eq (r := r) block entry).1
  | event log =>
      obtain ⟨block, index, address, data⟩ := log
      cases data with
      | oracle event =>
          have h : Handles event.requestId r state (t.handleOracleEvent keccak256 state event) _ :=
            handles_oracleEvent event
          unfold Handles at h
          show _ = if event.requestId = r then _ else _
          rw [show t.applyTransition keccak256 state (.event ⟨block, index, address, .oracle event⟩) =
            t.handleOracleEvent keccak256 state event from rfl, h]
          by_cases hr : event.requestId = r
          · subst hr
            rfl
          · rw [if_neg hr, if_neg hr]
      | consensus event =>
          rw [show t.applyTransition keccak256 state (.event ⟨block, index, address, .consensus event⟩) =
            t.handleOracleTransactionProposed keccak256 state block.number block.timestamp event from rfl]
          show _ = if event.oracle = t.oracle ∧ t.proposalId keccak256 event = r ∧ state.lookup r = none
            then _ else _
          unfold handleOracleTransactionProposed
          by_cases horacle : event.oracle = t.oracle
          · by_cases hid : t.proposalId keccak256 event = r
            · rw [if_neg (not_not.mpr horacle)]
              unfold proposalId at hid
              rw [hid]
              cases hentry : state.lookup r with
              | none =>
                  rw [if_pos ⟨horacle, hid, rfl⟩]
                  simp only [hentry]
                  rw [Table.lookup_insert_self, acts_cons_effect, acts_nil]
              | some entry =>
                  rw [if_neg (by simp)]
                  simp [hentry]
            · rw [if_neg (not_not.mpr horacle), if_neg (by simp [hid])]
              unfold proposalId at hid
              dsimp only
              split
              · rfl
              · simp [acts_cons_effect, Table.lookup_insert, Ne.symm hid]
          · rw [if_pos horacle, if_neg (by simp [horacle])]
            rfl
  | resume result =>
      obtain ⟨requestId, outcome⟩ := result
      have h : Handles requestId r state (t.handleEngineCheckResult keccak256 state requestId outcome) _ :=
        handles_checked
      unfold Handles at h
      show _ = if requestId = r then _ else _
      rw [show t.applyTransition keccak256 state (.resume (.engineCheckResult requestId outcome)) =
        t.handleEngineCheckResult keccak256 state requestId outcome from rfl, h]
      by_cases hr : requestId = r
      · subst hr
        rfl
      · rw [if_neg hr, if_neg hr]

end SentinelTransition

end Safenet.Sentinel
