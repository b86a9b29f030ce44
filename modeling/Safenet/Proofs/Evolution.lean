/-
What a message does to one signing session.

`evolve` is read off the session alone; it uses the account only at a timeout.
`lookup_applyTransition` says that the state does the same to its session, except that a staged
epoch also ends the session of its rollover.  Sessions that are equal up to the key share evolve
alike (`Agrees`).
-/
import Safenet.Proofs.Sessions
import Safenet.Validator.Network

namespace Safenet.Validator

open RolloverState SigningState

/-! ### One session -/

/-- The signers that are still in at a timeout. -/
def SigningState.survivors : SigningState → Finset Address
  | .waitingForRequest session =>
      match session.responsible with
      | some previouslyResponsible => session.signers.erase previouslyResponsible
      | none => ∅
  | .collectNonceCommitments session => session.committed.keys
  | .collectSigningShares session => (Transition.canonicalSelection session).sharesFrom
  | _ => ∅

/-- What a survivor makes of a session that is over. -/
def Transition.renewed (t : Transition) (block : Nat) : SigningState → Option SigningState
  | .waitingForRequest session =>
      match session.responsible with
      | none => none
      | some previouslyResponsible =>
          if (session.signers.erase previouslyResponsible).card < session.keyShare.groupThreshold then none
          else some (.waitingForRequest
            { session with
              signers := session.signers.erase previouslyResponsible
              responsible := none
              deadline := t.signingDeadline block })
  | .collectNonceCommitments session =>
      if session.committed.rows.length < session.keyShare.groupThreshold then none
      else some (.collectSigningShares
        { keyShare := session.keyShare
          groupId := session.groupId
          signatureId := session.signatureId
          committed := session.committed
          selections := .empty
          packet := session.packet
          signers := session.committed.keys
          deadline := t.signingDeadline block })
  | .collectSigningShares session =>
      let selection := canonicalSelection session
      if selection.sharesFrom.card < session.keyShare.groupThreshold then none
      else some (.waitingForRequest
        { keyShare := session.keyShare
          groupId := session.groupId
          responsible := selection.lastSigner
          packet := session.packet
          oracleApproved := true
          signers := selection.sharesFrom
          deadline := t.signingDeadline block })
  | _ => none

/-- What an event does to the session of a message, apart from a staged epoch. -/
def Transition.evolveEvent (t : Transition) (m : B256) (x : SigningState) (block : Nat)
    (oracle : Address) : Event → Option SigningState
  | .sign gid m' sid =>
      match x with
      | .waitingForRequest session =>
          if m' = m ∧ session.groupId = gid then some (t.requested session sid block).1 else some x
      | _ => some x
  | .oracleResult m' isApproved =>
      match x with
      | .waitingForOracle session =>
          if m' = m ∧ session.oracle = oracle then
            if isApproved then some (t.approved session block).1 else none
          else some x
      | _ => some x
  | .signCommittedNonces sid participant nonces =>
      match x with
      | .collectNonceCommitments session =>
          if session.signatureId = sid then
            some (t.nonceCommitted session m block participant nonces).1
          else some x
      | _ => some x
  | .signShared sid root participant =>
      match x with
      | .collectSigningShares session =>
          if session.signatureId = sid then some (.collectSigningShares (shared session root participant))
          else some x
      | _ => some x
  | .signCompleted sid =>
      match x with
      | .collectSigningShares session =>
          if session.signatureId = sid then some (t.completed session block) else some x
      | _ => some x
  | .transactionAttested safeTxHash eventOracle epoch oracleDataHash _ =>
      if m = t.consensus.transactionProposalHash t.externals.keccak256 (.fromRaw epoch) eventOracle
          oracleDataHash safeTxHash then none
      else some x
  | _ => some x

/-- What a message does to the session of `m`, apart from a staged epoch. -/
def Transition.evolve (t : Transition) (m : B256) (x : SigningState) : Message → Option SigningState
  | .newBlock block =>
      if block < x.deadline then some x
      else if t.account ∈ x.survivors then t.renewed block x
      else none
  | .event log => t.evolveEvent m x log.block.number log.address log.data
  | .resume _ => some x

/-- The message stages the epoch whose rollover is signed as `m`. -/
def StagedFor (s : State) (m : B256) (message : Message) : Prop :=
  ∃ log proposedEpoch signatureId rollover, message = .event log ∧
    log.data = .epochStaged proposedEpoch rollover.group.id signatureId ∧
    s.rollover = .signingRollover rollover ∧ rollover.message = m

variable {t : Transition} {message : Message} {s : State} {m : B256} {x : SigningState}

theorem kept_timedOut (block : Nat) :
    (t.timedOut block m x).kept = t.evolve m x (.newBlock block) := by
  show _ = if block < x.deadline then some x
    else if t.account ∈ x.survivors then t.renewed block x else none
  unfold Transition.timedOut
  by_cases hlate : block < x.deadline
  · rw [if_pos hlate, if_pos hlate]
  · rw [if_neg hlate, if_neg hlate]
    cases x with
    | waitingForRequest session =>
        obtain ⟨keyShare, groupId, responsible, packet, oracleApproved, signers, deadline⟩ := session
        show (t.requestTimedOut _ m block).kept = _
        unfold Transition.requestTimedOut Transition.renewed SigningState.survivors
        cases responsible with
        | none => simp
        | some p =>
            dsimp only
            by_cases hfew : (signers.erase p).card < keyShare.groupThreshold
            · rw [if_pos (.inl hfew), if_pos hfew, ite_self]
            · by_cases hown : t.account ∈ signers.erase p
              · rw [if_neg (not_or.mpr ⟨hfew, not_not.mpr hown⟩), if_pos hown, if_neg hfew]
              · rw [if_pos (.inr hown), if_neg hown]
    | waitingForOracle session => simp [Transition.renewed]
    | collectNonceCommitments session =>
        show (t.noncesTimedOut session m block).kept = _
        unfold Transition.noncesTimedOut Transition.renewed SigningState.survivors
        dsimp only
        have hown : (session.committed.lookup t.account).isNone ↔ t.account ∉ session.committed.keys := by
          rw [Table.mem_keys, ← Option.isSome_iff_exists]
          simp
        by_cases hfew : session.committed.rows.length < session.keyShare.groupThreshold
        · rw [if_pos (.inl hfew), if_pos hfew, ite_self]
        · by_cases hmem : t.account ∈ session.committed.keys
          · rw [if_neg (not_or.mpr ⟨hfew, fun h => hown.mp h hmem⟩), if_pos hmem, if_neg hfew]
            rfl
          · rw [if_pos (.inr (hown.mpr hmem)), if_neg hmem]
    | collectSigningShares session =>
        show (t.sharesTimedOut session m block).kept = _
        unfold Transition.sharesTimedOut Transition.renewed SigningState.survivors
        dsimp only
        by_cases hfew : (Transition.canonicalSelection session).sharesFrom.card <
            session.keyShare.groupThreshold
        · rw [if_pos (.inl hfew), if_pos hfew, ite_self]
        · by_cases hown : t.account ∈ (Transition.canonicalSelection session).sharesFrom
          · rw [if_neg (not_or.mpr ⟨hfew, not_not.mpr hown⟩), if_pos hown, if_neg hfew]
          · rw [if_pos (.inr hown), if_neg hown]
    | waitingForAttestation session => simp [Transition.renewed]

/-! ### The state does that to its session -/

/-- A signature id finds exactly the session that has it. -/
theorem Linked.lookup_eq_iff (h : Linked s) (hx : s.signing.lookup m = some x) {sid : B256} :
    s.signatureIdToMessage.lookup sid = some m ↔ x.signatureId = some sid := by
  rw [h sid m]
  constructor
  · rintro ⟨y, hy, hsid⟩
    rw [hx, Option.some.injEq] at hy
    rw [hy]
    exact hsid
  · intro hsid
    exact ⟨x, hx, hsid⟩

/-- Rewriting the session of another message. -/
theorem lookup_insert_other (hx : s.signing.lookup m = some x) {m' : B256} (hm : m' ≠ m)
    (y : SigningState) : (s.signing.insert m' y).lookup m = some x := by
  rw [Table.lookup_insert, if_neg (Ne.symm hm)]
  exact hx

theorem lookup_handleSign (hx : s.signing.lookup m = some x) {block : Nat} {gid m' sid : B256}
    {oracle : Address} :
    (t.handleSign s block gid m' sid).1.signing.lookup m =
      t.evolveEvent m x block oracle (.sign gid m' sid) := by
  unfold Transition.handleSign
  by_cases hm : m' = m
  · subst hm
    rw [hx]
    cases x with
    | waitingForRequest session =>
        show _ = if m' = m' ∧ session.groupId = gid then _ else _
        dsimp only
        by_cases hg : session.groupId = gid
        · rw [if_pos hg, if_pos (⟨rfl, hg⟩ : m' = m' ∧ session.groupId = gid)]
          exact Table.lookup_insert_self _ _ _
        · rw [if_neg hg, if_neg (fun h => hg h.2)]
          exact hx
    | waitingForOracle session => exact hx
    | collectNonceCommitments session => exact hx
    | collectSigningShares session => exact hx
    | waitingForAttestation session => exact hx
  · have hstays : t.evolveEvent m x block oracle (.sign gid m' sid) = some x := by
      unfold Transition.evolveEvent
      dsimp only
      split
      · exact if_neg fun h => hm h.1
      · rfl
    rw [hstays]
    split
    · split
      · exact lookup_insert_other hx hm _
      · exact hx
    · exact hx

theorem lookup_handleOracleResult (hx : s.signing.lookup m = some x) {block : Nat} {m' : B256}
    {oracle : Address} {isApproved : Bool} :
    (t.handleOracleResult s block oracle m' isApproved).1.signing.lookup m =
      t.evolveEvent m x block oracle (.oracleResult m' isApproved) := by
  unfold Transition.handleOracleResult
  by_cases hm : m' = m
  · subst hm
    rw [hx]
    cases x with
    | waitingForOracle session =>
        show _ = if m' = m' ∧ session.oracle = oracle then _ else _
        dsimp only
        by_cases ho : session.oracle = oracle
        · rw [if_pos ho, if_pos (⟨rfl, ho⟩ : m' = m' ∧ session.oracle = oracle)]
          cases isApproved with
          | true => exact Table.lookup_insert_self _ _ _
          | false =>
              show (s.signing.erase m').lookup m' = none
              rw [Table.lookup_erase, if_pos rfl]
        · rw [if_neg ho, if_neg (fun h => ho h.2)]
          exact hx
    | waitingForRequest session => exact hx
    | collectNonceCommitments session => exact hx
    | collectSigningShares session => exact hx
    | waitingForAttestation session => exact hx
  · have hstays : t.evolveEvent m x block oracle (.oracleResult m' isApproved) = some x := by
      unfold Transition.evolveEvent
      dsimp only
      split
      · exact if_neg fun h => hm h.1
      · rfl
    rw [hstays]
    split
    · split
      · split
        · exact lookup_insert_other hx hm _
        · show (s.signing.erase m').lookup m = some x
          rw [Table.lookup_erase, if_neg (Ne.symm hm)]
          exact hx
      · exact hx
    · exact hx

/-- A handler that goes through the index of signature ids leaves the other sessions alone. -/
theorem index_other (hl : Linked s) (hx : s.signing.lookup m = some x) {sid m' : B256}
    (hsid : x.signatureId ≠ some sid) (hindex : s.signatureIdToMessage.lookup sid = some m') : m' ≠ m := by
  intro heq
  rw [heq] at hindex
  exact hsid ((hl.lookup_eq_iff hx).mp hindex)

theorem lookup_handleSignCommittedNonces (hl : Linked s) (hx : s.signing.lookup m = some x)
    {block : Nat} {sid : B256} {oracle participant : Address} {nonces : Contracts.Coordinator.SignNonces} :
    (t.handleSignCommittedNonces s block sid participant nonces).1.signing.lookup m =
      t.evolveEvent m x block oracle (.signCommittedNonces sid participant nonces) := by
  unfold Transition.handleSignCommittedNonces
  by_cases hsid : x.signatureId = some sid
  · rw [(hl.lookup_eq_iff hx).mpr hsid]
    dsimp only
    rw [hx]
    cases x with
    | collectNonceCommitments session =>
        show _ = if session.signatureId = sid then _ else _
        rw [if_pos (Option.some.inj hsid)]
        exact Table.lookup_insert_self _ _ _
    | waitingForRequest session => exact hx
    | waitingForOracle session => exact hx
    | collectSigningShares session => exact hx
    | waitingForAttestation session => exact hx
  · have hstays : t.evolveEvent m x block oracle (.signCommittedNonces sid participant nonces) = some x := by
      unfold Transition.evolveEvent
      dsimp only
      split
      · exact if_neg fun h => hsid (congrArg some h)
      · rfl
    rw [hstays]
    split
    · exact hx
    · rename_i m' hindex
      split
      · exact lookup_insert_other hx (index_other hl hx hsid hindex) _
      · exact hx

theorem lookup_handleSignShared (hl : Linked s) (hx : s.signing.lookup m = some x)
    {block : Nat} {sid root : B256} {oracle participant : Address} :
    (Transition.handleSignShared s sid root participant).1.signing.lookup m =
      t.evolveEvent m x block oracle (.signShared sid root participant) := by
  unfold Transition.handleSignShared
  by_cases hsid : x.signatureId = some sid
  · rw [(hl.lookup_eq_iff hx).mpr hsid]
    dsimp only
    rw [hx]
    cases x with
    | collectSigningShares session =>
        show _ = if session.signatureId = sid then _ else _
        rw [if_pos (Option.some.inj hsid)]
        exact Table.lookup_insert_self _ _ _
    | waitingForRequest session => exact hx
    | waitingForOracle session => exact hx
    | collectNonceCommitments session => exact hx
    | waitingForAttestation session => exact hx
  · have hstays : t.evolveEvent m x block oracle (.signShared sid root participant) = some x := by
      unfold Transition.evolveEvent
      dsimp only
      split
      · exact if_neg fun h => hsid (congrArg some h)
      · rfl
    rw [hstays]
    split
    · exact hx
    · rename_i m' hindex
      split
      · exact lookup_insert_other hx (index_other hl hx hsid hindex) _
      · exact hx

theorem lookup_handleSignCompleted (hl : Linked s) (hx : s.signing.lookup m = some x)
    {block : Nat} {sid : B256} {oracle : Address} :
    (t.handleSignCompleted s block sid).1.signing.lookup m =
      t.evolveEvent m x block oracle (.signCompleted sid) := by
  unfold Transition.handleSignCompleted
  by_cases hsid : x.signatureId = some sid
  · rw [(hl.lookup_eq_iff hx).mpr hsid]
    dsimp only
    rw [hx]
    cases x with
    | collectSigningShares session =>
        show _ = if session.signatureId = sid then _ else _
        rw [if_pos (Option.some.inj hsid)]
        exact Table.lookup_insert_self _ _ _
    | waitingForRequest session => exact hx
    | waitingForOracle session => exact hx
    | collectNonceCommitments session => exact hx
    | waitingForAttestation session => exact hx
  · have hstays : t.evolveEvent m x block oracle (.signCompleted sid) = some x := by
      unfold Transition.evolveEvent
      dsimp only
      split
      · exact if_neg fun h => hsid (congrArg some h)
      · rfl
    rw [hstays]
    split
    · exact hx
    · rename_i m' hindex
      split
      · exact lookup_insert_other hx (index_other hl hx hsid hindex) _
      · exact hx

theorem lookup_handleTransactionProposed (hx : s.signing.lookup m = some x) {block : Nat}
    {oracle : Address} {epoch : EpochId} {oracleData : Bytes} {tx : SafeTransaction} :
    (t.handleTransactionProposed s block oracle epoch oracleData tx).1.signing.lookup m = some x := by
  unfold Transition.handleTransactionProposed
  split
  · exact hx
  · split
    · dsimp only
      split
      · exact hx
      · rename_i hvacant
        refine lookup_insert_other hx ?_ _
        intro heq
        rw [heq, hx] at hvacant
        cases hvacant
    · exact hx

/-- A confirmation opens a session for a message that has none. -/
theorem lookup_handleKeyGenConfirmed (hx : s.signing.lookup m = some x)
    (hvacant : ∀ round proposed, s.rollover = .collectingConfirmations round →
      round.nextEpoch = .number proposed →
      s.signing.lookup (t.rolloverMessage s.activeEpoch round proposed) = none)
    {block : Nat} {gid : B256} {participant : Address} :
    (t.handleKeyGenConfirmed s block gid participant).1.signing.lookup m = some x := by
  unfold Transition.handleKeyGenConfirmed
  split
  · rename_i round hrollover
    split
    · dsimp only
      split
      · exact hx
      · split
        · unfold Transition.genesisConfirmed
          dsimp only
          split
          · show (Transition.finalizeKeyGen _ _ _ _).signing.lookup m = some x
            rw [finalizeKeyGen_eq.2.1]
            exact hx
          · rw [finalizeKeyGen_eq.2.1]
            exact hx
        · rename_i proposed hepoch
          refine (lookup_epochConfirmed_of_ne ?_).trans hx
          intro heq
          have hnone := hvacant round proposed hrollover hepoch
          rw [← heq, hx] at hnone
          cases hnone
    · exact hx
  · exact hx

/-- A staged epoch ends the session of its rollover. -/
theorem handleEpochStaged_ends {proposedEpoch : Nat} {rollover : SigningRollover}
    (hrollover : s.rollover = .signingRollover rollover) :
    (Transition.handleEpochStaged s proposedEpoch rollover.group.id).1.signing.lookup rollover.message =
      none := by
  unfold Transition.handleEpochStaged
  rw [hrollover]
  dsimp only
  rw [if_pos rfl, (handleSignAttested_eq _).2.2.2, Table.lookup_erase, if_pos rfl]

/-- It leaves every other session alone. -/
theorem lookup_handleEpochStaged (hx : s.signing.lookup m = some x) {proposedEpoch : Nat} {gid : B256}
    (hother : ∀ rollover, s.rollover = .signingRollover rollover → rollover.group.id = gid →
      rollover.message ≠ m) :
    (Transition.handleEpochStaged s proposedEpoch gid).1.signing.lookup m = some x := by
  unfold Transition.handleEpochStaged
  split
  · rename_i rollover hrollover
    split
    · rename_i hg
      rw [(handleSignAttested_eq _).2.2.2, finalizeKeyGen_eq.2.1, Table.lookup_erase,
        if_neg (Ne.symm (hother rollover hrollover hg))]
      exact hx
    · exact hx
  · exact hx
  · exact hx

theorem newBlock_signing (block : Nat) :
    (t.newBlock s block).1.signing = s.signing.filterMap fun m x => (t.timedOut block m x).kept := by
  show ((t.handleRolloverNewBlock s block).1.signing.filterMap
    fun m x => (t.timedOut block m x).kept) = _
  rw [Emitted.handleRolloverNewBlock_signing]

theorem lookup_newBlock (hx : s.signing.lookup m = some x) (block : Nat) :
    (t.newBlock s block).1.signing.lookup m = t.evolve m x (.newBlock block) := by
  rw [newBlock_signing, Table.lookup_filterMap, hx, Option.bind_some, kept_timedOut]

/-- A staged epoch ends the session that it is staged for. -/
theorem lookup_of_stagedFor (h : StagedFor s m message) :
    (t.applyTransition s message).1.signing.lookup m = none := by
  obtain ⟨log, proposedEpoch, signatureId, rollover, rfl, hdata, hrollover, rfl⟩ := h
  show (t.onEvent s log.block.number log.address log.data).1.signing.lookup rollover.message = none
  rw [hdata]
  exact handleEpochStaged_ends hrollover

/-- **Any other message evolves the session, whatever the rest of the state is.** -/
theorem lookup_applyTransition (hs : Tracked t s) (hpromised : Promised t message s)
    (hx : s.signing.lookup m = some x) (hstaged : ¬ StagedFor s m message) :
    (t.applyTransition s message).1.signing.lookup m = t.evolve m x message := by
  cases message with
  | newBlock block => exact lookup_newBlock hx block
  | resume result =>
      show (t.onResume s result).1.signing.lookup m = some x
      cases result with
      | noop => exact hx
      | setup groupId secrets => exact hx
      | nonceCommitments signatureId nonces =>
          show (Transition.handleNonceCommitments s signatureId nonces).1.signing.lookup m = some x
          rw [Changes.handleNonceCommitments]
          exact hx
      | nonces m' nonces =>
          show (t.handleNonces s m' nonces).1.signing.lookup m = some x
          rw [Changes.handleNonces]
          exact hx
  | event log =>
      show (t.onEvent s log.block.number log.address log.data).1.signing.lookup m =
        t.evolveEvent m x log.block.number log.address log.data
      cases hdata : log.data with
      | keyGen gid => exact hx
      | keyGenCommitted gid participant commitment => exact hx
      | keyGenSecretShared gid participant share => exact hx
      | keyGenConfirmed gid participant =>
          exact lookup_handleKeyGenConfirmed hx fun round proposed hrollover hepoch =>
            hs.rolloverMessage_vacant hpromised hrollover hepoch
      | keyGenComplained gid plaintiff accused => exact hx
      | keyGenComplaintResponded gid plaintiff accused secretShare => exact hx
      | sign gid m' sid => exact lookup_handleSign hx
      | signCommittedNonces sid participant nonces =>
          exact lookup_handleSignCommittedNonces hs.linked hx
      | signShared sid root participant => exact lookup_handleSignShared hs.linked hx
      | signCompleted sid => exact lookup_handleSignCompleted hs.linked hx
      | epochStaged proposedEpoch gid signatureId =>
          refine lookup_handleEpochStaged hx fun rollover hrollover hg hm => hstaged ?_
          exact ⟨log, proposedEpoch, signatureId, rollover, rfl, hg ▸ hdata, hrollover, hm⟩
      | transactionProposed oracle epoch oracleData tx => exact lookup_handleTransactionProposed hx
      | transactionAttested safeTxHash oracle epoch oracleDataHash signatureId =>
          show (s.signing.erase _).lookup m = if m = _ then none else some x
          rw [Table.lookup_erase, hx]
      | oracleResult requestId isApproved => exact lookup_handleOracleResult hx
      | other => exact hx

/-! ### Sessions that differ in the key share -/

/-- The session of another member of the group. -/
def SigningState.withKeyShare (k : KeyShare) : SigningState → SigningState
  | .waitingForRequest session => .waitingForRequest { session with keyShare := k }
  | .waitingForOracle session => .waitingForOracle { session with keyShare := k }
  | .collectNonceCommitments session => .collectNonceCommitments { session with keyShare := k }
  | .collectSigningShares session => .collectSigningShares { session with keyShare := k }
  | .waitingForAttestation session => .waitingForAttestation session

/--
Two sessions with the same stage, signature id, group id, packet, signers, commitments, selections,
responsible party, oracle approval and deadline.  Only the key shares differ, in all but the
threshold.
-/
def Agrees (x y : SigningState) : Prop :=
  ∃ (z : SigningState) (k k' : KeyShare), k.groupThreshold = k'.groupThreshold ∧
    x = z.withKeyShare k ∧ y = z.withKeyShare k'

theorem Agrees.symm {y : SigningState} (h : Agrees x y) : Agrees y x := by
  obtain ⟨z, k, k', hk, hx, hy⟩ := h
  exact ⟨z, k', k, hk.symm, hy, hx⟩

theorem deadline_withKeyShare (k : KeyShare) (z : SigningState) :
    (z.withKeyShare k).deadline = z.deadline := by
  cases z with
  | waitingForRequest session => rfl
  | waitingForOracle session => rfl
  | collectNonceCommitments session => rfl
  | collectSigningShares session => rfl
  | waitingForAttestation session => rfl

theorem Agrees.deadline {y : SigningState} (h : Agrees x y) : x.deadline = y.deadline := by
  obtain ⟨z, k, k', -, rfl, rfl⟩ := h
  rw [deadline_withKeyShare, deadline_withKeyShare]

/-- The canonical selection depends on the key share through the threshold only. -/
theorem canonicalSelection_withKeyShare {k k' : KeyShare} (hk : k.groupThreshold = k'.groupThreshold)
    (session : CollectSigningShares) :
    Transition.canonicalSelection { session with keyShare := k } =
      Transition.canonicalSelection { session with keyShare := k' } := by
  unfold Transition.canonicalSelection
  dsimp only
  rw [hk]

theorem Agrees.survivors {y : SigningState} (h : Agrees x y) : x.survivors = y.survivors := by
  obtain ⟨z, k, k', hk, rfl, rfl⟩ := h
  cases z with
  | waitingForRequest session => rfl
  | waitingForOracle session => rfl
  | collectNonceCommitments session => rfl
  | collectSigningShares session =>
      exact congrArg SigningSelection.sharesFrom (canonicalSelection_withKeyShare hk session)
  | waitingForAttestation session => rfl

/-- Both sessions end, or both go on and still agree. -/
def AgreesOrEnds : Option SigningState → Option SigningState → Prop
  | some x, some y => Agrees x y
  | none, none => True
  | _, _ => False

theorem Agrees.renewed {y : SigningState} (h : Agrees x y) (t : Transition) (block : Nat) :
    AgreesOrEnds (t.renewed block x) (t.renewed block y) := by
  obtain ⟨z, k, k', hk, rfl, rfl⟩ := h
  cases z with
  | waitingForRequest session =>
      obtain ⟨keyShare, groupId, responsible, packet, oracleApproved, signers, deadline⟩ := session
      cases responsible with
      | none => trivial
      | some p =>
          unfold Transition.renewed SigningState.withKeyShare
          dsimp only
          rw [hk]
          split
          · trivial
          · exact ⟨.waitingForRequest ⟨k, groupId, none, packet, oracleApproved, signers.erase p,
              t.signingDeadline block⟩, k, k', hk, rfl, rfl⟩
  | waitingForOracle session => trivial
  | collectNonceCommitments session =>
      unfold Transition.renewed SigningState.withKeyShare
      dsimp only
      rw [hk]
      split
      · trivial
      · exact ⟨.collectSigningShares ⟨k, session.groupId, session.signatureId, session.committed, .empty,
          session.packet, session.committed.keys, t.signingDeadline block⟩, k, k', hk, rfl, rfl⟩
  | collectSigningShares session =>
      unfold Transition.renewed SigningState.withKeyShare
      dsimp only
      rw [canonicalSelection_withKeyShare hk, hk]
      split
      · trivial
      · exact ⟨.waitingForRequest ⟨k, session.groupId, _, session.packet, true, _,
          t.signingDeadline block⟩, k, k', hk, rfl, rfl⟩
  | waitingForAttestation session => trivial

theorem nonceCommitted_withKeyShare (k : KeyShare) (session : CollectNonceCommitments) {block : Nat}
    {participant : Address} {nonces : Contracts.Coordinator.SignNonces} :
    (t.nonceCommitted { session with keyShare := k } m block participant nonces).1 =
      (t.nonceCommitted session m block participant nonces).1.withKeyShare k := by
  have hadd : Transition.addNonces { session with keyShare := k } participant nonces =
      Transition.addNonces session participant nonces := rfl
  unfold Transition.nonceCommitted
  rw [hadd]
  dsimp only
  by_cases hfew : (Transition.addNonces session participant nonces).rows.length < session.signers.card
  · rw [if_pos hfew, if_pos hfew]
    rfl
  · rw [if_neg hfew, if_neg hfew]
    rfl

/-- An event does the same to both sessions. -/
theorem Agrees.evolveEvent {y : SigningState} (h : Agrees x y) (t : Transition) (m : B256) (block : Nat)
    (oracle : Address) (event : Event) :
    AgreesOrEnds (t.evolveEvent m x block oracle event) (t.evolveEvent m y block oracle event) := by
  have hagrees := h
  obtain ⟨z, k, k', hk, rfl, rfl⟩ := h
  unfold Transition.evolveEvent
  cases event with
  | sign gid m' sid =>
      cases z with
      | waitingForRequest session =>
          show AgreesOrEnds (if m' = m ∧ session.groupId = gid then _ else _)
            (if m' = m ∧ session.groupId = gid then _ else _)
          split
          · unfold Transition.requested
            dsimp only
            split
            · exact ⟨.waitingForOracle ⟨k, _, _, _, _, _, _⟩, k, k', hk, rfl, rfl⟩
            · exact ⟨.collectNonceCommitments ⟨k, _, _, _, _, _, _⟩, k, k', hk, rfl, rfl⟩
          · exact hagrees
      | waitingForOracle session => exact hagrees
      | collectNonceCommitments session => exact hagrees
      | collectSigningShares session => exact hagrees
      | waitingForAttestation session => exact hagrees
  | oracleResult m' isApproved =>
      cases z with
      | waitingForOracle session =>
          show AgreesOrEnds (if m' = m ∧ session.oracle = oracle then _ else _)
            (if m' = m ∧ session.oracle = oracle then _ else _)
          split
          · split
            · exact ⟨.collectNonceCommitments ⟨k, _, _, _, _, _, _⟩, k, k', hk, rfl, rfl⟩
            · trivial
          · exact hagrees
      | waitingForRequest session => exact hagrees
      | collectNonceCommitments session => exact hagrees
      | collectSigningShares session => exact hagrees
      | waitingForAttestation session => exact hagrees
  | signCommittedNonces sid participant nonces =>
      cases z with
      | collectNonceCommitments session =>
          show AgreesOrEnds (if session.signatureId = sid then _ else _)
            (if session.signatureId = sid then _ else _)
          split
          · exact ⟨(t.nonceCommitted session m block participant nonces).1, k, k', hk,
              nonceCommitted_withKeyShare k session, nonceCommitted_withKeyShare k' session⟩
          · exact hagrees
      | waitingForRequest session => exact hagrees
      | waitingForOracle session => exact hagrees
      | collectSigningShares session => exact hagrees
      | waitingForAttestation session => exact hagrees
  | signShared sid root participant =>
      cases z with
      | collectSigningShares session =>
          show AgreesOrEnds (if session.signatureId = sid then _ else _)
            (if session.signatureId = sid then _ else _)
          split
          · exact ⟨.collectSigningShares (Transition.shared session root participant), k, k', hk,
              rfl, rfl⟩
          · exact hagrees
      | waitingForRequest session => exact hagrees
      | waitingForOracle session => exact hagrees
      | collectNonceCommitments session => exact hagrees
      | waitingForAttestation session => exact hagrees
  | signCompleted sid =>
      cases z with
      | collectSigningShares session =>
          show AgreesOrEnds (if session.signatureId = sid then _ else _)
            (if session.signatureId = sid then _ else _)
          split
          · exact ⟨t.completed session block, k, k', hk, rfl, rfl⟩
          · exact hagrees
      | waitingForRequest session => exact hagrees
      | waitingForOracle session => exact hagrees
      | collectNonceCommitments session => exact hagrees
      | waitingForAttestation session => exact hagrees
  | transactionAttested safeTxHash eventOracle epoch oracleDataHash signatureId =>
      dsimp only
      split
      · trivial
      · exact hagrees
  | keyGen gid => exact hagrees
  | keyGenCommitted gid participant commitment => exact hagrees
  | keyGenSecretShared gid participant share => exact hagrees
  | keyGenConfirmed gid participant => exact hagrees
  | keyGenComplained gid plaintiff accused => exact hagrees
  | keyGenComplaintResponded gid plaintiff accused secretShare => exact hagrees
  | epochStaged proposedEpoch gid signatureId => exact hagrees
  | transactionProposed eventOracle epoch oracleData tx => exact hagrees
  | other => exact hagrees

/-- Whoever keeps the session has kept the same one. -/
theorem Agrees.evolve {y x' y' : SigningState} (h : Agrees x y) {a b : Address}
    (hx : (t.withAccount a).evolve m x message = some x')
    (hy : (t.withAccount b).evolve m y message = some y') : Agrees x' y' := by
  cases message with
  | newBlock block =>
      change (if block < x.deadline then some x else if a ∈ x.survivors then t.renewed block x else none) =
        some x' at hx
      change (if block < y.deadline then some y else if b ∈ y.survivors then t.renewed block y else none) =
        some y' at hy
      have hdeadline : x.deadline = y.deadline := h.deadline
      by_cases hlate : block < y.deadline
      · rw [if_pos (hdeadline ▸ hlate), Option.some.injEq] at hx
        rw [if_pos hlate, Option.some.injEq] at hy
        rw [← hx, ← hy]
        exact h
      · rw [if_neg (hdeadline ▸ hlate), Option.ite_none_right_eq_some] at hx
        rw [if_neg hlate, Option.ite_none_right_eq_some] at hy
        have hrenewed := h.renewed t block
        rw [hx.2, hy.2] at hrenewed
        exact hrenewed
  | event log =>
      have hevent := h.evolveEvent t m log.block.number log.address log.data
      change t.evolveEvent m x log.block.number log.address log.data = some x' at hx
      change t.evolveEvent m y log.block.number log.address log.data = some y' at hy
      rw [hx, hy] at hevent
      exact hevent
  | resume result =>
      cases hx
      cases hy
      exact h

/-- Only a timeout that a validator does not survive drops a session that another one keeps. -/
theorem Agrees.evolve_none {y x' : SigningState} (h : Agrees x y) {a b : Address}
    (hx : (t.withAccount a).evolve m x message = some x')
    (hy : (t.withAccount b).evolve m y message = none) :
    ∃ block, message = .newBlock block ∧ y.deadline ≤ block ∧ b ∉ y.survivors := by
  cases message with
  | newBlock block =>
      change (if block < x.deadline then some x else if a ∈ x.survivors then t.renewed block x else none) =
        some x' at hx
      change (if block < y.deadline then some y else if b ∈ y.survivors then t.renewed block y else none) =
        none at hy
      have hdeadline : x.deadline = y.deadline := h.deadline
      by_cases hlate : block < y.deadline
      · rw [if_pos hlate] at hy
        cases hy
      · refine ⟨block, rfl, not_lt.mp hlate, fun hmem => ?_⟩
        rw [if_neg (hdeadline ▸ hlate), Option.ite_none_right_eq_some] at hx
        rw [if_neg hlate, if_pos hmem] at hy
        have hrenewed := h.renewed t block
        rw [hx.2, hy] at hrenewed
        exact hrenewed
  | event log =>
      have hevent := h.evolveEvent t m log.block.number log.address log.data
      change t.evolveEvent m x log.block.number log.address log.data = some x' at hx
      change t.evolveEvent m y log.block.number log.address log.data = none at hy
      rw [hx, hy] at hevent
      exact hevent.elim
  | resume result => cases hy

end Safenet.Validator
