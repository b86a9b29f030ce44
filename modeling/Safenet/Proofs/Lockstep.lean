/-
The rollover machines of two validators in step, and how their sessions are opened.

A machine that signs a rollover goes on with it until the clock passes its epoch or the epoch is
staged, whatever else it knows (`Leaves`).  So two machines either sign the same message or neither
signs this one (`InStep`), for as long as the message has a session.
-/
import Safenet.Proofs.Evolution

namespace Safenet.Validator

open RolloverState SigningState

variable {t : Transition} {message : Message} {s : State} {m : B256} {x : SigningState}

/-! ### The rollover machines -/

/-- The rollover machine signs the rollover with hash `m`. -/
def Signs (m : B256) (s : State) : Prop :=
  ∃ rollover, s.rollover = .signingRollover rollover ∧ rollover.message = m

/-- Both machines sign the same rollover as `m`, or neither signs `m`. -/
def InStep (m : B256) (s s' : State) : Prop :=
  (∃ r r', s.rollover = .signingRollover r ∧ s'.rollover = .signingRollover r' ∧ r.message = m ∧
    r'.message = m ∧ r.nextEpoch = r'.nextEpoch ∧ r.group.id = r'.group.id) ∨
  (¬ Signs m s ∧ ¬ Signs m s')

/-- The message ends the signing of a rollover. -/
def Leaves (t : Transition) (rollover : SigningRollover) : Message → Prop
  | .newBlock block => ¬ nextNumber block t.config.blocksPerEpoch ≤ rollover.nextEpoch
  | .event log => ∃ proposedEpoch signatureId,
      log.data = .epochStaged proposedEpoch rollover.group.id signatureId
  | .resume _ => False

theorem startKeyGen_ne_signing {next : EpochId} {participants : ParticipantSet} {deadline : Option Nat}
    {rollover : SigningRollover} :
    (t.startKeyGen next participants deadline).1 ≠ .signingRollover rollover := by
  unfold Transition.startKeyGen
  split
  · exact fun h => nomatch h
  · exact fun h => nomatch h

theorem rolloverFailure_ne_signing {next : EpochId} {rollover : SigningRollover} :
    rolloverFailure next ≠ .signingRollover rollover := by
  cases next with
  | genesis => exact fun h => nomatch h
  | number n => exact fun h => nomatch h

/-- Key generation does not get to the signing of a rollover. -/
theorem KeyGenMove.signing {s₀ : State} {r : RolloverState} {rollover : SigningRollover}
    (h : KeyGenMove t message s₀ r (.signingRollover rollover)) : r = .signingRollover rollover := by
  generalize heq : RolloverState.signingRollover rollover = r' at h
  cases h with
  | stay => rfl
  | genesis => exact absurd heq.symm startKeyGen_ne_signing
  | restart => exact absurd heq.symm startKeyGen_ne_signing
  | fail => exact absurd heq.symm rolloverFailure_ne_signing
  | secrets => cases heq
  | commit => cases heq
  | shares => cases heq
  | share => cases heq
  | confirmations => cases heq
  | confirmation => cases heq

/-- A machine that signs a rollover did so before, or the ceremony was just confirmed. -/
theorem signing_applyTransition {rollover : SigningRollover}
    (h : (t.applyTransition s message).1.rollover = .signingRollover rollover) :
    s.rollover = .signingRollover rollover ∨ ∃ round proposed,
      s.rollover = .collectingConfirmations round ∧ round.nextEpoch = .number proposed ∧
      rollover.message = t.rolloverMessage s.activeEpoch round proposed := by
  refine Changes.preserves (P := fun s' => ∀ rollover, s'.rollover = .signingRollover rollover →
    s.rollover = .signingRollover rollover ∨ ∃ round proposed,
      s.rollover = .collectingConfirmations round ∧ round.nextEpoch = .number proposed ∧
      rollover.message = t.rolloverMessage s.activeEpoch round proposed)
    (fun s₁ s₂ hchange ih rollover hr => ?_) (Changes.applyTransition t s message)
    (fun rollover hr => .inl hr) rollover h
  cases hchange with
  | rollover hmove =>
      dsimp only at hr
      subst hr
      exact ih _ hmove.signing
  | genesisConfirmed =>
      rw [finalizeKeyGen_eq.1] at hr
      cases hr
  | begin => exact absurd hr startKeyGen_ne_signing
  | epochConfirmed _ _ hrollover hepoch =>
      cases hr
      exact .inr ⟨_, _, hrollover, hepoch, rfl⟩
  | staged =>
      rw [finalizeKeyGen_eq.1] at hr
      cases hr
  | attested => exact ih _ hr
  | recovered _ heq =>
      rcases heq with rfl | ⟨next, rfl⟩
      · cases hr
      · cases hr
  | due => cases hr
  | session => exact ih _ hr
  | requested => exact ih _ hr
  | rejected => exact ih _ hr
  | proposed => exact ih _ hr
  | timeouts => exact ih _ hr
  | reaped => exact ih _ hr

/-- While the message has a session, no other rollover is signed under it. -/
theorem not_signs_applyTransition (hs : Tracked t s) (hpromised : Promised t message s)
    (hx : s.signing.lookup m = some x) (h : ¬ Signs m s) : ¬ Signs m (t.applyTransition s message).1 := by
  rintro ⟨rollover, hrollover, hm⟩
  rcases signing_applyTransition hrollover with hbefore | ⟨round, proposed, hr, hepoch, hmessage⟩
  · exact h ⟨rollover, hbefore, hm⟩
  · have hvacant := hs.rolloverMessage_vacant hpromised hr hepoch
    rw [← hmessage, hm, hx] at hvacant
    cases hvacant

/-- The events that concern the sessions only. -/
def Event.ofSession : Event → Bool
  | .sign _ _ _ => true
  | .signCommittedNonces _ _ _ => true
  | .signShared _ _ _ => true
  | .signCompleted _ => true
  | .transactionProposed _ _ _ _ => true
  | .transactionAttested _ _ _ _ _ => true
  | .oracleResult _ _ => true
  | .other => true
  | _ => false

theorem onEvent_ofSession {event : Event} {block : Nat} {oracle : Address} (h : event.ofSession = true) :
    (t.onEvent s block oracle event).1.rollover = s.rollover ∧
      (t.onEvent s block oracle event).1.activeEpoch = s.activeEpoch := by
  cases event with
  | sign gid m' sid =>
      show (t.handleSign s block gid m' sid).1.rollover = _ ∧ (t.handleSign s block gid m' sid).1.activeEpoch = _
      unfold Transition.handleSign
      split
      · split
        · exact ⟨rfl, rfl⟩
        · exact ⟨rfl, rfl⟩
      · exact ⟨rfl, rfl⟩
  | signCommittedNonces sid participant nonces =>
      show (t.handleSignCommittedNonces s block sid participant nonces).1.rollover = _ ∧
        (t.handleSignCommittedNonces s block sid participant nonces).1.activeEpoch = _
      unfold Transition.handleSignCommittedNonces
      split
      · exact ⟨rfl, rfl⟩
      · split
        · exact ⟨rfl, rfl⟩
        · exact ⟨rfl, rfl⟩
  | signShared sid root participant =>
      show (Transition.handleSignShared s sid root participant).1.rollover = _ ∧
        (Transition.handleSignShared s sid root participant).1.activeEpoch = _
      unfold Transition.handleSignShared
      split
      · exact ⟨rfl, rfl⟩
      · split
        · exact ⟨rfl, rfl⟩
        · exact ⟨rfl, rfl⟩
  | signCompleted sid =>
      show (t.handleSignCompleted s block sid).1.rollover = _ ∧
        (t.handleSignCompleted s block sid).1.activeEpoch = _
      unfold Transition.handleSignCompleted
      split
      · exact ⟨rfl, rfl⟩
      · split
        · exact ⟨rfl, rfl⟩
        · exact ⟨rfl, rfl⟩
  | transactionProposed eventOracle epoch oracleData tx =>
      show (t.handleTransactionProposed s block eventOracle (.fromRaw epoch) oracleData tx).1.rollover = _ ∧
        (t.handleTransactionProposed s block eventOracle (.fromRaw epoch) oracleData tx).1.activeEpoch = _
      unfold Transition.handleTransactionProposed
      split
      · exact ⟨rfl, rfl⟩
      · split
        · dsimp only
          split
          · exact ⟨rfl, rfl⟩
          · exact ⟨rfl, rfl⟩
        · exact ⟨rfl, rfl⟩
  | transactionAttested safeTxHash eventOracle epoch oracleDataHash signatureId => exact ⟨rfl, rfl⟩
  | oracleResult requestId isApproved =>
      show (t.handleOracleResult s block oracle requestId isApproved).1.rollover = _ ∧
        (t.handleOracleResult s block oracle requestId isApproved).1.activeEpoch = _
      unfold Transition.handleOracleResult
      split
      · split
        · split
          · exact ⟨rfl, rfl⟩
          · exact ⟨rfl, rfl⟩
        · exact ⟨rfl, rfl⟩
      · exact ⟨rfl, rfl⟩
  | other => exact ⟨rfl, rfl⟩
  | keyGen gid => cases h
  | keyGenCommitted gid participant commitment => cases h
  | keyGenSecretShared gid participant share => cases h
  | keyGenConfirmed gid participant => cases h
  | keyGenComplained gid plaintiff accused => cases h
  | keyGenComplaintResponded gid plaintiff accused secretShare => cases h
  | epochStaged proposedEpoch gid signatureId => cases h

theorem newBlock_rollover (block : Nat) :
    (t.newBlock s block).1.rollover =
      (t.keyGenTimeouts (t.handleRolloverNewBlock s block).1.rollover block).1 :=
  rfl

/-- A machine that signs goes on with it until a message ends it. -/
theorem signing_stays {rollover : SigningRollover} (h : s.rollover = .signingRollover rollover)
    (hstays : ¬ Leaves t rollover message) :
    (t.applyTransition s message).1.rollover = .signingRollover rollover := by
  cases message with
  | newBlock block =>
      show (t.newBlock s block).1.rollover = _
      have hclock : (t.handleRolloverNewBlock s block).1.rollover = .signingRollover rollover := by
        have htarget : s.rollover.nextEpoch.bind EpochId.number? = some rollover.nextEpoch := by
          rw [h]
          rfl
        unfold Transition.handleRolloverNewBlock
        rw [htarget]
        dsimp only
        rw [if_pos (not_not.mp hstays)]
        exact h
      rw [newBlock_rollover, hclock]
      rfl
  | resume result =>
      show (t.onResume s result).1.rollover = _
      cases result with
      | noop => exact h
      | setup groupId secrets =>
          show (t.keyGenSetup s.rollover groupId secrets).1 = _
          rw [h]
          rfl
      | nonceCommitments signatureId nonces =>
          show (Transition.handleNonceCommitments s signatureId nonces).1.rollover = _
          rw [Changes.handleNonceCommitments]
          exact h
      | nonces m' nonces =>
          show (t.handleNonces s m' nonces).1.rollover = _
          rw [Changes.handleNonces]
          exact h
  | event log =>
      show (t.onEvent s log.block.number log.address log.data).1.rollover = _
      have hkeyGen : ∀ result : RolloverState × List Command, result.1 = s.rollover →
          (s.withRollover result).1.rollover = .signingRollover rollover := fun result hr => hr.trans h
      cases hdata : log.data with
      | keyGen gid => exact hkeyGen _ (by rw [h]; rfl)
      | keyGenCommitted gid participant commitment => exact hkeyGen _ (by rw [h]; rfl)
      | keyGenSecretShared gid participant share => exact hkeyGen _ (by rw [h]; rfl)
      | keyGenConfirmed gid participant =>
          show (t.handleKeyGenConfirmed s log.block.number gid participant).1.rollover = _
          unfold Transition.handleKeyGenConfirmed
          rw [h]
          exact h
      | keyGenComplained gid plaintiff accused => exact hkeyGen _ (by rw [h]; rfl)
      | keyGenComplaintResponded gid plaintiff accused secretShare => exact hkeyGen _ (by rw [h]; rfl)
      | epochStaged proposedEpoch gid signatureId =>
          show (Transition.handleEpochStaged s proposedEpoch gid).1.rollover = _
          unfold Transition.handleEpochStaged
          rw [h]
          dsimp only
          rw [if_neg]
          · exact h
          · intro hg
            exact hstays ⟨proposedEpoch, signatureId, hg ▸ hdata⟩
      | sign gid m' sid => exact (onEvent_ofSession rfl).1.trans h
      | signCommittedNonces sid participant nonces => exact (onEvent_ofSession rfl).1.trans h
      | signShared sid root participant => exact (onEvent_ofSession rfl).1.trans h
      | signCompleted sid => exact (onEvent_ofSession rfl).1.trans h
      | transactionProposed oracle epoch oracleData tx => exact (onEvent_ofSession rfl).1.trans h
      | transactionAttested safeTxHash oracle epoch oracleDataHash signatureId =>
          exact (onEvent_ofSession rfl).1.trans h
      | oracleResult requestId isApproved => exact (onEvent_ofSession rfl).1.trans h
      | other => exact h

theorem signing_leaves {rollover : SigningRollover} (h : s.rollover = .signingRollover rollover)
    (hleaves : Leaves t rollover message) : ¬ Signs m (t.applyTransition s message).1 := by
  rintro ⟨rollover', hrollover, -⟩
  cases message with
  | newBlock block =>
      change (t.newBlock s block).1.rollover = _ at hrollover
      rw [newBlock_rollover] at hrollover
      have hmove : KeyGenMove t (.newBlock block) s (t.handleRolloverNewBlock s block).1.rollover
        (t.keyGenTimeouts (t.handleRolloverNewBlock s block).1.rollover block).1 := .keyGenTimeouts block
      rw [hrollover] at hmove
      have hclock := hmove.signing
      have htarget : s.rollover.nextEpoch.bind EpochId.number? = some rollover.nextEpoch := by
        rw [h]
        rfl
      unfold Transition.handleRolloverNewBlock at hclock
      rw [htarget] at hclock
      dsimp only at hclock
      rw [if_neg hleaves] at hclock
      split at hclock
      · exact startKeyGen_ne_signing hclock
      · cases hclock
  | event log =>
      obtain ⟨proposedEpoch, signatureId, hdata⟩ := hleaves
      change (t.onEvent s log.block.number log.address log.data).1.rollover = _ at hrollover
      rw [hdata] at hrollover
      change (Transition.handleEpochStaged s proposedEpoch rollover.group.id).1.rollover = _ at hrollover
      unfold Transition.handleEpochStaged at hrollover
      rw [h] at hrollover
      dsimp only at hrollover
      rw [if_pos rfl, (handleSignAttested_eq _).1, finalizeKeyGen_eq.1] at hrollover
      cases hrollover
  | resume result => exact hleaves

theorem InStep.symm {s' : State} (h : InStep m s s') : InStep m s' s := by
  rcases h with ⟨r, r', hr, hr', hm, hm', hnext, hgroup⟩ | ⟨hs, hs'⟩
  · exact .inl ⟨r', r, hr', hr, hm', hm, hnext.symm, hgroup.symm⟩
  · exact .inr ⟨hs', hs⟩

/-- A block or an event keeps the machines in step. -/
theorem InStep.applyTransition {s' : State} {y : SigningState} {a b : Address}
    (hs : Tracked (t.withAccount a) s) (hs' : Tracked (t.withAccount b) s')
    (hpromised : Promised (t.withAccount a) message s)
    (hpromised' : Promised (t.withAccount b) message s')
    (hx : s.signing.lookup m = some x) (hy : s'.signing.lookup m = some y) (h : InStep m s s') :
    InStep m ((t.withAccount a).applyTransition s message).1
      ((t.withAccount b).applyTransition s' message).1 := by
  rcases h with ⟨r, r', hr, hr', hm, hm', hnext, hgroup⟩ | ⟨hnot, hnot'⟩
  · have hsame : Leaves t r message ↔ Leaves t r' message := by
      unfold Leaves
      rw [hnext, hgroup]
    by_cases hleaves : Leaves t r message
    · exact .inr ⟨signing_leaves hr hleaves, signing_leaves hr' (hsame.mp hleaves)⟩
    · exact .inl ⟨r, r', signing_stays hr hleaves, signing_stays hr' fun h => hleaves (hsame.mpr h), hm,
        hm', hnext, hgroup⟩
  · exact .inr ⟨not_signs_applyTransition hs hpromised hx hnot,
      not_signs_applyTransition hs' hpromised' hy hnot'⟩

/-- So does a resume of one validator. -/
theorem InStep.resume {s' : State} {a : Address} {result : Resume}
    (hs : Tracked (t.withAccount a) s) (hpromised : Promised (t.withAccount a) (.resume result) s)
    (hx : s.signing.lookup m = some x) (h : InStep m s s') :
    InStep m ((t.withAccount a).applyTransition s (.resume result)).1 s' := by
  rcases h with ⟨r, r', hr, hr', hm, hm', hnext, hgroup⟩ | ⟨hnot, hnot'⟩
  · exact .inl ⟨r, r', signing_stays hr fun h => h, hr', hm, hm', hnext, hgroup⟩
  · exact .inr ⟨not_signs_applyTransition hs hpromised hx hnot, hnot'⟩

theorem InStep.stagedFor {s' : State} (h : InStep m s s') :
    StagedFor s m message ↔ StagedFor s' m message := by
  rcases h with ⟨r, r', hr, hr', hm, hm', -, hgroup⟩ | ⟨hnot, hnot'⟩
  · constructor
    · rintro ⟨log, proposedEpoch, signatureId, rollover, hmessage, hdata, hrollover, -⟩
      rw [hr, RolloverState.signingRollover.injEq] at hrollover
      rw [← hrollover, hgroup] at hdata
      exact ⟨log, proposedEpoch, signatureId, r', hmessage, hdata, hr', hm'⟩
    · rintro ⟨log, proposedEpoch, signatureId, rollover, hmessage, hdata, hrollover, -⟩
      rw [hr', RolloverState.signingRollover.injEq] at hrollover
      rw [← hrollover, ← hgroup] at hdata
      exact ⟨log, proposedEpoch, signatureId, r, hmessage, hdata, hr, hm⟩
  · constructor
    · rintro ⟨-, -, -, rollover, -, -, hrollover, hm⟩
      exact absurd ⟨rollover, hrollover, hm⟩ hnot
    · rintro ⟨-, -, -, rollover, -, -, hrollover, hm⟩
      exact absurd ⟨rollover, hrollover, hm⟩ hnot'

/-! ### How a session is opened -/

/-- The session that a message opens for `m`, and what the rollover machine does then. -/
inductive Opening (t : Transition) (s : State) (m : B256) : Message → SigningState → Prop
  | proposed {log : Core.EventLog Event} {oracle : Address} {epoch : Nat} {oracleData : Bytes}
      {tx : SafeTransaction} {participating : Epoch}
      (hdata : log.data = .transactionProposed oracle epoch oracleData tx)
      (hm : m = t.packetHash (.transaction (.fromRaw epoch) oracle oracleData tx))
      (hepoch : s.epochs.lookup (.fromRaw epoch) = some participating)
      (hrollover : (t.applyTransition s (.event log)).1.rollover = s.rollover) :
      Opening t s m (.event log) (t.proposalSession participating
        (.transaction (.fromRaw epoch) oracle oracleData tx) log.block.number)
  | confirmed {log : Core.EventLog Event} {round : CollectingConfirmations} {proposed : ℕ+}
      {participant : Address} {epoch : Epoch}
      (hdata : log.data = .keyGenConfirmed round.group.id participant)
      (hround : s.rollover = .collectingConfirmations round) (hnext : round.nextEpoch = .number proposed)
      (hm : m = t.rolloverMessage s.activeEpoch round proposed)
      (hepoch : s.epochs.lookup s.activeEpoch = some epoch)
      (hrollover : (t.applyTransition s (.event log)).1.rollover =
        .signingRollover ⟨proposed, round.group, round.status.keyShare, m⟩) :
      Opening t s m (.event log) (t.rolloverSession epoch (t.rolloverPacket s.activeEpoch round proposed)
        participant log.block.number)

/-- A message without a session keeps none when another session is rewritten. -/
theorem vacant_insert (hvacant : s.signing.lookup m = none) {m' : B256} {y : SigningState}
    (hy : s.signing.lookup m' = some y) (z : SigningState) : (s.signing.insert m' z).lookup m = none := by
  rw [Table.lookup_insert, if_neg]
  · exact hvacant
  · intro heq
    rw [heq, hy] at hvacant
    cases hvacant

theorem vacant_erase (hvacant : s.signing.lookup m = none) (m' : B256) :
    (s.signing.erase m').lookup m = none := by
  rw [Table.lookup_erase, hvacant, ite_self]

theorem handleTransactionProposed_opens (hvacant : s.signing.lookup m = none)
    {log : Core.EventLog Event} {oracle : Address} {epoch : Nat} {oracleData : Bytes}
    {tx : SafeTransaction} (hdata : log.data = .transactionProposed oracle epoch oracleData tx)
    (h : (t.applyTransition s (.event log)).1.signing.lookup m = some x) :
    Opening t s m (.event log) x := by
  have hstep : t.applyTransition s (.event log) =
      t.handleTransactionProposed s log.block.number oracle (.fromRaw epoch) oracleData tx := by
    show t.onEvent s log.block.number log.address log.data = _
    rw [hdata]
    rfl
  rw [hstep] at h
  have hrollover : (t.handleTransactionProposed s log.block.number oracle (.fromRaw epoch) oracleData
      tx).1.rollover = s.rollover := by
    unfold Transition.handleTransactionProposed
    split
    · rfl
    · split
      · dsimp only
        split
        · rfl
        · rfl
      · rfl
  unfold Transition.handleTransactionProposed at h
  split at h
  · rw [hvacant] at h
    cases h
  · rename_i participating hepoch
    split at h
    · dsimp only at h
      split at h
      · rw [hvacant] at h
        cases h
      · dsimp only at h
        rw [Table.lookup_insert] at h
        split at h
        · rename_i hm
          cases h
          exact .proposed hdata hm hepoch (by rw [hstep]; exact hrollover)
        · rw [hvacant] at h
          cases h
    · rw [hvacant] at h
      cases h

theorem handleKeyGenConfirmed_opens (hvacant : s.signing.lookup m = none)
    {log : Core.EventLog Event} {gid : B256} {participant : Address}
    (hdata : log.data = .keyGenConfirmed gid participant)
    (h : (t.applyTransition s (.event log)).1.signing.lookup m = some x) :
    Opening t s m (.event log) x := by
  have hstep : t.applyTransition s (.event log) =
      t.handleKeyGenConfirmed s log.block.number gid participant := by
    show t.onEvent s log.block.number log.address log.data = _
    rw [hdata]
    rfl
  have hsame := hstep
  rw [hstep] at h
  unfold Transition.handleKeyGenConfirmed at h hsame
  split at h
  · rename_i round hround
    rw [hround] at hsame
    dsimp only at hsame
    split at h
    · rename_i hgroup
      rw [if_pos hgroup] at hsame
      dsimp only at h
      split at h
      · rw [hvacant] at h
        cases h
      · rename_i hall
        rw [if_neg hall] at hsame
        split at h
        · unfold Transition.genesisConfirmed at h
          dsimp only at h
          split at h
          · change (Transition.finalizeKeyGen _ _ _ _).signing.lookup m = some x at h
            rw [finalizeKeyGen_eq.2.1, hvacant] at h
            cases h
          · rw [finalizeKeyGen_eq.2.1, hvacant] at h
            cases h
        · rename_i proposed hnext
          rw [hnext] at hsame
          dsimp only at hsame
          rcases lookup_epochConfirmed h with hold | ⟨epoch, hepoch, hm, rfl⟩
          · rw [hvacant] at hold
            cases hold
          · refine .confirmed (hgroup ▸ hdata) hround hnext hm hepoch ?_
            rw [hsame, hm]
            rfl
    · rw [hvacant] at h
      cases h
  · rw [hvacant] at h
    cases h

/-- **A session is opened by a proposed transaction or by a confirmed ceremony.** -/
theorem opening_applyTransition (hvacant : s.signing.lookup m = none)
    (h : (t.applyTransition s message).1.signing.lookup m = some x) : Opening t s m message x := by
  have hstays : (t.applyTransition s message).1.signing.lookup m ≠ none := by
    rw [h]
    exact fun h => nomatch h
  cases message with
  | newBlock block =>
      refine absurd ?_ hstays
      show (t.newBlock s block).1.signing.lookup m = none
      rw [newBlock_signing, Table.lookup_filterMap, hvacant]
      rfl
  | resume result =>
      refine absurd ?_ hstays
      show (t.onResume s result).1.signing.lookup m = none
      cases result with
      | noop => exact hvacant
      | setup groupId secrets => exact hvacant
      | nonceCommitments signatureId nonces =>
          show (Transition.handleNonceCommitments s signatureId nonces).1.signing.lookup m = none
          rw [Changes.handleNonceCommitments]
          exact hvacant
      | nonces m' nonces =>
          show (t.handleNonces s m' nonces).1.signing.lookup m = none
          rw [Changes.handleNonces]
          exact hvacant
  | event log =>
      by_cases hproposed : ∃ oracle epoch oracleData tx,
          log.data = .transactionProposed oracle epoch oracleData tx
      · obtain ⟨oracle, epoch, oracleData, tx, hdata⟩ := hproposed
        exact handleTransactionProposed_opens hvacant hdata h
      by_cases hconfirmed : ∃ gid participant, log.data = .keyGenConfirmed gid participant
      · obtain ⟨gid, participant, hdata⟩ := hconfirmed
        exact handleKeyGenConfirmed_opens hvacant hdata h
      refine absurd ?_ hstays
      show (t.onEvent s log.block.number log.address log.data).1.signing.lookup m = none
      cases hdata : log.data with
      | keyGen gid => exact hvacant
      | keyGenCommitted gid participant commitment => exact hvacant
      | keyGenSecretShared gid participant share => exact hvacant
      | keyGenConfirmed gid participant => exact absurd ⟨gid, participant, hdata⟩ hconfirmed
      | keyGenComplained gid plaintiff accused => exact hvacant
      | keyGenComplaintResponded gid plaintiff accused secretShare => exact hvacant
      | sign gid m' sid =>
          show (t.handleSign s log.block.number gid m' sid).1.signing.lookup m = none
          unfold Transition.handleSign
          split
          · rename_i hy
            split
            · exact vacant_insert hvacant hy _
            · exact hvacant
          · exact hvacant
      | signCommittedNonces sid participant nonces =>
          show (t.handleSignCommittedNonces s log.block.number sid participant nonces).1.signing.lookup m =
            none
          unfold Transition.handleSignCommittedNonces
          split
          · exact hvacant
          · split
            · rename_i hy
              exact vacant_insert hvacant hy _
            · exact hvacant
      | signShared sid root participant =>
          show (Transition.handleSignShared s sid root participant).1.signing.lookup m = none
          unfold Transition.handleSignShared
          split
          · exact hvacant
          · split
            · rename_i hy
              exact vacant_insert hvacant hy _
            · exact hvacant
      | signCompleted sid =>
          show (t.handleSignCompleted s log.block.number sid).1.signing.lookup m = none
          unfold Transition.handleSignCompleted
          split
          · exact hvacant
          · split
            · rename_i hy
              exact vacant_insert hvacant hy _
            · exact hvacant
      | epochStaged proposedEpoch gid signatureId =>
          show (Transition.handleEpochStaged s proposedEpoch gid).1.signing.lookup m = none
          unfold Transition.handleEpochStaged
          split
          · split
            · rw [(handleSignAttested_eq _).2.2.2, finalizeKeyGen_eq.2.1]
              exact vacant_erase hvacant _
            · exact hvacant
          · exact hvacant
          · exact hvacant
      | transactionProposed oracle epoch oracleData tx =>
          exact absurd ⟨oracle, epoch, oracleData, tx, hdata⟩ hproposed
      | transactionAttested safeTxHash oracle epoch oracleDataHash signatureId =>
          exact vacant_erase hvacant _
      | oracleResult requestId isApproved =>
          show (t.handleOracleResult s log.block.number log.address requestId isApproved).1.signing.lookup
            m = none
          unfold Transition.handleOracleResult
          split
          · rename_i hy
            split
            · split
              · exact vacant_insert hvacant hy _
              · exact vacant_erase hvacant _
            · exact hvacant
          · exact hvacant
      | other => exact hvacant

end Safenet.Validator
