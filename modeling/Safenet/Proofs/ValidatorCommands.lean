/-
What a validator asks for, and the session it asks it for.

`Emitted` lists the commands of one message.  A command of a signing ceremony is asked for by a
session in the state after the message, except for the direct submission of an attestation, which
ends its session.
-/
import Safenet.Proofs.ValidatorChanges

namespace Safenet.Validator

open RolloverState SigningState

/-- A command of key generation. -/
inductive IsKeyGen : Command → Prop
  | setup {groupId : B256} {count threshold : Nat} :
      IsKeyGen (.effect (.keyGenSetup groupId count threshold))
  | commit {participants : B256} {count threshold : Nat} {context : B256} {poap : List B256}
      {commitment : Contracts.FROSTCoordinator.KeyGenCommitment} {expiresAt : Option Nat} :
      IsKeyGen (.action
        (.keyGenAndCommit participants count threshold context poap commitment expiresAt))
  | share {groupId : B256} {share : Contracts.FROSTCoordinator.KeyGenSecretShare}
      {expiresAt : Option Nat} : IsKeyGen (.action (.keyGenSecretShare groupId share expiresAt))
  | complain {groupId : B256} {accused : Address} {expiresAt : Option Nat} :
      IsKeyGen (.action (.keyGenComplain groupId accused expiresAt))
  | confirm {groupId : B256} {callback : Option Callback} {expiresAt : Option Nat} :
      IsKeyGen (.action (.keyGenConfirm groupId callback expiresAt))
  | respond {groupId : B256} {plaintiff : Address} {secretShare : B256} {expiresAt : Option Nat} :
      IsKeyGen (.action (.keyGenComplaintResponse groupId plaintiff secretShare expiresAt))

/-- A command of one message that takes `s` to `s'`. -/
inductive Emitted (t : Transition) (message : Message) (s s' : State) : Command → Prop
  | keyGen {c : Command} (h : IsKeyGen c) : Emitted t message s s' c
  | reconcile {block : Nat} (hmessage : message = .newBlock block) :
      Emitted t message s s'
        (.effect (.reconcileGroupSecrets block (Transition.retainedGroups s')))
  | generate {m : B256} {session : CollectNonceCommitments}
      (hx : s'.signing.lookup m = some (.collectNonceCommitments session)) :
      Emitted t message s s'
        (.effect (.generateNonces session.groupId session.signatureId session.keyShare))
  | use {m : B256} {session : CollectSigningShares}
      (hx : s'.signing.lookup m = some (.collectSigningShares session)) :
      Emitted t message s s' (.effect (.useNonces m session.signatureId))
  | commit {m : B256} {session : CollectNonceCommitments} {nonces : Contracts.Coordinator.SignNonces}
      (hx : s'.signing.lookup m = some (.collectNonceCommitments session)) :
      Emitted t message s s' (.action (.commitNonces session.signatureId nonces session.deadline))
  | share {m : B256} {session : CollectSigningShares} {nonces : SigningNonces} {share : SignatureShare}
      {callback : Callback} (hx : s'.signing.lookup m = some (.collectSigningShares session))
      (hmessage : message = .resume (.nonces m nonces))
      (hshare : signatureShare t.externals.toFrostCrate t.externals.keccak256 session.keyShare nonces
        session.committed m = .ok share) :
      Emitted t message s s' (.action (.signShare session.signatureId share callback session.deadline))
  | sign {m : B256} {session : WaitingForRequest}
      (hx : s'.signing.lookup m = some (.waitingForRequest session)) :
      Emitted t message s s' (.action (.sign session.groupId m session.deadline))
  | attest {m : B256} {session : WaitingForAttestation} {deadline : Nat}
      (hx : s.signing.lookup m = some (.waitingForAttestation session)) :
      Emitted t message s s' (.action
        (session.packet.attestationAction t.externals.keccak256 session.signatureId deadline))

/-! ### Key generation -/

/-- All commands are of key generation. -/
def AllKeyGen (commands : List Command) : Prop := ∀ c ∈ commands, IsKeyGen c

namespace AllKeyGen

variable {t : Transition}

theorem nil : AllKeyGen [] := fun _ h => nomatch h

theorem single {c : Command} (h : IsKeyGen c) : AllKeyGen [c] := by
  intro c' hc
  rwa [List.mem_singleton.mp hc]

theorem append {l l' : List Command} (h : AllKeyGen l) (h' : AllKeyGen l') : AllKeyGen (l ++ l') := by
  intro c hc
  rcases List.mem_append.mp hc with hc | hc
  · exact h c hc
  · exact h' c hc

theorem startKeyGen {next : EpochId} {participants : ParticipantSet} {deadline : Option Nat} :
    AllKeyGen (t.startKeyGen next participants deadline).2 := by
  unfold Transition.startKeyGen
  split
  · exact single .setup
  · exact nil

theorem restartKeyGenExcluding {next : EpochId} {excluded : Finset Address} {deadline : Option Nat} :
    AllKeyGen (t.restartKeyGenExcluding next excluded deadline).2 := by
  unfold Transition.restartKeyGenExcluding
  split
  · exact startKeyGen
  · exact nil

theorem finalizeKeyGenCommitments {next : EpochId} {group : Group} {secrets : Option Secrets}
    {commitments : Table Address VerifiedCommitment} {deadline : Option Nat} :
    AllKeyGen (t.finalizeKeyGenCommitments next group secrets commitments deadline).2 := by
  unfold Transition.finalizeKeyGenCommitments
  split
  · rename_i participation commands h
    unfold Transition.participate at h
    split at h
    · obtain ⟨shares, -, hpair⟩ := Fallible.bind_eq_ok.mp h
      have heq := Fallible.pure_eq_ok.mp hpair
      simp only [Prod.mk.injEq] at heq
      rw [← heq.2]
      exact single .share
    · obtain ⟨shares, -, hpair⟩ := Fallible.bind_eq_ok.mp h
      have heq := Fallible.pure_eq_ok.mp hpair
      simp only [Prod.mk.injEq] at heq
      rw [← heq.2]
      exact nil
  · exact nil

theorem confirmKeyGen {epoch : EpochId} {group : Group} {sharingState : SharingState}
    {shares : Table Address VerifiedShare} {deadlines : Option ConfirmationDeadlines}
    {status : KeyGenConfirmation} {commands : List Command}
    (h : t.confirmKeyGen epoch group sharingState shares deadlines = .ok (status, commands)) :
    AllKeyGen commands := by
  obtain ⟨keyShare, -, hpair⟩ := Fallible.bind_eq_ok.mp h
  have heq := Fallible.pure_eq_ok.mp hpair
  simp only [Prod.mk.injEq] at heq
  rw [← heq.2]
  exact single .confirm

theorem genesisKeyGen (r : RolloverState) (gid : B256) : AllKeyGen (t.genesisKeyGen r gid).2 := by
  unfold Transition.genesisKeyGen
  split
  · split
    · exact startKeyGen
    · exact nil
  · exact nil

theorem keyGenSetup (r : RolloverState) (groupId : B256) (secrets : Secrets) :
    AllKeyGen (t.keyGenSetup r groupId secrets).2 := by
  have hpublish : ∀ round poap, AllKeyGen (t.publishCommitment round poap secrets) := by
    intro round poap
    unfold Transition.publishCommitment
    split
    · exact nil
    · exact single .commit
  unfold Transition.keyGenSetup
  split
  · split
    · split
      · dsimp only
        split
        · exact hpublish _ _
        · exact (hpublish _ _).append finalizeKeyGenCommitments
      · exact nil
    · exact nil
  · exact nil

theorem keyGenCommitted (r : RolloverState) (block : Nat) (gid : B256) (participant : Address)
    (commitment : Contracts.FROSTCoordinator.KeyGenCommitment) :
    AllKeyGen (t.keyGenCommitted r block gid participant commitment).2 := by
  unfold Transition.keyGenCommitted
  split
  · split
    · dsimp only
      split
      · exact nil
      · split
        · exact finalizeKeyGenCommitments
        · exact finalizeKeyGenCommitments
        · exact nil
    · exact nil
  · exact nil

theorem registerShare (round : CollectingShares) (block : Nat) (participant : Address)
    (share : Contracts.FROSTCoordinator.KeyGenSecretShare) :
    AllKeyGen (t.registerShare round block participant share).2 := by
  unfold Transition.registerShare
  split
  · unfold Transition.addShare
    split
    · split
      · exact nil
      · exact single .complain
    · exact nil
  · exact nil

theorem startConfirmations {round : CollectingShares} {block : Nat} {commands : List Command}
    (h : AllKeyGen commands) : AllKeyGen (t.startConfirmations round block commands).2 := by
  unfold Transition.startConfirmations
  dsimp only
  split
  · rename_i status confirmCommands hstatus
    refine h.append ?_
    unfold Transition.initialStatus at hstatus
    split at hstatus
    · split at hstatus
      · exact confirmKeyGen hstatus
      · cases hstatus
        exact nil
    · cases hstatus
      exact nil
  · exact nil

theorem keyGenSecretShared (r : RolloverState) (block : Nat) (gid : B256) (participant : Address)
    (share : Contracts.FROSTCoordinator.KeyGenSecretShare) :
    AllKeyGen (t.keyGenSecretShared r block gid participant share).2 := by
  unfold Transition.keyGenSecretShared
  split
  · split
    · dsimp only
      split
      · exact registerShare _ _ _ _
      · exact startConfirmations (registerShare _ _ _ _)
    · exact nil
  · exact nil

theorem revealShare {participation : KeyGenParticipation} {group : Group}
    {plaintiff accused : Address} {requiresResponse : Bool} {expiresAt : Option Nat} :
    AllKeyGen (t.revealShare participation group plaintiff accused requiresResponse expiresAt) := by
  unfold Transition.revealShare
  split
  · split
    · split
      · exact single .respond
      · exact nil
    · exact nil
  · exact nil

theorem keyGenComplained (r : RolloverState) (block : Nat) (gid : B256)
    (plaintiff accused : Address) :
    AllKeyGen (t.keyGenComplained r block gid plaintiff accused).2 := by
  unfold Transition.keyGenComplained
  split
  · split
    · dsimp only
      split
      · exact restartKeyGenExcluding
      · exact revealShare
    · exact nil
  · split
    · dsimp only
      split
      · exact restartKeyGenExcluding
      · exact revealShare
    · exact nil
  · exact nil

theorem confirmRevealed (round : CollectingConfirmations) : AllKeyGen (t.confirmRevealed round).2 := by
  unfold Transition.confirmRevealed
  split
  · split
    · split
      · rename_i h
        exact confirmKeyGen h
      · exact nil
    · exact nil
  · exact nil

theorem keyGenComplaintResponded (r : RolloverState) (block : Nat) (gid : B256)
    (plaintiff accused : Address) (secretShare : B256) :
    AllKeyGen (t.keyGenComplaintResponded r block gid plaintiff accused secretShare).2 := by
  unfold Transition.keyGenComplaintResponded
  split
  · split
    · split
      · exact nil
      · split
        · exact nil
        · exact restartKeyGenExcluding
    · exact nil
  · split
    · split
      · exact nil
      · split
        · exact confirmRevealed _
        · exact restartKeyGenExcluding
    · exact nil
  · exact nil

theorem handleKeyGenConfirmed (s : State) (block : Nat) (gid : B256) (participant : Address) :
    AllKeyGen (t.handleKeyGenConfirmed s block gid participant).2 := by
  unfold Transition.handleKeyGenConfirmed
  split
  · split
    · dsimp only
      split
      · exact nil
      · split
        · unfold Transition.genesisConfirmed
          dsimp only
          split
          · exact startKeyGen
          · exact nil
        · exact nil
    · exact nil
  · exact nil

theorem handleEpochStaged (s : State) (proposedEpoch : Nat) (groupId : B256) :
    AllKeyGen (Transition.handleEpochStaged s proposedEpoch groupId).2 := by
  unfold Transition.handleEpochStaged
  split
  · split
    · exact nil
    · exact nil
  · exact nil
  · exact nil

theorem handleRolloverNewBlock (s : State) (block : Nat) :
    AllKeyGen (t.handleRolloverNewBlock s block).2 := by
  unfold Transition.handleRolloverNewBlock
  split
  · exact nil
  · dsimp only
    split
    · exact nil
    · split
      · exact startKeyGen
      · exact nil

theorem keyGenTimeouts (r : RolloverState) (block : Nat) : AllKeyGen (t.keyGenTimeouts r block).2 := by
  have hrestart : AllKeyGen (t.restartStalled r block).2 := by
    unfold Transition.restartStalled
    split
    · exact restartKeyGenExcluding
    · exact nil
  unfold Transition.keyGenTimeouts
  split
  · split
    · exact nil
    · exact hrestart
  · exact hrestart

end AllKeyGen

/-! ### Signing -/

section Sessions

variable {t : Transition} {c : Command}

theorem mem_requested {session : WaitingForRequest} {sid : B256} {block : Nat}
    (h : c ∈ (t.requested session sid block).2) :
    ∃ session', (t.requested session sid block).1 = .collectNonceCommitments session' ∧
      c = .effect (.generateNonces session'.groupId session'.signatureId session'.keyShare) := by
  unfold Transition.requested at h ⊢
  split at h
  · cases h
  · obtain rfl := List.mem_singleton.mp h
    exact ⟨_, rfl, rfl⟩

theorem mem_approved {session : WaitingForOracle} {block : Nat} (h : c ∈ (t.approved session block).2) :
    ∃ session', (t.approved session block).1 = .collectNonceCommitments session' ∧
      c = .effect (.generateNonces session'.groupId session'.signatureId session'.keyShare) := by
  obtain rfl := List.mem_singleton.mp h
  exact ⟨_, rfl, rfl⟩

theorem mem_nonceCommitted {session : CollectNonceCommitments} {m : B256} {block : Nat}
    {participant : Address} {nonces : Contracts.Coordinator.SignNonces}
    (h : c ∈ (t.nonceCommitted session m block participant nonces).2) :
    ∃ session', (t.nonceCommitted session m block participant nonces).1 =
        .collectSigningShares session' ∧ c = .effect (.useNonces m session'.signatureId) := by
  unfold Transition.nonceCommitted at h ⊢
  dsimp only at h ⊢
  split at h
  · cases h
  · rename_i hlt
    rw [if_neg hlt]
    obtain rfl := List.mem_singleton.mp h
    exact ⟨_, rfl, rfl⟩

/-- What a session asks for at a new block. -/
theorem mem_timedOut {block : Nat} {m : B256} {x : SigningState}
    (h : c ∈ (t.timedOut block m x).commands) :
    (∃ session, (t.timedOut block m x).kept = some (.waitingForRequest session) ∧
      c = .action (.sign session.groupId m session.deadline)) ∨
    (∃ session, (t.timedOut block m x).kept = some (.collectSigningShares session) ∧
      c = .effect (.useNonces m session.signatureId)) ∨
    ∃ session, x = .waitingForAttestation session ∧ c = .action (session.packet.attestationAction
      t.externals.keccak256 session.signatureId (t.signingDeadline block)) := by
  unfold Transition.timedOut at h ⊢
  split at h
  · cases h
  · rename_i hdue
    rw [if_neg hdue]
    cases x with
    | waitingForRequest session =>
        left
        dsimp only at h ⊢
        unfold Transition.requestTimedOut at h ⊢
        split at h
        · cases h
        · dsimp only at h ⊢
          split at h
          · cases h
          · rename_i hkept
            rw [if_neg hkept]
            obtain rfl := List.mem_singleton.mp h
            exact ⟨_, rfl, rfl⟩
    | waitingForOracle session => cases h
    | collectNonceCommitments session =>
        right
        left
        dsimp only at h ⊢
        unfold Transition.noncesTimedOut at h ⊢
        split at h
        · cases h
        · rename_i hkept
          rw [if_neg hkept]
          obtain rfl := List.mem_singleton.mp h
          exact ⟨_, rfl, rfl⟩
    | collectSigningShares session =>
        left
        dsimp only at h ⊢
        unfold Transition.sharesTimedOut at h ⊢
        dsimp only at h ⊢
        split at h
        · cases h
        · rename_i hkept
          rw [if_neg hkept]
          split at h
          · obtain rfl := List.mem_singleton.mp h
            exact ⟨_, rfl, rfl⟩
          · cases h
    | waitingForAttestation session =>
        right
        right
        exact ⟨session, rfl, List.mem_singleton.mp h⟩

end Sessions

namespace Emitted

variable {t : Transition} {message : Message} {s s' : State} {c : Command}

theorem ofKeyGen {commands : List Command} (h : AllKeyGen commands) (hc : c ∈ commands) :
    Emitted t message s s' c := .keyGen (h c hc)

theorem handleSign {block : Nat} {gid m sid : B256} (h : c ∈ (t.handleSign s block gid m sid).2) :
    Emitted t message s (t.handleSign s block gid m sid).1 c := by
  unfold Transition.handleSign at h ⊢
  split at h
  · split at h
    · rename_i hgroup
      rw [if_pos hgroup]
      obtain ⟨session', heq, rfl⟩ := mem_requested h
      refine .generate (m := m) ?_
      dsimp only
      rw [heq]
      exact Table.lookup_insert_self _ _ _
    · cases h
  · cases h

theorem handleNonceCommitments {sid : B256} {nonces : Contracts.Coordinator.SignNonces}
    (h : c ∈ (Transition.handleNonceCommitments s sid nonces).2) :
    Emitted t message s (Transition.handleNonceCommitments s sid nonces).1 c := by
  rw [Changes.handleNonceCommitments]
  unfold Transition.handleNonceCommitments at h
  split at h
  · rename_i session hx
    obtain ⟨m, -, hm⟩ := Option.bind_eq_some_iff.mp hx
    split at h
    · rename_i hsid
      obtain rfl := List.mem_singleton.mp h
      rw [← hsid]
      exact .commit hm
    · cases h
  · cases h

theorem handleOracleResult {block : Nat} {oracle : Address} {m : B256} {isApproved : Bool}
    (h : c ∈ (t.handleOracleResult s block oracle m isApproved).2) :
    Emitted t message s (t.handleOracleResult s block oracle m isApproved).1 c := by
  unfold Transition.handleOracleResult at h ⊢
  split at h
  · split at h
    · rename_i horacle
      rw [if_pos horacle]
      split at h
      · rename_i happroved
        rw [if_pos happroved]
        have hc : c ∈ (t.approved _ block).2 := h
        obtain ⟨session', heq, rfl⟩ := mem_approved hc
        refine .generate (m := m) ?_
        dsimp only
        rw [heq]
        exact Table.lookup_insert_self _ _ _
      · cases h
    · cases h
  · cases h

theorem handleSignCommittedNonces {block : Nat} {sid : B256} {participant : Address}
    {nonces : Contracts.Coordinator.SignNonces}
    (h : c ∈ (t.handleSignCommittedNonces s block sid participant nonces).2) :
    Emitted t message s (t.handleSignCommittedNonces s block sid participant nonces).1 c := by
  unfold Transition.handleSignCommittedNonces at h ⊢
  split at h
  · cases h
  · dsimp only at h ⊢
    split at h
    · obtain ⟨session', heq, rfl⟩ := mem_nonceCommitted h
      refine .use ?_
      dsimp only
      rw [heq]
      exact Table.lookup_insert_self _ _ _
    · cases h

theorem handleNonces {m : B256} {nonces : SigningNonces}
    (h : c ∈ (t.handleNonces s m nonces).2) :
    Emitted t (.resume (.nonces m nonces)) s (t.handleNonces s m nonces).1 c := by
  rw [Changes.handleNonces]
  unfold Transition.handleNonces at h
  split at h
  · rename_i session hx
    split at h
    · rename_i share hshare
      obtain rfl := List.mem_singleton.mp h
      exact .share hx rfl hshare
    · cases h
  · cases h

theorem handleSigningTimeouts {block : Nat} (h : c ∈ (t.handleSigningTimeouts s block).2)
    (hsigning : s'.signing = (t.handleSigningTimeouts s block).1.signing) :
    Emitted t message s s' c := by
  obtain ⟨⟨m, x⟩, hrow, hc⟩ := List.mem_flatMap.mp h
  have hx : s.signing.lookup m = some x := Table.lookup_eq_some.mpr hrow
  have hafter : s'.signing.lookup m = (t.timedOut block m x).kept := by
    rw [hsigning]
    show (s.signing.filterMap fun m x => (t.timedOut block m x).kept).lookup m = _
    rw [Table.lookup_filterMap, hx]
    rfl
  rcases mem_timedOut hc with ⟨session, hkept, rfl⟩ | ⟨session, hkept, rfl⟩ | ⟨session, rfl, rfl⟩
  · exact .sign (hafter.trans hkept)
  · exact .use (hafter.trans hkept)
  · exact .attest hx

/-- The clock does not touch the sessions. -/
theorem handleRolloverNewBlock_signing (block : Nat) :
    (t.handleRolloverNewBlock s block).1.signing = s.signing := by
  have hactivate : ∀ target, (Transition.activate s target).signing = s.signing := by
    intro target
    unfold Transition.activate
    split
    · rfl
    · rfl
  unfold Transition.handleRolloverNewBlock
  split
  · rfl
  · dsimp only
    split
    · rfl
    · split
      · exact hactivate _
      · exact hactivate _

theorem newBlock {block : Nat} (h : c ∈ (t.newBlock s block).2) :
    Emitted t (.newBlock block) s (t.newBlock s block).1 c := by
  unfold Transition.newBlock at h
  dsimp only at h
  rcases List.mem_append.mp h with h | h
  · rcases List.mem_append.mp h with h | h
    · rcases List.mem_append.mp h with h | h
      · exact ofKeyGen (AllKeyGen.handleRolloverNewBlock s block) h
      · exact ofKeyGen (AllKeyGen.keyGenTimeouts _ block) h
    · have hemitted : Emitted t (.newBlock block) _ (t.newBlock s block).1 c :=
        handleSigningTimeouts h rfl
      cases hemitted with
      | attest hx => exact .attest (by rw [← handleRolloverNewBlock_signing block]; exact hx)
      | keyGen hc => exact .keyGen hc
      | reconcile hmessage => exact .reconcile hmessage
      | generate hx => exact .generate hx
      | use hx => exact .use hx
      | commit hx => exact .commit hx
      | share hx hmessage hshare => exact .share hx hmessage hshare
      | sign hx => exact .sign hx
  · obtain rfl := List.mem_singleton.mp h
    exact .reconcile rfl

/-- **Every command of a message is one of these.** -/
theorem applyTransition (h : c ∈ (t.applyTransition s message).2) :
    Emitted t message s (t.applyTransition s message).1 c := by
  cases message with
  | newBlock block => exact newBlock h
  | resume result =>
      change c ∈ (t.onResume s result).2 at h
      cases result with
      | noop => cases h
      | setup groupId secrets => exact ofKeyGen (AllKeyGen.keyGenSetup _ groupId secrets) h
      | nonceCommitments sid nonces => exact handleNonceCommitments h
      | nonces m nonces => exact handleNonces h
  | event log =>
      show Emitted t _ s (t.onEvent s log.block.number log.address log.data).1 c
      change c ∈ (t.onEvent s log.block.number log.address log.data).2 at h
      cases hdata : log.data with
      | keyGen gid =>
          rw [hdata] at h
          exact ofKeyGen (AllKeyGen.genesisKeyGen _ gid) h
      | keyGenCommitted gid participant commitment =>
          rw [hdata] at h
          exact ofKeyGen (AllKeyGen.keyGenCommitted _ _ gid participant commitment) h
      | keyGenSecretShared gid participant share =>
          rw [hdata] at h
          exact ofKeyGen (AllKeyGen.keyGenSecretShared _ _ gid participant share) h
      | keyGenConfirmed gid participant =>
          rw [hdata] at h
          exact ofKeyGen (AllKeyGen.handleKeyGenConfirmed s _ gid participant) h
      | keyGenComplained gid plaintiff accused =>
          rw [hdata] at h
          exact ofKeyGen (AllKeyGen.keyGenComplained _ _ gid plaintiff accused) h
      | keyGenComplaintResponded gid plaintiff accused secretShare =>
          rw [hdata] at h
          exact ofKeyGen (AllKeyGen.keyGenComplaintResponded _ _ gid plaintiff accused secretShare) h
      | sign gid m sid =>
          rw [hdata] at h
          exact handleSign h
      | signCommittedNonces sid participant nonces =>
          rw [hdata] at h
          exact handleSignCommittedNonces h
      | signShared sid root participant =>
          rw [hdata] at h
          refine absurd h ?_
          show c ∉ (Transition.handleSignShared s sid root participant).2
          unfold Transition.handleSignShared
          split
          · exact List.not_mem_nil
          · split
            · exact List.not_mem_nil
            · exact List.not_mem_nil
      | signCompleted sid =>
          rw [hdata] at h
          refine absurd h ?_
          show c ∉ (t.handleSignCompleted s _ sid).2
          unfold Transition.handleSignCompleted
          split
          · exact List.not_mem_nil
          · split
            · exact List.not_mem_nil
            · exact List.not_mem_nil
      | epochStaged proposedEpoch groupId signatureId =>
          rw [hdata] at h
          exact ofKeyGen (AllKeyGen.handleEpochStaged s proposedEpoch groupId) h
      | transactionProposed oracle epoch oracleData tx =>
          rw [hdata] at h
          refine absurd h ?_
          show c ∉ (t.handleTransactionProposed s _ oracle _ oracleData tx).2
          unfold Transition.handleTransactionProposed
          split
          · exact List.not_mem_nil
          · split
            · dsimp only
              split
              · exact List.not_mem_nil
              · exact List.not_mem_nil
            · exact List.not_mem_nil
      | transactionAttested safeTxHash oracle epoch oracleDataHash signatureId =>
          rw [hdata] at h
          cases h
      | oracleResult m isApproved =>
          rw [hdata] at h
          exact handleOracleResult h
      | other =>
          rw [hdata] at h
          cases h

end Emitted

end Safenet.Validator
