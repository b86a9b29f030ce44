/-
One polynomial per group.

The secrets of a key generation are asked for by its start and by nothing else (`Starts`), and a
commitment is only published by the setup of a round that does not have it yet (`mem_keyGenSetup`).
What is published is what the store has answered, and the store answers the same for as long as it keeps
the row.
-/
import Safenet.Proofs.SecretRuns

namespace Safenet.Validator

open RolloverState Trace

/-! ### What starts a key generation -/

/-- The groups whose secrets are asked for. -/
def setups (commands : List Command) : List B256 :=
  commands.filterMap fun
    | .effect (.keyGenSetup groupId _ _) => some groupId
    | _ => none

/-- Neither asks for secrets nor publishes a commitment. -/
def Quiet : Command → Prop
  | .effect (.keyGenSetup _ _ _) => False
  | .action (.keyGenAndCommit _ _ _ _ _ _ _) => False
  | _ => True

/-- All commands are quiet. -/
def AllQuiet (commands : List Command) : Prop := ∀ c ∈ commands, Quiet c

/-- What a handler has done is what a start of a key generation does, or is quiet. -/
def Starts (t : Transition) (result : RolloverState × List Command) : Prop :=
  (∃ next participants deadline, result = t.startKeyGen next participants deadline) ∨ AllQuiet result.2

namespace AllQuiet

theorem nil : AllQuiet [] := fun _ h => nomatch h

theorem single {c : Command} (h : Quiet c) : AllQuiet [c] := by
  intro c' hc
  rwa [List.mem_singleton.mp hc]

theorem append {l l' : List Command} (h : AllQuiet l) (h' : AllQuiet l') : AllQuiet (l ++ l') := by
  intro c hc
  rcases List.mem_append.mp hc with hc | hc
  · exact h c hc
  · exact h' c hc

theorem setups_eq {commands : List Command} (h : AllQuiet commands) : setups commands = [] := by
  rw [setups, List.filterMap_eq_nil_iff]
  intro c hc
  have hquiet := h c hc
  cases c with
  | action action => rfl
  | effect effect =>
    cases effect with
    | keyGenSetup groupId count threshold => exact absurd hquiet id
    | generateNonces groupId signatureId keyShare => rfl
    | useNonces message signatureId => rfl
    | reconcileGroupSecrets block groups => rfl

end AllQuiet

namespace Starts

variable {t : Transition}

theorem nil {r : RolloverState} : Starts t (r, []) := .inr .nil

theorem startKeyGen {next : EpochId} {participants : ParticipantSet} {deadline : Option Nat} :
    Starts t (t.startKeyGen next participants deadline) := .inl ⟨next, participants, deadline, rfl⟩

theorem restartKeyGenExcluding {next : EpochId} {excluded : Finset Address} {deadline : Option Nat} :
    Starts t (t.restartKeyGenExcluding next excluded deadline) := by
  unfold Transition.restartKeyGenExcluding
  split
  · exact startKeyGen
  · exact nil

theorem finalizeKeyGenCommitments {next : EpochId} {group : Group} {secrets : Option Secrets}
    {commitments : Table Address VerifiedCommitment} {deadline : Option Nat} :
    AllQuiet (t.finalizeKeyGenCommitments next group secrets commitments deadline).2 := by
  unfold Transition.finalizeKeyGenCommitments
  split
  · next participation commands h =>
    unfold Transition.participate at h
    split at h
    · obtain ⟨shares, -, hpair⟩ := Fallible.bind_eq_ok.mp h
      cases Fallible.pure_eq_ok.mp hpair
      exact .single trivial
    · obtain ⟨shares, -, hpair⟩ := Fallible.bind_eq_ok.mp h
      cases Fallible.pure_eq_ok.mp hpair
      exact .nil
  · exact .nil

theorem confirmKeyGen {epoch : EpochId} {group : Group} {sharingState : SharingState}
    {shares : Table Address VerifiedShare} {deadlines : Option ConfirmationDeadlines}
    {status : KeyGenConfirmation} {commands : List Command}
    (h : t.confirmKeyGen epoch group sharingState shares deadlines = .ok (status, commands)) :
    AllQuiet commands := by
  obtain ⟨keyShare, -, hpair⟩ := Fallible.bind_eq_ok.mp h
  cases Fallible.pure_eq_ok.mp hpair
  exact .single trivial

theorem genesisKeyGen (r : RolloverState) (gid : B256) : Starts t (t.genesisKeyGen r gid) := by
  unfold Transition.genesisKeyGen
  split
  · split
    · exact startKeyGen
    · exact nil
  · exact nil

theorem keyGenCommitted (r : RolloverState) (block : Nat) (gid : B256) (participant : Address)
    (commitment : Contracts.FROSTCoordinator.KeyGenCommitment) :
    Starts t (t.keyGenCommitted r block gid participant commitment) := by
  unfold Transition.keyGenCommitted
  split
  · split
    · dsimp only
      split
      · exact nil
      · split
        · exact .inr finalizeKeyGenCommitments
        · exact .inr finalizeKeyGenCommitments
        · exact nil
    · exact nil
  · exact nil

theorem registerShare (round : CollectingShares) (block : Nat) (participant : Address)
    (share : Contracts.FROSTCoordinator.KeyGenSecretShare) :
    AllQuiet (t.registerShare round block participant share).2 := by
  unfold Transition.registerShare
  split
  · unfold Transition.addShare
    split
    · split
      · exact .nil
      · exact .single trivial
    · exact .nil
  · exact .nil

theorem startConfirmations {round : CollectingShares} {block : Nat} {commands : List Command}
    (h : AllQuiet commands) : AllQuiet (t.startConfirmations round block commands).2 := by
  unfold Transition.startConfirmations
  dsimp only
  split
  · next status confirmCommands hstatus =>
    refine h.append ?_
    unfold Transition.initialStatus at hstatus
    split at hstatus
    · split at hstatus
      · exact confirmKeyGen hstatus
      · cases hstatus
        exact .nil
    · cases hstatus
      exact .nil
  · exact .nil

theorem keyGenSecretShared (r : RolloverState) (block : Nat) (gid : B256) (participant : Address)
    (share : Contracts.FROSTCoordinator.KeyGenSecretShare) :
    Starts t (t.keyGenSecretShared r block gid participant share) := by
  unfold Transition.keyGenSecretShared
  split
  · split
    · dsimp only
      split
      · exact .inr (registerShare _ _ _ _)
      · exact .inr (startConfirmations (registerShare _ _ _ _))
    · exact nil
  · exact nil

theorem revealShare {participation : KeyGenParticipation} {group : Group}
    {plaintiff accused : Address} {requiresResponse : Bool} {expiresAt : Option Nat} :
    AllQuiet (t.revealShare participation group plaintiff accused requiresResponse expiresAt) := by
  unfold Transition.revealShare
  split
  · split
    · split
      · exact .single trivial
      · exact .nil
    · exact .nil
  · exact .nil

theorem keyGenComplained (r : RolloverState) (block : Nat) (gid : B256) (plaintiff accused : Address) :
    Starts t (t.keyGenComplained r block gid plaintiff accused) := by
  unfold Transition.keyGenComplained
  split
  · split
    · dsimp only
      split
      · exact restartKeyGenExcluding
      · exact .inr revealShare
    · exact nil
  · split
    · dsimp only
      split
      · exact restartKeyGenExcluding
      · exact .inr revealShare
    · exact nil
  · exact nil

theorem confirmRevealed (round : CollectingConfirmations) : AllQuiet (t.confirmRevealed round).2 := by
  unfold Transition.confirmRevealed
  split
  · split
    · split
      · next h => exact confirmKeyGen h
      · exact .nil
    · exact .nil
  · exact .nil

theorem keyGenComplaintResponded (r : RolloverState) (block : Nat) (gid : B256)
    (plaintiff accused : Address) (secretShare : B256) :
    Starts t (t.keyGenComplaintResponded r block gid plaintiff accused secretShare) := by
  unfold Transition.keyGenComplaintResponded
  split
  · split
    · split
      · exact nil
      · split
        · exact nil
        · exact restartKeyGenExcluding
    · exact nil
  · split
    · split
      · exact nil
      · split
        · exact .inr (confirmRevealed _)
        · exact restartKeyGenExcluding
    · exact nil
  · exact nil

theorem handleKeyGenConfirmed (s : State) (block : Nat) (gid : B256) (participant : Address) :
    Starts t ((t.handleKeyGenConfirmed s block gid participant).1.rollover,
      (t.handleKeyGenConfirmed s block gid participant).2) := by
  unfold Transition.handleKeyGenConfirmed
  split
  · split
    · dsimp only
      split
      · exact nil
      · split
        · unfold Transition.genesisConfirmed
          dsimp only
          split
          · exact startKeyGen
          · exact nil
        · exact nil
    · exact nil
  · exact nil

theorem handleEpochStaged (s : State) (proposedEpoch : Nat) (groupId : B256) :
    AllQuiet (Transition.handleEpochStaged s proposedEpoch groupId).2 := by
  unfold Transition.handleEpochStaged
  split
  · split
    · exact .nil
    · exact .nil
  · exact .nil
  · exact .nil

theorem handleRolloverNewBlock (s : State) (block : Nat) :
    Starts t ((t.handleRolloverNewBlock s block).1.rollover, (t.handleRolloverNewBlock s block).2) := by
  unfold Transition.handleRolloverNewBlock
  split
  · exact nil
  · dsimp only
    split
    · exact nil
    · split
      · exact startKeyGen
      · exact nil

theorem keyGenTimeouts (r : RolloverState) (block : Nat) : Starts t (t.keyGenTimeouts r block) := by
  have hrestart : Starts t (t.restartStalled r block) := by
    unfold Transition.restartStalled
    split
    · exact restartKeyGenExcluding
    · exact nil
  unfold Transition.keyGenTimeouts
  split
  · split
    · exact nil
    · exact hrestart
  · exact hrestart

/-- A start asks for the secrets of its group, once, if this validator takes part. -/
theorem setups_startKeyGen (t : Transition) (next : EpochId) (participants : ParticipantSet)
    (deadline : Option Nat) :
    setups (t.startKeyGen next participants deadline).2 =
      if t.account ∈ participants.addresses then [(participants.group t.externals.keccak256).id] else [] := by
  unfold Transition.startKeyGen ParticipantSet.participateAs
  split_ifs <;> rfl

theorem quiet_startKeyGen {next : EpochId} {participants : ParticipantSet} {deadline : Option Nat}
    {commitment : Command} (h : commitment ∈ (t.startKeyGen next participants deadline).2) :
    ∃ groupId count threshold, commitment = .effect (.keyGenSetup groupId count threshold) := by
  unfold Transition.startKeyGen at h
  split at h
  · exact ⟨_, _, _, List.mem_singleton.mp h⟩
  · cases h

end Starts

/-! ### The commands of a message -/

section Message

variable {t : Transition} {s : State} {c : Command}

/-- A setup publishes the commitment of a round that has none of this validator. -/
theorem mem_keyGenSetup {r : RolloverState} {groupId : B256} {secrets : Secrets}
    (h : c ∈ (t.keyGenSetup r groupId secrets).2) :
    Quiet c ∨ ∃ round poap, r = .collectingCommitments round ∧ groupId = round.group.id ∧
      round.commitments.lookup t.account = none ∧
      c = .action (.keyGenAndCommit round.group.root round.group.count round.group.threshold
        round.group.context poap secrets.commitment round.deadline) := by
  have hpublish : ∀ round poap, r = .collectingCommitments round → groupId = round.group.id →
      c ∈ t.publishCommitment round poap secrets → ∃ round poap, r = .collectingCommitments round ∧
        groupId = round.group.id ∧ round.commitments.lookup t.account = none ∧
        c = .action (.keyGenAndCommit round.group.root round.group.count round.group.threshold
          round.group.context poap secrets.commitment round.deadline) := by
    intro round poap hr hgroup hmem
    unfold Transition.publishCommitment at hmem
    split at hmem
    · cases hmem
    · next hnone =>
      exact ⟨round, poap, hr, hgroup, Option.not_isSome_iff_eq_none.mp hnone, List.mem_singleton.mp hmem⟩
  unfold Transition.keyGenSetup at h
  split at h
  · next round =>
    split at h
    · split at h
      · next hgroup =>
        dsimp only at h
        split at h
        · exact .inr (hpublish round _ rfl hgroup h)
        · rcases List.mem_append.mp h with h | h
          · exact .inr (hpublish round _ rfl hgroup h)
          · exact .inl (Starts.finalizeKeyGenCommitments c h)
      · cases h
    · cases h
  · cases h

theorem quiet_handleSigningTimeouts (block : Nat) : AllQuiet (t.handleSigningTimeouts s block).2 := by
  intro c hc
  obtain ⟨⟨m, x⟩, -, hrow⟩ := List.mem_flatMap.mp hc
  rcases mem_timedOut hrow with ⟨session, -, rfl⟩ | ⟨session, -, rfl⟩ | ⟨session, -, rfl⟩
  · trivial
  · trivial
  · cases hpacket : session.packet <;> trivial

/-- The results of the handlers that a message runs on the rollover state, one after the other. -/
def Transition.keyGenHandlers (t : Transition) (s : State) : Message → List (RolloverState × List Command)
  | .newBlock block =>
      let rollover := t.handleRolloverNewBlock s block
      [(rollover.1.rollover, rollover.2), t.keyGenTimeouts rollover.1.rollover block]
  | message => [((t.applyTransition s message).1.rollover, (t.applyTransition s message).2)]

/-- They ask for all the secrets that the message asks for. -/
theorem setups_applyTransition (message : Message) :
    setups (t.applyTransition s message).2 = (t.keyGenHandlers s message).flatMap fun h => setups h.2 := by
  cases message with
  | newBlock block =>
    show setups (t.newBlock s block).2 = _
    simp only [Transition.newBlock, Transition.handleGroupReconciliation, State.withRollover,
      Transition.keyGenHandlers, List.flatMap_cons, List.flatMap_nil, List.append_nil]
    have hsigning := fun s => (quiet_handleSigningTimeouts (t := t) (s := s) block).setups_eq
    simp only [setups, List.filterMap_append] at hsigning ⊢
    rw [hsigning]
    simp
  | event log => simp [Transition.keyGenHandlers]
  | resume result => simp [Transition.keyGenHandlers]

theorem quiet_handleSign {block : Nat} {gid m sid : B256} : AllQuiet (t.handleSign s block gid m sid).2 := by
  unfold Transition.handleSign
  split
  · split
    · intro c hc
      obtain ⟨session, -, rfl⟩ := mem_requested hc
      trivial
    · exact .nil
  · exact .nil

theorem quiet_handleNonceCommitments {sid : B256} {nonces : Contracts.Coordinator.SignNonces} :
    AllQuiet (Transition.handleNonceCommitments s sid nonces).2 := by
  unfold Transition.handleNonceCommitments
  split
  · split
    · exact .single trivial
    · exact .nil
  · exact .nil

theorem quiet_handleNonces {m : B256} {nonces : SigningNonces} : AllQuiet (t.handleNonces s m nonces).2 := by
  unfold Transition.handleNonces
  split
  · split
    · exact .single trivial
    · exact .nil
  · exact .nil

theorem quiet_handleOracleResult {block : Nat} {oracle : Address} {m : B256} {isApproved : Bool} :
    AllQuiet (t.handleOracleResult s block oracle m isApproved).2 := by
  unfold Transition.handleOracleResult
  split
  · split
    · split
      · intro c hc
        change c ∈ (t.approved _ block).2 at hc
        obtain ⟨session, -, rfl⟩ := mem_approved hc
        trivial
      · exact .nil
    · exact .nil
  · exact .nil

theorem quiet_handleSignCommittedNonces {block : Nat} {sid : B256} {participant : Address}
    {nonces : Contracts.Coordinator.SignNonces} :
    AllQuiet (t.handleSignCommittedNonces s block sid participant nonces).2 := by
  unfold Transition.handleSignCommittedNonces
  split
  · exact .nil
  · dsimp only
    split
    · intro c hc
      obtain ⟨session, -, rfl⟩ := mem_nonceCommitted hc
      trivial
    · exact .nil

/-- An event starts a key generation or is quiet. -/
theorem starts_onEvent (block : Nat) (oracle : Address) (event : Event) :
    Starts t ((t.onEvent s block oracle event).1.rollover, (t.onEvent s block oracle event).2) := by
  cases event with
  | keyGen gid => exact Starts.genesisKeyGen _ gid
  | keyGenCommitted gid participant commitment =>
      exact Starts.keyGenCommitted _ block gid participant commitment
  | keyGenSecretShared gid participant share =>
      exact Starts.keyGenSecretShared _ block gid participant share
  | keyGenConfirmed gid participant => exact Starts.handleKeyGenConfirmed s block gid participant
  | keyGenComplained gid plaintiff accused =>
      exact Starts.keyGenComplained _ block gid plaintiff accused
  | keyGenComplaintResponded gid plaintiff accused secretShare =>
      exact Starts.keyGenComplaintResponded _ block gid plaintiff accused secretShare
  | sign gid m sid => exact .inr quiet_handleSign
  | signCommittedNonces sid participant nonces => exact .inr quiet_handleSignCommittedNonces
  | signShared sid root participant =>
      refine .inr ?_
      show AllQuiet (Transition.handleSignShared s sid root participant).2
      unfold Transition.handleSignShared
      split
      · exact .nil
      · split <;> exact .nil
  | signCompleted sid =>
      refine .inr ?_
      show AllQuiet (t.handleSignCompleted s block sid).2
      unfold Transition.handleSignCompleted
      split
      · exact .nil
      · split <;> exact .nil
  | epochStaged proposedEpoch groupId signatureId =>
      exact .inr (Starts.handleEpochStaged s proposedEpoch groupId)
  | transactionProposed eventOracle epoch oracleData tx =>
      refine .inr ?_
      show AllQuiet (t.handleTransactionProposed s block eventOracle _ oracleData tx).2
      unfold Transition.handleTransactionProposed
      split
      · exact .nil
      · split
        · dsimp only
          split <;> exact .nil
        · exact .nil
  | transactionAttested safeTxHash eventOracle epoch oracleDataHash signatureId => exact .inr .nil
  | oracleResult m isApproved => exact .inr quiet_handleOracleResult
  | other => exact .inr .nil

/-- What a resume asks for. -/
theorem mem_onResume {result : Resume} (h : c ∈ (t.onResume s result).2) :
    Quiet c ∨ ∃ round poap secrets, s.rollover = .collectingCommitments round ∧
      result = .setup round.group.id secrets ∧ round.commitments.lookup t.account = none ∧
      c = .action (.keyGenAndCommit round.group.root round.group.count round.group.threshold
        round.group.context poap secrets.commitment round.deadline) := by
  cases result with
  | noop => cases h
  | setup groupId secrets =>
    rcases mem_keyGenSetup h with hquiet | ⟨round, poap, hr, hgroup, hnone, hc⟩
    · exact .inl hquiet
    · exact .inr ⟨round, poap, secrets, hr, by rw [hgroup], hnone, hc⟩
  | nonceCommitments sid nonces => exact .inl (quiet_handleNonceCommitments c h)
  | nonces m nonces => exact .inl (quiet_handleNonces c h)

/-- **Each handler asks for secrets once, and only if it starts a key generation.** -/
theorem setups_keyGenHandlers (message : Message) : ∀ h ∈ t.keyGenHandlers s message,
    setups h.2 = [] ∨ ∃ next participants deadline, h = t.startKeyGen next participants deadline ∧
      setups h.2 = [(participants.group t.externals.keccak256).id] := by
  have hstarts : ∀ h, Starts t h → setups h.2 = [] ∨
      ∃ next participants deadline, h = t.startKeyGen next participants deadline ∧
        setups h.2 = [(participants.group t.externals.keccak256).id] := by
    rintro h (⟨next, participants, deadline, rfl⟩ | hquiet)
    · rw [Starts.setups_startKeyGen]
      split_ifs
      · exact .inr ⟨next, participants, deadline, rfl, rfl⟩
      · exact .inl rfl
    · exact .inl hquiet.setups_eq
  intro h hh
  cases message with
  | newBlock block =>
    simp only [Transition.keyGenHandlers, List.mem_cons, List.not_mem_nil, or_false] at hh
    rcases hh with rfl | rfl
    · exact hstarts _ (Starts.handleRolloverNewBlock s block)
    · exact hstarts _ (Starts.keyGenTimeouts _ block)
  | event log =>
    rw [List.mem_singleton.mp hh]
    exact hstarts _ (starts_onEvent log.block.number log.address log.data)
  | resume result =>
    rw [List.mem_singleton.mp hh]
    refine .inl (List.filterMap_eq_nil_iff.mpr fun c hc => ?_)
    rcases mem_onResume hc with hquiet | ⟨round, poap, secrets, -, -, -, rfl⟩
    · exact List.filterMap_eq_nil_iff.mp (AllQuiet.single hquiet).setups_eq c List.mem_cons_self
    · rfl

/-- **A commitment is published by a setup, while the round does not have it.** -/
theorem mem_applyTransition_keyGenAndCommit {message : Message} {root context : B256}
    {count threshold : Nat} {poap : List B256}
    {commitment : Contracts.FROSTCoordinator.KeyGenCommitment} {expiresAt : Option Nat}
    (h : .action (.keyGenAndCommit root count threshold context poap commitment expiresAt) ∈
      (t.applyTransition s message).2) :
    ∃ round secrets, s.rollover = .collectingCommitments round ∧
      message = .resume (.setup round.group.id secrets) ∧ round.commitments.lookup t.account = none ∧
      root = round.group.root ∧ count = round.group.count ∧ threshold = round.group.threshold ∧
      context = round.group.context ∧ commitment = secrets.commitment := by
  have hstarts : ∀ result, Starts t result →
      .action (.keyGenAndCommit root count threshold context poap commitment expiresAt) ∉ result.2 := by
    rintro result (⟨next, participants, deadline, rfl⟩ | hquiet) hmem
    · obtain ⟨_, _, _, hc⟩ := Starts.quiet_startKeyGen hmem
      cases hc
    · exact hquiet _ hmem
  cases message with
  | newBlock block =>
    exfalso
    change _ ∈ (t.newBlock s block).2 at h
    unfold Transition.newBlock at h
    rcases List.mem_append.mp h with h | h
    · rcases List.mem_append.mp h with h | h
      · rcases List.mem_append.mp h with h | h
        · exact hstarts _ (Starts.handleRolloverNewBlock s block) h
        · exact hstarts _ (Starts.keyGenTimeouts _ block) h
      · exact quiet_handleSigningTimeouts block _ h
    · cases List.mem_singleton.mp h
  | event log =>
    exact absurd h (hstarts _ (starts_onEvent log.block.number log.address log.data))
  | resume result =>
    rcases mem_onResume h with hquiet | ⟨round, poap, secrets, hr, rfl, hnone, hc⟩
    · exact absurd hquiet id
    · cases hc
      exact ⟨round, secrets, hr, rfl, hnone, rfl, rfl, rfl, rfl, rfl⟩

end Message

/-! ### The name of a group -/

/-- The group of a commitment round has the id of its parameters. -/
def Named (t : Transition) (r : RolloverState) : Prop :=
  ∀ round, r = .collectingCommitments round →
    round.group.id = groupId t.externals.keccak256 round.group.root round.group.count round.group.threshold
      round.group.context

section Named

variable {t : Transition}

theorem named_startKeyGen {next : EpochId} {participants : ParticipantSet} {deadline : Option Nat} :
    Named t (t.startKeyGen next participants deadline).1 := by
  intro round hround
  unfold Transition.startKeyGen ParticipantSet.participateAs at hround
  split_ifs at hround <;> cases hround <;> rfl

theorem named_failure {next : EpochId} : Named t (rolloverFailure next) := by
  cases next with
  | genesis => exact nofun
  | number n => exact nofun

theorem named_keyGenMove {message : Message} {s₀ : State} {r r' : RolloverState}
    (h : KeyGenMove t message s₀ r r') (hr : Named t r) : Named t r' := by
  cases h with
  | stay => exact hr
  | genesis => exact named_startKeyGen
  | restart h => exact named_startKeyGen
  | fail h => exact named_failure
  | secrets h hmessage hrollover =>
    rintro round ⟨⟩
    have hround := hr _ rfl
    exact hround
  | commit =>
    rintro round ⟨⟩
    have hround := hr _ rfl
    exact hround
  | shares hsupplied hepoch hgroup h => exact nofun
  | share hepoch hgroup hparticipation => exact nofun
  | confirmations hregistered hepoch hgroup hparticipation h => exact nofun
  | confirmation hepoch hgroup hparticipation hstatus => exact nofun

theorem named_finalizeKeyGen {s : State} {epoch : EpochId} {group : Group} {keyShare : Option KeyShare}
    (h : Named t s.rollover) : Named t (Transition.finalizeKeyGen s epoch group keyShare).rollover := by
  unfold Transition.finalizeKeyGen
  split <;> exact h

theorem named_change {message : Message} {s₀ s s' : State} (h : Change t message s₀ s s')
    (hs : Named t s.rollover) : Named t s'.rollover := by
  cases h with
  | rollover h => exact named_keyGenMove h hs
  | genesisConfirmed hrollover hepoch => exact named_finalizeKeyGen nofun
  | begin hrollover => exact named_startKeyGen
  | epochConfirmed hmessage hdata hrollover hepoch => exact nofun
  | staged hrollover => exact named_finalizeKeyGen nofun
  | attested =>
    unfold Transition.handleSignAttested
    split <;> exact hs
  | recovered hrollover hr =>
    rcases hr with rfl | ⟨next, rfl⟩ <;> exact nofun
  | due htarget hlt hactive => exact nofun
  | session hx h => exact hs
  | requested hmessage hdata hx => exact hs
  | rejected hx => exact hs
  | proposed hepoch horacle hvacant => exact hs
  | timeouts => exact hs
  | reaped => exact hs

theorem named_applyTransition {s : State} (message : Message) (h : Named t s.rollover) :
    Named t (t.applyTransition s message).1.rollover :=
  Changes.preserves (fun _ _ hchange => named_change hchange) (Changes.applyTransition t s message) h

end Named

namespace Node

variable {t : Transition}

/-- All states of a node are named. -/
def AllNamed (t : Transition) (node : Node) : Prop :=
  Named t node.state.rollover ∧ ∀ s ∈ node.reached, Named t s.rollover

theorem allNamed_advance {node : Node} (message : Message) (h : AllNamed t node) :
    AllNamed t (node.advance t message).1 := by
  have hstate := named_applyTransition message h.1
  refine ⟨hstate, fun s hs => ?_⟩
  rcases List.mem_cons.mp hs with rfl | hs
  · exact hstate
  · exact h.2 s hs

theorem allNamed_step (node : Node) (input : Input) (h : AllNamed t node) :
    AllNamed t (node.step t input).1 := by
  cases input with
  | newBlock number => exact allNamed_advance _ h
  | event log => exact allNamed_advance _ h
  | perform index sampled =>
    simp only [step]
    cases node.spawned[index]? <;> exact h
  | deliver index =>
    simp only [step]
    cases node.finished[index]? with
    | none => exact h
    | some answer => exact allNamed_advance _ h
  | housekeeping safe => exact h
  | restore index =>
    simp only [step]
    cases hstate : node.reached[index]? with
    | none => exact h
    | some state => exact ⟨h.2 state (List.mem_of_getElem? hstate), h.2⟩

/-! ### The secrets of a row -/

/-- A step after which the row of a group is gone. -/
def RemovesSecrets (key : B256 ×ₗ Address) (x : Step) : Prop :=
  (x.pre.store.keygenSecrets.lookup key).isSome ∧ x.post.store.keygenSecrets.lookup key = none

theorem hasSecrets_step {key : B256 ×ₗ Address} {secrets : Secrets} {node : Node} {input : Input}
    (h : SecretStore.HasSecrets key secrets node.store)
    (hrow : ¬RemovesSecrets key (take (step t) node input)) :
    SecretStore.HasSecrets key secrets (node.step t input).1.store := by
  have hstore := store_step t node input
  rw [RemovesSecrets, take_pre, take_post, hstore] at hrow
  rw [hstore]
  cases hcall : storeCall t node input with
  | none => exact h
  | some c =>
    rw [hcall] at hrow
    exact SecretStore.hasSecrets_call h hrow

/-- The step answers a request for the secrets of the group. -/
def Answers (groupId : B256) (secrets : Secrets) (x : Step) : Prop :=
  ∃ effect, x.out = .answered effect (.setup groupId secrets)

/-- What the store has done for an answer. -/
theorem storeCall_of_answers {node : Node} {input : Input} {groupId : B256} {secrets : Secrets}
    (h : Answers groupId secrets (take (step t) node input)) :
    ∃ generated, storeCall t node input = some (.storeKeygenSecrets groupId t.account generated) ∧
      (node.store.call (.storeKeygenSecrets groupId t.account generated)).2 = .secrets secrets := by
  obtain ⟨effect, hout⟩ := h
  rw [take_out] at hout
  cases input with
  | newBlock number => cases hout
  | event log => cases hout
  | perform index sampled =>
    simp only [step] at hout
    cases hspawned : node.spawned[index]? with
    | none =>
      rw [hspawned] at hout
      cases hout
    | some spawned =>
      rw [hspawned] at hout
      simp only [Output.answered.injEq] at hout
      obtain ⟨generated, hcall, hanswer⟩ := performEffect_setup hout.2
      exact ⟨generated, by simp only [storeCall, hspawned, Option.bind_some, hcall], hanswer⟩
  | deliver index =>
    simp only [step] at hout
    cases hanswer : node.finished[index]? <;> rw [hanswer] at hout <;> cases hout
  | housekeeping safe => cases hout
  | restore index =>
    simp only [step] at hout
    cases hstate : node.reached[index]? <;> rw [hstate] at hout <;> cases hout

/-- **Two answers for a group are the same unless its row was removed between them.** -/
theorem answers_between {inputs : List Input} {before middle after : List Step} {x y : Step}
    {groupId : B256} {secrets secrets' : Secrets}
    (h : trace (step t) .default inputs = before ++ x :: (middle ++ y :: after))
    (hx : Answers groupId secrets x) (hy : Answers groupId secrets' y)
    (hrow : ∀ z ∈ middle, ¬RemovesSecrets (toLex (groupId, t.account)) z) : secrets = secrets' := by
  obtain ⟨hxstep, hystep⟩ := eq_take_between h
  rw [hxstep] at hx
  rw [hystep] at hy
  obtain ⟨generated, hcall, hanswer⟩ := storeCall_of_answers hx
  obtain ⟨generated', hcall', hanswer'⟩ := storeCall_of_answers hy
  have hpost : SecretStore.HasSecrets (toLex (groupId, t.account)) secrets x.post.store := by
    rw [hxstep, take_post, store_step, hcall]
    exact SecretStore.hasSecrets_of_stored hanswer
  have hpre : SecretStore.HasSecrets (toLex (groupId, t.account)) secrets y.pre.store :=
    kept_between (P := fun node : Node => SecretStore.HasSecrets _ secrets node.store)
      (fun node input hs hnot => hasSecrets_step hs hnot) h hpost hrow
  have hsame : (y.pre.store.call (.storeKeygenSecrets groupId t.account generated')).2 = .secrets secrets :=
    SecretStore.stored_of_hasSecrets hpre
  rw [hsame] at hanswer'
  exact StoreAnswer.secrets.inj hanswer'

/-- What waits for delivery was answered. -/
def Waiting (steps : List Step) (node : Node) : Prop :=
  ∀ groupId secrets, .setup groupId secrets ∈ node.finished → ∃ x ∈ steps, Answers groupId secrets x

theorem waiting_step {steps : List Step} {node : Node} (h : Waiting steps node) (input : Input) :
    Waiting (steps ++ [take (step t) node input]) (node.step t input).1 := by
  have hold : ∀ groupId secrets, .setup groupId secrets ∈ node.finished →
      ∃ x ∈ steps ++ [take (step t) node input], Answers groupId secrets x := by
    intro groupId secrets hmem
    obtain ⟨x, hx, hanswers⟩ := h groupId secrets hmem
    exact ⟨x, List.mem_append_left _ hx, hanswers⟩
  intro groupId secrets hmem
  cases input with
  | newBlock number => exact hold groupId secrets hmem
  | event log => exact hold groupId secrets hmem
  | perform index sampled =>
    cases hspawned : node.spawned[index]? with
    | none =>
      simp only [step, hspawned] at hmem
      exact hold groupId secrets hmem
    | some effect =>
      simp only [step, hspawned] at hmem
      rcases List.mem_append.mp hmem with hmem | hmem
      · exact hold groupId secrets hmem
      · refine ⟨_, List.mem_append_right _ List.mem_cons_self, effect, ?_⟩
        rw [List.mem_singleton.mp hmem, take_out]
        simp only [step, hspawned]
  | deliver index =>
    cases hanswer : node.finished[index]? with
    | none =>
      simp only [step, hanswer] at hmem
      exact hold groupId secrets hmem
    | some answer =>
      simp only [step, hanswer] at hmem
      exact hold groupId secrets (List.mem_of_mem_eraseIdx hmem)
  | housekeeping safe => exact hold groupId secrets hmem
  | restore index =>
    cases hstate : node.reached[index]? with
    | none =>
      simp only [step, hstate] at hmem
      exact hold groupId secrets hmem
    | some state =>
      simp only [step, hstate] at hmem
      exact hold groupId secrets hmem

/-- The step publishes a commitment for the group with these parameters. -/
def Publishes (root : B256) (count threshold : Nat) (context : B256)
    (commitment : Contracts.FROSTCoordinator.KeyGenCommitment) (x : Step) : Prop :=
  ∃ poap expiresAt, .action (.keyGenAndCommit root count threshold context poap commitment expiresAt) ∈
    x.out.commandList

/-- A commitment is published by the delivery of an answer. -/
theorem finished_of_publishes {node : Node} {input : Input} {root context : B256} {count threshold : Nat}
    {commitment : Contracts.FROSTCoordinator.KeyGenCommitment}
    (h : Publishes root count threshold context commitment (take (step t) node input)) :
    ∃ round secrets, node.state.rollover = .collectingCommitments round ∧
      .setup round.group.id secrets ∈ node.finished ∧ round.commitments.lookup t.account = none ∧
      root = round.group.root ∧ count = round.group.count ∧ threshold = round.group.threshold ∧
      context = round.group.context ∧ commitment = secrets.commitment := by
  obtain ⟨poap, expiresAt, hmem⟩ := h
  rw [take_out] at hmem
  cases input with
  | newBlock number =>
    obtain ⟨round, secrets, -, hmessage, -⟩ := mem_applyTransition_keyGenAndCommit hmem
    cases hmessage
  | event log =>
    obtain ⟨round, secrets, -, hmessage, -⟩ := mem_applyTransition_keyGenAndCommit hmem
    cases hmessage
  | perform index sampled =>
    simp only [step] at hmem
    cases hspawned : node.spawned[index]? <;> rw [hspawned] at hmem <;> cases hmem
  | deliver index =>
    cases hanswer : node.finished[index]? with
    | none =>
      simp only [step, hanswer] at hmem
      cases hmem
    | some answer =>
      simp only [step, hanswer] at hmem
      obtain ⟨round, secrets, hr, hmessage, hrest⟩ := mem_applyTransition_keyGenAndCommit hmem
      cases hmessage
      exact ⟨round, secrets, hr, List.mem_of_getElem? hanswer, hrest⟩
  | housekeeping safe => cases hmem
  | restore index =>
    simp only [step] at hmem
    cases hstate : node.reached[index]? <;> rw [hstate] at hmem <;> cases hmem

/-- **What is published for a group was answered for it before.** -/
theorem answers_of_publishes {inputs : List Input} {before after : List Step} {x : Step}
    {root context : B256} {count threshold : Nat}
    {commitment : Contracts.FROSTCoordinator.KeyGenCommitment}
    (h : trace (step t) .default inputs = before ++ x :: after)
    (hx : Publishes root count threshold context commitment x) :
    ∃ y ∈ before, ∃ secrets, commitment = secrets.commitment ∧
      Answers (groupId t.externals.keccak256 root count threshold context) secrets y := by
  have hempty : Waiting [] Node.default := nofun
  have hdefault : AllNamed t Node.default := by
    refine ⟨nofun, fun s hs => ?_⟩
    rw [List.mem_singleton.mp hs]
    exact nofun
  have hinvariant := split_invariant
    (I := fun steps node => Waiting steps node ∧ AllNamed t node) (E := fun _ => True)
    ⟨hempty, hdefault⟩
    (fun steps node input ih _ => ⟨waiting_step ih.1 input, allNamed_step node input ih.2⟩)
    (fun _ _ => trivial) h
  obtain ⟨⟨hwaiting, hnamed, -⟩, hstep⟩ := hinvariant
  rw [hstep] at hx
  obtain ⟨round, secrets, hr, hmem, -, rfl, rfl, rfl, rfl, rfl⟩ := finished_of_publishes hx
  obtain ⟨y, hy, hanswers⟩ := hwaiting _ secrets hmem
  rw [hnamed round hr] at hanswers
  exact ⟨y, hy, secrets, rfl, hanswers⟩

/-- **A row is removed once the block at which it was dropped is safe.** -/
theorem dropped_of_removesSecrets {key : B256 ×ₗ Address} {inputs : List Input}
    {before after : List Step} {x : Step} (h : trace (step t) .default inputs = before ++ x :: after)
    (hrow : RemovesSecrets key x) :
    ∃ safe block, x.input = .housekeeping safe ∧ block ≤ safe ∧
      SecretStore.Dropped key block (storeSteps t before) := by
  have hstep : x = take (step t) x.pre x.input := eq_take (by rw [h]; simp)
  have hpost : x.post.store = _ := congrArg (fun y => (Trace.Step.post y).store) hstep
  rw [take_post, store_step] at hpost
  cases hcall : storeCall t x.pre x.input with
  | none =>
    rw [hcall] at hpost
    obtain ⟨hbefore, hafter⟩ := hrow
    rw [hpost] at hafter
    rw [show x.pre.store.keygenSecrets.lookup key = none from hafter] at hbefore
    cases hbefore
  | some c =>
    rw [hcall] at hpost
    obtain ⟨calls, hcalls⟩ := storeSteps_eq t inputs
    rw [h, storeSteps, project, List.filterMap_append, List.filterMap_cons, hcall] at hcalls
    have hremoves : SecretStore.RemovesSecrets key (take SecretStore.call x.pre.store c) := by
      refine ⟨hrow.1, ?_⟩
      have hafter := hrow.2
      rw [hpost] at hafter
      exact hafter
    obtain ⟨safe, block, hinput, hsafe, hdropped⟩ :=
      SecretStore.dropped_of_removesSecrets hcalls.symm hremoves
    rw [take_input] at hinput
    subst hinput
    refine ⟨safe, block, ?_, hsafe, hdropped⟩
    cases hx : x.input with
    | newBlock number => rw [hx] at hcall; cases hcall
    | event log => rw [hx] at hcall; cases hcall
    | perform index sampled =>
      rw [hx] at hcall
      obtain ⟨effect, -, heffect⟩ := Option.bind_eq_some_iff.mp hcall
      cases effect with
      | keyGenSetup groupId count threshold =>
        simp only [Effect.storeCall] at heffect
        split at heffect <;> cases heffect
      | generateNonces groupId signatureId keyShare => cases heffect
      | useNonces message signatureId => cases heffect
      | reconcileGroupSecrets block groups => cases heffect
    | deliver index => rw [hx] at hcall; cases hcall
    | housekeeping safe' =>
      rw [hx] at hcall
      cases hcall
      rfl
    | restore index => rw [hx] at hcall; cases hcall

/-- Two answers of one run, at any positions. -/
theorem answers_eq {inputs : List Input} {i j : Nat} {x y : Step} {groupId : B256}
    {secrets secrets' : Secrets} (hx : (trace (step t) .default inputs)[i]? = some x)
    (hy : (trace (step t) .default inputs)[j]? = some y) (hsecrets : Answers groupId secrets x)
    (hsecrets' : Answers groupId secrets' y)
    (hrow : ∀ k z, min i j < k → k < max i j → (trace (step t) .default inputs)[k]? = some z →
      ¬RemovesSecrets (toLex (groupId, t.account)) z) : secrets = secrets' := by
  rcases lt_trichotomy i j with hlt | rfl | hlt
  · obtain ⟨before, middle, after, hrun, hmiddle⟩ := split_of_getElem? hlt hx hy
    refine answers_between hrun hsecrets hsecrets' fun z hz => ?_
    obtain ⟨k, hik, hkj, hk⟩ := hmiddle z hz
    exact hrow k z (by omega) (by omega) hk
  · rw [hx] at hy
    cases hy
    obtain ⟨effect, hout⟩ := hsecrets
    obtain ⟨effect', hout'⟩ := hsecrets'
    rw [hout] at hout'
    cases hout'
    rfl
  · obtain ⟨before, middle, after, hrun, hmiddle⟩ := split_of_getElem? hlt hy hx
    refine (answers_between hrun hsecrets' hsecrets fun z hz => ?_).symm
    obtain ⟨k, hjk, hki, hk⟩ := hmiddle z hz
    exact hrow k z (by omega) (by omega) hk

/-- A published commitment with the answer it comes from. -/
theorem exists_answers_of_publishes {inputs : List Input} {k : Nat} {x : Step}
    {root context : B256} {count threshold : Nat}
    {commitment : Contracts.FROSTCoordinator.KeyGenCommitment}
    (h : (trace (step t) .default inputs)[k]? = some x)
    (hx : Publishes root count threshold context commitment x) :
    ∃ i < k, ∃ y secrets, (trace (step t) .default inputs)[i]? = some y ∧
      Answers (groupId t.externals.keccak256 root count threshold context) secrets y ∧
      commitment = secrets.commitment := by
  obtain ⟨hlt, hget⟩ := List.getElem?_eq_some_iff.mp h
  have hrun : trace (step t) .default inputs = (trace (step t) .default inputs).take k ++
      x :: (trace (step t) .default inputs).drop (k + 1) := by
    rw [← hget, ← List.drop_eq_getElem_cons hlt, List.take_append_drop]
  obtain ⟨y, hy, secrets, hcommitment, hanswers⟩ := answers_of_publishes hrun hx
  obtain ⟨i, hi, rfl⟩ := List.mem_take_iff_getElem.mp hy
  refine ⟨i, by omega, _, secrets, ?_, hanswers, hcommitment⟩
  rw [List.getElem?_eq_getElem]

end Node

open Node in
/-- **A validator has one polynomial per group**, in every run with replayed effects, reconciliations
and collections. -/
theorem one_polynomial_per_group (t : Transition) (inputs : List Node.Input) :
    (∀ (i j : Nat) x y group secrets secrets', (trace (step t) .default inputs)[i]? = some x →
      (trace (step t) .default inputs)[j]? = some y → Answers group secrets x → Answers group secrets' y →
      (∀ (k : Nat) z, min i j < k → k < max i j → (trace (step t) .default inputs)[k]? = some z →
        ¬RemovesSecrets (toLex (group, t.account)) z) → secrets = secrets') ∧
    (∀ x ∈ trace (step t) .default inputs, ∀ root count threshold context commitment,
      Publishes root count threshold context commitment x →
      ∃ round, x.pre.state.rollover = .collectingCommitments round ∧
        round.commitments.lookup t.account = none ∧ root = round.group.root ∧
        count = round.group.count ∧ threshold = round.group.threshold ∧ context = round.group.context) ∧
    (∀ (k k' : Nat) x x' root count threshold context commitment commitment',
      (trace (step t) .default inputs)[k]? = some x → (trace (step t) .default inputs)[k']? = some x' →
      Publishes root count threshold context commitment x →
      Publishes root count threshold context commitment' x' →
      ∃ i < k, ∃ j < k', ∃ y y' secrets secrets', (trace (step t) .default inputs)[i]? = some y ∧
        (trace (step t) .default inputs)[j]? = some y' ∧
        Answers (groupId t.externals.keccak256 root count threshold context) secrets y ∧
        Answers (groupId t.externals.keccak256 root count threshold context) secrets' y' ∧
        commitment = secrets.commitment ∧ commitment' = secrets'.commitment ∧
        ((∀ (m : Nat) z, min i j < m → m < max i j → (trace (step t) .default inputs)[m]? = some z →
          ¬RemovesSecrets (toLex (groupId t.externals.keccak256 root count threshold context, t.account))
            z) → commitment = commitment')) ∧
    (∀ before x after key, trace (step t) .default inputs = before ++ x :: after → RemovesSecrets key x →
      ∃ safe block, x.input = .housekeeping safe ∧ block ≤ safe ∧
        SecretStore.Dropped key block (storeSteps t before)) ∧
    ∀ s message, setups (t.applyTransition s message).2 =
        ((t.keyGenHandlers s message).flatMap fun h => setups h.2) ∧
      ∀ h ∈ t.keyGenHandlers s message, setups h.2 = [] ∨
        ∃ next participants deadline, h = t.startKeyGen next participants deadline ∧
          setups h.2 = [(participants.group t.externals.keccak256).id] := by
  refine ⟨?_, ?_, ?_, ?_, ?_⟩
  · intro i j x y group secrets secrets' hx hy hsecrets hsecrets' hrow
    exact answers_eq hx hy hsecrets hsecrets' hrow
  · intro x hx root count threshold context commitment hpublishes
    rw [eq_take hx] at hpublishes
    obtain ⟨round, secrets, hr, -, hnone, hroot, hcount, hthreshold, hcontext, -⟩ :=
      finished_of_publishes hpublishes
    exact ⟨round, hr, hnone, hroot, hcount, hthreshold, hcontext⟩
  · intro k k' x x' root count threshold context commitment commitment' hx hx' hpublishes hpublishes'
    obtain ⟨i, hi, y, secrets, hy, hanswers, rfl⟩ := exists_answers_of_publishes hx hpublishes
    obtain ⟨j, hj, y', secrets', hy', hanswers', rfl⟩ := exists_answers_of_publishes hx' hpublishes'
    refine ⟨i, hi, j, hj, y, y', secrets, secrets', hy, hy', hanswers, hanswers', rfl, rfl, ?_⟩
    intro hrow
    rw [answers_eq hy hy' hanswers hanswers' hrow]
  · intro before x after key hrun hrow
    exact dropped_of_removesSecrets hrun hrow
  · intro s message
    exact ⟨setups_applyTransition message, setups_keyGenHandlers message⟩

end Safenet.Validator
