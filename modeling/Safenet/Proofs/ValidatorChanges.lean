/-
What one message can do to the state of a validator.

`KeyGenMove` lists what the handlers of key generation do to the rollover state, `SessionMove` what
the events of a ceremony do to a session that keeps its signature id.  `Change` is one change of the
whole state, and `changes` says that a message makes a sequence of changes: a new block four
of them, everything else one or two.  Every invariant of the validator is an induction over
that sequence.
-/
import Mathlib.Logic.Relation
import Safenet.Validator.Transition

namespace Safenet.Validator

open RolloverState SigningState

/-! ### Key generation -/

/-- The epoch and the group of a ceremony that is underway. -/
def RolloverState.underway : RolloverState → Option (EpochId × Group)
  | .collectingCommitments round => some (round.nextEpoch, round.group)
  | .collectingShares round => some (round.nextEpoch, round.group)
  | .collectingConfirmations round => some (round.nextEpoch, round.group)
  | _ => none

/-- The secrets that a round is finalized with: its own, or those of the setup that resumes. -/
inductive Supplied (message : Message) (s₀ : State) (round : CollectingCommitments) :
    Option Secrets → Prop
  | observing (h : round.secrets = .observing) : Supplied message s₀ round none
  | stored {poap : List B256} {secrets : Secrets}
      (h : round.secrets = .participating poap (some secrets)) :
      Supplied message s₀ round (some secrets)
  | resumed {poap : List B256} {secrets : Secrets} (h : round.secrets = .participating poap none)
      (hmessage : message = .resume (.setup round.group.id secrets))
      (hrollover : s₀.rollover = .collectingCommitments round) :
      Supplied message s₀ round (some secrets)

/-- What a response does to the confirmation status. -/
inductive StatusMove (t : Transition) (participation : KeyGenParticipation) :
    KeyGenConfirmation → KeyGenConfirmation → Prop
  | stay {status : KeyGenConfirmation} : StatusMove t participation status status
  | collect {shares shares' : Table Address VerifiedShare} :
      StatusMove t participation (.collecting shares) (.collecting shares')
  | confirm {shares shares' : Table Address VerifiedShare} {sharingState : SharingState}
      {keyShare : KeyShare} (hparticipation : participation = .participating sharingState)
      (h : finalizeKeyShare t.externals.toFrostCrate sharingState shares' = .ok keyShare) :
      StatusMove t participation (.collecting shares) (.confirmed keyShare)

/-- What a message that arrives in `s₀` does to the rollover state within a ceremony. -/
inductive KeyGenMove (t : Transition) (message : Message) (s₀ : State) :
    RolloverState → RolloverState → Prop
  | stay {r : RolloverState} : KeyGenMove t message s₀ r r
  | genesis : KeyGenMove t message s₀ .waitingForGenesis (t.startKeyGen .genesis t.genesis none).1
  | restart {r : RolloverState} {n : ℕ+} {group : Group} {participants : ParticipantSet}
      {deadline : Option Nat} (h : r.underway = some (.number n, group)) :
      KeyGenMove t message s₀ r (t.startKeyGen (.number n) participants deadline).1
  | fail {r : RolloverState} {epoch : EpochId} {group : Group}
      (h : r.underway = some (epoch, group)) : KeyGenMove t message s₀ r (rolloverFailure epoch)
  | secrets {round : CollectingCommitments} {poap : List B256} {secrets : Secrets}
      (h : round.secrets = .participating poap none)
      (hmessage : message = .resume (.setup round.group.id secrets))
      (hrollover : s₀.rollover = .collectingCommitments round) :
      KeyGenMove t message s₀ (.collectingCommitments round)
        (.collectingCommitments { round with secrets := .participating poap (some secrets) })
  | commit {round : CollectingCommitments} {commitments : Table Address VerifiedCommitment} :
      KeyGenMove t message s₀ (.collectingCommitments round)
        (.collectingCommitments { round with commitments })
  | shares {round : CollectingCommitments} {round' : CollectingShares} {secrets : Option Secrets}
      {commitments : Table Address VerifiedCommitment} {commands : List Command}
      (hsupplied : Supplied message s₀ round secrets) (hepoch : round'.nextEpoch = round.nextEpoch)
      (hgroup : round'.group = round.group)
      (h : t.participate round.group secrets commitments round'.deadline =
        .ok (round'.participation, commands)) :
      KeyGenMove t message s₀ (.collectingCommitments round) (.collectingShares round')
  | share {round round' : CollectingShares} (hepoch : round'.nextEpoch = round.nextEpoch)
      (hgroup : round'.group = round.group)
      (hparticipation : round'.participation = round.participation) :
      KeyGenMove t message s₀ (.collectingShares round) (.collectingShares round')
  | confirmations {round registered : CollectingShares} {round' : CollectingConfirmations}
      {commands : List Command}
      (hregistered : registered.group = round.group ∧ registered.participation = round.participation)
      (hepoch : round'.nextEpoch = round.nextEpoch) (hgroup : round'.group = round.group)
      (hparticipation : round'.participation = round.participation)
      (h : t.initialStatus registered round'.deadlines = .ok (round'.status, commands)) :
      KeyGenMove t message s₀ (.collectingShares round) (.collectingConfirmations round')
  | confirmation {round round' : CollectingConfirmations}
      (hepoch : round'.nextEpoch = round.nextEpoch) (hgroup : round'.group = round.group)
      (hparticipation : round'.participation = round.participation)
      (hstatus : StatusMove t round.participation round.status round'.status) :
      KeyGenMove t message s₀ (.collectingConfirmations round) (.collectingConfirmations round')

/-- A confirmed key generation has finalized its key share. -/
theorem confirmKeyGen_ok {t : Transition} {epoch : EpochId} {group : Group}
    {sharingState : SharingState} {shares : Table Address VerifiedShare}
    {deadlines : Option ConfirmationDeadlines} {status : KeyGenConfirmation} {commands : List Command}
    (h : t.confirmKeyGen epoch group sharingState shares deadlines = .ok (status, commands)) :
    ∃ keyShare, finalizeKeyShare t.externals.toFrostCrate sharingState shares = .ok keyShare ∧
      status = .confirmed keyShare := by
  obtain ⟨keyShare, hfinal, hpair⟩ := Fallible.bind_eq_ok.mp h
  have heq := Fallible.pure_eq_ok.mp hpair
  simp only [Prod.mk.injEq] at heq
  exact ⟨keyShare, hfinal, heq.1.symm⟩

namespace KeyGenMove

variable {t : Transition} {message : Message} {s₀ : State} {r : RolloverState}

theorem genesisKeyGen (gid : B256) : KeyGenMove t message s₀ r (t.genesisKeyGen r gid).1 := by
  unfold Transition.genesisKeyGen
  split
  · split
    · exact .genesis
    · exact .stay
  · exact .stay

/-- A restart starts over, skips the epoch or halts. -/
theorem restartKeyGenExcluding {epoch : EpochId} {group : Group} {excluded : Finset Address}
    {deadline : Option Nat} (h : r.underway = some (epoch, group)) :
    KeyGenMove t message s₀ r (t.restartKeyGenExcluding epoch excluded deadline).1 := by
  unfold Transition.restartKeyGenExcluding
  cases epoch with
  | genesis => exact .fail h
  | number n =>
      split
      · exact .restart h
      · exact .fail h

theorem finalizeKeyGenCommitments {round : CollectingCommitments} {secrets : Option Secrets}
    {commitments : Table Address VerifiedCommitment} {deadline : Option Nat}
    (h : Supplied message s₀ round secrets) :
    KeyGenMove t message s₀ (.collectingCommitments round)
      (t.finalizeKeyGenCommitments round.nextEpoch round.group secrets commitments deadline).1 := by
  unfold Transition.finalizeKeyGenCommitments
  split
  · rename_i hok
    exact .shares h rfl rfl hok
  · exact .fail rfl

theorem keyGenSetup {groupId : B256} {secrets : Secrets}
    (hmessage : message = .resume (.setup groupId secrets)) :
    KeyGenMove t message s₀ s₀.rollover (t.keyGenSetup s₀.rollover groupId secrets).1 := by
  unfold Transition.keyGenSetup
  split
  · rename_i hrollover
    rw [hrollover]
    split
    · rename_i hsecrets
      split
      · rename_i hgroup
        subst hgroup
        dsimp only
        split
        · exact .secrets hsecrets hmessage hrollover
        · exact finalizeKeyGenCommitments (.resumed hsecrets hmessage hrollover)
      · exact .stay
    · exact .stay
  · exact .stay

theorem keyGenCommitted (block : Nat) (gid : B256) (participant : Address)
    (commitment : Contracts.FROSTCoordinator.KeyGenCommitment) :
    KeyGenMove t message s₀ r (t.keyGenCommitted r block gid participant commitment).1 := by
  unfold Transition.keyGenCommitted
  split
  · split
    · dsimp only
      split
      · exact .commit
      · split
        · rename_i hsecrets
          exact finalizeKeyGenCommitments (.observing hsecrets)
        · rename_i hsecrets
          exact finalizeKeyGenCommitments (.stored hsecrets)
        · exact .commit
    · exact .stay
  · exact .stay

theorem registerShare_eq (t : Transition) (round : CollectingShares) (block : Nat)
    (participant : Address) (share : Contracts.FROSTCoordinator.KeyGenSecretShare) :
    (t.registerShare round block participant share).1.nextEpoch = round.nextEpoch ∧
      (t.registerShare round block participant share).1.group = round.group ∧
      (t.registerShare round block participant share).1.participation = round.participation := by
  unfold Transition.registerShare
  split
  · exact ⟨rfl, rfl, rfl⟩
  · exact ⟨rfl, rfl, rfl⟩

theorem startConfirmations {round registered : CollectingShares} {block : Nat}
    {commands : List Command} (hepoch : registered.nextEpoch = round.nextEpoch)
    (hgroup : registered.group = round.group)
    (hparticipation : registered.participation = round.participation) :
    KeyGenMove t message s₀ (.collectingShares round)
      (t.startConfirmations registered block commands).1 := by
  unfold Transition.startConfirmations
  dsimp only
  split
  · rename_i hok
    exact .confirmations ⟨hgroup, hparticipation⟩ hepoch hgroup hparticipation hok
  · rw [hepoch]
    exact .fail rfl

theorem keyGenSecretShared (block : Nat) (gid : B256) (participant : Address)
    (share : Contracts.FROSTCoordinator.KeyGenSecretShare) :
    KeyGenMove t message s₀ r (t.keyGenSecretShared r block gid participant share).1 := by
  unfold Transition.keyGenSecretShared
  split
  · rename_i round
    obtain ⟨hepoch, hgroup, hparticipation⟩ := registerShare_eq t round block participant share
    split
    · dsimp only
      split
      · exact .share hepoch hgroup hparticipation
      · exact startConfirmations hepoch hgroup hparticipation
    · exact .stay
  · exact .stay

theorem keyGenComplained (block : Nat) (gid : B256) (plaintiff accused : Address) :
    KeyGenMove t message s₀ r (t.keyGenComplained r block gid plaintiff accused).1 := by
  unfold Transition.keyGenComplained
  split
  · split
    · dsimp only
      split
      · exact restartKeyGenExcluding rfl
      · exact .share rfl rfl rfl
    · exact .stay
  · split
    · dsimp only
      split
      · exact restartKeyGenExcluding rfl
      · exact .confirmation rfl rfl rfl .stay
    · exact .stay
  · exact .stay

theorem addRevealed_status (t : Transition) (status : KeyGenConfirmation)
    (plaintiff accused : Address) (share : VerifiedShare) :
    t.addRevealed status plaintiff accused share = status ∨ ∃ shares shares',
      status = .collecting shares ∧
        t.addRevealed status plaintiff accused share = .collecting shares' := by
  cases status with
  | observing => exact .inl rfl
  | confirmed keyShare => exact .inl rfl
  | collecting shares =>
      by_cases h : plaintiff = t.account
      · exact .inr ⟨shares, shares.insert accused share, rfl, if_pos h⟩
      · exact .inl (if_neg h)

theorem confirmRevealed {round revealed : CollectingConfirmations}
    (hepoch : revealed.nextEpoch = round.nextEpoch) (hgroup : revealed.group = round.group)
    (hparticipation : revealed.participation = round.participation)
    (hstatus : revealed.status = round.status ∨ ∃ shares shares',
      round.status = .collecting shares ∧ revealed.status = .collecting shares') :
    KeyGenMove t message s₀ (.collectingConfirmations round) (t.confirmRevealed revealed).1 := by
  have hmove : StatusMove t round.participation round.status revealed.status := by
    rcases hstatus with h | ⟨shares, shares', h, h'⟩
    · rw [h]
      exact .stay
    · rw [h, h']
      exact .collect
  have hcollecting : ∀ shares', revealed.status = .collecting shares' →
      ∃ shares, round.status = .collecting shares := by
    intro shares' h
    rcases hstatus with heq | ⟨shares, _, heq, _⟩
    · exact ⟨shares', heq ▸ h⟩
    · exact ⟨shares, heq⟩
  unfold Transition.confirmRevealed
  split
  · rename_i sharingState shares' hp hs
    obtain ⟨shares, hround⟩ := hcollecting shares' hs
    split
    · split
      · rename_i status commands hconfirm
        obtain ⟨keyShare, hfinal, rfl⟩ := confirmKeyGen_ok hconfirm
        refine .confirmation hepoch hgroup hparticipation ?_
        rw [hround]
        exact .confirm (hparticipation ▸ hp) hfinal
      · rw [hepoch]
        exact .fail rfl
    · exact .confirmation hepoch hgroup hparticipation hmove
  · exact .confirmation hepoch hgroup hparticipation hmove

theorem keyGenComplaintResponded (block : Nat) (gid : B256) (plaintiff accused : Address)
    (secretShare : B256) : KeyGenMove t message s₀ r
      (t.keyGenComplaintResponded r block gid plaintiff accused secretShare).1 := by
  unfold Transition.keyGenComplaintResponded
  split
  · split
    · split
      · exact .stay
      · split
        · exact .share rfl rfl rfl
        · exact restartKeyGenExcluding rfl
    · exact .stay
  · rename_i round
    split
    · split
      · exact .stay
      · split
        · rename_i share _
          exact confirmRevealed rfl rfl rfl
            (addRevealed_status t round.status plaintiff accused share)
        · exact restartKeyGenExcluding rfl
    · exact .stay
  · exact .stay

theorem restartStalled (block : Nat) : KeyGenMove t message s₀ r (t.restartStalled r block).1 := by
  unfold Transition.restartStalled
  split
  · rename_i nextEpoch excluded h
    have hunderway : ∃ group, r.underway = some (nextEpoch, group) := by
      unfold Transition.stalled at h
      split at h
      · split at h
        · cases h
          exact ⟨_, rfl⟩
        · cases h
      · split at h
        · cases h
          exact ⟨_, rfl⟩
        · cases h
      · obtain ⟨_, _, heq⟩ := Option.map_eq_some_iff.mp h
        cases heq
        exact ⟨_, rfl⟩
      · cases h
    obtain ⟨group, hgroup⟩ := hunderway
    exact restartKeyGenExcluding hgroup
  · exact .stay

theorem keyGenTimeouts (block : Nat) : KeyGenMove t message s₀ r (t.keyGenTimeouts r block).1 := by
  unfold Transition.keyGenTimeouts
  split
  · split
    · exact .fail rfl
    · exact restartStalled block
  · exact restartStalled block

end KeyGenMove

/-! ### The whole state -/

/-- What an event does to a session that keeps its signature id. -/
inductive SessionMove (t : Transition) (message : Message) (s₀ : State) (m : B256) :
    SigningState → SigningState → Prop
  | approved {session : WaitingForOracle} {log : Core.EventLog Event} (hmessage : message = .event log)
      (hdata : log.data = .oracleResult m true) (horacle : log.address = session.oracle) :
      SessionMove t message s₀ m (.waitingForOracle session) (t.approved session log.block.number).1
  | nonces {session : CollectNonceCommitments} {block : Nat} {participant : Address}
      {nonces : Contracts.Coordinator.SignNonces} :
      SessionMove t message s₀ m (.collectNonceCommitments session)
        (t.nonceCommitted session m block participant nonces).1
  | shared {session : CollectSigningShares} {log : Core.EventLog Event} {sid root : B256}
      {participant : Address} (hmessage : message = .event log)
      (hdata : log.data = .signShared sid root participant)
      (hindex : s₀.signatureIdToMessage.lookup sid = some m) :
      SessionMove t message s₀ m (.collectSigningShares session)
        (.collectSigningShares (Transition.shared session root participant))
  | completed {session : CollectSigningShares} {block : Nat} :
      SessionMove t message s₀ m (.collectSigningShares session) (t.completed session block)

/-- One change of the state, by a message that arrives in `s₀`. -/
inductive Change (t : Transition) (message : Message) (s₀ : State) : State → State → Prop
  | rollover {s : State} {r : RolloverState} (h : KeyGenMove t message s₀ s.rollover r) :
      Change t message s₀ s { s with rollover := r }
  | genesisConfirmed {s : State} {round : CollectingConfirmations} {next : ℕ+}
      (hrollover : s.rollover = .collectingConfirmations round) (hepoch : round.nextEpoch = .genesis) :
      Change t message s₀ s (Transition.finalizeKeyGen { s with rollover := .epochSkipped next } .genesis
        round.group round.status.keyShare)
  /-- The key generation for a skipped epoch begins after all. -/
  | begin {s : State} {next : ℕ+} {participants : ParticipantSet} {deadline : Option Nat}
      (hrollover : s.rollover = .epochSkipped next) :
      Change t message s₀ s
        { s with rollover := (t.startKeyGen (.number next) participants deadline).1 }
  | epochConfirmed {round : CollectingConfirmations} {proposed : ℕ+}
      {participant : Address} {log : Core.EventLog Event} (hmessage : message = .event log)
      (hdata : log.data = .keyGenConfirmed round.group.id participant)
      (hrollover : s₀.rollover = .collectingConfirmations round)
      (hepoch : round.nextEpoch = .number proposed) :
      Change t message s₀ s₀ (t.epochConfirmed s₀ log.block.number round proposed participant)
  | staged {s : State} {rollover : SigningRollover} (hrollover : s.rollover = .signingRollover rollover) :
      Change t message s₀ s (Transition.finalizeKeyGen
        { s with rollover := .epochStaged rollover.nextEpoch } (.number rollover.nextEpoch)
        rollover.group rollover.keyShare)
  | attested {s : State} {m : B256} : Change t message s₀ s (Transition.handleSignAttested s m).1
  | recovered {s : State} {r : RolloverState} (hrollover : s.rollover = .waitingForGenesis)
      (hr : r = .halted ∨ ∃ next, r = .epochSkipped next) :
      Change t message s₀ s { s with rollover := r }
  /-- The clock passed the target, which becomes active if it was staged. -/
  | due {s : State} {target next : ℕ+} {active : EpochId}
      (htarget : s.rollover.nextEpoch = some (.number target)) (hlt : target < next)
      (hactive : active = s.activeEpoch ∨ s.rollover = .epochStaged target ∧ active = .number target) :
      Change t message s₀ s { s with activeEpoch := active, rollover := .epochSkipped next }
  | session {m : B256} {x x' : SigningState} (hx : s₀.signing.lookup m = some x)
      (h : SessionMove t message s₀ m x x') :
      Change t message s₀ s₀ { s₀ with signing := s₀.signing.insert m x' }
  | requested {m sid : B256} {session : WaitingForRequest} {log : Core.EventLog Event}
      (hmessage : message = .event log) (hdata : log.data = .sign session.groupId m sid)
      (hx : s₀.signing.lookup m = some (.waitingForRequest session)) :
      Change t message s₀ s₀
        { s₀ with
          signing := s₀.signing.insert m (t.requested session sid log.block.number).1
          signatureIdToMessage := s₀.signatureIdToMessage.insert sid m }
  | rejected {m : B256} {session : WaitingForOracle}
      (hx : s₀.signing.lookup m = some (.waitingForOracle session)) :
      Change t message s₀ s₀
        { s₀ with
          signing := s₀.signing.erase m
          signatureIdToMessage := s₀.signatureIdToMessage.erase session.signatureId }
  | proposed {block : Nat} {oracle : Address} {epoch : EpochId} {oracleData : Bytes}
      {tx : SafeTransaction} {participating : Epoch}
      (hepoch : s₀.epochs.lookup epoch = some participating) (horacle : oracle ∈ t.config.oracles)
      (hvacant : s₀.signing.lookup (t.consensus.transactionPacketHash t.externals.keccak256 epoch oracle
        oracleData tx) = none) :
      Change t message s₀ s₀
        { s₀ with
          signing := s₀.signing.insert
            (t.consensus.transactionPacketHash t.externals.keccak256 epoch oracle oracleData tx)
            (t.proposalSession participating (.transaction epoch oracle oracleData tx) block) }
  | timeouts {s : State} {block : Nat} : Change t message s₀ s (t.handleSigningTimeouts s block).1
  | reaped {s : State} :
      Change t message s₀ s
        { s with epochs := s.epochs.filter fun epoch _ => Transition.oldestEpoch s ≤ epoch }

section EpochConfirmed

variable {t : Transition} {s : State} {block : Nat} {round : CollectingConfirmations} {proposed : ℕ+}
  {participant : Address} {m : B256} {x : SigningState}

/-- The only session that a confirmed epoch opens is the one for its rollover. -/
theorem lookup_epochConfirmed
    (hx : (t.epochConfirmed s block round proposed participant).signing.lookup m = some x) :
    s.signing.lookup m = some x ∨
      ∃ epoch, s.epochs.lookup s.activeEpoch = some epoch ∧
        m = t.rolloverMessage s.activeEpoch round proposed ∧
        x = t.rolloverSession epoch (t.rolloverPacket s.activeEpoch round proposed) participant block := by
  unfold Transition.epochConfirmed at hx
  dsimp only at hx
  cases hactive : s.epochs.lookup s.activeEpoch with
  | none =>
    rw [hactive] at hx
    exact .inl hx
  | some epoch =>
    rw [hactive] at hx
    dsimp only at hx
    rw [Table.lookup_insert] at hx
    split at hx
    · rename_i hm
      cases hx
      exact .inr ⟨epoch, rfl, hm, rfl⟩
    · exact .inl hx

theorem lookup_epochConfirmed_of_ne (hm : m ≠ t.rolloverMessage s.activeEpoch round proposed) :
    (t.epochConfirmed s block round proposed participant).signing.lookup m = s.signing.lookup m := by
  unfold Transition.epochConfirmed
  dsimp only
  cases s.epochs.lookup s.activeEpoch with
  | none => rfl
  | some epoch => exact (Table.lookup_insert ..).trans (if_neg hm)

end EpochConfirmed

/-- The changes of a message, one after the other. -/
abbrev Changes (t : Transition) (message : Message) (s₀ : State) : State → Prop :=
  Relation.ReflTransGen (Change t message s₀) s₀

namespace Changes

variable {t : Transition} {message : Message} {s : State}

theorem withRollover {result : RolloverState × List Command}
    (h : KeyGenMove t message s s.rollover result.1) :
    Changes t message s (s.withRollover result).1 :=
  .single (.rollover h)

theorem handleSign {log : Core.EventLog Event} {gid m sid : B256} (hmessage : message = .event log)
    (hdata : log.data = .sign gid m sid) :
    Changes t message s (t.handleSign s log.block.number gid m sid).1 := by
  unfold Transition.handleSign
  split
  · rename_i session hx
    split
    · rename_i hgroup
      exact .single (.requested hmessage (hgroup ▸ hdata) hx)
    · exact .refl
  · exact .refl

theorem handleOracleResult {log : Core.EventLog Event} {m : B256} {isApproved : Bool}
    (hmessage : message = .event log) (hdata : log.data = .oracleResult m isApproved) :
    Changes t message s (t.handleOracleResult s log.block.number log.address m isApproved).1 := by
  unfold Transition.handleOracleResult
  split
  · rename_i session hx
    split
    · rename_i horacle
      split
      · rename_i happroved
        exact .single (.session hx (.approved hmessage (happroved ▸ hdata) horacle.symm))
      · exact .single (.rejected hx)
    · exact .refl
  · exact .refl

theorem handleSignCommittedNonces (block : Nat) (sid : B256) (participant : Address)
    (nonces : Contracts.Coordinator.SignNonces) :
    Changes t message s (t.handleSignCommittedNonces s block sid participant nonces).1 := by
  unfold Transition.handleSignCommittedNonces
  split
  · exact .refl
  · split
    · rename_i hx
      exact .single (.session hx .nonces)
    · exact .refl

theorem handleSignShared {log : Core.EventLog Event} {sid root : B256} {participant : Address}
    (hmessage : message = .event log) (hdata : log.data = .signShared sid root participant) :
    Changes t message s (Transition.handleSignShared s sid root participant).1 := by
  unfold Transition.handleSignShared
  split
  · exact .refl
  · rename_i hindex
    split
    · rename_i hx
      exact .single (.session hx (.shared hmessage hdata hindex))
    · exact .refl

theorem handleSignCompleted (block : Nat) (sid : B256) :
    Changes t message s (t.handleSignCompleted s block sid).1 := by
  unfold Transition.handleSignCompleted
  split
  · exact .refl
  · split
    · rename_i hx
      exact .single (.session hx .completed)
    · exact .refl

theorem handleNonceCommitments (sid : B256) (nonces : Contracts.Coordinator.SignNonces) :
    (Transition.handleNonceCommitments s sid nonces).1 = s := by
  unfold Transition.handleNonceCommitments
  split
  · split
    · rfl
    · rfl
  · rfl

theorem handleNonces (m : B256) (nonces : SigningNonces) : (t.handleNonces s m nonces).1 = s := by
  unfold Transition.handleNonces
  split
  · split
    · rfl
    · rfl
  · rfl

theorem handleTransactionProposed (block : Nat) (oracle : Address) (epoch : EpochId)
    (oracleData : Bytes) (tx : SafeTransaction) :
    Changes t message s (t.handleTransactionProposed s block oracle epoch oracleData tx).1 := by
  unfold Transition.handleTransactionProposed
  split
  · exact .refl
  · rename_i hepoch
    split
    · rename_i horacle
      dsimp only
      split
      · exact .refl
      · rename_i hvacant
        exact .single (.proposed hepoch horacle hvacant)
    · exact .refl

theorem genesisConfirmed {block : Nat} {round : CollectingConfirmations}
    (hrollover : s.rollover = .collectingConfirmations round) (hepoch : round.nextEpoch = .genesis) :
    Changes t message s (t.genesisConfirmed s block round).1 := by
  unfold Transition.genesisConfirmed
  dsimp only
  split
  · refine .tail (.single (.genesisConfirmed hrollover hepoch)) (.begin ?_)
    unfold Transition.finalizeKeyGen
    split
    · rfl
    · rfl
  · exact .single (.genesisConfirmed hrollover hepoch)

theorem handleKeyGenConfirmed {log : Core.EventLog Event} {gid : B256} {participant : Address}
    (hmessage : message = .event log) (hdata : log.data = .keyGenConfirmed gid participant) :
    Changes t message s (t.handleKeyGenConfirmed s log.block.number gid participant).1 := by
  unfold Transition.handleKeyGenConfirmed
  split
  · rename_i round hrollover
    split
    · rename_i hgroup
      dsimp only
      split
      · refine .single (.rollover ?_)
        rw [hrollover]
        exact .confirmation rfl rfl rfl .stay
      · split
        · rename_i hepoch
          exact genesisConfirmed hrollover hepoch
        · rename_i hepoch
          exact .single (.epochConfirmed hmessage (hgroup ▸ hdata) hrollover hepoch)
    · exact .refl
  · exact .refl

theorem handleEpochStaged (proposedEpoch : Nat) (groupId : B256) :
    Changes t message s (Transition.handleEpochStaged s proposedEpoch groupId).1 := by
  unfold Transition.handleEpochStaged
  split
  · rename_i hrollover
    split
    · exact .tail (.single (.staged hrollover)) .attested
    · exact .refl
  · rename_i hrollover
    refine .single (.recovered hrollover ?_)
    split
    · exact .inr ⟨_, rfl⟩
    · exact .inl rfl
  · exact .refl

/-- The state in which the target was activated and its epoch given up. -/
theorem due {target next : ℕ+} (htarget : s.rollover.nextEpoch = some (.number target))
    (hlt : target < next) :
    Change t message s s { Transition.activate s target with rollover := .epochSkipped next } := by
  unfold Transition.activate
  split
  · rename_i staged hrollover
    have heq : staged = target := by
      rw [hrollover] at htarget
      cases htarget
      rfl
    exact .due htarget hlt (.inr ⟨heq ▸ hrollover, rfl⟩)
  · exact .due htarget hlt (.inl rfl)

theorem handleRolloverNewBlock (block : Nat) :
    Changes t message s (t.handleRolloverNewBlock s block).1 := by
  unfold Transition.handleRolloverNewBlock
  split
  · exact .refl
  · rename_i target hnext
    obtain ⟨epoch, hepoch, hnumber⟩ := Option.bind_eq_some_iff.mp hnext
    have htarget : s.rollover.nextEpoch = some (.number target) := by
      cases epoch with
      | genesis => cases hnumber
      | number n => cases hnumber; exact hepoch
    dsimp only
    split
    · exact .refl
    · rename_i hlt
      have hdue : Change t message s s _ := due htarget (not_le.mp hlt)
      split
      · rename_i participants _
        exact .tail (.single hdue) (.begin rfl)
      · exact .single hdue

theorem newBlock (block : Nat) : Changes t message s (t.newBlock s block).1 := by
  unfold Transition.newBlock
  dsimp only
  have hrollover : Changes t message s _ := handleRolloverNewBlock block
  refine .tail (.tail (.tail hrollover (.rollover ?_)) (@Change.timeouts _ _ _ _ block)) .reaped
  exact .keyGenTimeouts block

/-- **Every message makes a sequence of changes.** -/
theorem applyTransition (t : Transition) (s : State) (message : Message) :
    Changes t message s (t.applyTransition s message).1 := by
  cases message with
  | newBlock block => exact newBlock block
  | resume result =>
      show Changes t _ s (t.onResume s result).1
      cases result with
      | noop => exact .refl
      | setup groupId secrets => exact withRollover (.keyGenSetup rfl)
      | nonceCommitments sid nonces =>
          show Changes t _ s (Transition.handleNonceCommitments s sid nonces).1
          rw [handleNonceCommitments]
      | nonces m nonces =>
          show Changes t _ s (t.handleNonces s m nonces).1
          rw [handleNonces]
  | event log =>
      show Changes t _ s (t.onEvent s log.block.number log.address log.data).1
      cases hdata : log.data with
      | keyGen gid => exact withRollover (.genesisKeyGen gid)
      | keyGenCommitted gid participant commitment =>
          exact withRollover (.keyGenCommitted _ gid participant commitment)
      | keyGenSecretShared gid participant share =>
          exact withRollover (.keyGenSecretShared _ gid participant share)
      | keyGenConfirmed gid participant => exact handleKeyGenConfirmed rfl hdata
      | keyGenComplained gid plaintiff accused =>
          exact withRollover (.keyGenComplained _ gid plaintiff accused)
      | keyGenComplaintResponded gid plaintiff accused secretShare =>
          exact withRollover (.keyGenComplaintResponded _ gid plaintiff accused secretShare)
      | sign gid m sid => exact handleSign rfl hdata
      | signCommittedNonces sid participant nonces =>
          exact handleSignCommittedNonces _ sid participant nonces
      | signShared sid root participant => exact handleSignShared rfl hdata
      | signCompleted sid => exact handleSignCompleted _ sid
      | epochStaged proposedEpoch groupId signatureId => exact handleEpochStaged proposedEpoch groupId
      | transactionProposed oracle epoch oracleData tx =>
          exact handleTransactionProposed _ oracle _ oracleData tx
      | transactionAttested safeTxHash oracle epoch oracleDataHash signatureId =>
          exact .single .attested
      | oracleResult m isApproved => exact handleOracleResult rfl hdata
      | other => exact .refl

/-- A property that every change preserves is preserved by every message. -/
theorem preserves {P : State → Prop} {s₀ s' : State}
    (hstep : ∀ s s', Change t message s₀ s s' → P s → P s') (h : Changes t message s₀ s') :
    P s₀ → P s' := by
  induction h with
  | refl => exact id
  | tail _ hchange ih => exact fun hs => hstep _ _ hchange (ih hs)

end Changes

end Safenet.Validator
