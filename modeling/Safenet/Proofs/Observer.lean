/-
A validator follows key generation like an observer.

`observed` forgets the secrets, the shares and the key share of a validator.  What is left is a state
of an observer, and every message does to it what it does to an observer (`observed_applyTransition`):
participation decides about commands, not about the course of the ceremony.  A participant needs its
setup in time, for the commitment that is onchain, and a finalization that succeeds; then
`Ready` keeps it from waiting where an observer goes on.
-/
import Safenet.Proofs.Sharing
import Safenet.Proofs.Agreement

namespace Safenet.Validator

open RolloverState Trace

/-! ### What an observer knows -/

/-- The state of an observer in the same place. -/
def RolloverState.observed : RolloverState → RolloverState
  | .collectingCommitments round => .collectingCommitments { round with secrets := .observing }
  | .collectingShares round =>
      .collectingShares
        { round with
          participation := .observing round.participation.groupCommitments
          shares := .empty }
  | .collectingConfirmations round =>
      .collectingConfirmations
        { round with
          participation := .observing round.participation.groupCommitments
          status := .observing }
  | .signingRollover rollover => .signingRollover { rollover with keyShare := none }
  | .waitingForGenesis => .waitingForGenesis
  | .halted => .halted
  | .epochStaged next => .epochStaged next
  | .epochSkipped next => .epochSkipped next

/-- An observer has no epochs and no sessions. -/
def State.observed (s : State) : State :=
  { State.default with rollover := s.rollover.observed, activeEpoch := s.activeEpoch }

theorem State.observed_eq {s s' : State} (hrollover : s.rollover.observed = s'.rollover.observed)
    (hactive : s.activeEpoch = s'.activeEpoch) : s.observed = s'.observed := by
  unfold State.observed
  rw [hrollover, hactive]

/-- What the chain and the effect handler promise about a message that arrives in a state. -/
structure KeyGenPromised (t : Transition) (message : Message) (s : State) : Prop where
  /-- The coordinator accepts commitments of group members only, with as many coefficients as the
  threshold. -/
  members : ∀ {log round participant commitment}, message = .event log →
    log.data = .keyGenCommitted round.group.id participant commitment →
    s.rollover = .collectingCommitments round →
    participant ∈ round.group.participants ∧ commitment.c.length = round.group.threshold
  /-- The secrets of a setup are sampled for this participant of the group. -/
  setup : ∀ {round secrets}, message = .resume (.setup round.group.id secrets) →
    s.rollover = .collectingCommitments round →
    secrets.secretPackage.identifier = t.externals.identifier t.account ∧
      secrets.secretPackage.minSigners = round.group.threshold ∧
      secrets.secretPackage.maxSigners = round.group.count
  /-- The setup is there before the last commitment, and the own commitment is the one of its
  secrets. -/
  inTime : ∀ {log round participant commitment poap secrets}, message = .event log →
    log.data = .keyGenCommitted round.group.id participant commitment →
    s.rollover = .collectingCommitments round → round.secrets = .participating poap secrets →
    lenU16 (t.addCommitment round participant commitment).rows.length = round.group.count →
    ∃ sampled, secrets = some sampled ∧ ∀ mine,
      (t.addCommitment round participant commitment).lookup t.account = some mine →
      mine.package.commitment = sampled.secretPackage.commitment
  /-- The finalization of verified shares succeeds, once all of them are there ... -/
  finalizes : ∀ {log round participant share sharing}, message = .event log →
    log.data = .keyGenSecretShared round.group.id participant share →
    s.rollover = .collectingShares round → round.participation = .participating sharing →
    lenU16 (t.registerShare round log.block.number participant share).1.shares.rows.length =
      round.group.count →
    ∃ keyShare, finalizeKeyShare t.externals.toFrostCrate sharing
      (t.registerShare round log.block.number participant share).1.shares = .ok keyShare
  /-- ... or the last one is revealed. -/
  finalizesRevealed : ∀ {log round plaintiff accused secretShare sharing share shares},
    message = .event log →
    log.data = .keyGenComplaintResponded round.group.id plaintiff accused secretShare →
    s.rollover = .collectingConfirmations round → round.participation = .participating sharing →
    verifyRevealedSecretShare t.externals.toFrostCrate sharing.groupCommitments plaintiff accused
      secretShare = .ok share →
    t.addRevealed round.status plaintiff accused share = .collecting shares →
    lenU16 shares.rows.length = round.group.count →
    ∃ keyShare, finalizeKeyShare t.externals.toFrostCrate sharing shares = .ok keyShare

variable {t : Transition} {message : Message} {s : State} {r : RolloverState} {c : Address}

/-! ### Starting -/

theorem observed_startKeyGen {next : EpochId} {participants : ParticipantSet} {deadline : Option Nat} :
    (t.startKeyGen next participants deadline).1.observed = .collectingCommitments
      ⟨next, participants.group t.externals.keccak256, .observing, .empty, deadline⟩ := by
  unfold Transition.startKeyGen ParticipantSet.participateAs
  by_cases hmem : t.account ∈ participants.addresses
  · rw [if_pos hmem]
    rfl
  · rw [if_neg hmem]
    rfl

@[simp] theorem observed_rolloverFailure (next : EpochId) :
    (rolloverFailure next).observed = rolloverFailure next := by
  cases next with
  | genesis => rfl
  | number n => rfl

theorem observed_restart {next : EpochId} {excluded : Finset Address} {deadline : Option Nat} :
    (t.restartKeyGenExcluding next excluded deadline).1.observed =
      ((t.withAccount c).restartKeyGenExcluding next excluded deadline).1.observed := by
  unfold Transition.restartKeyGenExcluding
  have hsame : (t.withAccount c).epochParticipants = t.epochParticipants := rfl
  rw [hsame]
  split
  · rw [observed_startKeyGen, observed_startKeyGen]
    rfl
  · rfl

theorem observed_genesisKeyGen (gid : B256) :
    (t.genesisKeyGen r gid).1.observed = ((t.withAccount c).genesisKeyGen r.observed gid).1.observed := by
  cases r with
  | waitingForGenesis =>
      show (if gid = (t.genesis.group t.externals.keccak256).id then _ else _ :
          RolloverState × List Command).1.observed =
        (if gid = (t.genesis.group t.externals.keccak256).id then _ else _ :
          RolloverState × List Command).1.observed
      split
      · rw [observed_startKeyGen, observed_startKeyGen]
        rfl
      · rfl
  | halted => rfl
  | epochStaged next => rfl
  | epochSkipped next => rfl
  | collectingCommitments round => rfl
  | collectingShares round => rfl
  | collectingConfirmations round => rfl
  | signingRollover rollover => rfl

/-! ### Commitments -/

/-- The secrets are sampled for this participant of the group. -/
def SampledFor (t : Transition) (group : Group) (secrets : Secrets) : Prop :=
  secrets.secretPackage.identifier = t.externals.identifier t.account ∧
    secrets.secretPackage.minSigners = group.threshold ∧ secrets.secretPackage.maxSigners = group.count

/-- The commitment is a verified one of a group member. -/
def ValidFor (t : Transition) (group : Group) (participant : Address) (c : VerifiedCommitment) : Prop :=
  participant ∈ group.participants ∧ c.package.commitment.length = group.threshold ∧
    t.externals.verifyProofOfKnowledge (t.externals.identifier participant) c.package.commitment
      c.package.proofOfKnowledge = .ok ⟨⟩

/-- A round of commitments that is not over. -/
structure ReadyRound (t : Transition) (round : CollectingCommitments) : Prop where
  missing : lenU16 round.commitments.rows.length ≠ round.group.count
  count : round.group.count = round.group.participants.card
  fits : round.group.count < 2 ^ 16
  valid : ∀ participant c, round.commitments.lookup participant = some c →
    ValidFor t round.group participant c
  own : ∀ poap secrets, round.secrets = .participating poap secrets →
    t.account ∈ round.group.participants ∧
      ∀ sampled, secrets = some sampled → SampledFor t round.group sampled

/-- Only rounds of commitments wait for something of this validator. -/
def Ready (t : Transition) : RolloverState → Prop
  | .collectingCommitments round => ReadyRound t round
  | _ => True

theorem ready_startKeyGen {next : EpochId} {participants : ParticipantSet} {deadline : Option Nat} :
    Ready t (t.startKeyGen next participants deadline).1 := by
  have htwo := participants.two_le
  have hmissing : lenU16 0 ≠ participants.addresses.card := by
    show 0 % 2 ^ 16 ≠ participants.addresses.card
    omega
  unfold Transition.startKeyGen ParticipantSet.participateAs
  by_cases hmem : t.account ∈ participants.addresses
  · rw [if_pos hmem]
    refine ⟨hmissing, rfl, participants.fits, fun _ _ h => (nomatch h), ?_⟩
    rintro poap secrets ⟨⟩
    exact ⟨hmem, fun _ h => nomatch h⟩
  · rw [if_neg hmem]
    exact ⟨hmissing, rfl, participants.fits, fun _ _ h => (nomatch h), fun _ _ h => (nomatch h)⟩

theorem ready_rolloverFailure {next : EpochId} : Ready t (rolloverFailure next) := by
  cases next with
  | genesis => trivial
  | number n => trivial

theorem ready_restart {next : EpochId} {excluded : Finset Address} {deadline : Option Nat} :
    Ready t (t.restartKeyGenExcluding next excluded deadline).1 := by
  unfold Transition.restartKeyGenExcluding
  split
  · exact ready_startKeyGen
  · exact ready_rolloverFailure

/-- What a verified commitment is. -/
theorem verifyCommitment_ok {crate : FrostCrate} {participant : Address}
    {commitment : Contracts.FROSTCoordinator.KeyGenCommitment} {v : VerifiedCommitment}
    (h : verifyCommitment crate participant commitment = .ok v) :
    v.package.commitment.length = commitment.c.length ∧
      crate.verifyProofOfKnowledge (crate.identifier participant) v.package.commitment
        v.package.proofOfKnowledge = .ok ⟨⟩ := by
  have h := Fallible.mapError_eq_ok.mp h
  obtain ⟨⟨encryption, package⟩, hdecoded, h⟩ := Fallible.bind_eq_ok.mp h
  obtain ⟨publicKey, -, h⟩ := Fallible.bind_eq_ok.mp h
  obtain ⟨⟨⟩, hproof, h⟩ := Fallible.bind_eq_ok.mp h
  obtain rfl := Fallible.pure_eq_ok.mp h
  obtain ⟨q, -, h⟩ := Fallible.bind_eq_ok.mp hdecoded
  obtain ⟨pop, -, h⟩ := Fallible.bind_eq_ok.mp h
  obtain ⟨coefficients, hcoefficients, h⟩ := Fallible.bind_eq_ok.mp h
  obtain ⟨pok, -, h⟩ := Fallible.bind_eq_ok.mp h
  cases h
  exact ⟨Fallible.length_of_mapM _ hcoefficients, hproof⟩

/-- The commitments stay those of group members. -/
theorem valid_addCommitment {round : CollectingCommitments} {participant : Address}
    {commitment : Contracts.FROSTCoordinator.KeyGenCommitment}
    (hvalid : ∀ participant v, round.commitments.lookup participant = some v →
      ValidFor t round.group participant v)
    (hmember : participant ∈ round.group.participants)
    (hlength : commitment.c.length = round.group.threshold) :
    ∀ a v, (t.addCommitment round participant commitment).lookup a = some v →
      ValidFor t round.group a v := by
  intro a v hv
  unfold Transition.addCommitment at hv
  split at hv
  · rename_i verified hverified
    rw [Table.lookup_insert] at hv
    split at hv
    · rename_i ha
      cases hv
      obtain ⟨hlen, hproof⟩ := verifyCommitment_ok hverified
      rw [ha]
      exact ⟨hmember, hlen.trans hlength, hproof⟩
    · exact hvalid a v hv
  · exact hvalid a v hv

/-- A full set of commitments is there for every group member. -/
theorem ReadyRound.complete {round : CollectingCommitments} (h : ReadyRound t round) {poap : List B256}
    {sampled : Secrets} (hsecrets : round.secrets = .participating poap (some sampled))
    {commitments : Table Address VerifiedCommitment}
    (hvalid : ∀ a v, commitments.lookup a = some v → ValidFor t round.group a v)
    (hfull : lenU16 commitments.rows.length = round.group.count)
    (hown : ∀ mine, commitments.lookup t.account = some mine →
      mine.package.commitment = sampled.secretPackage.commitment) :
    Complete t.externals.toFrostCrate t.account sampled commitments := by
  obtain ⟨hmember, hsampled⟩ := h.own _ _ hsecrets
  obtain ⟨hidentifier, hmin, hmax⟩ := hsampled sampled rfl
  have hsubset : commitments.keys ⊆ round.group.participants := by
    intro a ha
    obtain ⟨v, hv⟩ := Table.mem_keys.mp ha
    exact (hvalid a v hv).1
  have hle : commitments.rows.length ≤ round.group.count := by
    rw [← Table.card_keys, h.count]
    exact Finset.card_le_card hsubset
  have hlength : commitments.rows.length = round.group.count := by
    have hfits := h.fits
    unfold lenU16 at hfull
    omega
  have hkeys : commitments.keys = round.group.participants := by
    refine Finset.eq_of_subset_of_card_le hsubset ?_
    rw [Table.card_keys, hlength, h.count]
  have hmine : t.account ∈ commitments.keys := hkeys ▸ hmember
  obtain ⟨mine, hmine⟩ := Table.mem_keys.mp hmine
  refine ⟨hidentifier, hlength.trans hmax.symm, ⟨mine, hmine, hown mine hmine⟩, ?_⟩
  intro a v hv
  rw [hmin]
  exact (hvalid a v hv).2

variable (hcrate : DerivesShares t.externals.toFrostCrate)

include hcrate in
/-- A participant and an observer finalize a full set of commitments alike. -/
theorem observed_finalizeKeyGenCommitments {next : EpochId} {group : Group} {secrets : Secrets}
    {commitments : Table Address VerifiedCommitment} {deadline : Option Nat}
    (hcomplete : Complete t.externals.toFrostCrate t.account secrets commitments) :
    (t.finalizeKeyGenCommitments next group (some secrets) commitments deadline).1.observed =
      (t.finalizeKeyGenCommitments next group none commitments deadline).1.observed := by
  unfold Transition.finalizeKeyGenCommitments Transition.participate
  dsimp only
  cases hgc : groupCommitments t.externals.toFrostCrate commitments with
  | ok gc =>
      obtain ⟨result, hresult, hsame⟩ := generate_of_groupCommitments hcrate hcomplete hgc
      rw [hresult]
      show RolloverState.collectingShares ⟨next, group, .observing result.1.groupCommitments, _, _, _, _⟩ =
        _
      rw [hsame]
      rfl
  | error e =>
      cases hresult : generateSecretShares t.externals.toFrostCrate secrets commitments with
      | ok result =>
          rw [groupCommitments_of_generate hresult] at hgc
          cases hgc
      | error e' => rfl

theorem ready_finalizeKeyGenCommitments {next : EpochId} {group : Group} {secrets : Option Secrets}
    {commitments : Table Address VerifiedCommitment} {deadline : Option Nat} :
    Ready t (t.finalizeKeyGenCommitments next group secrets commitments deadline).1 := by
  unfold Transition.finalizeKeyGenCommitments
  split
  · trivial
  · exact ready_rolloverFailure

/-- What a message does to the rollover state is what it does to an observer. -/
structure Follows (t : Transition) (after : RolloverState) (observer : RolloverState) : Prop where
  observed : after.observed = observer.observed
  ready : Ready t after

include hcrate in
theorem follows_keyGenCommitted {log : Core.EventLog Event} {gid : B256} {participant : Address}
    {commitment : Contracts.FROSTCoordinator.KeyGenCommitment} (hready : Ready t s.rollover)
    (hpromised : KeyGenPromised t message s) (hmessage : message = .event log)
    (hdata : log.data = .keyGenCommitted gid participant commitment) (block : Nat) :
    Follows t (t.keyGenCommitted s.rollover block gid participant commitment).1
      ((t.withAccount c).keyGenCommitted s.rollover.observed block gid participant commitment).1 := by
  cases hrollover : s.rollover with
  | collectingCommitments round =>
      rw [hrollover] at hready
      by_cases hid : round.group.id = gid
      · subst hid
        have hsame : (t.withAccount c).addCommitment { round with secrets := .observing } participant
          commitment = t.addCommitment round participant commitment := rfl
        obtain ⟨hmember, hlength⟩ := hpromised.members hmessage hdata hrollover
        have hvalid := valid_addCommitment hready.valid hmember hlength
        unfold Transition.keyGenCommitted RolloverState.observed
        dsimp only
        rw [if_pos rfl, if_pos rfl, hsame]
        by_cases hfull : lenU16 (t.addCommitment round participant commitment).rows.length =
            round.group.count
        · rw [if_neg (not_not.mpr hfull), if_neg (not_not.mpr hfull)]
          cases hsecrets : round.secrets with
          | observing => exact ⟨rfl, ready_finalizeKeyGenCommitments⟩
          | participating poap secrets =>
              obtain ⟨sampled, rfl, hown⟩ := hpromised.inTime hmessage hdata hrollover hsecrets hfull
              have hcomplete := hready.complete hsecrets hvalid hfull hown
              exact ⟨observed_finalizeKeyGenCommitments hcrate hcomplete,
                ready_finalizeKeyGenCommitments⟩
        · rw [if_pos hfull, if_pos hfull]
          exact ⟨rfl, hfull, hready.count, hready.fits, hvalid, hready.own⟩
      · unfold Transition.keyGenCommitted RolloverState.observed
        dsimp only
        rw [if_neg hid, if_neg hid]
        exact ⟨rfl, hready⟩
  | waitingForGenesis => exact ⟨rfl, trivial⟩
  | halted => exact ⟨rfl, trivial⟩
  | epochStaged next => exact ⟨rfl, trivial⟩
  | epochSkipped next => exact ⟨rfl, trivial⟩
  | collectingShares round => exact ⟨rfl, trivial⟩
  | collectingConfirmations round => exact ⟨rfl, trivial⟩
  | signingRollover rollover => exact ⟨rfl, trivial⟩

/-- A setup that resumes in time only adds the secrets. -/
theorem observed_keyGenSetup {groupId : B256} {secrets : Secrets} (hready : Ready t s.rollover)
    (hpromised : KeyGenPromised t message s) (hmessage : message = .resume (.setup groupId secrets)) :
    Follows t (t.keyGenSetup s.rollover groupId secrets).1 s.rollover := by
  unfold Transition.keyGenSetup
  split
  · rename_i round hrollover
    rw [hrollover] at hready ⊢
    split
    · rename_i poap hsecrets
      split
      · rename_i hid
        subst hid
        dsimp only
        rw [if_pos hready.missing]
        refine ⟨rfl, hready.missing, hready.count, hready.fits, hready.valid, ?_⟩
        rintro poap' secrets' ⟨⟩
        refine ⟨(hready.own _ _ hsecrets).1, ?_⟩
        rintro sampled ⟨⟩
        show SampledFor t round.group secrets
        exact hpromised.setup hmessage hrollover
      · exact ⟨rfl, hready⟩
    · exact ⟨rfl, hready⟩
  · exact ⟨rfl, hready⟩

/-! ### Shares and complaints -/

/-- The round of an observer. -/
def RolloverState.CollectingShares.observed (round : CollectingShares) : CollectingShares :=
  { round with participation := .observing round.participation.groupCommitments, shares := .empty }

theorem observed_registerShare {round : CollectingShares} {block : Nat} {participant : Address}
    {share : Contracts.FROSTCoordinator.KeyGenSecretShare} :
    (t.registerShare round block participant share).1.observed =
      ((t.withAccount c).registerShare round.observed block participant share).1.observed := by
  unfold Transition.registerShare
  cases h : verifySecretShare t.externals.toFrostCrate round.participation.groupCommitments participant
      share with
  | ok encryptedShares =>
      have h' : verifySecretShare (t.withAccount c).externals.toFrostCrate
        round.observed.participation.groupCommitments participant share = .ok encryptedShares := h
      rw [h']
      rfl
  | error e =>
      have h' : verifySecretShare (t.withAccount c).externals.toFrostCrate
        round.observed.participation.groupCommitments participant share = .error e := h
      rw [h']
      rfl

/-- The confirmation round that an observer starts. -/
theorem observed_startConfirmations {round : CollectingShares} {block : Nat} {commands : List Command}
    (hok : ∃ status, t.initialStatus round (round.deadline.map fun _ => t.confirmationDeadlines block) =
      .ok status) :
    (t.startConfirmations round block commands).1.observed = .collectingConfirmations
      { nextEpoch := round.observed.nextEpoch
        group := round.observed.group
        participation := round.observed.participation
        status := .observing
        confirmations := ∅
        complaints := round.observed.complaints
        deadlines := round.observed.deadline.map fun _ => t.confirmationDeadlines block } := by
  obtain ⟨status, hok⟩ := hok
  unfold Transition.startConfirmations
  dsimp only
  rw [hok]
  rfl

theorem ready_startConfirmations {round : CollectingShares} {block : Nat} {commands : List Command} :
    Ready t (t.startConfirmations round block commands).1 := by
  unfold Transition.startConfirmations
  dsimp only
  split
  · trivial
  · exact ready_rolloverFailure

theorem confirmKeyGen_of_finalize {epoch : EpochId} {group : Group} {sharing : SharingState}
    {shares : Table Address VerifiedShare} {deadlines : Option ConfirmationDeadlines} {keyShare : KeyShare}
    (h : finalizeKeyShare t.externals.toFrostCrate sharing shares = .ok keyShare) :
    ∃ commands, t.confirmKeyGen epoch group sharing shares deadlines =
      .ok (.confirmed keyShare, commands) := by
  exact ⟨_, Fallible.bind_eq_ok.mpr ⟨keyShare, h, rfl⟩⟩

/-- The confirmation round starts, if a full set of shares can be finalized. -/
theorem initialStatus_ok {round : CollectingShares} {deadlines : Option ConfirmationDeadlines}
    (h : ∀ sharing, round.participation = .participating sharing →
      lenU16 round.shares.rows.length = round.group.count →
      ∃ keyShare, finalizeKeyShare t.externals.toFrostCrate sharing round.shares = .ok keyShare) :
    ∃ status, t.initialStatus round deadlines = .ok status := by
  unfold Transition.initialStatus
  split
  · rename_i sharing hparticipation
    split
    · rename_i hfull
      obtain ⟨keyShare, hfinal⟩ := h sharing hparticipation hfull
      obtain ⟨commands, hok⟩ := confirmKeyGen_of_finalize hfinal
      exact ⟨_, hok⟩
    · exact ⟨_, rfl⟩
  · exact ⟨_, rfl⟩

theorem follows_keyGenSecretShared {log : Core.EventLog Event} {gid : B256} {participant : Address}
    {share : Contracts.FROSTCoordinator.KeyGenSecretShare} (hready : Ready t s.rollover)
    (hpromised : KeyGenPromised t message s) (hmessage : message = .event log)
    (hdata : log.data = .keyGenSecretShared gid participant share) :
    Follows t (t.keyGenSecretShared s.rollover log.block.number gid participant share).1
      ((t.withAccount c).keyGenSecretShared s.rollover.observed log.block.number gid participant
        share).1 := by
  cases hrollover : s.rollover with
  | collectingShares round =>
      by_cases hid : round.group.id = gid
      · subst hid
        let registered := t.registerShare round log.block.number participant share
        let registered' := (t.withAccount c).registerShare round.observed log.block.number participant share
        have hsame : registered.1.observed = registered'.1.observed := observed_registerShare
        obtain ⟨-, hgroup, hparticipation⟩ :=
          KeyGenMove.registerShare_eq t round log.block.number participant share
        obtain ⟨-, hgroup', hparticipation'⟩ :=
          KeyGenMove.registerShare_eq (t.withAccount c) round.observed log.block.number participant share
        have hshared : registered'.1.shared = registered.1.shared :=
          (congrArg CollectingShares.shared hsame).symm
        show Follows t (if round.group.id = round.group.id then
            if lenU16 registered.1.shared.card ≠ round.group.count then _ else _ else _ :
              RolloverState × List Command).1
          (if round.group.id = round.group.id then
            if lenU16 registered'.1.shared.card ≠ round.group.count then _ else _ else _ :
              RolloverState × List Command).1
        rw [if_pos rfl, if_pos rfl, hshared]
        by_cases hfull : lenU16 registered.1.shared.card = round.group.count
        · rw [if_neg (not_not.mpr hfull), if_neg (not_not.mpr hfull)]
          refine ⟨?_, ready_startConfirmations⟩
          rw [observed_startConfirmations, observed_startConfirmations, hsame]
          · rfl
          · -- an observer has nothing to finalize
            refine initialStatus_ok fun sharing hsharing => ?_
            cases hparticipation'.symm.trans hsharing
          · refine initialStatus_ok fun sharing hsharing hshares => ?_
            rw [hparticipation] at hsharing
            rw [hgroup] at hshares
            exact hpromised.finalizes hmessage hdata hrollover hsharing hshares
        · rw [if_pos hfull, if_pos hfull]
          exact ⟨congrArg RolloverState.collectingShares hsame, trivial⟩
      · unfold Transition.keyGenSecretShared RolloverState.observed
        dsimp only
        rw [if_neg hid, if_neg hid]
        exact ⟨rfl, trivial⟩
  | waitingForGenesis => exact ⟨rfl, trivial⟩
  | halted => exact ⟨rfl, trivial⟩
  | epochStaged next => exact ⟨rfl, trivial⟩
  | epochSkipped next => exact ⟨rfl, trivial⟩
  | collectingCommitments round =>
      rw [hrollover] at hready
      exact ⟨rfl, hready⟩
  | collectingConfirmations round => exact ⟨rfl, trivial⟩
  | signingRollover rollover => exact ⟨rfl, trivial⟩

theorem follows_keyGenComplained {gid : B256} {plaintiff accused : Address} {block : Nat}
    (hready : Ready t r) :
    Follows t (t.keyGenComplained r block gid plaintiff accused).1
      ((t.withAccount c).keyGenComplained r.observed block gid plaintiff accused).1 := by
  cases r with
  | collectingShares round =>
      unfold Transition.keyGenComplained RolloverState.observed
      dsimp only
      by_cases hid : round.group.id = gid
      · rw [if_pos hid, if_pos hid]
        split
        · exact ⟨observed_restart, ready_restart⟩
        · exact ⟨rfl, trivial⟩
      · rw [if_neg hid, if_neg hid]
        exact ⟨rfl, trivial⟩
  | collectingConfirmations round =>
      unfold Transition.keyGenComplained RolloverState.observed
      dsimp only
      by_cases hid : round.group.id = gid
      · rw [if_pos hid, if_pos hid]
        split
        · exact ⟨observed_restart, ready_restart⟩
        · exact ⟨rfl, trivial⟩
      · rw [if_neg hid, if_neg hid]
        exact ⟨rfl, trivial⟩
  | waitingForGenesis => exact ⟨rfl, trivial⟩
  | halted => exact ⟨rfl, trivial⟩
  | epochStaged next => exact ⟨rfl, trivial⟩
  | epochSkipped next => exact ⟨rfl, trivial⟩
  | collectingCommitments round => exact ⟨rfl, hready⟩
  | signingRollover rollover => exact ⟨rfl, trivial⟩

/-- The round of an observer. -/
def RolloverState.CollectingConfirmations.observed (round : CollectingConfirmations) :
    CollectingConfirmations :=
  { round with
    participation := .observing round.participation.groupCommitments
    status := .observing }

/-- A revealed share changes the status of this validator only. -/
theorem follows_confirmRevealed {round : CollectingConfirmations}
    (hok : ∀ sharing shares, round.participation = .participating sharing →
      round.status = .collecting shares → lenU16 shares.rows.length = round.group.count →
      ∃ keyShare, finalizeKeyShare t.externals.toFrostCrate sharing shares = .ok keyShare) :
    Follows t (t.confirmRevealed round).1 (.collectingConfirmations round) := by
  unfold Transition.confirmRevealed
  split
  · rename_i sharing shares hparticipation hstatus
    split
    · rename_i hfull
      obtain ⟨keyShare, hfinal⟩ := hok sharing shares hparticipation hstatus hfull
      obtain ⟨commands, hconfirmed⟩ := @confirmKeyGen_of_finalize t round.nextEpoch round.group _ _
        round.deadlines _ hfinal
      rw [hconfirmed]
      exact ⟨rfl, trivial⟩
    · exact ⟨rfl, trivial⟩
  · exact ⟨rfl, trivial⟩

theorem follows_keyGenComplaintResponded {log : Core.EventLog Event} {gid : B256}
    {plaintiff accused : Address} {secretShare : B256} (hready : Ready t s.rollover)
    (hpromised : KeyGenPromised t message s) (hmessage : message = .event log)
    (hdata : log.data = .keyGenComplaintResponded gid plaintiff accused secretShare) (block : Nat) :
    Follows t (t.keyGenComplaintResponded s.rollover block gid plaintiff accused secretShare).1
      ((t.withAccount c).keyGenComplaintResponded s.rollover.observed block gid plaintiff accused
        secretShare).1 := by
  cases hrollover : s.rollover with
  | collectingShares round =>
      unfold Transition.keyGenComplaintResponded RolloverState.observed
      dsimp only
      by_cases hid : round.group.id = gid
      · rw [if_pos hid, if_pos hid]
        cases Transition.respond round.complaints plaintiff accused with
        | none => exact ⟨rfl, trivial⟩
        | some complaint =>
            dsimp only
            have hsame : verifyRevealedSecretShare (t.withAccount c).externals.toFrostCrate
                (KeyGenParticipation.observing round.participation.groupCommitments).groupCommitments
                plaintiff accused secretShare = verifyRevealedSecretShare t.externals.toFrostCrate
                round.participation.groupCommitments plaintiff accused secretShare := rfl
            rw [hsame]
            split
            · exact ⟨rfl, trivial⟩
            · exact ⟨observed_restart, ready_restart⟩
      · rw [if_neg hid, if_neg hid]
        exact ⟨rfl, trivial⟩
  | collectingConfirmations round =>
      unfold Transition.keyGenComplaintResponded RolloverState.observed
      dsimp only
      by_cases hid : round.group.id = gid ∧ round.deadlines.all fun deadlines => block ≤ deadlines.response
      · rw [if_pos hid, if_pos hid]
        cases Transition.respond round.complaints plaintiff accused with
        | none => exact ⟨rfl, trivial⟩
        | some complaint =>
            dsimp only
            have hsame : verifyRevealedSecretShare (t.withAccount c).externals.toFrostCrate
                (KeyGenParticipation.observing round.participation.groupCommitments).groupCommitments
                plaintiff accused secretShare = verifyRevealedSecretShare t.externals.toFrostCrate
                round.participation.groupCommitments plaintiff accused secretShare := rfl
            rw [hsame]
            split
            · rename_i share hverified
              let revealed : CollectingConfirmations :=
                { round with
                  complaints := round.complaints.insert accused complaint
                  status := t.addRevealed round.status plaintiff accused share }
              have hfollows : Follows t (t.confirmRevealed revealed).1
                  (.collectingConfirmations revealed) := by
                refine follows_confirmRevealed fun sharing shares hparticipation hstatus => ?_
                change round.participation = _ at hparticipation
                rw [hparticipation] at hverified
                have hcollecting : t.addRevealed round.status plaintiff accused share =
                  .collecting shares := hstatus
                have hfinal := hpromised.finalizesRevealed hmessage (hid.1 ▸ hdata) hrollover
                  hparticipation hverified hcollecting
                exact hfinal
              exact ⟨hfollows.observed, hfollows.ready⟩
            · exact ⟨observed_restart, ready_restart⟩
      · rw [if_neg hid, if_neg hid]
        exact ⟨rfl, trivial⟩
  | waitingForGenesis => exact ⟨rfl, trivial⟩
  | halted => exact ⟨rfl, trivial⟩
  | epochStaged next => exact ⟨rfl, trivial⟩
  | epochSkipped next => exact ⟨rfl, trivial⟩
  | collectingCommitments round =>
      rw [hrollover] at hready
      exact ⟨rfl, hready⟩
  | signingRollover rollover => exact ⟨rfl, trivial⟩

/-! ### Confirmations and the clock -/

theorem RolloverState.observed_observed (r : RolloverState) : r.observed.observed = r.observed := by
  cases r <;> rfl

theorem State.observed_observed (s : State) : s.observed.observed = s.observed :=
  State.observed_eq (RolloverState.observed_observed s.rollover) rfl

theorem nextEpoch_observed (r : RolloverState) : r.observed.nextEpoch = r.nextEpoch := by
  cases r <;> rfl

theorem observed_eq_confirmations {round : CollectingConfirmations}
    (h : r.observed = .collectingConfirmations round) : ∃ round', r = .collectingConfirmations round' := by
  cases r with
  | collectingConfirmations round' => exact ⟨round', rfl⟩
  | waitingForGenesis => cases h
  | halted => cases h
  | epochStaged next => cases h
  | epochSkipped next => cases h
  | collectingCommitments round' => cases h
  | collectingShares round' => cases h
  | signingRollover rollover => cases h

/-- The genesis group is complete. -/
theorem observed_genesisConfirmed {block : Nat} (round : CollectingConfirmations) :
    (t.genesisConfirmed s block round).1.observed =
      ((t.withAccount c).genesisConfirmed s.observed block round.observed).1.observed := by
  unfold Transition.genesisConfirmed
  have hsame : (t.withAccount c).epochParticipants = t.epochParticipants := rfl
  have hnext : (t.withAccount c).config = t.config := rfl
  dsimp only
  rw [hsame, hnext]
  split
  · refine State.observed_eq ?_ ?_
    · show (t.startKeyGen _ _ _).1.observed = ((t.withAccount c).startKeyGen _ _ _).1.observed
      rw [observed_startKeyGen, observed_startKeyGen]
      rfl
    · show (Transition.finalizeKeyGen _ _ _ _).activeEpoch = (Transition.finalizeKeyGen _ _ _ _).activeEpoch
      rw [finalizeKeyGen_eq.2.2.1, finalizeKeyGen_eq.2.2.1]
      rfl
  · refine State.observed_eq ?_ ?_
    · rw [finalizeKeyGen_eq.1, finalizeKeyGen_eq.1]
    · rw [finalizeKeyGen_eq.2.2.1, finalizeKeyGen_eq.2.2.1]
      rfl

theorem observed_handleKeyGenConfirmed {gid : B256} {participant : Address} {block : Nat} :
    (t.handleKeyGenConfirmed s block gid participant).1.observed =
      ((t.withAccount c).handleKeyGenConfirmed s.observed block gid participant).1.observed := by
  by_cases hconfirming : ∃ round, s.rollover = .collectingConfirmations round
  · obtain ⟨round, hrollover⟩ := hconfirming
    have hobserved : s.observed.rollover = .collectingConfirmations round.observed := by
      show s.rollover.observed = _
      rw [hrollover]
      rfl
    have hgroup : round.observed.group = round.group := rfl
    have hconfirmations : round.observed.confirmations = round.confirmations := rfl
    have hepoch : round.observed.nextEpoch = round.nextEpoch := rfl
    unfold Transition.handleKeyGenConfirmed
    rw [hrollover, hobserved]
    dsimp only
    rw [hgroup, hconfirmations, hepoch]
    by_cases hid : round.group.id = gid
    · rw [if_pos hid, if_pos hid]
      split
      · exact State.observed_eq rfl rfl
      · split
        · exact observed_genesisConfirmed round
        · exact State.observed_eq rfl rfl
    · rw [if_neg hid, if_neg hid]
      exact (State.observed_observed s).symm
  · have hstays : ∀ (t' : Transition) (s' : State), (∀ round, s'.rollover ≠ .collectingConfirmations round) →
        (t'.handleKeyGenConfirmed s' block gid participant).1 = s' := by
      intro t' s' hne
      unfold Transition.handleKeyGenConfirmed
      split
      · rename_i round hround
        exact absurd hround (hne round)
      · rfl
    rw [hstays t s fun round hround => hconfirming ⟨round, hround⟩, hstays (t.withAccount c) s.observed]
    · exact (State.observed_observed s).symm
    · intro round hround
      exact hconfirming (observed_eq_confirmations hround)

theorem ready_handleKeyGenConfirmed {gid : B256} {participant : Address} {block : Nat}
    (hready : Ready t s.rollover) :
    Ready t (t.handleKeyGenConfirmed s block gid participant).1.rollover := by
  unfold Transition.handleKeyGenConfirmed
  split
  · rename_i hrollover
    split
    · dsimp only
      split
      · trivial
      · split
        · unfold Transition.genesisConfirmed
          dsimp only
          split
          · exact ready_startKeyGen
          · rw [finalizeKeyGen_eq.1]
            trivial
        · trivial
    · exact hready
  · exact hready

theorem observed_handleEpochStaged {proposedEpoch : Nat} {gid : B256} :
    (Transition.handleEpochStaged s proposedEpoch gid).1.observed =
      (Transition.handleEpochStaged s.observed proposedEpoch gid).1.observed := by
  have hobserved : s.observed.rollover = s.rollover.observed := rfl
  unfold Transition.handleEpochStaged
  rw [hobserved]
  cases hrollover : s.rollover with
  | signingRollover rollover =>
      show (if rollover.group.id = gid then _ else _ : State × List Command).1.observed =
        (if rollover.group.id = gid then _ else _ : State × List Command).1.observed
      split
      · refine State.observed_eq ?_ ?_
        · show (Transition.finalizeKeyGen _ _ _ _).rollover.observed =
            (Transition.finalizeKeyGen _ _ _ _).rollover.observed
          rw [finalizeKeyGen_eq.1, finalizeKeyGen_eq.1]
        · show (Transition.finalizeKeyGen _ _ _ _).activeEpoch =
            (Transition.finalizeKeyGen _ _ _ _).activeEpoch
          rw [finalizeKeyGen_eq.2.2.1, finalizeKeyGen_eq.2.2.1]
          rfl
      · exact (State.observed_observed s).symm
  | waitingForGenesis => exact State.observed_eq rfl rfl
  | halted => exact (State.observed_observed s).symm
  | epochStaged next => exact (State.observed_observed s).symm
  | epochSkipped next => exact (State.observed_observed s).symm
  | collectingCommitments round => exact (State.observed_observed s).symm
  | collectingShares round => exact (State.observed_observed s).symm
  | collectingConfirmations round => exact (State.observed_observed s).symm

theorem ready_handleEpochStaged {proposedEpoch : Nat} {gid : B256} (hready : Ready t s.rollover) :
    Ready t (Transition.handleEpochStaged s proposedEpoch gid).1.rollover := by
  unfold Transition.handleEpochStaged
  split
  · split
    · rw [(handleSignAttested_eq _).1, finalizeKeyGen_eq.1]
      trivial
    · exact hready
  · dsimp only
    split
    · trivial
    · trivial
  · exact hready

theorem activate_observed (target : ℕ+) :
    (Transition.activate s target).activeEpoch = (Transition.activate s.observed target).activeEpoch := by
  have hobserved : s.observed.rollover = s.rollover.observed := rfl
  unfold Transition.activate
  rw [hobserved]
  cases s.rollover <;> rfl

theorem observed_handleRolloverNewBlock (block : Nat) :
    (t.handleRolloverNewBlock s block).1.observed =
      ((t.withAccount c).handleRolloverNewBlock s.observed block).1.observed := by
  have hnext : s.observed.rollover.nextEpoch = s.rollover.nextEpoch := nextEpoch_observed s.rollover
  have hsame : (t.withAccount c).epochParticipants = t.epochParticipants := rfl
  have hconfig : (t.withAccount c).config = t.config := rfl
  unfold Transition.handleRolloverNewBlock
  rw [hnext, hsame, hconfig]
  split
  · exact (State.observed_observed s).symm
  · rename_i target _
    dsimp only
    split
    · exact (State.observed_observed s).symm
    · split
      · refine State.observed_eq ?_ (activate_observed target)
        show (t.startKeyGen _ _ _).1.observed = ((t.withAccount c).startKeyGen _ _ _).1.observed
        rw [observed_startKeyGen, observed_startKeyGen]
        rfl
      · exact State.observed_eq rfl (activate_observed target)

theorem ready_handleRolloverNewBlock (block : Nat) (hready : Ready t s.rollover) :
    Ready t (t.handleRolloverNewBlock s block).1.rollover := by
  unfold Transition.handleRolloverNewBlock
  split
  · exact hready
  · dsimp only
    split
    · exact hready
    · split
      · exact ready_startKeyGen
      · trivial

theorem stalled_observed (r : RolloverState) (block : Nat) :
    Transition.stalled r.observed block = Transition.stalled r block := by
  cases r <;> rfl

theorem follows_restartStalled {block : Nat} (hready : Ready t r) :
    Follows t (t.restartStalled r block).1 ((t.withAccount c).restartStalled r.observed block).1 := by
  unfold Transition.restartStalled
  rw [stalled_observed]
  split
  · exact ⟨observed_restart, ready_restart⟩
  · exact ⟨(RolloverState.observed_observed r).symm, hready⟩

/-- A round that is not over is not stuck. -/
theorem ReadyRound.not_stuck {round : CollectingCommitments} (h : ReadyRound t round) (block : Nat) :
    Transition.stuck round block = false := by
  unfold Transition.stuck
  split
  · rw [decide_eq_false h.missing, Bool.and_false]
  · rfl

theorem follows_keyGenTimeouts {block : Nat} (hready : Ready t r) :
    Follows t (t.keyGenTimeouts r block).1 ((t.withAccount c).keyGenTimeouts r.observed block).1 := by
  cases r with
  | collectingCommitments round =>
      show Follows t (if Transition.stuck round block then _ else _ : RolloverState × List Command).1
        ((t.withAccount c).restartStalled (RolloverState.collectingCommitments round).observed block).1
      rw [hready.not_stuck block]
      exact @follows_restartStalled t _ c block hready
  | waitingForGenesis => exact @follows_restartStalled t _ c block hready
  | halted => exact @follows_restartStalled t _ c block hready
  | epochStaged next => exact @follows_restartStalled t _ c block hready
  | epochSkipped next => exact @follows_restartStalled t _ c block hready
  | collectingShares round => exact @follows_restartStalled t _ c block hready
  | collectingConfirmations round => exact @follows_restartStalled t _ c block hready
  | signingRollover rollover => exact @follows_restartStalled t _ c block hready

/-! ### Whole messages -/

/-- An observer waits for nothing. -/
theorem Ready.observed (h : Ready t r) : Ready (t.withAccount c) r.observed := by
  cases r with
  | collectingCommitments round =>
      exact ⟨h.missing, h.count, h.fits, h.valid, fun _ _ hsecrets => (nomatch hsecrets)⟩
  | waitingForGenesis => trivial
  | halted => trivial
  | epochStaged next => trivial
  | epochSkipped next => trivial
  | collectingShares round => trivial
  | collectingConfirmations round => trivial
  | signingRollover rollover => trivial

/-- What a message does to a state is what it does to an observer. -/
structure StateFollows (t : Transition) (after observer : State) : Prop where
  observed : after.observed = observer.observed
  ready : Ready t after.rollover

theorem follows_newBlock {block : Nat} (hready : Ready t s.rollover) :
    StateFollows t (t.newBlock s block).1 ((t.withAccount c).newBlock s.observed block).1 := by
  have hclock : (t.handleRolloverNewBlock s block).1.observed =
      ((t.withAccount c).handleRolloverNewBlock s.observed block).1.observed :=
    observed_handleRolloverNewBlock block
  have hrollover : (t.handleRolloverNewBlock s block).1.rollover.observed =
      ((t.withAccount c).handleRolloverNewBlock s.observed block).1.rollover.observed :=
    congrArg State.rollover hclock
  have hfollows := @follows_keyGenTimeouts t _ c block (ready_handleRolloverNewBlock block hready)
  -- the timeouts of the observer itself
  have hobserver : Ready (t.withAccount c) s.observed.rollover := hready.observed
  have htimeouts := @follows_keyGenTimeouts (t.withAccount c) _ c block
    (ready_handleRolloverNewBlock block hobserver)
  have hactive : (t.handleRolloverNewBlock s block).1.activeEpoch =
      ((t.withAccount c).handleRolloverNewBlock s.observed block).1.activeEpoch := by
    have h := congrArg State.activeEpoch hclock
    exact h
  refine ⟨State.observed_eq ?_ hactive, hfollows.ready⟩
  rw [newBlock_rollover, newBlock_rollover, hfollows.observed, htimeouts.observed, hrollover]
  rfl

theorem follows_withRollover {result observer : RolloverState × List Command}
    (h : Follows t result.1 observer.1) :
    StateFollows t (s.withRollover result).1 (s.observed.withRollover observer).1 :=
  ⟨State.observed_eq h.observed rfl, h.ready⟩

theorem follows_session {event : Event} {block : Nat} {oracle : Address} (h : event.ofSession = true)
    (hready : Ready t s.rollover) :
    StateFollows t (t.onEvent s block oracle event).1
      ((t.withAccount c).onEvent s.observed block oracle event).1 := by
  obtain ⟨hrollover, hactive⟩ := @onEvent_ofSession t s event block oracle h
  obtain ⟨hrollover', hactive'⟩ := @onEvent_ofSession (t.withAccount c) s.observed event block oracle h
  refine ⟨State.observed_eq ?_ (hactive.trans hactive'.symm), ?_⟩
  · rw [hrollover, hrollover']
    exact (RolloverState.observed_observed s.rollover).symm
  · rw [hrollover]
    exact hready

theorem ready_genesisKeyGen {gid : B256} (hready : Ready t r) : Ready t (t.genesisKeyGen r gid).1 := by
  unfold Transition.genesisKeyGen
  split
  · split
    · exact ready_startKeyGen
    · exact hready
  · exact hready

include hcrate in
/-- **A block or an event does to a validator what it does to an observer.** -/
theorem observed_applyTransition (hready : Ready t s.rollover) (hpromised : KeyGenPromised t message s)
    (hchain : ∀ result, message ≠ .resume result) :
    StateFollows t (t.applyTransition s message).1
      ((t.withAccount c).applyTransition s.observed message).1 := by
  cases message with
  | newBlock block => exact follows_newBlock hready
  | resume result => exact absurd rfl (hchain result)
  | event log =>
      show StateFollows t (t.onEvent s log.block.number log.address log.data).1
        ((t.withAccount c).onEvent s.observed log.block.number log.address log.data).1
      cases hdata : log.data with
      | keyGen gid => exact follows_withRollover ⟨observed_genesisKeyGen gid, ready_genesisKeyGen hready⟩
      | keyGenCommitted gid participant commitment =>
          exact follows_withRollover
            (follows_keyGenCommitted hcrate hready hpromised rfl hdata log.block.number)
      | keyGenSecretShared gid participant share =>
          exact follows_withRollover (follows_keyGenSecretShared hready hpromised rfl hdata)
      | keyGenConfirmed gid participant =>
          exact ⟨observed_handleKeyGenConfirmed, ready_handleKeyGenConfirmed hready⟩
      | keyGenComplained gid plaintiff accused =>
          exact follows_withRollover (follows_keyGenComplained hready)
      | keyGenComplaintResponded gid plaintiff accused secretShare =>
          exact follows_withRollover
            (follows_keyGenComplaintResponded hready hpromised rfl hdata log.block.number)
      | epochStaged proposedEpoch gid signatureId =>
          exact ⟨observed_handleEpochStaged, ready_handleEpochStaged hready⟩
      | sign gid m sid => exact follows_session rfl hready
      | signCommittedNonces sid participant nonces => exact follows_session rfl hready
      | signShared sid root participant => exact follows_session rfl hready
      | signCompleted sid => exact follows_session rfl hready
      | transactionProposed oracle epoch oracleData tx => exact follows_session rfl hready
      | transactionAttested safeTxHash oracle epoch oracleDataHash signatureId =>
          exact follows_session rfl hready
      | oracleResult requestId isApproved => exact follows_session rfl hready
      | other => exact follows_session rfl hready

/-- A resume changes nothing that an observer knows. -/
theorem observed_onResume (hready : Ready t s.rollover) {result : Resume}
    (hpromised : KeyGenPromised t (.resume result) s) :
    StateFollows t (t.applyTransition s (.resume result)).1 s := by
  cases result with
  | noop => exact ⟨rfl, hready⟩
  | setup groupId secrets =>
      have hfollows := observed_keyGenSetup hready hpromised rfl
      exact ⟨State.observed_eq hfollows.observed rfl, hfollows.ready⟩
  | nonceCommitments signatureId nonces =>
      show StateFollows t (Transition.handleNonceCommitments s signatureId nonces).1 s
      rw [Changes.handleNonceCommitments]
      exact ⟨rfl, hready⟩
  | nonces m nonces =>
      show StateFollows t (t.handleNonces s m nonces).1 s
      rw [Changes.handleNonces]
      exact ⟨rfl, hready⟩

/-! ### Runs -/

/-- The message that reaches everyone. -/
def NetInput.chain : NetInput → Option Message
  | .newBlock number => some (.newBlock number)
  | .event log => some (.event log)
  | .resume _ _ => none

/-- What an observer makes of a run. -/
def observerOf (t : Transition) (inputs : List NetInput) : State :=
  (inputs.filterMap NetInput.chain).foldl
    (fun s message => ((t.withAccount 0).applyTransition s message).1.observed) State.default

theorem observerOf_concat (t : Transition) (inputs : List NetInput) (input : NetInput) :
    observerOf t (inputs ++ [input]) =
      match input.chain with
      | some message => ((t.withAccount 0).applyTransition (observerOf t inputs) message).1.observed
      | none => observerOf t inputs := by
  unfold observerOf
  rw [List.filterMap_append, List.foldl_append]
  cases h : input.chain with
  | none => simp [h]
  | some message => simp [h]

/-- Every message of a validator keeps the promises. -/
def KeyGenRun (t : Transition) (inputs : List NetInput) (a : Address) : Prop :=
  ∀ st ∈ trace (t.withAccount a).applyTransition State.default (view a inputs),
    KeyGenPromised (t.withAccount a) st.input st.pre

theorem KeyGenRun.before {inputs after : List NetInput} {a : Address} (h : KeyGenRun t (inputs ++ after) a) :
    KeyGenRun t inputs a := by
  intro st hst
  refine h st ?_
  unfold view
  rw [List.filterMap_append, trace_append]
  exact List.mem_append_left _ hst

theorem KeyGenRun.next {inputs : List NetInput} {input : NetInput} {a : Address}
    (h : KeyGenRun t (inputs ++ [input]) a) (hmessage : input.messageTo a = some message) :
    KeyGenPromised (t.withAccount a) message (stateOf t inputs a) := by
  refine h (take (t.withAccount a).applyTransition (stateOf t inputs a) message) ?_
  unfold view
  rw [List.filterMap_append, List.filterMap_cons_some hmessage, List.filterMap_nil, trace_concat]
  exact List.mem_append_right _ (List.mem_singleton.mpr rfl)

include hcrate in
theorem stateFollows_chain {inputs : List NetInput} {input : NetInput} {a : Address}
    (h : KeyGenRun t (inputs ++ [input]) a) (hready : Ready (t.withAccount a) (stateOf t inputs a).rollover)
    (hobserved : (stateOf t inputs a).observed = observerOf t inputs)
    (hmessage : input.messageTo a = some message) (hchain : input.chain = some message)
    (hkind : ∀ result, message ≠ .resume result) :
    (stateOf t (inputs ++ [input]) a).observed = observerOf t (inputs ++ [input]) ∧
      Ready (t.withAccount a) (stateOf t (inputs ++ [input]) a).rollover := by
  have hfollows := @observed_applyTransition (t.withAccount a) message (stateOf t inputs a) 0 hcrate
    hready (h.next hmessage) hkind
  rw [stateOf_concat, hmessage, observerOf_concat, hchain]
  dsimp only
  refine ⟨?_, hfollows.ready⟩
  rw [← hobserved]
  exact hfollows.observed

include hcrate in
/-- **A validator knows of key generation what an observer knows.** -/
theorem stateFollows_observer (inputs : List NetInput) (a : Address) (h : KeyGenRun t inputs a) :
    (stateOf t inputs a).observed = observerOf t inputs ∧
      Ready (t.withAccount a) (stateOf t inputs a).rollover := by
  induction inputs using List.reverseRecOn with
  | nil => exact ⟨rfl, trivial⟩
  | append_singleton inputs input ih =>
      obtain ⟨hobserved, hready⟩ := ih h.before
      cases input with
      | newBlock number =>
          exact stateFollows_chain hcrate h hready hobserved rfl rfl fun _ heq => nomatch heq
      | event log =>
          exact stateFollows_chain hcrate h hready hobserved rfl rfl fun _ heq => nomatch heq
      | resume c result =>
          rw [stateOf_concat, observerOf_concat]
          by_cases hc : c = a
          · have hmessage : (NetInput.resume c result).messageTo a = some (.resume result) := if_pos hc
            rw [hmessage]
            have hfollows := observed_onResume hready (h.next hmessage)
            exact ⟨hfollows.observed.trans hobserved, hfollows.ready⟩
          · have hnone : (NetInput.resume c result).messageTo a = none := if_neg hc
            rw [hnone]
            exact ⟨hobserved, hready⟩

/--
**Two validators that follow the same chain agree on the course of key generation.**  They have the
same configuration; either may take part in a ceremony or observe it.  Given that a participant has
its setup before the last commitment of the group arrives, that its onchain commitment is the one of
its secrets, and that the finalization of verified shares succeeds, after every message the two are
in the same state of the rollover machine, with the same epoch, group, commitments, shared set,
complaints, confirmations and deadlines, and the same active epoch.  Only the secrets, shares, key
shares and commands may differ.
-/
theorem key_generation_agrees (t : Transition) (hcrate : DerivesShares t.externals.toFrostCrate)
    (a b : Address) (inputs : List NetInput) (ha : KeyGenRun t inputs a) (hb : KeyGenRun t inputs b) :
    ∀ before after, inputs = before ++ after →
      (stateOf t before a).rollover.observed = (stateOf t before b).rollover.observed ∧
        (stateOf t before a).activeEpoch = (stateOf t before b).activeEpoch := by
  rintro before after rfl
  have hsame : (stateOf t before a).observed = (stateOf t before b).observed :=
    (stateFollows_observer hcrate before a ha.before).1.trans
      (stateFollows_observer hcrate before b hb.before).1.symm
  have hrollover := congrArg State.rollover hsame
  have hactive := congrArg State.activeEpoch hsame
  exact ⟨hrollover, hactive⟩

/-! ### A participant and an observer -/

/-- A message keeps the promises; there are no complaints. -/
def keepsPromises (t : Transition) (message : Message) (s : State) : Bool :=
  match message, s.rollover with
  | .resume (.setup _ secrets), .collectingCommitments round =>
      secrets.secretPackage.identifier == t.externals.identifier t.account &&
        secrets.secretPackage.minSigners == round.group.threshold &&
        secrets.secretPackage.maxSigners == round.group.count
  | .event log, .collectingCommitments round =>
      match log.data with
      | .keyGenCommitted _ participant commitment =>
          decide (participant ∈ round.group.participants) &&
            commitment.c.length == round.group.threshold &&
            match round.secrets with
            | .observing => true
            | .participating _ none =>
                lenU16 (t.addCommitment round participant commitment).rows.length != round.group.count
            | .participating _ (some sampled) =>
                ((t.addCommitment round participant commitment).lookup t.account).all fun mine =>
                  mine.package.commitment == sampled.secretPackage.commitment
      | _ => true
  | .event log, .collectingShares round =>
      match log.data, round.participation with
      | .keyGenSecretShared _ participant share, .participating sharing =>
          lenU16 (t.registerShare round log.block.number participant share).1.shares.rows.length !=
              round.group.count ||
            (finalizeKeyShare t.externals.toFrostCrate sharing
              (t.registerShare round log.block.number participant share).1.shares).toOption.isSome
      | _, _ => true
  | .event log, .collectingConfirmations _ =>
      match log.data with
      | .keyGenComplaintResponded _ _ _ _ => false
      | _ => true
  | _, _ => true

theorem promised_of_keepsPromises (h : keepsPromises t message s = true) : KeyGenPromised t message s where
  members := by
    rintro log round participant commitment rfl hdata hrollover
    simp only [keepsPromises, hrollover, hdata, Bool.and_eq_true, decide_eq_true_eq, beq_iff_eq] at h
    exact h.1
  setup := by
    rintro round secrets rfl hrollover
    simp only [keepsPromises, hrollover, Bool.and_eq_true, beq_iff_eq] at h
    exact ⟨h.1.1, h.1.2, h.2⟩
  inTime := by
    rintro log round participant commitment poap secrets rfl hdata hrollover hsecrets hfull
    simp only [keepsPromises, hrollover, hdata, hsecrets, Bool.and_eq_true] at h
    cases secrets with
    | none =>
        have hmissing := h.2
        rw [bne_iff_ne] at hmissing
        exact absurd hfull hmissing
    | some sampled =>
        refine ⟨sampled, rfl, fun mine hmine => ?_⟩
        have hown := h.2
        rw [hmine] at hown
        exact beq_iff_eq.mp hown
  finalizes := by
    rintro log round participant share sharing rfl hdata hrollover hsharing hfull
    simp only [keepsPromises, hrollover, hdata, hsharing, Bool.or_eq_true, bne_iff_ne] at h
    rcases h with hmissing | hfinal
    · exact absurd hfull hmissing
    · cases hkey : finalizeKeyShare t.externals.toFrostCrate sharing
          (t.registerShare round log.block.number participant share).1.shares with
      | ok keyShare => exact ⟨keyShare, rfl⟩
      | error e =>
          rw [hkey] at hfinal
          cases hfinal
  finalizesRevealed := by
    rintro log round plaintiff accused secretShare sharing share shares rfl hdata hrollover
    simp [keepsPromises, hrollover, hdata] at h

private theorem trio_keepsPromises (a : Address) (ha : a = 1 ∨ a = 4) :
    ((trace (trioNetwork.withAccount a).applyTransition State.default (view a trioCeremony)).all
      fun st => keepsPromises (trioNetwork.withAccount a) st.input st.pre) = true := by
  rcases ha with rfl | rfl
  · decide +kernel
  · decide +kernel

private theorem trio_keyGenRun (a : Address) (ha : a = 1 ∨ a = 4) : KeyGenRun trioNetwork trioCeremony a := by
  intro st hst
  exact promised_of_keepsPromises (List.all_eq_true.mp (trio_keepsPromises a ha) st hst)

private theorem honestCrate_derivesShares : DerivesShares trioNetwork.externals.toFrostCrate where
  injective := by
    intro a a' h
    exact Contracts.toWord_injective (by omega) h
  succeeds := fun _ _ _ _ => ⟨_, rfl⟩
  keeps := by
    rintro secret packages result ⟨⟩
    exact ⟨rfl, rfl⟩
  covers := by
    rintro secret packages result ⟨⟩ i p hp
    exact ⟨⟨0⟩, Table.lookup_foldl_of_mem (fun row : Identifier × Round1.Package => row.1)
      (fun _ => (⟨0⟩ : Round2.Package))
      packages.rows .empty (packages.sorted.imp fun hlt heq => ne_of_lt hlt heq)
      (Table.lookup_eq_some.mp hp)⟩

/-- Validator 1 takes part in the ceremony of the group, and 4 observes it. -/
theorem trioCeremony_agrees :
    (stateOf trioNetwork trioCeremony 1).rollover.observed =
        (stateOf trioNetwork trioCeremony 4).rollover.observed ∧
      (stateOf trioNetwork trioCeremony 1).activeEpoch = (stateOf trioNetwork trioCeremony 4).activeEpoch :=
  key_generation_agrees trioNetwork honestCrate_derivesShares 1 4 trioCeremony
    (trio_keyGenRun 1 (.inl rfl)) (trio_keyGenRun 4 (.inr rfl)) trioCeremony [] (List.append_nil _).symm

end Safenet.Validator
