/-
The index of signature ids and the signers of the sessions.

`Linked` ties the two maps together.  `RolloverOK` follows the membership and the threshold of a
validator through key generation, so that the groups of the registered epochs contain it and its
key shares have the threshold of their group; `SessionOK` carries both over to the signers.  A
rollover session is behind the target of the rollover machine, so no ceremony is ever overwritten.
-/
import Safenet.Proofs.Retention

namespace Safenet.Validator

open RolloverState SigningState Trace

/-! ### Vocabulary -/

/-- The hash that a group signs for a packet. -/
def Transition.packetHash (t : Transition) : Packet → B256
  | .epochRollover activeEpoch proposedEpoch rolloverBlock _ groupKey =>
      t.consensus.epochRolloverHash t.externals.keccak256 activeEpoch proposedEpoch rolloverBlock
        groupKey
  | .transaction epoch oracle oracleData tx =>
      t.consensus.transactionPacketHash t.externals.keccak256 epoch oracle oracleData tx

/-- The part of a packet that is hashed. -/
def Packet.hashed : Packet → Packet
  | .epochRollover activeEpoch proposedEpoch rolloverBlock _ groupKey =>
      .epochRollover activeEpoch proposedEpoch rolloverBlock 0 groupKey
  | .transaction epoch oracle oracleData tx => .transaction epoch oracle oracleData tx

/-- The epoch that a packet proposes. -/
def Packet.proposed? : Packet → Option ℕ+
  | .epochRollover _ proposedEpoch _ _ _ => some proposedEpoch
  | .transaction _ _ _ _ => none

def SigningState.signers? : SigningState → Option (Finset Address)
  | .waitingForRequest s => some s.signers
  | .waitingForOracle s => some s.signers
  | .collectNonceCommitments s => some s.signers
  | .collectSigningShares s => some s.signers
  | .waitingForAttestation _ => none

/-- The signature id of a `Sign` event. -/
def signedId : Message → Option B256
  | .event log =>
      match log.data with
      | .sign _ _ sid => some sid
      | _ => none
  | _ => none

/-- The rounds of key generation in the crate keep the threshold. -/
structure KeepsThreshold (crate : FrostCrate) : Prop where
  part2 : ∀ {secret packages result}, crate.part2 secret packages = .ok result →
    result.1.minSigners = secret.minSigners
  part3 : ∀ {secret round1 round2 key}, crate.part3 secret round1 round2 = .ok key →
    key.minSigners = secret.minSigners

/-- What the chain and the effect handler promise about a message that arrives in a state. -/
structure Promised (t : Transition) (message : Message) (s : State) : Prop where
  /-- The coordinator accepts shares of group members only. -/
  members : ∀ {log sid root participant m x epoch}, message = .event log →
    log.data = .signShared sid root participant → s.signatureIdToMessage.lookup sid = some m →
    s.signing.lookup m = some x → s.epochs.lookup x.packet.epoch = some epoch →
    participant ∈ epoch.group.participants
  /-- The secrets of a setup are sampled for the threshold of their group. -/
  setup : ∀ {round secrets}, message = .resume (.setup round.group.id secrets) →
    s.rollover = .collectingCommitments round →
    secrets.secretPackage.minSigners = round.group.threshold
  /-- The rollover packet of a ceremony has its hash for itself. -/
  distinct : ∀ {m x round proposed}, s.signing.lookup m = some x →
    s.rollover = .collectingConfirmations round → round.nextEpoch = .number proposed →
    t.packetHash x.packet = t.packetHash (t.rolloverPacket s.activeEpoch round proposed) →
    x.packet.hashed = (t.rolloverPacket s.activeEpoch round proposed).hashed

variable {t : Transition} {message : Message} {s₀ s s' : State}

/-! ### Membership and threshold through key generation -/

/-- A group that can sign. -/
def Group.Viable (group : Group) : Prop := group.threshold ≤ group.participants.card

/-- This validator is a member of the group and has its threshold. -/
def Member (t : Transition) (group : Group) (threshold : Nat) : Prop :=
  t.account ∈ group.participants ∧ threshold = group.threshold

def RolloverOK (t : Transition) : RolloverState → Prop
  | .collectingCommitments round => round.group.Viable ∧
      ∀ poap secrets, round.secrets = .participating poap secrets →
        t.account ∈ round.group.participants ∧
          ∀ sampled, secrets = some sampled → Member t round.group sampled.secretPackage.minSigners
  | .collectingShares round => round.group.Viable ∧
      ∀ sharing, round.participation = .participating sharing →
        Member t round.group sharing.secretPackage.minSigners
  | .collectingConfirmations round => round.group.Viable ∧
      (∀ sharing, round.participation = .participating sharing →
        Member t round.group sharing.secretPackage.minSigners) ∧
      ∀ keyShare, round.status = .confirmed keyShare → Member t round.group keyShare.groupThreshold
  | .signingRollover rollover => rollover.group.Viable ∧
      ∀ keyShare, rollover.keyShare = some keyShare →
        Member t rollover.group keyShare.groupThreshold
  | _ => True

theorem group_viable (keccak : Contracts.Keccak) (participants : ParticipantSet) :
    (participants.group keccak).Viable := by
  show groupThreshold participants.addresses.card ≤ participants.addresses.card
  have h := participants.two_le
  unfold groupThreshold
  omega

theorem rolloverOK_startKeyGen {next : EpochId} {participants : ParticipantSet}
    {deadline : Option Nat} : RolloverOK t (t.startKeyGen next participants deadline).1 := by
  unfold Transition.startKeyGen ParticipantSet.participateAs
  by_cases hmem : t.account ∈ participants.addresses
  · rw [if_pos hmem]
    refine ⟨group_viable _ _, ?_⟩
    rintro poap secrets ⟨⟩
    exact ⟨hmem, fun _ h => nomatch h⟩
  · rw [if_neg hmem]
    exact ⟨group_viable _ _, fun _ _ h => nomatch h⟩

theorem rolloverOK_failure {next : EpochId} : RolloverOK t (rolloverFailure next) := by
  cases next with
  | genesis => trivial
  | number n => trivial

/-- The shares are generated by the crate's second round. -/
theorem generateSecretShares_ok {crate : FrostCrate} {secrets : Secrets}
    {commitments : Table Address VerifiedCommitment}
    {result : SharingState × Contracts.FROSTCoordinator.KeyGenSecretShare}
    (h : generateSecretShares crate secrets commitments = .ok result) :
    ∃ peers round2, crate.part2 secrets.secretPackage peers = .ok round2 ∧
      result.1.secretPackage = round2.1 := by
  obtain ⟨packages, -, h⟩ := Fallible.bind_eq_ok.mp h
  have h := Fallible.mapError_eq_ok.mp h
  obtain ⟨round2, hpart2, h⟩ := Fallible.bind_eq_ok.mp h
  obtain ⟨-, -, h⟩ := Fallible.bind_eq_ok.mp h
  obtain ⟨groupCommitment, -, h⟩ := Fallible.bind_eq_ok.mp h
  obtain ⟨verifyingKey, -, h⟩ := Fallible.bind_eq_ok.mp h
  obtain ⟨encrypted, -, h⟩ := Fallible.bind_eq_ok.mp h
  have heq := Fallible.pure_eq_ok.mp h
  exact ⟨packages.1, round2, hpart2, by rw [← heq]⟩

/-- A key share is finalized by the crate's third round. -/
theorem finalizeKeyShare_ok {crate : FrostCrate} {sharing : SharingState}
    {shares : Table Address VerifiedShare} {keyShare : KeyShare}
    (h : finalizeKeyShare crate sharing shares = .ok keyShare) :
    ∃ round1 round2, crate.part3 sharing.secretPackage round1 round2 = .ok keyShare.package := by
  obtain ⟨round1, -, h⟩ := Fallible.bind_eq_ok.mp h
  obtain ⟨round2, -, h⟩ := Fallible.bind_eq_ok.mp h
  obtain ⟨-, -, h⟩ := Fallible.bind_eq_ok.mp h
  obtain ⟨package, hpart3, h⟩ := Fallible.bind_eq_ok.mp h
  have heq := Fallible.pure_eq_ok.mp h
  exact ⟨round1.1, round2.1, by rw [← heq]; exact Fallible.mapError_eq_ok.mp hpart3⟩

theorem KeepsThreshold.finalize (hcrate : KeepsThreshold t.externals.toFrostCrate)
    {sharing : SharingState} {shares : Table Address VerifiedShare} {keyShare : KeyShare}
    (h : finalizeKeyShare t.externals.toFrostCrate sharing shares = .ok keyShare) :
    keyShare.groupThreshold = sharing.secretPackage.minSigners := by
  obtain ⟨round1, round2, hpart3⟩ := finalizeKeyShare_ok h
  exact hcrate.part3 hpart3

/-- Whoever participates has the threshold of the secrets. -/
theorem KeepsThreshold.participate (hcrate : KeepsThreshold t.externals.toFrostCrate)
    {group : Group} {secrets : Option Secrets} {commitments : Table Address VerifiedCommitment}
    {deadline : Option Nat} {participation : KeyGenParticipation} {commands : List Command}
    (h : t.participate group secrets commitments deadline = .ok (participation, commands))
    {sharing : SharingState} (hp : participation = .participating sharing) :
    ∃ sampled, secrets = some sampled ∧
      sharing.secretPackage.minSigners = sampled.secretPackage.minSigners := by
  unfold Transition.participate at h
  split at h
  · rename_i sampled
    obtain ⟨shares, hshares, hpair⟩ := Fallible.bind_eq_ok.mp h
    have heq := Fallible.pure_eq_ok.mp hpair
    simp only [Prod.mk.injEq] at heq
    rw [hp, KeyGenParticipation.participating.injEq] at heq
    obtain ⟨peers, round2, hpart2, hsecret⟩ := generateSecretShares_ok hshares
    refine ⟨sampled, rfl, ?_⟩
    rw [← heq.1, hsecret]
    exact hcrate.part2 hpart2
  · obtain ⟨shares, -, hpair⟩ := Fallible.bind_eq_ok.mp h
    have heq := Fallible.pure_eq_ok.mp hpair
    simp only [Prod.mk.injEq] at heq
    rw [hp] at heq
    cases heq.1

theorem KeyGenConfirmation.eq_confirmed {status : KeyGenConfirmation} {keyShare : KeyShare}
    (h : status.keyShare = some keyShare) : status = .confirmed keyShare := by
  cases status with
  | confirmed share => cases h; rfl
  | observing => cases h
  | collecting shares => cases h

/-- A started confirmation round is confirmed only by a finalized key share. -/
theorem initialStatus_confirmed {round : CollectingShares} {deadlines : Option ConfirmationDeadlines}
    {keyShare : KeyShare} {commands : List Command}
    (h : t.initialStatus round deadlines = .ok (.confirmed keyShare, commands)) :
    ∃ sharing, round.participation = .participating sharing ∧
      finalizeKeyShare t.externals.toFrostCrate sharing round.shares = .ok keyShare := by
  unfold Transition.initialStatus at h
  split at h
  · rename_i sharing hparticipation
    split at h
    · obtain ⟨keyShare', hfinal, heq⟩ := confirmKeyGen_ok h
      cases heq
      exact ⟨sharing, hparticipation, hfinal⟩
    · cases h
  · cases h

theorem RolloverOK.keyGen (hcrate : KeepsThreshold t.externals.toFrostCrate)
    (hpromised : Promised t message s₀) {r r' : RolloverState} (hmove : KeyGenMove t message s₀ r r')
    (h : RolloverOK t r) : RolloverOK t r' := by
  cases hmove with
  | stay => exact h
  | genesis => exact rolloverOK_startKeyGen
  | restart => exact rolloverOK_startKeyGen
  | fail => exact rolloverOK_failure
  | secrets hsecrets hmessage hrollover =>
      refine ⟨h.1, ?_⟩
      rintro poap secrets ⟨⟩
      have hmember := (h.2 _ _ hsecrets).1
      have hthreshold := hpromised.setup hmessage hrollover
      refine ⟨hmember, ?_⟩
      rintro _ ⟨⟩
      exact ⟨hmember, hthreshold⟩
  | commit => exact h
  | @shares round round' secrets commitments commands hsupplied hepoch hgroup hok =>
      refine ⟨hgroup ▸ h.1, fun sharing hsharing => ?_⟩
      obtain ⟨sampled, rfl, hmin⟩ := hcrate.participate hok hsharing
      rw [hgroup, hmin]
      cases hsupplied with
      | stored hsecrets => exact (h.2 _ _ hsecrets).2 _ rfl
      | resumed hsecrets hmessage hrollover =>
          exact ⟨(h.2 _ _ hsecrets).1, hpromised.setup hmessage hrollover⟩
  | share hepoch hgroup hparticipation =>
      refine ⟨hgroup ▸ h.1, fun sharing hsharing => ?_⟩
      rw [hgroup]
      exact h.2 sharing (hparticipation ▸ hsharing)
  | confirmations hregistered hepoch hgroup hparticipation hok =>
      refine ⟨hgroup ▸ h.1, fun sharing hsharing => ?_, fun keyShare hstatus => ?_⟩
      · rw [hgroup]
        exact h.2 sharing (hparticipation ▸ hsharing)
      · rw [hstatus] at hok
        obtain ⟨sharing, hsharing, hfinal⟩ := initialStatus_confirmed hok
        rw [hgroup, hcrate.finalize hfinal]
        exact h.2 sharing (hregistered.2 ▸ hsharing)
  | @confirmation round round' hepoch hgroup hparticipation hstatus =>
      refine ⟨hgroup ▸ h.1, fun sharing hsharing => ?_, fun keyShare hconfirmed => ?_⟩
      · rw [hgroup]
        exact h.2.1 sharing (hparticipation ▸ hsharing)
      · rw [hgroup]
        rw [hconfirmed] at hstatus
        generalize hprevious : round.status = previous at hstatus
        cases hstatus with
        | stay => exact h.2.2 keyShare hprevious
        | confirm hsharing hfinal =>
            rw [hcrate.finalize hfinal]
            exact h.2.1 _ hsharing

/-! ### The index -/

/-- A signature id maps to the message whose session has it. -/
def Linked (s : State) : Prop :=
  ∀ sid m, s.signatureIdToMessage.lookup sid = some m ↔
    ∃ x, s.signing.lookup m = some x ∧ x.signatureId = some sid

theorem linked_iff : Linked s ↔ ∀ sid m, s.signatureIdToMessage.lookup sid = some m ↔
    (s.signing.lookup m).bind SigningState.signatureId = some sid := by
  unfold Linked
  simp only [Option.bind_eq_some_iff]

/-- Rewriting a session that keeps its signature id. -/
theorem Linked.insert (h : Linked s) {m : B256} {x : SigningState}
    (hx : (s.signing.lookup m).bind SigningState.signatureId = x.signatureId)
    (hindex : s'.signatureIdToMessage = s.signatureIdToMessage)
    (hsigning : s'.signing = s.signing.insert m x) : Linked s' := by
  rw [linked_iff] at h ⊢
  intro sid m'
  rw [hindex, hsigning, h sid m', Table.lookup_insert]
  by_cases hm : m' = m
  · rw [if_pos hm, hm, hx]
    rfl
  · rw [if_neg hm]

/-- Assigning a signature id that was not in use. -/
theorem Linked.assign (h : Linked s) {m sid : B256} {x : SigningState}
    (hvacant : (s.signing.lookup m).bind SigningState.signatureId = none)
    (hfresh : s.signatureIdToMessage.lookup sid = none) (hx : x.signatureId = some sid) :
    Linked { s with
      signing := s.signing.insert m x
      signatureIdToMessage := s.signatureIdToMessage.insert sid m } := by
  rw [linked_iff] at h ⊢
  intro sid' m'
  dsimp only
  rw [Table.lookup_insert, Table.lookup_insert]
  by_cases hm : m' = m
  · rw [if_pos hm, hm, Option.bind_some, hx, Option.some.injEq]
    by_cases hsid : sid' = sid
    · rw [if_pos hsid, hsid]
      simp
    · rw [if_neg hsid, h sid' m, hvacant]
      simp [Ne.symm hsid]
  · rw [if_neg hm]
    by_cases hsid : sid' = sid
    · rw [if_pos hsid, hsid, ← h sid m', hfresh]
      simp [Ne.symm hm]
    · rw [if_neg hsid, h sid' m']

/-- Dropping a session together with its signature id. -/
theorem Linked.erase (h : Linked s) {m : B256}
    (hsigning : s'.signing = s.signing.erase m)
    (hindex : ∀ sid, s'.signatureIdToMessage.lookup sid =
      if (s.signing.lookup m).bind SigningState.signatureId = some sid then none
      else s.signatureIdToMessage.lookup sid) : Linked s' := by
  rw [linked_iff] at h ⊢
  intro sid m'
  rw [hsigning, hindex, Table.lookup_erase]
  by_cases hm : m' = m
  · rw [if_pos hm, hm]
    by_cases hsid : (s.signing.lookup m).bind SigningState.signatureId = some sid
    · simp [if_pos hsid]
    · rw [if_neg hsid, h sid m]
      simp [hsid]
  · rw [if_neg hm]
    by_cases hsid : (s.signing.lookup m).bind SigningState.signatureId = some sid
    · -- the id belongs to the dropped message, so to no other
      have hother : (s.signing.lookup m').bind SigningState.signatureId ≠ some sid := by
        intro h'
        have h₁ := (h sid m).mpr hsid
        have h₂ := (h sid m').mpr h'
        rw [h₁, Option.some.injEq] at h₂
        exact hm h₂.symm
      simp [if_pos hsid, hother]
    · rw [if_neg hsid, h sid m']

theorem Linked.attested (h : Linked s) (m : B256) : Linked (Transition.handleSignAttested s m).1 := by
  refine h.erase rfl fun sid => ?_
  unfold Transition.handleSignAttested
  dsimp only
  split
  · rename_i sid' hsid
    rw [Table.lookup_erase, hsid]
    by_cases heq : sid = sid'
    · simp [heq]
    · simp [heq, Ne.symm heq]
  · rename_i hnone
    rw [hnone]
    rfl

/-- At a new block a session keeps its signature id or drops it from the index. -/
theorem timedOut_signatureId (block : Nat) (m : B256) (x : SigningState) :
    ((t.timedOut block m x).unlinked = none ∧
      (t.timedOut block m x).kept.bind SigningState.signatureId = x.signatureId) ∨
    ((t.timedOut block m x).unlinked = x.signatureId ∧
      (t.timedOut block m x).kept.bind SigningState.signatureId = none) := by
  unfold Transition.timedOut
  split
  · exact .inl ⟨rfl, rfl⟩
  · cases x with
    | waitingForRequest session =>
        dsimp only
        unfold Transition.requestTimedOut
        split
        · exact .inl ⟨rfl, rfl⟩
        · dsimp only
          split
          · exact .inl ⟨rfl, rfl⟩
          · exact .inl ⟨rfl, rfl⟩
    | waitingForOracle session => exact .inr ⟨rfl, rfl⟩
    | collectNonceCommitments session =>
        dsimp only
        unfold Transition.noncesTimedOut
        split
        · exact .inr ⟨rfl, rfl⟩
        · exact .inl ⟨rfl, rfl⟩
    | collectSigningShares session =>
        dsimp only
        unfold Transition.sharesTimedOut
        dsimp only
        split
        · exact .inr ⟨rfl, rfl⟩
        · exact .inr ⟨rfl, rfl⟩
    | waitingForAttestation session => exact .inr ⟨rfl, rfl⟩

theorem mem_unlinked {block : Nat} {sid : B256} :
    sid ∈ t.unlinked s block ↔ ∃ m x, s.signing.lookup m = some x ∧
      (t.timedOut block m x).unlinked = some sid := by
  unfold Transition.unlinked
  rw [List.mem_filterMap]
  constructor
  · rintro ⟨⟨m, x⟩, hrow, hsid⟩
    exact ⟨m, x, Table.lookup_eq_some.mpr hrow, hsid⟩
  · rintro ⟨m, x, hx, hsid⟩
    exact ⟨(m, x), Table.lookup_eq_some.mp hx, hsid⟩

theorem Linked.timeouts (h : Linked s) (block : Nat) :
    Linked (t.handleSigningTimeouts s block).1 := by
  rw [linked_iff] at h ⊢
  intro sid m
  show (s.signatureIdToMessage.eraseAll (t.unlinked s block)).lookup sid = some m ↔
    ((s.signing.filterMap fun m x => (t.timedOut block m x).kept).lookup m).bind
      SigningState.signatureId = some sid
  rw [Table.lookup_eraseAll, Table.lookup_filterMap, Option.bind_assoc]
  by_cases hsid : sid ∈ t.unlinked s block
  · rw [if_pos hsid]
    -- the session that drops the id is the only one that had it
    obtain ⟨m', x', hx', hunlinked⟩ := mem_unlinked.mp hsid
    have hkept : x'.signatureId = some sid ∧
        (t.timedOut block m' x').kept.bind SigningState.signatureId = none := by
      rcases timedOut_signatureId (t := t) block m' x' with ⟨hnone, -⟩ | ⟨hsome, hkept⟩
      · rw [hnone] at hunlinked
        cases hunlinked
      · exact ⟨hsome ▸ hunlinked, hkept⟩
    have hindex : s.signatureIdToMessage.lookup sid = some m' :=
      (h sid m').mpr (by rw [hx']; exact hkept.1)
    refine ⟨fun hfalse => (nomatch hfalse), fun hlater => ?_⟩
    exfalso
    cases hx : s.signing.lookup m with
    | none =>
        rw [hx] at hlater
        cases hlater
    | some x =>
        rw [hx, Option.bind_some] at hlater
        rcases timedOut_signatureId (t := t) block m x with ⟨-, hkeeps⟩ | ⟨-, hdrops⟩
        · have hm : s.signatureIdToMessage.lookup sid = some m :=
            (h sid m).mpr (by rw [hx]; exact hkeeps.symm.trans hlater)
          rw [hindex, Option.some.injEq] at hm
          subst hm
          rw [hx', Option.some.injEq] at hx
          subst hx
          rw [hkept.2] at hlater
          cases hlater
        · rw [hdrops] at hlater
          cases hlater
  · rw [if_neg hsid, h sid m]
    cases hx : s.signing.lookup m with
    | none => exact Iff.rfl
    | some x =>
        rw [Option.bind_some, Option.bind_some]
        rcases timedOut_signatureId (t := t) block m x with ⟨-, hkeeps⟩ | ⟨hdropped, hdrops⟩
        · rw [hkeeps]
        · rw [hdrops]
          refine ⟨fun hhas => ?_, fun hfalse => (nomatch hfalse)⟩
          exact absurd (mem_unlinked.mpr ⟨m, x, hx, hdropped.trans hhas⟩) hsid

/-! ### Rollover sessions are behind the target -/

/-- The proposed epoch lies behind the target, or is the one being signed. -/
def Behind (p : ℕ+) (r : RolloverState) : Prop :=
  Past (.number p) r ∨ ∃ rollover, r = .signingRollover rollover ∧ rollover.nextEpoch = p

theorem keyGenMove_signingRollover {rollover : SigningRollover} {r : RolloverState}
    (h : KeyGenMove t message s₀ (.signingRollover rollover) r) : r = .signingRollover rollover := by
  cases h with
  | stay => rfl
  | restart h => cases h
  | fail h => cases h

theorem Behind.change {p : ℕ+} (h : Change t message s₀ s s') (hp : Behind p s.rollover) :
    Behind p s'.rollover := by
  rcases hp with hpast | ⟨rollover, hr, hp⟩
  · exact .inl (hpast.change h)
  · cases h with
    | rollover hmove =>
        rw [hr] at hmove
        exact .inr ⟨rollover, keyGenMove_signingRollover hmove, hp⟩
    | genesisConfirmed hrollover =>
        rw [hr] at hrollover
        cases hrollover
    | begin hrollover =>
        rw [hr] at hrollover
        cases hrollover
    | epochConfirmed _ _ hrollover _ =>
        rw [hr] at hrollover
        cases hrollover
    | staged hrollover =>
        rw [hr] at hrollover
        cases hrollover
        left
        rw [finalizeKeyGen_eq.1]
        exact EpochId.le_def.mpr hp.ge
    | recovered hrollover =>
        rw [hr] at hrollover
        cases hrollover
    | due htarget hlt =>
        rw [hr] at htarget
        cases htarget
        exact .inl (past_epochSkipped.mpr (EpochId.lt_def.mpr (hp ▸ hlt)))
    | attested => exact .inr ⟨rollover, hr, hp⟩
    | session => exact .inr ⟨rollover, hr, hp⟩
    | requested => exact .inr ⟨rollover, hr, hp⟩
    | rejected => exact .inr ⟨rollover, hr, hp⟩
    | proposed => exact .inr ⟨rollover, hr, hp⟩
    | timeouts => exact .inr ⟨rollover, hr, hp⟩
    | reaped => exact .inr ⟨rollover, hr, hp⟩

/-! ### Signers -/

/-- This validator and at least a threshold of group members. -/
structure Signers (t : Transition) (group : Group) (signers : Finset Address) : Prop where
  own : t.account ∈ signers
  members : signers ⊆ group.participants
  enough : group.threshold ≤ signers.card

/-- The signers of a session, and the commitments and selections it has collected. -/
def SessionOK (t : Transition) (group : Group) : SigningState → Prop
  | .waitingForRequest session => Signers t group session.signers
  | .waitingForOracle session => Signers t group session.signers
  | .collectNonceCommitments session =>
      Signers t group session.signers ∧ session.committed.keys ⊆ session.signers
  | .collectSigningShares session =>
      Signers t group session.signers ∧ session.committed.keys = session.signers ∧
        ∀ root selection, session.selections.lookup root = some selection →
          selection.sharesFrom ⊆ group.participants
  | .waitingForAttestation _ => True

theorem SessionOK.signers {group : Group} {x : SigningState} {signers : Finset Address}
    (h : SessionOK t group x) (hx : x.signers? = some signers) : Signers t group signers := by
  cases x with
  | waitingForRequest session => cases hx; exact h
  | waitingForOracle session => cases hx; exact h
  | collectNonceCommitments session => cases hx; exact h.1
  | collectSigningShares session => cases hx; exact h.1
  | waitingForAttestation session => cases hx

theorem sessionOK_requested {group : Group} {session : WaitingForRequest} {sid : B256} {block : Nat}
    (h : Signers t group session.signers) : SessionOK t group (t.requested session sid block).1 := by
  unfold Transition.requested
  split
  · exact h
  · exact ⟨h, by simp [Table.keys, Table.empty]⟩

theorem keys_addNonces {session : CollectNonceCommitments} {participant : Address}
    {nonces : Contracts.Coordinator.SignNonces} (h : session.committed.keys ⊆ session.signers) :
    (Transition.addNonces session participant nonces).keys ⊆ session.signers := by
  unfold Transition.addNonces
  split
  · rename_i hmem
    split
    · intro a ha
      obtain ⟨v, hv⟩ := Table.mem_keys.mp ha
      rw [Table.lookup_insert] at hv
      split at hv
      · rename_i heq
        rw [heq]
        exact hmem
      · exact h (Table.mem_keys.mpr ⟨v, hv⟩)
    · exact h
  · exact h

theorem sessionOK_sharesRound {group : Group} {session : CollectNonceCommitments}
    {committed : Table Address CommittedNonces} {signers : Finset Address} {m : B256} {block : Nat}
    (h : Signers t group signers) (hkeys : committed.keys = signers) :
    SessionOK t group (t.sharesRound session committed signers m block).1 :=
  ⟨h, hkeys, fun _ _ hselection => nomatch hselection⟩

theorem sessionOK_nonceCommitted {group : Group} {session : CollectNonceCommitments} {m : B256}
    {block : Nat} {participant : Address} {nonces : Contracts.Coordinator.SignNonces}
    (h : SessionOK t group (.collectNonceCommitments session)) :
    SessionOK t group (t.nonceCommitted session m block participant nonces).1 := by
  have hkeys : (Transition.addNonces session participant nonces).keys ⊆ session.signers :=
    keys_addNonces h.2
  unfold Transition.nonceCommitted
  dsimp only
  split
  · exact ⟨h.1, hkeys⟩
  · rename_i hall
    refine sessionOK_sharesRound h.1 (Finset.eq_of_subset_of_card_le hkeys ?_)
    rw [Table.card_keys]
    exact not_lt.mp hall

theorem sessionOK_shared {group : Group} {session : CollectSigningShares} {root : B256}
    {participant : Address} (h : SessionOK t group (.collectSigningShares session))
    (hmember : participant ∈ group.participants) :
    SessionOK t group (.collectSigningShares (Transition.shared session root participant)) := by
  obtain ⟨hsigners, hkeys, hselections⟩ := h
  refine ⟨hsigners, hkeys, fun root' selection hselection => ?_⟩
  change (session.selections.insert root _).lookup root' = some selection at hselection
  rw [Table.lookup_insert] at hselection
  split at hselection
  · cases hselection
    refine Finset.insert_subset hmember ?_
    cases hold : session.selections.lookup root with
    | none => exact Finset.empty_subset _
    | some old => exact hselections root old hold
  · exact hselections root' selection hselection

theorem SessionMove.sessionOK {group : Group} {m : B256} {x x' : SigningState}
    (hmove : SessionMove t message s₀ m x x') (h : SessionOK t group x)
    (hmember : ∀ {log sid root participant}, message = .event log →
      log.data = .signShared sid root participant → s₀.signatureIdToMessage.lookup sid = some m →
      participant ∈ group.participants) : SessionOK t group x' := by
  cases hmove with
  | approved => exact ⟨h, by simp [Table.keys, Table.empty]⟩
  | nonces => exact sessionOK_nonceCommitted h
  | shared hmessage hdata hindex => exact sessionOK_shared h (hmember hmessage hdata hindex)
  | completed => trivial

theorem mem_of_maxByKey {α : Type} {key : α → Nat} (l : List α) : ∀ {best : Option α} {x : α},
    l.foldl (fun best x =>
      match best with
      | none => some x
      | some b => if key b ≤ key x then some x else some b) best = some x →
    x ∈ l ∨ best = some x := by
  induction l with
  | nil =>
      intro best x h
      exact .inr h
  | cons y l ih =>
      intro best x h
      rw [List.foldl_cons] at h
      rcases ih h with hmem | hbest
      · exact .inl (List.mem_cons_of_mem _ hmem)
      · cases best with
        | none =>
            cases hbest
            exact .inl List.mem_cons_self
        | some b =>
            dsimp only at hbest
            split at hbest
            · cases hbest
              exact .inl List.mem_cons_self
            · exact .inr hbest

/-- The canonical selection is empty or one that was collected. -/
theorem canonicalSelection_mem (session : CollectSigningShares) :
    Transition.canonicalSelection session = ⟨∅, none⟩ ∨
      ∃ root, session.selections.lookup root = some (Transition.canonicalSelection session) := by
  unfold Transition.canonicalSelection
  cases hmax : maxByKey (fun selection : SigningSelection => selection.sharesFrom.card)
    ((session.selections.rows.map Prod.snd).filter fun selection =>
      session.keyShare.groupThreshold ≤ selection.sharesFrom.card) with
  | none => exact .inl rfl
  | some selection =>
      right
      rcases mem_of_maxByKey _ hmax with hmem | hnone
      · obtain ⟨⟨root, selection'⟩, hrow, rfl⟩ := List.mem_map.mp (List.mem_filter.mp hmem).1
        exact ⟨root, Table.lookup_eq_some.mpr hrow⟩
      · cases hnone

theorem timedOut_sessionOK {group : Group} {block : Nat} {m : B256} {x x' : SigningState}
    (h : SessionOK t group x)
    (hthreshold : ∀ signer, x.signer? = some signer → signer.2.groupThreshold = group.threshold)
    (hkept : (t.timedOut block m x).kept = some x') : SessionOK t group x' := by
  unfold Transition.timedOut at hkept
  split at hkept
  · cases hkept
    exact h
  · cases x with
    | waitingForRequest session =>
        have hmin : session.keyShare.groupThreshold = group.threshold := hthreshold _ rfl
        dsimp only at hkept
        unfold Transition.requestTimedOut at hkept
        split at hkept
        · cases hkept
        · dsimp only at hkept
          split at hkept
          · cases hkept
          · rename_i hcheck
            cases hkept
            rw [not_or, not_lt, not_not, hmin] at hcheck
            exact ⟨hcheck.2, (Finset.erase_subset _ _).trans h.members, hcheck.1⟩
    | waitingForOracle session => cases hkept
    | collectNonceCommitments session =>
        have hmin : session.keyShare.groupThreshold = group.threshold := hthreshold _ rfl
        dsimp only at hkept
        unfold Transition.noncesTimedOut at hkept
        split at hkept
        · cases hkept
        · rename_i hcheck
          cases hkept
          rw [not_or, not_lt, hmin] at hcheck
          refine sessionOK_sharesRound ⟨?_, h.2.trans h.1.members, ?_⟩ rfl
          · obtain ⟨v, hv⟩ := Option.ne_none_iff_exists'.mp (by simpa using hcheck.2)
            exact Table.mem_keys.mpr ⟨v, hv⟩
          · rw [Table.card_keys]
            exact hcheck.1
    | collectSigningShares session =>
        have hmin : session.keyShare.groupThreshold = group.threshold := hthreshold _ rfl
        dsimp only at hkept
        unfold Transition.sharesTimedOut at hkept
        dsimp only at hkept
        split at hkept
        · cases hkept
        · rename_i hcheck
          cases hkept
          rw [not_or, not_lt, not_not, hmin] at hcheck
          refine ⟨hcheck.2, ?_, hcheck.1⟩
          rcases canonicalSelection_mem session with hempty | ⟨root, hroot⟩
          · rw [hempty]
            exact Finset.empty_subset _
          · exact h.2.2 root _ hroot
    | waitingForAttestation session => cases hkept

/-! ### The invariant -/

/-- What holds of every reachable state. -/
structure Tracked (t : Transition) (s : State) : Prop where
  kept : Kept s
  rollover : RolloverOK t s.rollover
  /-- This validator is a member of the groups of its epochs. -/
  epochs : ∀ e epoch, s.epochs.lookup e = some epoch →
    epoch.group.Viable ∧ Member t epoch.group epoch.keyShare.groupThreshold
  sessions : ∀ m x, s.signing.lookup m = some x →
    ∃ epoch, s.epochs.lookup x.packet.epoch = some epoch ∧ SessionOK t epoch.group x
  hashed : ∀ m x, s.signing.lookup m = some x → t.packetHash x.packet = m
  behind : ∀ m x p, s.signing.lookup m = some x → x.packet.proposed? = some p → Behind p s.rollover
  linked : Linked s

theorem tracked_default (t : Transition) : Tracked t State.default where
  kept := kept_default
  rollover := trivial
  epochs := fun _ _ h => nomatch h
  sessions := fun _ _ h => nomatch h
  hashed := fun _ _ h => nomatch h
  behind := fun _ _ _ h => nomatch h
  linked := by
    intro sid m
    constructor
    · intro h
      cases h
    · rintro ⟨x, hx, -⟩
      cases hx

section Change

variable (hcrate : KeepsThreshold t.externals.toFrostCrate) (hpromised : Promised t message s₀)

include hcrate hpromised in
theorem Tracked.rolloverOK_change (h : Change t message s₀ s s') (hs : Tracked t s) :
    RolloverOK t s'.rollover := by
  cases h with
  | rollover hmove => exact hs.rollover.keyGen hcrate hpromised hmove
  | genesisConfirmed =>
      rw [finalizeKeyGen_eq.1]
      trivial
  | begin => exact rolloverOK_startKeyGen
  | epochConfirmed _ _ hrollover hepoch =>
      have hok := hs.rollover
      rw [hrollover] at hok
      refine ⟨hok.1, fun keyShare hkeyShare => hok.2.2 keyShare ?_⟩
      exact KeyGenConfirmation.eq_confirmed hkeyShare
  | staged =>
      rw [finalizeKeyGen_eq.1]
      trivial
  | attested => exact hs.rollover
  | recovered _ hr =>
      rcases hr with rfl | ⟨next, rfl⟩
      · trivial
      · trivial
  | due => trivial
  | session => exact hs.rollover
  | requested => exact hs.rollover
  | rejected => exact hs.rollover
  | proposed => exact hs.rollover
  | timeouts => exact hs.rollover
  | reaped => exact hs.rollover

/-- A finalized epoch is an old one, or the one of a key share. -/
theorem lookup_finalizeKeyGen_eq {epoch e : EpochId} {group : Group} {keyShare : Option KeyShare}
    {x : Epoch} (h : (Transition.finalizeKeyGen s epoch group keyShare).epochs.lookup e = some x) :
    (∃ share, keyShare = some share ∧ x = ⟨group, share⟩) ∨ s.epochs.lookup e = some x := by
  unfold Transition.finalizeKeyGen at h
  split at h
  · rename_i share
    rw [Table.lookup_insert] at h
    split at h
    · cases h
      exact .inl ⟨share, rfl, rfl⟩
    · exact .inr h
  · exact .inr h

theorem Tracked.epochs_change (h : Change t message s₀ s s') (hs : Tracked t s) :
    ∀ e epoch, s'.epochs.lookup e = some epoch →
      epoch.group.Viable ∧ Member t epoch.group epoch.keyShare.groupThreshold := by
  intro e epoch he
  have hok := hs.rollover
  cases h with
  | genesisConfirmed hrollover _ =>
      rw [hrollover] at hok
      rcases lookup_finalizeKeyGen_eq he with ⟨share, hshare, rfl⟩ | hold
      · exact ⟨hok.1, hok.2.2 share (KeyGenConfirmation.eq_confirmed hshare)⟩
      · exact hs.epochs e epoch hold
  | staged hrollover =>
      rw [hrollover] at hok
      rcases lookup_finalizeKeyGen_eq he with ⟨share, hshare, rfl⟩ | hold
      · exact ⟨hok.1, hok.2 share hshare⟩
      · exact hs.epochs e epoch hold
  | reaped => exact hs.epochs e epoch (Table.lookup_filter_eq_some.mp he).1
  | rollover => exact hs.epochs e epoch he
  | begin => exact hs.epochs e epoch he
  | epochConfirmed => exact hs.epochs e epoch he
  | attested => exact hs.epochs e epoch he
  | recovered => exact hs.epochs e epoch he
  | due => exact hs.epochs e epoch he
  | session => exact hs.epochs e epoch he
  | requested => exact hs.epochs e epoch he
  | rejected => exact hs.epochs e epoch he
  | proposed => exact hs.epochs e epoch he
  | timeouts => exact hs.epochs e epoch he

/-- The signers of a fresh session are the whole group. -/
theorem Tracked.signers_of_epoch (hs : Tracked t s) {e : EpochId} {epoch : Epoch}
    (h : s.epochs.lookup e = some epoch) : Signers t epoch.group epoch.group.participants := by
  obtain ⟨hviable, hmember⟩ := hs.epochs e epoch h
  exact ⟨hmember.1, Finset.Subset.refl _, hviable⟩

include hpromised in
theorem Tracked.sessions_change (h : Change t message s₀ s s') (hs : Tracked t s) :
    ∀ m x, s'.signing.lookup m = some x →
      ∃ epoch, s.epochs.lookup x.packet.epoch = some epoch ∧ SessionOK t epoch.group x := by
  intro m x hx
  cases h with
  | rollover => exact hs.sessions m x hx
  | genesisConfirmed =>
      rw [finalizeKeyGen_eq.2.1] at hx
      exact hs.sessions m x hx
  | begin => exact hs.sessions m x hx
  | epochConfirmed =>
      rcases lookup_epochConfirmed hx with hold | ⟨epoch, hactive, -, rfl⟩
      · exact hs.sessions m x hold
      · exact ⟨epoch, hactive, hs.signers_of_epoch hactive⟩
  | staged =>
      rw [finalizeKeyGen_eq.2.1] at hx
      exact hs.sessions m x hx
  | attested =>
      rw [(handleSignAttested_eq _).2.2.2, Table.lookup_erase] at hx
      split at hx
      · cases hx
      · exact hs.sessions m x hx
  | recovered => exact hs.sessions m x hx
  | due => exact hs.sessions m x hx
  | @session m' y y' hy hmove =>
      rw [Table.lookup_insert] at hx
      split at hx
      · cases hx
        obtain ⟨epoch, he, hok⟩ := hs.sessions m' y hy
        refine ⟨epoch, hmove.continues.1 ▸ he, hmove.sessionOK hok ?_⟩
        intro log sid root participant hmessage hdata hindex
        exact hpromised.members hmessage hdata hindex hy he
      · exact hs.sessions m x hx
  | @requested m' sid session log _ _ hy =>
      rw [Table.lookup_insert] at hx
      split at hx
      · cases hx
        obtain ⟨epoch, he, hok⟩ := hs.sessions m' _ hy
        exact ⟨epoch, requested_continues.1 ▸ he, sessionOK_requested hok⟩
      · exact hs.sessions m x hx
  | rejected =>
      rw [Table.lookup_erase] at hx
      split at hx
      · cases hx
      · exact hs.sessions m x hx
  | proposed hepoch =>
      rw [Table.lookup_insert] at hx
      split at hx
      · cases hx
        exact ⟨_, hepoch, hs.signers_of_epoch hepoch⟩
      · exact hs.sessions m x hx
  | timeouts =>
      obtain ⟨y, hy, hkept⟩ := lookup_handleSigningTimeouts hx
      obtain ⟨epoch, he, hok⟩ := hs.sessions m y hy
      refine ⟨epoch, (timedOut_continues hkept).1 ▸ he, timedOut_sessionOK hok ?_ hkept⟩
      intro signer hsigner
      obtain ⟨epoch', he', heq⟩ := hs.kept.belong m y hy
      rw [he, Option.some.injEq] at he'
      rw [heq signer hsigner, ← he']
      exact (hs.epochs _ _ he).2.2
  | reaped => exact hs.sessions m x hx

/-- Every session of the new state has the packet of an old one, or was just opened. -/
theorem Change.packet (h : Change t message s₀ s s') {m : B256} {x : SigningState}
    (hx : s'.signing.lookup m = some x) :
    (∃ y, s.signing.lookup m = some y ∧ x.packet = y.packet) ∨
    (∃ round proposed, s₀ = s ∧ s.rollover = .collectingConfirmations round ∧
      round.nextEpoch = .number proposed ∧ m = t.rolloverMessage s.activeEpoch round proposed ∧
      x.packet = t.rolloverPacket s.activeEpoch round proposed ∧
      ∃ rollover, s'.rollover = .signingRollover rollover ∧ rollover.nextEpoch = proposed) ∨
    ∃ epoch oracle oracleData tx, oracle ∈ t.config.oracles ∧
      m = t.packetHash (.transaction epoch oracle oracleData tx) ∧
      x.packet = .transaction epoch oracle oracleData tx := by
  cases h with
  | rollover => exact .inl ⟨x, hx, rfl⟩
  | genesisConfirmed =>
      rw [finalizeKeyGen_eq.2.1] at hx
      exact .inl ⟨x, hx, rfl⟩
  | begin => exact .inl ⟨x, hx, rfl⟩
  | @epochConfirmed round proposed participant log _ _ hrollover hepoch =>
      rcases lookup_epochConfirmed hx with hold | ⟨epoch, -, hm, rfl⟩
      · exact .inl ⟨x, hold, rfl⟩
      · exact .inr (.inl ⟨round, proposed, rfl, hrollover, hepoch, hm, rfl, _, rfl, rfl⟩)
  | staged =>
      rw [finalizeKeyGen_eq.2.1] at hx
      exact .inl ⟨x, hx, rfl⟩
  | attested =>
      rw [(handleSignAttested_eq _).2.2.2, Table.lookup_erase] at hx
      split at hx
      · cases hx
      · exact .inl ⟨x, hx, rfl⟩
  | recovered => exact .inl ⟨x, hx, rfl⟩
  | due => exact .inl ⟨x, hx, rfl⟩
  | session hy hmove =>
      rw [Table.lookup_insert] at hx
      split at hx
      · rename_i hm
        cases hx
        exact .inl ⟨_, hm ▸ hy, hmove.continues.1⟩
      · exact .inl ⟨x, hx, rfl⟩
  | requested _ _ hy =>
      rw [Table.lookup_insert] at hx
      split at hx
      · rename_i hm
        cases hx
        exact .inl ⟨_, hm ▸ hy, requested_continues.1⟩
      · exact .inl ⟨x, hx, rfl⟩
  | rejected =>
      rw [Table.lookup_erase] at hx
      split at hx
      · cases hx
      · exact .inl ⟨x, hx, rfl⟩
  | proposed hepoch horacle =>
      rw [Table.lookup_insert] at hx
      split at hx
      · rename_i hm
        cases hx
        exact .inr (.inr ⟨_, _, _, _, horacle, hm, rfl⟩)
      · exact .inl ⟨x, hx, rfl⟩
  | timeouts =>
      obtain ⟨y, hy, hkept⟩ := lookup_handleSigningTimeouts hx
      exact .inl ⟨y, hy, (timedOut_continues hkept).1⟩
  | reaped => exact .inl ⟨x, hx, rfl⟩

include hpromised in
/-- No session has the message of the ceremony that is about to be confirmed. -/
theorem Tracked.rolloverMessage_vacant (hs : Tracked t s₀) {round : CollectingConfirmations}
    {proposed : ℕ+} (hrollover : s₀.rollover = .collectingConfirmations round)
    (hepoch : round.nextEpoch = .number proposed) :
    s₀.signing.lookup (t.rolloverMessage s₀.activeEpoch round proposed) = none := by
  rw [← Option.not_isSome_iff_eq_none, Option.isSome_iff_exists]
  rintro ⟨x, hx⟩
  have hpacket := hpromised.distinct hx hrollover hepoch (hs.hashed _ _ hx)
  -- the session proposes the target itself, but it is behind it
  have hproposed : x.packet.proposed? = some proposed := by
    cases hp : x.packet with
    | epochRollover activeEpoch p rolloverBlock groupId groupKey =>
        rw [hp] at hpacket
        cases hpacket
        rfl
    | transaction epoch oracle oracleData tx =>
        rw [hp] at hpacket
        cases hpacket
  have hbehind := hs.behind _ _ _ hx hproposed
  rw [hrollover] at hbehind
  rcases hbehind with hpast | ⟨rollover, heq, -⟩
  · exact lt_irrefl _ (hpast _ (congrArg some hepoch))
  · cases heq

include hpromised in
theorem Tracked.linked_change (h : Change t message s₀ s s') (hs : Tracked t s)
    (hfresh : ∀ sid, signedId message = some sid → s₀.signatureIdToMessage.lookup sid = none) :
    Linked s' := by
  have hl := hs.linked
  cases h with
  | rollover => exact hl
  | genesisConfirmed =>
      unfold Linked
      rw [finalizeKeyGen_eq.2.1, finalizeKeyGen_eq.2.2.2]
      exact hl
  | begin => exact hl
  | @epochConfirmed round proposed participant log hmessage hdata hrollover hepoch =>
      have hvacant := hs.rolloverMessage_vacant hpromised hrollover hepoch
      unfold Transition.epochConfirmed
      dsimp only
      split
      · exact hl.insert (by rw [hvacant]; rfl) rfl rfl
      · exact hl
  | staged =>
      unfold Linked
      rw [finalizeKeyGen_eq.2.1, finalizeKeyGen_eq.2.2.2]
      exact hl
  | attested => exact hl.attested _
  | recovered => exact hl
  | due => exact hl
  | session hy hmove =>
      refine hl.insert ?_ rfl rfl
      rw [hy]
      cases hmove with
      | approved => rfl
      | nonces =>
          unfold Transition.nonceCommitted
          dsimp only
          split
          · rfl
          · rfl
      | shared => rfl
      | completed => rfl
  | @requested m sid session log hmessage hdata hy =>
      refine hl.assign (by rw [hy]; rfl) (hfresh sid ?_) ?_
      · rw [hmessage]
        simp only [signedId, hdata]
      · unfold Transition.requested
        split
        · rfl
        · rfl
  | @rejected m session hy =>
      refine hl.erase rfl fun sid => ?_
      rw [Table.lookup_erase, hy, Option.bind_some]
      by_cases hsid : sid = session.signatureId
      · rw [if_pos hsid, hsid]
        exact (if_pos rfl).symm
      · rw [if_neg hsid, if_neg]
        intro heq
        exact hsid (Option.some.inj heq).symm
  | proposed _ _ hvacant => exact hl.insert (by rw [hvacant]; rfl) rfl rfl
  | timeouts => exact hl.timeouts _
  | reaped => exact hl

include hcrate hpromised in
theorem Tracked.change (h : Change t message s₀ s s') (hs : Tracked t s)
    (hfresh : ∀ sid, signedId message = some sid → s₀.signatureIdToMessage.lookup sid = none) :
    Tracked t s' where
  kept := ⟨hs.kept.past.change h, hs.kept.belong.change h hs.kept.past⟩
  rollover := hs.rolloverOK_change hcrate hpromised h
  epochs := hs.epochs_change h
  sessions := by
    intro m x hx
    obtain ⟨epoch, he, hok⟩ := hs.sessions_change hpromised h m x hx
    obtain ⟨epoch', he', -⟩ := (hs.kept.belong.change h hs.kept.past) m x hx
    have hreg : Registered x.packet.epoch epoch s :=
      ⟨hs.kept.past _ _ he, fun y hy => Option.some.inj (hy.symm.trans he)⟩
    exact ⟨epoch, (hreg.change h).2 epoch' he' ▸ he', hok⟩
  hashed := by
    intro m x hx
    rcases h.packet hx with ⟨y, hy, hp⟩ | ⟨round, proposed, -, -, -, hm, hp, -⟩ | ⟨_, _, _, _, -, hm, hp⟩
    · rw [hp]
      exact hs.hashed m y hy
    · rw [hp, hm]
      rfl
    · rw [hp, hm]
  behind := by
    intro m x p hx hproposed
    rcases h.packet hx with ⟨y, hy, hp⟩ | ⟨round, proposed, -, -, -, -, hp, rollover, hr, hnext⟩ |
      ⟨_, _, _, _, -, -, hp⟩
    · exact (hs.behind m y p hy (hp ▸ hproposed)).change h
    · rw [hp] at hproposed
      cases hproposed
      exact .inr ⟨rollover, hr, hnext⟩
    · rw [hp] at hproposed
      cases hproposed
  linked := hs.linked_change hpromised h hfresh

end Change

/-! ### Runs -/

/-- The signature ids in the index come from `Sign` events. -/
theorem signatureIdToMessage_change (h : Change t message s₀ s s') {sid m : B256}
    (hsid : s'.signatureIdToMessage.lookup sid = some m) :
    (∃ m', s.signatureIdToMessage.lookup sid = some m') ∨ signedId message = some sid := by
  cases h with
  | rollover => exact .inl ⟨m, hsid⟩
  | genesisConfirmed =>
      rw [finalizeKeyGen_eq.2.2.2] at hsid
      exact .inl ⟨m, hsid⟩
  | begin => exact .inl ⟨m, hsid⟩
  | epochConfirmed => exact .inl ⟨m, hsid⟩
  | staged =>
      rw [finalizeKeyGen_eq.2.2.2] at hsid
      exact .inl ⟨m, hsid⟩
  | attested =>
      unfold Transition.handleSignAttested at hsid
      dsimp only at hsid
      split at hsid
      · rw [Table.lookup_erase] at hsid
        split at hsid
        · cases hsid
        · exact .inl ⟨m, hsid⟩
      · exact .inl ⟨m, hsid⟩
  | recovered => exact .inl ⟨m, hsid⟩
  | due => exact .inl ⟨m, hsid⟩
  | session => exact .inl ⟨m, hsid⟩
  | @requested m' sid' session log hmessage hdata _ =>
      rw [Table.lookup_insert] at hsid
      split at hsid
      · rename_i heq
        refine .inr ?_
        rw [heq, hmessage]
        simp only [signedId, hdata]
      · exact .inl ⟨m, hsid⟩
  | rejected =>
      rw [Table.lookup_erase] at hsid
      split at hsid
      · cases hsid
      · exact .inl ⟨m, hsid⟩
  | proposed => exact .inl ⟨m, hsid⟩
  | timeouts =>
      change (s.signatureIdToMessage.eraseAll _).lookup sid = some m at hsid
      rw [Table.lookup_eraseAll] at hsid
      split at hsid
      · cases hsid
      · exact .inl ⟨m, hsid⟩
  | reaped => exact .inl ⟨m, hsid⟩

/-- The invariant, with the ids that the messages so far have assigned. -/
def TrackedBy (t : Transition) (messages : List Message) (s : State) : Prop :=
  Tracked t s ∧ ∀ sid m, s.signatureIdToMessage.lookup sid = some m → sid ∈ messages.filterMap signedId

theorem TrackedBy.applyTransition (hcrate : KeepsThreshold t.externals.toFrostCrate)
    (hpromised : Promised t message s) {messages : List Message} (hs : TrackedBy t messages s)
    (hfresh : ((messages ++ [message]).filterMap signedId).Nodup) :
    TrackedBy t (messages ++ [message]) (t.applyTransition s message).1 := by
  rw [List.filterMap_append, List.nodup_append] at hfresh
  have hnew : ∀ sid, signedId message = some sid → s.signatureIdToMessage.lookup sid = none := by
    intro sid hsid
    rw [← Option.not_isSome_iff_eq_none, Option.isSome_iff_exists]
    rintro ⟨m, hm⟩
    exact hfresh.2.2 sid (hs.2 sid m hm) sid (by simp [hsid]) rfl
  refine Changes.preserves (P := TrackedBy t (messages ++ [message])) (fun s₁ s₂ hchange h₁ => ?_)
    (Changes.applyTransition t s message) ⟨hs.1, fun sid m hm => ?_⟩
  · refine ⟨h₁.1.change hcrate hpromised hchange hnew, fun sid m hm => ?_⟩
    rcases signatureIdToMessage_change hchange hm with ⟨m', hm'⟩ | hsid
    · exact h₁.2 sid m' hm'
    · simp [List.filterMap_append, hsid]
  · rw [List.filterMap_append]
    exact List.mem_append_left _ (hs.2 sid m hm)

/-- Every state of a run whose messages keep the promises is tracked. -/
theorem tracked_final (hcrate : KeepsThreshold t.externals.toFrostCrate) (messages : List Message)
    (hfresh : (messages.filterMap signedId).Nodup)
    (hpromised : ∀ st ∈ trace t.applyTransition State.default messages, Promised t st.input st.pre) :
    TrackedBy t messages (final t.applyTransition State.default messages) := by
  induction messages using List.reverseRecOn with
  | nil => exact ⟨tracked_default t, fun _ _ h => nomatch h⟩
  | append_singleton messages message ih =>
      rw [trace_concat] at hpromised
      rw [final_concat]
      have hbefore : (messages.filterMap signedId).Nodup := by
        rw [List.filterMap_append] at hfresh
        exact hfresh.of_append_left
      have hs := ih hbefore fun st hst => hpromised st (by simp [hst])
      exact hs.applyTransition hcrate
        (hpromised (take t.applyTransition (final t.applyTransition State.default messages) message)
          (by simp)) hfresh

/-- A crate whose proofs never verify: every round stops at the commitments. -/
def idleCrate : FrostCrate where
  identifier := Contracts.toWord
  verifiedPublicKey := fun _ _ => .error .other
  ecdh := fun _ _ share => share
  verifyProofOfKnowledge := fun _ _ _ => .error .other
  part2 := fun _ _ => .error .other
  part3 := fun _ _ _ => .error .other
  sumCommitments := fun _ => .error .other
  verifyingKey := fun _ => .error .other
  verifyingShare := fun _ _ => Contracts.Secp256k1.zero
  verifySecretShare := fun _ _ _ => .error .other
  sign := fun _ _ _ => .error .other
  bindingFactors := fun _ _ => .error .other
  interpolatingValue := fun _ _ => .error .other
  commitmentShare := fun commitments _ => commitments.hidingPoint
  signingCommitment := fun _ _ => .error .other

/-- A validator of a genesis group of three. -/
def trioValidator : Transition where
  account := 1
  genesis := ⟨{1, 2, 3}, ∅, 0, by decide, by decide⟩
  consensus := ⟨1, 0xc0⟩
  config :=
    { consensus := 0xc0
      participants := [⟨1, 0, none⟩, ⟨2, 0, none⟩, ⟨3, 0, none⟩]
      oracles := {0xa}
      blocksPerEpoch := 100
      keyGenTimeout := 10
      signingTimeout := 10
      oracleTimeout := 10 }
  externals := { idleCrate with keccak256 := fun bytes => BitVec.ofNat 256 (Bytes.value bytes) }

/-- An event at a block. -/
def eventAt (block : Nat) (data : Event) : Message := .event ⟨⟨block, 0⟩, 0, 0xc1, data⟩

def trioGid : B256 := (trioValidator.genesis.group trioValidator.externals.keccak256).id

end Safenet.Validator
