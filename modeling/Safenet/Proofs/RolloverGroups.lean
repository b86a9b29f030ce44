/-
Who is in the groups of an epoch, and who is left out.

A numbered epoch is generated by the participants that are active in it, without the ones that were
excluded before (`Formed`).  A group keeps more than two thirds of them, which is what the
arithmetic of `Quorate` needs: the faulty third has no threshold of its own, and cannot keep the
others from theirs.

A ceremony that is underway waits for someone (`Incomplete`), so a restart that leaves out
whoever did not answer leaves out at least one member.  `Advance` lists what one message can do
to the rollover machine, with the participants that a restart excludes.
-/
import Safenet.Proofs.Lockstep

namespace Safenet.Validator

open RolloverState

variable {t : Transition}

/-! ### Groups -/

/-- The participants that are active in a numbered epoch. -/
def Transition.activeParticipants (t : Transition) (n : ℕ+) : Finset Address :=
  ((t.config.participants.filter fun p =>
    (GroupEpoch.number t.config.consensus n ∅).isActive p).map Participant.address).toFinset

/-- A set of participants is what the exclusions left, and large enough. -/
theorem epochParticipants_eq_some {n : ℕ+} {excluded : Finset Address} {participants : ParticipantSet}
    (h : t.epochParticipants n excluded = some participants) :
    participants.addresses = t.activeParticipants n \ excluded ∧ participants.excluded = excluded ∧
      minParticipants (t.activeParticipants n).card ≤ participants.addresses.card := by
  unfold Transition.epochParticipants participantsSet at h
  dsimp only at h
  split at h
  · rename_i hvalid
    cases h
    exact ⟨rfl, rfl, hvalid.2.2⟩
  · cases h

/-- The group of a ceremony: the genesis group, or what the exclusions left of an epoch. -/
def Group.Formed (t : Transition) (group : Group) : EpochId → Prop
  | .genesis => group = t.genesis.group t.externals.keccak256
  | .number n => group.excluded ⊆ t.activeParticipants n ∧
      ∃ participants, t.epochParticipants n group.excluded = some participants ∧
        group = participants.group t.externals.keccak256

/-- The group of an epoch with a majority of honest participants among its threshold. -/
structure Group.Quorate (active : Finset Address) (group : Group) : Prop where
  members : group.participants = active \ group.excluded
  count : group.count = group.participants.card
  threshold : 1 < group.threshold ∧ group.threshold ≤ group.participants.card
  supermajority : 2 * active.card < 3 * group.participants.card
  /-- The faulty third can neither sign nor keep the others from it. -/
  tolerates : ∀ faulty, 3 * (active ∩ faulty).card ≤ active.card →
    (group.participants ∩ faulty).card < group.threshold ∧
      group.threshold ≤ (group.participants \ faulty).card
  intersect : ∀ signers signers', signers ⊆ group.participants → signers' ⊆ group.participants →
    group.threshold ≤ signers.card → group.threshold ≤ signers'.card → (signers ∩ signers').Nonempty

namespace Group.Formed

variable {group : Group} {epoch : EpochId} {n : ℕ+}

/-- The group is that of a set of participants. -/
theorem group_eq (h : group.Formed t epoch) :
    ∃ participants : ParticipantSet, group = participants.group t.externals.keccak256 := by
  cases epoch with
  | genesis => exact ⟨t.genesis, h⟩
  | number n =>
      obtain ⟨participants, -, heq⟩ := h.2
      exact ⟨participants, heq⟩

theorem count_eq (h : group.Formed t epoch) : group.count = group.participants.card := by
  obtain ⟨participants, rfl⟩ := h.group_eq
  rfl

theorem count_lt (h : group.Formed t epoch) : group.count < 2 ^ 16 := by
  obtain ⟨participants, rfl⟩ := h.group_eq
  exact participants.fits

theorem threshold_eq (h : group.Formed t epoch) : group.threshold = groupThreshold group.count := by
  obtain ⟨participants, rfl⟩ := h.group_eq
  rfl

theorem participants_eq (h : group.Formed t (.number n)) :
    group.participants = t.activeParticipants n \ group.excluded := by
  obtain ⟨participants, hset, heq⟩ := h.2
  rw [← (epochParticipants_eq_some hset).1]
  exact congrArg Group.participants heq

theorem enough (h : group.Formed t (.number n)) :
    minParticipants (t.activeParticipants n).card ≤ group.participants.card := by
  obtain ⟨participants, hset, heq⟩ := h.2
  refine le_trans (epochParticipants_eq_some hset).2.2 (le_of_eq ?_)
  exact congrArg (fun group => group.participants.card) heq.symm

/-- A group is not empty: two thirds of nobody are two. -/
theorem two_le (h : group.Formed t epoch) : 2 ≤ group.participants.card := by
  obtain ⟨participants, rfl⟩ := h.group_eq
  exact participants.two_le

/-- Two groups of an epoch that leave out the same participants are the same. -/
theorem eq_of_excluded {group' : Group} (h : group.Formed t (.number n))
    (h' : group'.Formed t (.number n)) (heq : group.excluded = group'.excluded) : group = group' := by
  obtain ⟨participants, hset, hgroup⟩ := h.2
  obtain ⟨participants', hset', hgroup'⟩ := h'.2
  rw [heq, hset'] at hset
  cases hset
  rw [hgroup, hgroup']

/-- Who was excluded in addition was a member before. -/
theorem participants_ssubset {group' : Group} (h : group.Formed t (.number n))
    (h' : group'.Formed t (.number n)) (hlt : group.excluded ⊂ group'.excluded) :
    group'.participants ⊂ group.participants := by
  rw [h.participants_eq, h'.participants_eq]
  refine Finset.ssubset_iff_subset_ne.mpr ⟨Finset.sdiff_subset_sdiff le_rfl hlt.1, ?_⟩
  intro heq
  obtain ⟨a, ha, hnew⟩ := Finset.exists_of_ssubset hlt
  have hmem : a ∈ t.activeParticipants n \ group'.excluded := by
    rw [heq]
    exact Finset.mem_sdiff.mpr ⟨h'.1 ha, hnew⟩
  exact (Finset.mem_sdiff.mp hmem).2 ha

/-- The excluded participants are at most those that are not needed. -/
theorem card_excluded (h : group.Formed t (.number n)) :
    group.excluded.card + minParticipants (t.activeParticipants n).card ≤
      (t.activeParticipants n).card := by
  have henough := h.enough
  rw [h.participants_eq, Finset.card_sdiff_of_subset h.1] at henough
  have hle := Finset.card_le_card h.1
  have hpos : 2 ≤ minParticipants (t.activeParticipants n).card := le_max_left _ _
  omega

/-- **Every group of an epoch tolerates a third of the epoch's participants.** -/
theorem quorate (h : group.Formed t (.number n)) :
    group.Quorate (t.activeParticipants n) := by
  have hcount := h.count_eq
  have hthreshold := h.threshold_eq
  have henough := h.enough
  have hmembers := h.participants_eq
  unfold groupThreshold at hthreshold
  rw [hcount] at hthreshold
  have htwo : 2 ≤ minParticipants (t.activeParticipants n).card := le_max_left _ _
  have hthird : (t.activeParticipants n).card * 2 / 3 + 1 ≤
    minParticipants (t.activeParticipants n).card := le_max_right _ _
  refine ⟨hmembers, hcount, ⟨by omega, by omega⟩, by omega, ?_, ?_⟩
  · intro faulty hfaulty
    have hsub : (group.participants ∩ faulty).card ≤ (t.activeParticipants n ∩ faulty).card := by
      refine Finset.card_le_card (Finset.inter_subset_inter_right ?_)
      rw [hmembers]
      exact Finset.sdiff_subset
    have hsplit := Finset.card_sdiff_add_card_inter group.participants faulty
    constructor
    · omega
    · omega
  · intro signers signers' hsigners hsigners' hle hle'
    refine Finset.inter_nonempty_of_card_lt_card_add_card hsigners hsigners' ?_
    omega

end Group.Formed

/-- The group of a restart is the one of a larger exclusion. -/
theorem formed_group {n : ℕ+} {excluded : Finset Address} {participants : ParticipantSet}
    (hactive : excluded ⊆ t.activeParticipants n)
    (h : t.epochParticipants n excluded = some participants) :
    (participants.group t.externals.keccak256).Formed t (.number n) := by
  have hexcluded : participants.excluded = excluded := (epochParticipants_eq_some h).2.1
  refine ⟨?_, participants, ?_, rfl⟩
  · show participants.excluded ⊆ _
    rw [hexcluded]
    exact hactive
  · show t.epochParticipants n participants.excluded = _
    rw [hexcluded]
    exact h

namespace Group.Formed

variable {group : Group} {epoch : EpochId} {n : ℕ+} {excluded : Finset Address}

/-- Whoever leaves out members of the group as well leaves out more participants of the epoch. -/
theorem alsoExclude (h : group.Formed t (.number n)) (hsub : excluded ⊆ group.participants)
    (hnonempty : excluded.Nonempty) :
    group.excluded ⊂ group.alsoExclude excluded ∧
      group.alsoExclude excluded ⊆ t.activeParticipants n := by
  have hmembers := h.participants_eq
  constructor
  · refine Finset.ssubset_iff_exists_cons_subset.mpr ?_
    obtain ⟨a, ha⟩ := hnonempty
    have hmem : a ∈ t.activeParticipants n \ group.excluded := hmembers ▸ hsub ha
    refine ⟨a, (Finset.mem_sdiff.mp hmem).2, ?_⟩
    rw [Finset.cons_eq_insert]
    exact Finset.insert_subset (Finset.mem_union_right _ ha) Finset.subset_union_left
  · refine Finset.union_subset h.1 (hsub.trans ?_)
    rw [hmembers]
    exact Finset.sdiff_subset

theorem excludeAllOthers {included : Finset Address} (h : group.Formed t (.number n))
    (hlt : included ⊂ group.participants) :
    group.excluded ⊂ group.excludeAllOthers included ∧
      group.excludeAllOthers included ⊆ t.activeParticipants n :=
  h.alsoExclude Finset.sdiff_subset (Finset.sdiff_nonempty.mpr hlt.2)

/-- A round is complete once it has collected something of every member. -/
theorem lenU16_eq_iff {collected : Finset Address} (h : group.Formed t epoch)
    (hsub : collected ⊆ group.participants) :
    lenU16 collected.card = group.count ↔ collected = group.participants := by
  have hcount := h.count_eq
  have hlt := h.count_lt
  have hle := Finset.card_le_card hsub
  have hsmall : lenU16 collected.card = collected.card := Nat.mod_eq_of_lt (by omega)
  rw [hsmall]
  constructor
  · intro heq
    exact Finset.eq_of_subset_of_card_le hsub (by omega)
  · rintro rfl
    exact hcount.symm

end Group.Formed

/-! ### Rounds -/

/-- The group of the epoch that the machine works toward, until it is staged. -/
def RolloverState.candidate : RolloverState → Option (EpochId × Group)
  | .signingRollover rollover => some (.number rollover.nextEpoch, rollover.group)
  | r => r.underway

/-- The block at which the round times out. -/
def RolloverState.timeout : RolloverState → Option Nat
  | .collectingCommitments round => round.deadline
  | .collectingShares round => round.deadline
  | .collectingConfirmations round => round.deadlines.map ConfirmationDeadlines.confirm
  | _ => none

/-- How many key generation timeouts the rounds after this one take. -/
def RolloverState.roundsLeft : RolloverState → Nat
  | .collectingCommitments _ => 4
  | .collectingShares _ => 3
  | _ => 0

/-- What a round has collected is of members, and someone is still missing. -/
def Incomplete : RolloverState → Prop
  | .collectingCommitments round => round.commitments.keys ⊆ round.group.participants ∧
      (round.commitments.keys = round.group.participants →
        ∃ poap, round.secrets = .participating poap none)
  | .collectingShares round => round.shared ⊂ round.group.participants ∧
      round.complaints.keys ⊆ round.group.participants
  | .collectingConfirmations round => round.confirmations ⊂ round.group.participants ∧
      round.complaints.keys ⊆ round.group.participants
  | _ => True

/-- A ceremony that has only just begun. -/
def Begun (t : Transition) (epoch : EpochId) (r : RolloverState) : Prop :=
  ∃ participants deadline, r = (t.startKeyGen epoch participants deadline).1

/-- The round goes on until its timeout, or the next one takes no longer than it may. -/
def Extends (t : Transition) (block : Nat) (r r' : RolloverState) : Prop :=
  (r.timeout = none → r'.timeout = none) ∧ ∀ deadline, r.timeout = some deadline →
    ∃ deadline', r'.timeout = some deadline' ∧
      deadline' + r'.roundsLeft * t.config.keyGenTimeout ≤
        max deadline block + r.roundsLeft * t.config.keyGenTimeout ∧
      (block + 1 < 2 ^ 64 → min deadline (block + 1) ≤ deadline')

/-- What a message at a block can do to the rollover machine. -/
inductive Advance (t : Transition) (block : Nat) : RolloverState → RolloverState → Prop
  | stay {r : RolloverState} : Advance t block r r
  | genesis : Advance t block .waitingForGenesis (t.startKeyGen .genesis t.genesis none).1
  | recovered {r : RolloverState} (h : r = .halted ∨ ∃ n, r = .epochSkipped n) :
      Advance t block .waitingForGenesis r
  /-- The ceremony goes on, with more of it collected. -/
  | collect {r r' : RolloverState} {epoch : EpochId} {group : Group}
      (h : r.underway = some (epoch, group)) (h' : r'.underway = some (epoch, group))
      (hincomplete : Incomplete r') (hbegun : ∀ epoch, ¬ Begun t epoch r')
      (hextends : Extends t block r r') : Advance t block r r'
  /-- The ceremony starts again without some of its members. -/
  | restart {r : RolloverState} {n : ℕ+} {group : Group} {excluded : Finset Address}
      {participants : ParticipantSet} (h : r.underway = some (.number n, group))
      (hset : t.epochParticipants n excluded = some participants)
      (hexcluded : group.excluded ⊂ excluded ∧ excluded ⊆ t.activeParticipants n) :
      Advance t block r
        (t.startKeyGen (.number n) participants (r.timeout.map fun _ => t.keyGenDeadline block)).1
  | fail {r : RolloverState} {epoch : EpochId} {group : Group}
      (h : r.underway = some (epoch, group)) : Advance t block r (rolloverFailure epoch)
  | sign {r : RolloverState} {group : Group} {rollover : SigningRollover}
      (h : r.underway = some (.number rollover.nextEpoch, group)) (hgroup : rollover.group = group) :
      Advance t block r (.signingRollover rollover)
  | staged {rollover : SigningRollover} :
      Advance t block (.signingRollover rollover) (.epochStaged rollover.nextEpoch)
  | skip {r : RolloverState} {epoch : EpochId} {n : ℕ+} (h : r.nextEpoch = some epoch)
      (hlt : epoch < .number n) : Advance t block r (.epochSkipped n)
  /-- A later epoch begins. -/
  | begin {r : RolloverState} {epoch : EpochId} {n : ℕ+} {participants : ParticipantSet}
      (h : r.nextEpoch = some epoch) (hlt : epoch < .number n)
      (hset : t.epochParticipants n ∅ = some participants) :
      Advance t block r
        (t.startKeyGen (.number n) participants (some (t.keyGenDeadline block))).1

/-- What holds of the rollover machine in every reachable state. -/
structure Sound (t : Transition) (r : RolloverState) : Prop where
  formed : ∀ epoch group, r.candidate = some (epoch, group) → group.Formed t epoch
  incomplete : Incomplete r
  timed : ∀ n group, r.underway = some (.number n, group) → r.timeout ≠ none

/-! ### Starting -/

/-- A started ceremony has collected nothing. -/
theorem begun_eq {epoch : EpochId} {r : RolloverState} (h : Begun t epoch r) :
    ∃ round, r = .collectingCommitments round ∧ round.commitments = .empty ∧
      round.nextEpoch = epoch ∧
      ∀ poap secrets, round.secrets ≠ .participating poap (some secrets) := by
  obtain ⟨participants, deadline, rfl⟩ := h
  unfold Transition.startKeyGen
  split
  · refine ⟨_, rfl, rfl, rfl, ?_⟩
    rintro poap secrets ⟨⟩
  · refine ⟨_, rfl, rfl, rfl, ?_⟩
    rintro poap secrets ⟨⟩

section Start

variable {epoch : EpochId} {participants : ParticipantSet} {deadline : Option Nat}

theorem underway_startKeyGen :
    (t.startKeyGen epoch participants deadline).1.underway =
      some (epoch, participants.group t.externals.keccak256) := by
  unfold Transition.startKeyGen ParticipantSet.participateAs
  by_cases hmem : t.account ∈ participants.addresses
  · rw [if_pos hmem]
    rfl
  · rw [if_neg hmem]
    rfl

theorem timeout_startKeyGen : (t.startKeyGen epoch participants deadline).1.timeout = deadline := by
  unfold Transition.startKeyGen
  split
  · rfl
  · rfl

theorem roundsLeft_startKeyGen : (t.startKeyGen epoch participants deadline).1.roundsLeft = 4 := by
  unfold Transition.startKeyGen
  split
  · rfl
  · rfl

/-- Nothing is collected of at least two participants. -/
theorem incomplete_startKeyGen : Incomplete (t.startKeyGen epoch participants deadline).1 := by
  have hbegun : Begun t epoch (t.startKeyGen epoch participants deadline).1 :=
    ⟨participants, deadline, rfl⟩
  obtain ⟨round, heq, hempty, -, -⟩ := begun_eq hbegun
  have hunderway : (t.startKeyGen epoch participants deadline).1.underway =
      some (epoch, participants.group t.externals.keccak256) := underway_startKeyGen
  rw [heq] at hunderway ⊢
  have hgroup : round.group = participants.group t.externals.keccak256 :=
    congrArg Prod.snd (Option.some.inj hunderway)
  have hkeys : round.commitments.keys = ∅ := by
    rw [hempty]
    rfl
  refine ⟨by rw [hkeys]; exact Finset.empty_subset _, ?_⟩
  intro hfull
  have htwo : 2 ≤ round.group.participants.card := by
    rw [hgroup]
    exact participants.two_le
  rw [← hfull, hkeys, Finset.card_empty] at htwo
  omega

theorem sound_startKeyGen (hformed : (participants.group t.externals.keccak256).Formed t epoch)
    (htimed : epoch ≠ .genesis → deadline ≠ none) :
    Sound t (t.startKeyGen epoch participants deadline).1 := by
  have hunderway : (t.startKeyGen epoch participants deadline).1.underway =
      some (epoch, participants.group t.externals.keccak256) := underway_startKeyGen
  refine ⟨?_, incomplete_startKeyGen, ?_⟩
  · intro epoch' group h
    have hbegun : Begun t epoch (t.startKeyGen epoch participants deadline).1 :=
      ⟨participants, deadline, rfl⟩
    obtain ⟨round, heq, -⟩ := begun_eq hbegun
    rw [heq] at h hunderway
    cases h.symm.trans hunderway
    exact hformed
  · intro n group h
    rw [hunderway] at h
    cases h
    rw [timeout_startKeyGen]
    exact htimed nofun

end Start

theorem next_of_underway {r : RolloverState} {epoch : EpochId} {group : Group}
    (h : r.underway = some (epoch, group)) :
    r.nextEpoch = some epoch ∧ ∀ n, r ≠ .epochStaged n := by
  cases r with
  | collectingCommitments round => cases h; exact ⟨rfl, nofun⟩
  | collectingShares round => cases h; exact ⟨rfl, nofun⟩
  | collectingConfirmations round => cases h; exact ⟨rfl, nofun⟩
  | _ => cases h

theorem rolloverFailure_cases (epoch : EpochId) :
    rolloverFailure epoch = .halted ∧ epoch = .genesis ∨
      ∃ n, rolloverFailure epoch = .epochSkipped n ∧ epoch = .number n := by
  cases epoch with
  | genesis => exact .inl ⟨rfl, rfl⟩
  | number n => exact .inr ⟨n, rfl, rfl⟩

theorem sound_of_idle {r : RolloverState} (h : r.candidate = none) (h' : Incomplete r)
    (h'' : r.underway = none) : Sound t r := by
  refine ⟨?_, h', ?_⟩
  · intro epoch group hr
    rw [h] at hr
    cases hr
  · intro n group hr
    rw [h''] at hr
    cases hr

theorem candidate_of_underway {r : RolloverState} {epoch : EpochId} {group : Group}
    (h : r.underway = some (epoch, group)) : r.candidate = some (epoch, group) := by
  cases r with
  | signingRollover rollover => cases h
  | _ => exact h

/-- **What every message keeps.** -/
theorem Sound.advance {block : Nat} {r r' : RolloverState} (hmove : Advance t block r r')
    (h : Sound t r) : Sound t r' := by
  cases hmove with
  | stay => exact h
  | genesis => exact sound_startKeyGen rfl fun hne => absurd rfl hne
  | recovered hr =>
      rcases hr with rfl | ⟨n, rfl⟩
      · exact sound_of_idle rfl trivial rfl
      · exact sound_of_idle rfl trivial rfl
  | @collect _ _ epoch group hunderway hunderway' hincomplete _ hextends =>
      refine ⟨?_, hincomplete, ?_⟩
      · intro epoch' group' hcandidate
        cases (candidate_of_underway hunderway').symm.trans hcandidate
        exact h.formed _ _ (candidate_of_underway hunderway)
      · intro n group' hnumber
        cases hunderway'.symm.trans hnumber
        obtain ⟨deadline, hdeadline⟩ := Option.ne_none_iff_exists'.mp (h.timed _ _ hunderway)
        obtain ⟨deadline', hdeadline', -⟩ := hextends.2 _ hdeadline
        rw [hdeadline']
        exact Option.some_ne_none _
  | restart hunderway hset hexcluded =>
      refine sound_startKeyGen (formed_group hexcluded.2 hset) fun _ => ?_
      obtain ⟨deadline, hdeadline⟩ := Option.ne_none_iff_exists'.mp (h.timed _ _ hunderway)
      rw [hdeadline]
      exact Option.some_ne_none _
  | @fail _ epoch group _ =>
      rcases rolloverFailure_cases epoch with ⟨heq, -⟩ | ⟨n, heq, -⟩
      · rw [heq]
        exact sound_of_idle rfl trivial rfl
      · rw [heq]
        exact sound_of_idle rfl trivial rfl
  | sign hunderway hgroup =>
      refine ⟨?_, trivial, nofun⟩
      rintro epoch group ⟨⟩
      rw [hgroup]
      exact h.formed _ _ (candidate_of_underway hunderway)
  | staged => exact sound_of_idle rfl trivial rfl
  | skip => exact sound_of_idle rfl trivial rfl
  | begin _ _ hset =>
      exact sound_startKeyGen (formed_group (Finset.empty_subset _) hset) fun _ =>
        Option.some_ne_none _

/-! ### The handlers -/

namespace Advance

variable {block : Nat} {r : RolloverState}

/-- A restart fails if too few participants are left, and at genesis. -/
theorem restartKeyGenExcluding {epoch : EpochId} {group : Group} {excluded : Finset Address}
    {deadline : Option Nat} (h : r.underway = some (epoch, group))
    (hexcluded : ∀ n, epoch = .number n →
      group.excluded ⊂ excluded ∧ excluded ⊆ t.activeParticipants n)
    (hdeadline : deadline = r.timeout.map fun _ => t.keyGenDeadline block) :
    Advance t block r (t.restartKeyGenExcluding epoch excluded deadline).1 := by
  unfold Transition.restartKeyGenExcluding
  cases epoch with
  | genesis => exact .fail h
  | number n =>
      split
      · rename_i participants hset
        rw [hdeadline]
        exact .restart h hset (hexcluded n rfl)
      · exact .fail h

theorem genesisKeyGen (gid : B256) : Advance t block r (t.genesisKeyGen r gid).1 := by
  unfold Transition.genesisKeyGen
  split
  · split
    · exact .genesis
    · exact .stay
  · exact .stay

/-! ### Commitments -/

theorem le_keyGenDeadline (t : Transition) (block : Nat) :
    t.keyGenDeadline block ≤ block + t.config.keyGenTimeout ∧
      (block + 1 < 2 ^ 64 → block < t.keyGenDeadline block) := by
  have hpos : 0 < (t.config.keyGenTimeout : Nat) := t.config.keyGenTimeout.pos
  unfold Transition.keyGenDeadline saturatingAdd
  omega

/-- The round goes on. -/
theorem extends_of_timeout_eq {r' : RolloverState} (h : r'.timeout = r.timeout)
    (h' : r'.roundsLeft = r.roundsLeft) : Extends t block r r' := by
  refine ⟨fun hnone => h.trans hnone, fun deadline hdeadline => ?_⟩
  rw [h, h']
  exact ⟨deadline, hdeadline, Nat.add_le_add_right (le_max_left _ _) _, fun _ => min_le_left _ _⟩

/-- The round of the shares has one timeout, from a block or from the end of the last round. -/
theorem extends_shares {round : CollectingCommitments} {round' : CollectingShares} {start : Nat → Nat}
    (hstart : ∀ deadline, start deadline = block ∨ start deadline = deadline)
    (hdeadline : round'.deadline = round.deadline.map fun deadline =>
      t.keyGenDeadline (start deadline)) :
    Extends t block (.collectingCommitments round) (.collectingShares round') := by
  constructor
  · intro hnone
    show round'.deadline = none
    rw [hdeadline, show round.deadline = none from hnone]
    rfl
  · intro deadline hsome
    refine ⟨t.keyGenDeadline (start deadline), ?_, ?_, ?_⟩
    · show round'.deadline = _
      rw [hdeadline, show round.deadline = some deadline from hsome]
      rfl
    · have hle := (le_keyGenDeadline t (start deadline)).1
      show _ + 3 * (t.config.keyGenTimeout : Nat) ≤ _ + 4 * (t.config.keyGenTimeout : Nat)
      rcases hstart deadline with heq | heq
      · rw [heq] at hle ⊢
        omega
      · rw [heq] at hle ⊢
        omega
    · intro hfits
      have hgt := (le_keyGenDeadline t block).2 hfits
      rcases hstart deadline with heq | heq
      · rw [heq]
        exact (min_le_right _ _).trans hgt
      · rw [heq]
        unfold Transition.keyGenDeadline saturatingAdd
        omega

theorem finalizeKeyGenCommitments {round : CollectingCommitments} {secrets : Option Secrets}
    {commitments : Table Address VerifiedCommitment} (start : Nat → Nat)
    (hsound : Sound t (.collectingCommitments round))
    (hstart : ∀ deadline, start deadline = block ∨ start deadline = deadline) :
    Advance t block (.collectingCommitments round)
      (t.finalizeKeyGenCommitments round.nextEpoch round.group secrets commitments
        (round.deadline.map fun deadline => t.keyGenDeadline (start deadline))).1 := by
  unfold Transition.finalizeKeyGenCommitments
  split
  · refine .collect rfl rfl ⟨?_, Finset.empty_subset _⟩ ?_ (extends_shares hstart rfl)
    · have htwo := (hsound.formed _ _ rfl).two_le
      refine Finset.empty_ssubset.mpr (Finset.card_pos.mp ?_)
      exact lt_of_lt_of_le Nat.zero_lt_two htwo
    · intro epoch hbegun
      obtain ⟨_, heq, -⟩ := begun_eq hbegun
      cases heq
  · exact .fail rfl

theorem keyGenSetup {groupId : B256} {secrets : Secrets} (hsound : Sound t r) :
    Advance t block r (t.keyGenSetup r groupId secrets).1 := by
  unfold Transition.keyGenSetup
  split
  · rename_i round
    split
    · rename_i poap hsecrets
      split
      · dsimp only
        split
        · rename_i hcount
          refine .collect rfl rfl ⟨hsound.incomplete.1, ?_⟩ ?_ (extends_of_timeout_eq rfl rfl)
          · intro hfull
            refine absurd ?_ hcount
            rw [← Table.card_keys]
            exact ((hsound.formed _ _ rfl).lenU16_eq_iff hsound.incomplete.1).mpr hfull
          · intro epoch hbegun
            obtain ⟨round', heq, -, -, hnone⟩ := begun_eq hbegun
            cases heq
            exact hnone _ _ rfl
        · exact finalizeKeyGenCommitments id hsound fun _ => .inr rfl
      · exact .stay
    · exact .stay
  · exact .stay

/-- A commitment adds a row, or is invalid. -/
theorem addCommitment_cases (round : CollectingCommitments) (participant : Address)
    (commitment : Contracts.FROSTCoordinator.KeyGenCommitment) :
    t.addCommitment round participant commitment = round.commitments ∨
      ∃ verified, t.addCommitment round participant commitment =
        round.commitments.insert participant verified := by
  unfold Transition.addCommitment
  split
  · exact .inr ⟨_, rfl⟩
  · exact .inl rfl

theorem keyGenCommitted {gid : B256} {participant : Address}
    {commitment : Contracts.FROSTCoordinator.KeyGenCommitment} (hsound : Sound t r)
    (hmember : ∀ epoch group, r.underway = some (epoch, group) → group.id = gid →
      participant ∈ group.participants) :
    Advance t block r (t.keyGenCommitted r block gid participant commitment).1 := by
  unfold Transition.keyGenCommitted
  split
  · rename_i round
    split
    · rename_i hgroup
      -- a round with one more commitment, of which there are not all or whose secrets are missing
      have hcollect : (lenU16 (t.addCommitment round participant commitment).rows.length =
            round.group.count → ∃ poap, round.secrets = .participating poap none) →
          Advance t block (.collectingCommitments round) (.collectingCommitments
            { round with commitments := t.addCommitment round participant commitment }) := by
        intro hmissing
        rcases addCommitment_cases (t := t) round participant commitment with heq | ⟨verified, heq⟩
        · rw [heq]
          exact .stay
        · rw [heq, ← Table.card_keys] at hmissing
          have hsub : (round.commitments.insert participant verified).keys ⊆
              round.group.participants := by
            rw [Table.keys_insert]
            exact Finset.insert_subset (hmember _ _ rfl hgroup) hsound.incomplete.1
          rw [heq]
          refine .collect rfl rfl ⟨hsub, ?_⟩ ?_ (extends_of_timeout_eq rfl rfl)
          · intro hfull
            exact hmissing (((hsound.formed _ _ rfl).lenU16_eq_iff hsub).mpr hfull)
          · intro epoch hbegun
            obtain ⟨round', hround, hempty, -⟩ := begun_eq hbegun
            cases hround
            have hkeys := Table.keys_insert round.commitments participant verified
            rw [show round.commitments.insert participant verified = .empty from hempty] at hkeys
            exact absurd hkeys.symm (Finset.insert_ne_empty _ _)
      dsimp only
      split
      · rename_i hcount
        exact hcollect fun heq => absurd heq hcount
      · split
        · exact finalizeKeyGenCommitments (fun _ => block) hsound fun _ => .inl rfl
        · exact finalizeKeyGenCommitments (fun _ => block) hsound fun _ => .inl rfl
        · rename_i poap hsecrets
          exact hcollect fun _ => ⟨poap, hsecrets⟩
    · exact .stay
  · exact .stay

/-! ### Secret shares -/

theorem registerShare_cases (block : Nat) (round : CollectingShares) (participant : Address)
    (share : Contracts.FROSTCoordinator.KeyGenSecretShare) :
    (t.registerShare round block participant share).1 = round ∨
      ∃ shares, (t.registerShare round block participant share).1 =
        { round with shared := insert participant round.shared, shares } := by
  unfold Transition.registerShare
  split
  · exact .inr ⟨_, rfl⟩
  · exact .inl rfl

/-- The confirmations have three timeouts from the block they start at. -/
theorem extends_confirmations {round : CollectingShares} {round' : CollectingConfirmations}
    (hdeadlines : round'.deadlines = round.deadline.map fun _ => t.confirmationDeadlines block) :
    Extends t block (.collectingShares round) (.collectingConfirmations round') := by
  constructor
  · intro hnone
    show round'.deadlines.map _ = none
    rw [hdeadlines, show round.deadline = none from hnone]
    rfl
  · intro deadline hsome
    refine ⟨(t.confirmationDeadlines block).confirm, ?_, ?_, ?_⟩
    · show round'.deadlines.map _ = _
      rw [hdeadlines, show round.deadline = some deadline from hsome]
      rfl
    · show saturatingAdd _ (saturatingMul _ 3) + 0 * (t.config.keyGenTimeout : Nat) ≤
        _ + 3 * (t.config.keyGenTimeout : Nat)
      unfold saturatingAdd saturatingMul
      omega
    · intro hfits
      have hpos : 0 < (t.config.keyGenTimeout : Nat) := t.config.keyGenTimeout.pos
      show min deadline (block + 1) ≤ saturatingAdd _ (saturatingMul _ 3)
      unfold saturatingAdd saturatingMul
      omega

/-- No ceremony that has got its commitments has only just begun. -/
theorem not_begun_shares {round : CollectingShares} (epoch : EpochId) :
    ¬ Begun t epoch (.collectingShares round) := by
  intro hbegun
  obtain ⟨_, heq, -⟩ := begun_eq hbegun
  cases heq

theorem not_begun_confirmations {round : CollectingConfirmations} (epoch : EpochId) :
    ¬ Begun t epoch (.collectingConfirmations round) := by
  intro hbegun
  obtain ⟨_, heq, -⟩ := begun_eq hbegun
  cases heq

theorem startConfirmations {round registered : CollectingShares} {commands : List Command}
    (hsound : Sound t (.collectingShares round))
    (hregistered : registered.nextEpoch = round.nextEpoch ∧ registered.group = round.group ∧
      registered.deadline = round.deadline ∧ registered.complaints = round.complaints) :
    Advance t block (.collectingShares round) (t.startConfirmations registered block commands).1 := by
  obtain ⟨hepoch, hgroup, hdeadline, hcomplaints⟩ := hregistered
  unfold Transition.startConfirmations
  dsimp only
  rw [hepoch, hgroup, hdeadline, hcomplaints]
  split
  · refine .collect rfl rfl ⟨?_, hsound.incomplete.2⟩ not_begun_confirmations
      (extends_confirmations rfl)
    refine Finset.empty_ssubset.mpr (Finset.card_pos.mp ?_)
    exact lt_of_lt_of_le Nat.zero_lt_two (hsound.formed _ _ rfl).two_le
  · exact .fail rfl

theorem keyGenSecretShared {gid : B256} {participant : Address}
    {share : Contracts.FROSTCoordinator.KeyGenSecretShare} (hsound : Sound t r)
    (hmember : ∀ epoch group, r.underway = some (epoch, group) → group.id = gid →
      participant ∈ group.participants) :
    Advance t block r (t.keyGenSecretShared r block gid participant share).1 := by
  unfold Transition.keyGenSecretShared
  split
  · rename_i round
    split
    · rename_i hgroup
      dsimp only
      split
      · rename_i hcount
        rcases registerShare_cases (t := t) block round participant share with
          heq | ⟨shares, heq⟩
        · rw [heq]
          exact .stay
        · rw [heq] at hcount ⊢
          have hsub : insert participant round.shared ⊆ round.group.participants :=
            Finset.insert_subset (hmember _ _ rfl hgroup) hsound.incomplete.1.1
          refine .collect rfl rfl ⟨?_, hsound.incomplete.2⟩ not_begun_shares
            (extends_of_timeout_eq rfl rfl)
          refine Finset.ssubset_iff_subset_ne.mpr ⟨hsub, fun hfull => hcount ?_⟩
          exact ((hsound.formed _ _ rfl).lenU16_eq_iff hsub).mpr hfull
      · refine startConfirmations hsound ?_
        rcases registerShare_cases (t := t) block round participant share with
          heq | ⟨shares, heq⟩
        · rw [heq]
          exact ⟨rfl, rfl, rfl, rfl⟩
        · rw [heq]
          exact ⟨rfl, rfl, rfl, rfl⟩
    · exact .stay
  · exact .stay

/-! ### Complaints -/

/-- Leaving out an accused member. -/
theorem exclude_member {group : Group} {epoch : EpochId} {accused : Address}
    (hformed : group.Formed t epoch) (hmember : accused ∈ group.participants) :
    ∀ n, epoch = .number n → group.excluded ⊂ group.alsoExclude {accused} ∧
      group.alsoExclude {accused} ⊆ t.activeParticipants n := by
  rintro n rfl
  exact hformed.alsoExclude (Finset.singleton_subset_iff.mpr hmember) (Finset.singleton_nonempty _)

theorem map_deadlines {round : CollectingConfirmations} {n : Nat} :
    (round.deadlines.map fun _ => n) =
      (RolloverState.collectingConfirmations round).timeout.map fun _ => n := by
  show _ = (round.deadlines.map _).map _
  rw [Option.map_map]
  rfl

theorem keyGenComplained {gid : B256} {plaintiff accused : Address} (hsound : Sound t r)
    (hmember : ∀ epoch group, r.underway = some (epoch, group) → group.id = gid →
      accused ∈ group.participants) :
    Advance t block r (t.keyGenComplained r block gid plaintiff accused).1 := by
  unfold Transition.keyGenComplained
  split
  · rename_i round
    split
    · rename_i hgroup
      have haccused := hmember _ _ rfl hgroup
      dsimp only
      split
      · exact restartKeyGenExcluding rfl (exclude_member (hsound.formed _ _ rfl) haccused) rfl
      · refine .collect rfl rfl ⟨hsound.incomplete.1, ?_⟩ not_begun_shares
          (extends_of_timeout_eq rfl rfl)
        dsimp only
        rw [Table.keys_insert]
        exact Finset.insert_subset haccused hsound.incomplete.2
    · exact .stay
  · rename_i round
    split
    · rename_i hgroup
      have haccused := hmember _ _ rfl hgroup
      dsimp only
      split
      · exact restartKeyGenExcluding rfl (exclude_member (hsound.formed _ _ rfl) haccused)
          map_deadlines
      · refine .collect rfl rfl ⟨hsound.incomplete.1, ?_⟩ not_begun_confirmations
          (extends_of_timeout_eq rfl rfl)
        dsimp only
        rw [Table.keys_insert]
        exact Finset.insert_subset haccused hsound.incomplete.2
    · exact .stay
  · exact .stay

/-- A complaint that is responded to is one that was made. -/
theorem mem_keys_of_respond {complaints : Table Address Complaint} {plaintiff accused : Address}
    {complaint : Complaint}
    (h : Transition.respond complaints plaintiff accused = some complaint) :
    accused ∈ complaints.keys := by
  unfold Transition.respond at h
  split at h
  · rename_i complaint' hlookup
    exact Table.mem_keys.mpr ⟨complaint', hlookup⟩
  · cases h

theorem confirmRevealed {round revealed : CollectingConfirmations}
    (hrevealed : revealed.nextEpoch = round.nextEpoch ∧ revealed.group = round.group ∧
      revealed.deadlines = round.deadlines)
    (hincomplete : Incomplete (.collectingConfirmations revealed)) :
    Advance t block (.collectingConfirmations round) (t.confirmRevealed revealed).1 := by
  obtain ⟨hepoch, hgroup, hdeadlines⟩ := hrevealed
  have hunderway : ∀ status, (RolloverState.collectingConfirmations
      { revealed with status }).underway = some (round.nextEpoch, round.group) := by
    intro status
    rw [← hepoch, ← hgroup]
    rfl
  have htimeout : ∀ status, (RolloverState.collectingConfirmations
      { revealed with status }).timeout = (RolloverState.collectingConfirmations round).timeout :=
    fun _ => congrArg (Option.map ConfirmationDeadlines.confirm) hdeadlines
  have hcollect : ∀ status, Advance t block (.collectingConfirmations round)
      (.collectingConfirmations { revealed with status }) := fun status =>
    .collect rfl (hunderway status) hincomplete not_begun_confirmations
      (extends_of_timeout_eq (htimeout status) rfl)
  unfold Transition.confirmRevealed
  split
  · split
    · split
      · exact hcollect _
      · rw [hepoch]
        exact .fail rfl
    · exact hcollect revealed.status
  · exact hcollect revealed.status

theorem keyGenComplaintResponded {gid : B256} {plaintiff accused : Address} {secretShare : B256}
    (hsound : Sound t r) :
    Advance t block r (t.keyGenComplaintResponded r block gid plaintiff accused secretShare).1 := by
  unfold Transition.keyGenComplaintResponded
  split
  · rename_i round
    split
    · split
      · exact .stay
      · rename_i complaint hrespond
        have haccused := hsound.incomplete.2 (mem_keys_of_respond hrespond)
        split
        · refine .collect rfl rfl ⟨hsound.incomplete.1, ?_⟩ not_begun_shares
            (extends_of_timeout_eq rfl rfl)
          dsimp only
          rw [Table.keys_insert]
          exact Finset.insert_subset haccused hsound.incomplete.2
        · exact restartKeyGenExcluding rfl (exclude_member (hsound.formed _ _ rfl) haccused) rfl
    · exact .stay
  · rename_i round
    split
    · split
      · exact .stay
      · rename_i complaint hrespond
        have haccused := hsound.incomplete.2 (mem_keys_of_respond hrespond)
        split
        · refine confirmRevealed ⟨rfl, rfl, rfl⟩ ⟨hsound.incomplete.1, ?_⟩
          dsimp only
          rw [Table.keys_insert]
          exact Finset.insert_subset haccused hsound.incomplete.2
        · exact restartKeyGenExcluding rfl (exclude_member (hsound.formed _ _ rfl) haccused)
            map_deadlines
    · exact .stay
  · exact .stay

/-! ### Timeouts -/

/-- A deadline that is over is there. -/
theorem over_of_any {deadline : Option Nat} (h : (deadline.any fun d => d ≤ block) = true) :
    ∃ d, deadline = some d ∧ d ≤ block := by
  cases deadline with
  | none => cases h
  | some d => exact ⟨d, rfl, of_decide_eq_true h⟩

/-- The participants with an unanswered complaint were accused. -/
theorem unresponded_subset (complaints : Table Address Complaint) :
    Transition.unresponded complaints ⊆ complaints.keys := by
  intro a ha
  obtain ⟨complaint, hlookup⟩ := Table.mem_keys.mp ha
  exact Table.mem_keys.mpr ⟨complaint, (Table.lookup_filter_eq_some.mp hlookup).1⟩

theorem lateConfirmations_eq_some {round : CollectingConfirmations} {excluded : Finset Address}
    (hsound : Sound t (.collectingConfirmations round))
    (h : Transition.lateConfirmations round block = some excluded) :
    round.deadlines ≠ none ∧ ∀ n, round.nextEpoch = .number n →
      round.group.excluded ⊂ excluded ∧ excluded ⊆ t.activeParticipants n := by
  have hformed := hsound.formed _ _ rfl
  unfold Transition.lateConfirmations at h
  split at h
  · cases h
  · rename_i deadlines hdeadlines
    refine ⟨by rw [hdeadlines]; exact Option.some_ne_none _, fun n hn => ?_⟩
    rw [hn] at hformed
    split at h
    · rename_i hlate
      cases h
      exact hformed.alsoExclude ((unresponded_subset _).trans hsound.incomplete.2)
        (Finset.nonempty_iff_ne_empty.mpr hlate.2)
    · split at h
      · cases h
        exact hformed.excludeAllOthers hsound.incomplete.1
      · cases h

/-- Once every commitment is there, only the secrets are missing, and the round is stuck. -/
theorem commitments_ssubset {round : CollectingCommitments}
    (hsound : Sound t (.collectingCommitments round)) {deadline : Nat}
    (hdeadline : round.deadline = some deadline) (hover : deadline ≤ block)
    (hstuck : Transition.stuck round block = false) :
    round.commitments.keys ⊂ round.group.participants := by
  refine Finset.ssubset_iff_subset_ne.mpr ⟨hsound.incomplete.1, fun hfull => ?_⟩
  obtain ⟨poap, hsecrets⟩ := hsound.incomplete.2 hfull
  have hcount : lenU16 round.commitments.rows.length = round.group.count := by
    rw [← Table.card_keys]
    exact ((hsound.formed _ _ rfl).lenU16_eq_iff hsound.incomplete.1).mpr hfull
  unfold Transition.stuck at hstuck
  rw [hsecrets, hdeadline] at hstuck
  dsimp only at hstuck
  rw [decide_eq_true hover, decide_eq_true hcount] at hstuck
  cases hstuck

/-- What stalls leaves out whoever is missing. -/
theorem stalled_eq_some {epoch : EpochId} {excluded : Finset Address} (hsound : Sound t r)
    (hstuck : ∀ round, r = .collectingCommitments round → Transition.stuck round block = false)
    (h : Transition.stalled r block = some (epoch, excluded)) :
    r.timeout ≠ none ∧ ∃ group, r.underway = some (epoch, group) ∧
      ∀ n, epoch = .number n → group.excluded ⊂ excluded ∧ excluded ⊆ t.activeParticipants n := by
  unfold Transition.stalled at h
  split at h
  · rename_i round
    split at h
    · rename_i hover
      cases h
      obtain ⟨deadline, hdeadline, hle⟩ := over_of_any hover
      refine ⟨fun hnone => ?_, _, rfl, fun n hn => ?_⟩
      · cases hdeadline.symm.trans hnone
      · exact (hn ▸ hsound.formed _ _ rfl).excludeAllOthers
          (commitments_ssubset hsound hdeadline hle (hstuck _ rfl))
    · cases h
  · rename_i round
    split at h
    · rename_i hover
      cases h
      obtain ⟨deadline, hdeadline, -⟩ := over_of_any hover
      refine ⟨fun hnone => ?_, _, rfl, fun n hn => ?_⟩
      · cases hdeadline.symm.trans hnone
      · exact (hn ▸ hsound.formed _ _ rfl).excludeAllOthers hsound.incomplete.1
    · cases h
  · rename_i round
    obtain ⟨excluded', hlate, heq⟩ := Option.map_eq_some_iff.mp h
    cases heq
    obtain ⟨hdeadlines, hgrows⟩ := lateConfirmations_eq_some hsound hlate
    refine ⟨fun hnone => hdeadlines (Option.map_eq_none_iff.mp hnone), _, rfl, hgrows⟩
  · cases h

theorem restartStalled (hsound : Sound t r)
    (hstuck : ∀ round, r = .collectingCommitments round → Transition.stuck round block = false) :
    Advance t block r (t.restartStalled r block).1 := by
  unfold Transition.restartStalled
  split
  · rename_i epoch excluded hstalled
    obtain ⟨htimeout, group, hunderway, hgrows⟩ := stalled_eq_some hsound hstuck hstalled
    refine restartKeyGenExcluding hunderway hgrows ?_
    obtain ⟨deadline, hdeadline⟩ := Option.ne_none_iff_exists'.mp htimeout
    rw [hdeadline]
    rfl
  · exact .stay

theorem keyGenTimeouts (hsound : Sound t r) :
    Advance t block r (t.keyGenTimeouts r block).1 := by
  unfold Transition.keyGenTimeouts
  split
  · rename_i round
    split
    · exact .fail rfl
    · rename_i hstuck
      refine restartStalled hsound ?_
      rintro _ ⟨⟩
      exact Bool.eq_false_of_not_eq_true hstuck
  · rename_i hother
    exact restartStalled hsound fun round heq => absurd heq (hother round)

/-! ### Confirmations and the clock -/

theorem genesis_lt_number {n : ℕ+} : EpochId.genesis < .number n :=
  EpochId.lt_def.mpr n.pos

theorem handleKeyGenConfirmed {s : State} {gid : B256} {participant : Address}
    (hsound : Sound t s.rollover)
    (hmember : ∀ epoch group, s.rollover.underway = some (epoch, group) → group.id = gid →
      participant ∈ group.participants) :
    Advance t block s.rollover (t.handleKeyGenConfirmed s block gid participant).1.rollover := by
  unfold Transition.handleKeyGenConfirmed
  split
  · rename_i round hrollover
    rw [hrollover] at hsound hmember ⊢
    split
    · rename_i hgroup
      have hsub : insert participant round.confirmations ⊆ round.group.participants :=
        Finset.insert_subset (hmember _ _ rfl hgroup) hsound.incomplete.1.1
      dsimp only
      split
      · rename_i hcount
        refine .collect rfl rfl ⟨?_, hsound.incomplete.2⟩ not_begun_confirmations
          (extends_of_timeout_eq rfl rfl)
        refine Finset.ssubset_iff_subset_ne.mpr ⟨hsub, fun hfull => hcount ?_⟩
        exact ((hsound.formed _ _ rfl).lenU16_eq_iff hsub).mpr hfull
      · split
        · rename_i hepoch
          have hnext : (RolloverState.collectingConfirmations round).nextEpoch = some .genesis :=
            congrArg some hepoch
          unfold Transition.genesisConfirmed
          dsimp only
          split
          · rename_i participants hset
            exact .begin hnext genesis_lt_number hset
          · rw [finalizeKeyGen_eq.1]
            exact .skip hnext genesis_lt_number
        · rename_i proposed hepoch
          have hunderway : (RolloverState.collectingConfirmations round).underway =
              some (.number proposed, round.group) :=
            congrArg (fun epoch => some (epoch, round.group)) hepoch
          exact .sign hunderway rfl
    · rw [hrollover]
      exact .stay
  · exact .stay

theorem handleEpochStaged {s : State} {proposedEpoch : Nat} {groupId : B256} :
    Advance t block s.rollover
      (Transition.handleEpochStaged s proposedEpoch groupId).1.rollover := by
  unfold Transition.handleEpochStaged
  split
  · rename_i rollover hrollover
    split
    · rw [(handleSignAttested_eq _).1, finalizeKeyGen_eq.1, hrollover]
      exact .staged
    · exact .stay
  · rename_i hrollover
    rw [hrollover]
    refine .recovered ?_
    dsimp only
    split
    · exact .inr ⟨_, rfl⟩
    · exact .inl rfl
  · exact .stay

theorem handleRolloverNewBlock {s : State} :
    Advance t block s.rollover (t.handleRolloverNewBlock s block).1.rollover := by
  unfold Transition.handleRolloverNewBlock
  split
  · exact .stay
  · rename_i target hnext
    obtain ⟨epoch, hepoch, hnumber⟩ := Option.bind_eq_some_iff.mp hnext
    have htarget : s.rollover.nextEpoch = some (.number target) := by
      cases epoch with
      | genesis => cases hnumber
      | number n => cases hnumber; exact hepoch
    dsimp only
    split
    · exact .stay
    · rename_i hlt
      have hlt : EpochId.number target < .number (nextNumber block t.config.blocksPerEpoch) :=
        EpochId.lt_def.mpr (not_le.mp hlt)
      split
      · rename_i participants hset
        exact .begin htarget hlt hset
      · exact .skip htarget hlt

end Advance

end Safenet.Validator
