/-
The coordinator has the keys that the validators have.

A validator checks every commitment and every verification share that it reads against the polynomial of
the group.  What it reads was emitted, so it is what the coordinator stores (`Reported`), and a round is
only over when everyone was heard: the participants on chain are exactly those in the tables, which is a
matter of counting them.  The stored shares then lie on the polynomial whose constant term is the stored
key, so every threshold of them interpolates it.  The contract itself never checks this.
-/
import Safenet.Proofs.CoordinatorEvents
import Safenet.Proofs.KeyShares
import Safenet.Validator.Joint

namespace Safenet.Validator

open Contracts (Secp256k1.N Secp256k1.G)
open Contracts.FROSTCoordinator (Record Sound)
open Contracts.Coordinator (Reported Remembers)
open Fallible

variable {externals : Contracts.Coordinator.Externals} {t : Transition} {messages : List Message} {group : Group}
  {events : List Contracts.Coordinator.Event} {s : Contracts.Coordinator.State}

/-! ### What a validator reads -/

/-- The events of the coordinator. -/
def Event.ofCoordinator : Event → Bool
  | .epochStaged _ _ _ => false
  | .transactionProposed _ _ _ _ => false
  | .transactionAttested _ _ _ _ _ => false
  | .oracleResult _ _ => false
  | .other => false
  | _ => true

/-- What a validator reads of the coordinator was emitted. -/
def Hears (messages : List Message) (events : List Contracts.Coordinator.Event) : Prop :=
  ∀ event, Heard messages event → event.ofCoordinator = true → ∃ emitted ∈ events, readEvent emitted = event

theorem Hears.committed (h : Hears messages events) {gid : B256} {p : Address}
    {commitment : Contracts.FROSTCoordinator.KeyGenCommitment}
    (hheard : Heard messages (.keyGenCommitted gid p commitment)) :
    ∃ committed, .keyGen (.keyGenCommitted gid p commitment committed) ∈ events := by
  obtain ⟨emitted, hmem, hread⟩ := h _ hheard rfl
  unfold readEvent at hread
  split at hread <;> cases hread
  exact ⟨_, hmem⟩

theorem Hears.shared (h : Hears messages events) {gid : B256} {p : Address}
    {share : Contracts.FROSTCoordinator.KeyGenSecretShare}
    (hheard : Heard messages (.keyGenSecretShared gid p share)) :
    ∃ shared, .keyGen (.keyGenSecretShared gid p share shared) ∈ events := by
  obtain ⟨emitted, hmem, hread⟩ := h _ hheard rfl
  unfold readEvent at hread
  split at hread <;> cases hread
  exact ⟨_, hmem⟩

/-! ### The parameters of a group -/

/-- What the identifier of a group is hashed from. -/
def parameterBytes (root : B256) (count threshold : Nat) (context : B256) : Bytes :=
  [root, BitVec.ofNat 256 count, BitVec.ofNat 256 threshold, context].flatMap Bytes.word

/-- The parameters of the groups that were started, and those of the own group, have identifiers that
tell them apart. -/
structure TellsApart (keccak : Contracts.Keccak) (events : List Contracts.Coordinator.Event) (group : Group)
    (hashed : Set Bytes) : Prop where
  injective : Set.InjOn (fun bytes => Contracts.FROSTGroupId.mask (keccak bytes)) hashed
  started : ∀ gid root count threshold context,
    .keyGen (.keyGen gid root count threshold context) ∈ events →
      parameterBytes root count threshold context ∈ hashed
  own : parameterBytes group.root group.count group.threshold group.context ∈ hashed

theorem groupId_eq_create (keccak : Contracts.Keccak) (root : B256) (count threshold : Nat) (context : B256) :
    groupId keccak root count threshold context =
      Contracts.FROSTGroupId.create keccak root count threshold context := by
  have hmask : ~~~BitVec.ofNat 256 (2 ^ 64 - 1) =
      0xffffffffffffffffffffffffffffffffffffffffffffffff0000000000000000#256 := by decide
  unfold groupId Contracts.FROSTGroupId.create Contracts.FROSTGroupId.mask
  rw [hmask]
  rfl

theorem parameterBytes_injective {root root' context context' : B256} {count count' threshold threshold' : Nat}
    (h : parameterBytes root count threshold context = parameterBytes root' count' threshold' context')
    (hcount : count < 2 ^ 256) (hcount' : count' < 2 ^ 256) (hthreshold : threshold < 2 ^ 256)
    (hthreshold' : threshold' < 2 ^ 256) : count = count' ∧ threshold = threshold' := by
  have hwords := Bytes.flatMap_word_inj h
  simp only [List.cons.injEq, and_true] at hwords
  obtain ⟨-, hc, ht, -⟩ := hwords
  have hc := congrArg BitVec.toNat hc
  have ht := congrArg BitVec.toNat ht
  rw [BitVec.toNat_ofNat, BitVec.toNat_ofNat, Nat.mod_eq_of_lt hcount, Nat.mod_eq_of_lt hcount'] at hc
  rw [BitVec.toNat_ofNat, BitVec.toNat_ofNat, Nat.mod_eq_of_lt hthreshold,
    Nat.mod_eq_of_lt hthreshold'] at ht
  exact ⟨hc, ht⟩

/-! ### Counting the participants -/

section Counting

variable {verifiers : Contracts.FROSTCoordinator.Verifiers} {record : Record}
  {stored : Contracts.FROSTCoordinator.Group}

/-- Once a verification share was published everyone has committed. -/
theorem commits_of_shares (h : Sound verifiers record stored) (hne : record.shares ≠ []) :
    record.commits.length = stored.state.count ∧ record.shares.length ≤ stored.state.count ∧
      stored.state.threshold ≤ stored.state.count ∧ stored.participants.root ≠ 0 := by
  have hphase := h.phase
  have hroot : stored.state.status ≠ .uninitialized → stored.participants.root ≠ 0 :=
    fun hstarted hzero => hstarted (h.root.mp hzero)
  cases hstatus : stored.state.status with
  | uninitialized =>
      rw [hstatus] at hphase
      rw [hphase.1] at hne
      exact absurd rfl hne
  | committing =>
      rw [hstatus] at hphase
      exact absurd hphase.2.2.1 hne
  | sharing =>
      rw [hstatus] at hphase hroot
      refine ⟨hphase.1, by have := hphase.2.1; omega, (h.params ?_).2, hroot (by decide)⟩
      rw [hstatus]
      decide
  | confirming =>
      rw [hstatus] at hphase hroot
      refine ⟨hphase.1, hphase.2.1.le, (h.params ?_).2, hroot (by decide)⟩
      rw [hstatus]
      decide
  | finalized =>
      rw [hstatus] at hphase hroot
      refine ⟨hphase.1, hphase.2.1.le, (h.params ?_).2, hroot (by decide)⟩
      rw [hstatus]
      decide
  | compromised =>
      rw [hstatus] at hphase hroot
      refine ⟨hphase.1, ?_, (h.params ?_).2, hroot (by decide)⟩
      · rcases hphase.2 with ⟨hleft, -⟩ | ⟨hall, -⟩
        · omega
        · exact hall.le
      · rw [hstatus]
        decide

theorem card_participants (h : Sound verifiers record stored) :
    record.participants.toFinset.card = record.commits.length := by
  rw [List.toFinset_card_of_nodup h.distinct, Record.participants, List.length_map]

/-- There are no more participants than addresses. -/
theorem commits_lt (h : Sound verifiers record stored) : record.commits.length < 2 ^ 256 := by
  have hcard : record.participants.toFinset.card ≤ (Finset.range (2 ^ 160)).card := by
    refine Finset.card_le_card_of_injOn BitVec.toNat (fun a _ => ?_) fun a _ b _ => BitVec.eq_of_toNat_eq
    exact Finset.mem_coe.mpr (Finset.mem_range.mpr a.isLt)
  rw [card_participants h, Finset.card_range] at hcard
  exact lt_of_le_of_lt hcard (by decide)

/-! ### The stored group -/

/-- What a validator knows of a group is what the coordinator stores. -/
structure Onchain (crate : FrostCrate) (commitments : GroupCommitments)
    (stored : Contracts.FROSTCoordinator.Group) : Prop where
  key : stored.key = commitments.groupKey
  valid : stored.key.Valid
  threshold : commitments.groupCommitment.length = stored.state.threshold
  registered : ∀ a, (stored.participants.states a).status ≠ .none ↔
    (commitments.commitments.lookup a).isSome = true
  nonzero : ∀ a, (stored.participants.states a).status ≠ .none →
    stored.participants.keys a ≠ Contracts.Secp256k1.zero
  keys : ∀ a, (stored.participants.states a).status ≠ .none →
    (stored.participants.keys a).Valid ∧
      (stored.participants.keys a).toCurve = evaluateVss commitments.groupCommitment (crate.identifier a)

/-- Everyone in the tables is a participant of the stored group, with the commitment that it published. -/
theorem entry_of_collected (hhears : Hears messages events)
    {commitments : Table Address VerifiedCommitment} (hcollected : Collected t messages group commitments)
    (hremembers : Remembers group.id events record (s.groups group.id)) {p : Address}
    {v : VerifiedCommitment} (hv : commitments.lookup p = some v) :
    v.package.commitment.length = (s.groups group.id).state.threshold ∧
      ∃ poap, (p, poap, v.package.commitment.headD Contracts.Secp256k1.zero) ∈ record.commits := by
  obtain ⟨c, hheard, hverified⟩ := hcollected.verified p v hv
  obtain ⟨committed, hevent⟩ := hhears.committed hheard
  rw [(verifyCommitment_coefficients hverified).1]
  exact hremembers.commits p c committed hevent

/-- The parameters of a group that was started under the own identifier are the own ones. -/
theorem parameters_eq (hreported : Reported externals events s)
    (hkeccak : externals.keccak256 = t.externals.keccak256) {hashed : Set Bytes}
    (happart : TellsApart externals.keccak256 events group hashed)
    (hformed : ∃ set : ParticipantSet, group = set.group t.externals.keccak256)
    (hroot : (s.groups group.id).participants.root ≠ 0)
    (hcount : (s.groups group.id).state.count < 2 ^ 256)
    (hthreshold : (s.groups group.id).state.threshold ≤ (s.groups group.id).state.count) :
    (s.groups group.id).state.count = group.count ∧ (s.groups group.id).state.threshold = group.threshold := by
  obtain ⟨context, hgid, hevent⟩ := hreported.named group.id hroot
  obtain ⟨set, hset⟩ := hformed
  have hown : group.id =
      Contracts.FROSTGroupId.create externals.keccak256 group.root group.count group.threshold group.context := by
    rw [hkeccak, ← groupId_eq_create, hset]
    rfl
  have hfits : group.count < 2 ^ 16 := by
    rw [hset]
    exact set.fits
  have hhalf : group.threshold ≤ group.count := by
    rw [hset]
    show groupThreshold set.addresses.card ≤ set.addresses.card
    have htwo := set.two_le
    unfold groupThreshold
    omega
  have hbytes := happart.injective (happart.started _ _ _ _ _ hevent) happart.own (hgid.symm.trans hown)
  exact parameterBytes_injective hbytes hcount (by omega) (by omega) (by omega)

/-- A part of the participants that is as large as the group is all of them. -/
theorem eq_participants (hsound : Sound verifiers record stored)
    (hcommits : record.commits.length = group.count) (hfits : group.count < 2 ^ 16) {part : Finset Address}
    (hpart : ∀ p ∈ part, p ∈ record.participants) (hfull : lenU16 part.card = group.count) :
    part = record.participants.toFinset := by
  have hsubset : part ⊆ record.participants.toFinset := fun p hp => List.mem_toFinset.mpr (hpart p hp)
  have hcard := card_participants hsound
  have hle := Finset.card_le_card hsubset
  rw [lenU16, Nat.mod_eq_of_lt (by omega)] at hfull
  exact Finset.eq_of_subset_of_card_le hsubset (by omega)

/-- The stored key is the sum of the constant terms. -/
theorem key_of_commits (hsound : Sound verifiers record stored)
    {commitments : Table Address VerifiedCommitment}
    (hkeys : commitments.keys = record.participants.toFinset)
    (hentries : ∀ p v, commitments.lookup p = some v → ∃ poap,
      (p, poap, v.package.commitment.headD Contracts.Secp256k1.zero) ∈ record.commits)
    (hpoints : AllOnCurves commitments) :
    stored.key.Valid ∧
      stored.key.toCurve = total commitments fun v => constantTerm v.package.commitment := by
  -- the entry of a participant is the one of its row
  have hentry : ∀ entry ∈ record.commits, ∃ v, commitments.lookup entry.1 = some v ∧
      entry.2.2 = v.package.commitment.headD Contracts.Secp256k1.zero := by
    intro entry hentry
    have hmem : entry.1 ∈ commitments.keys := by
      rw [hkeys]
      exact List.mem_toFinset.mpr (List.mem_map_of_mem hentry)
    obtain ⟨v, hv⟩ := Table.mem_keys.mp hmem
    obtain ⟨poap, hcommitted⟩ := hentries entry.1 v hv
    have hsame := List.inj_on_of_nodup_map hsound.distinct hentry hcommitted rfl
    refine ⟨v, hv, ?_⟩
    rw [hsame]
  have hvalid : ∀ p ∈ record.commits.map fun entry => entry.2.2, p.Valid := by
    intro p hp
    obtain ⟨entry, hmem, rfl⟩ := List.mem_map.mp hp
    obtain ⟨v, hv, heq⟩ := hentry entry hmem
    rw [heq, headD_eq_getD]
    exact valid_getD (hpoints entry.1 v hv) 0
  obtain ⟨key, hkey, hkeyValid, hsum⟩ := Contracts.FROSTCoordinator.sumPoints_ok hvalid
  obtain rfl := Except.ok.inj (hsound.key.symm.trans hkey)
  refine ⟨hkeyValid, hsum.trans ?_⟩
  rw [total_eq_sum, hkeys, List.sum_toFinset _ hsound.distinct, Record.participants, List.map_map,
    List.map_map]
  refine congrArg List.sum (List.map_congr_left fun entry hmem => ?_)
  obtain ⟨v, hv, heq⟩ := hentry entry hmem
  rw [Function.comp_apply, Function.comp_apply, hv, heq]
  show _ = constantTerm v.package.commitment
  rw [headD_eq_getD, toCurve_getD, constantTerm, headD_eq_getD]

/-- **What everyone was heard of is what is stored.** -/
theorem onchain_of_published (hcrate : GeneratesKeys t.externals.toFrostCrate)
    (hreported : Reported externals events s) (hhears : Hears messages events)
    (hkeccak : externals.keccak256 = t.externals.keccak256) {hashed : Set Bytes}
    (happart : TellsApart externals.keccak256 events group hashed) {commitments : GroupCommitments}
    (hcommitted : Committed t messages group commitments) {shared : Finset Address}
    (hpublished : Published t messages group commitments shared) (hfull : lenU16 shared.card = group.count) :
    Onchain t.externals.toFrostCrate commitments (s.groups group.id) := by
  obtain ⟨record, hsound, hremembers⟩ := hreported.groups group.id
  obtain ⟨set, hset⟩ := hcommitted.collected.formed
  have htwo : 2 ≤ group.count := by
    rw [hset]
    exact set.two_le
  -- every published share is stored
  have hstored : ∀ p ∈ shared, ∃ y : Point, (p, y) ∈ record.shares ∧ y.Valid ∧
      y = t.externals.verifyingShare (t.externals.identifier p) commitments.groupCommitment := by
    intro p hp
    obtain ⟨share, encrypted, hheard, hverified⟩ := hpublished p hp
    obtain ⟨announced, hevent⟩ := hhears.shared hheard
    obtain ⟨u, -, hverified⟩ := bind_eq_ok.mp hverified
    obtain ⟨u, hshare, -⟩ := bind_eq_ok.mp hverified
    obtain ⟨y, hy, hshare⟩ := bind_eq_ok.mp (mapError_eq_ok.mp hshare)
    obtain ⟨hvalid, rfl⟩ := frostPoint_eq_ok.mp hy
    exact ⟨share.y, hremembers.shares p share announced hevent, hvalid,
      of_decide_eq_true (require_eq_ok.mp hshare)⟩
  have hne : record.shares ≠ [] := by
    intro hnil
    have hempty : shared = ∅ := by
      rw [Finset.eq_empty_iff_forall_notMem]
      intro p hp
      obtain ⟨y, hy, -⟩ := hstored p hp
      rw [hnil] at hy
      cases hy
    rw [hempty, Finset.card_empty, lenU16, Nat.zero_mod] at hfull
    omega
  obtain ⟨hcommits, hshares, hthreshold, hroot⟩ := commits_of_shares hsound hne
  obtain ⟨hcount, hthreshold⟩ := parameters_eq hreported hkeccak happart hcommitted.collected.formed hroot
    (hcommits ▸ commits_lt hsound) hthreshold
  have hfits : group.count < 2 ^ 16 := by
    rw [hset]
    exact set.fits
  have hentries := fun p v hv => entry_of_collected hhears hcommitted.collected hremembers (p := p) (v := v) hv
  have hrows : commitments.commitments.keys = record.participants.toFinset := by
    refine eq_participants hsound (hcommits.trans hcount) hfits (fun p hp => ?_) ?_
    · obtain ⟨v, hv⟩ := Table.mem_keys.mp hp
      obtain ⟨-, poap, hentry⟩ := hentries p v hv
      exact List.mem_map_of_mem hentry
    · rw [Table.card_keys]
      exact hcommitted.full
  have heveryone : shared = record.participants.toFinset := by
    refine eq_participants hsound (hcommits.trans hcount) hfits (fun p hp => ?_) hfull
    obtain ⟨y, hy, -⟩ := hstored p hp
    exact hsound.sharesRegistered (p, y) hy
  have hkeys : ∀ a, ((s.groups group.id).participants.states a).status ≠ .none → a ∈ shared := by
    intro a ha
    rw [heveryone, List.mem_toFinset]
    exact (hsound.registered a).mp ha
  obtain ⟨-, hsum, hkey⟩ := groupCommitments_eq_ok.mp hcommitted.derived
  have hpoints := hcommitted.collected.onCurves
  have hlength : ∀ p v, commitments.commitments.lookup p = some v →
      v.package.commitment.length = (s.groups group.id).state.threshold := fun p v hv => (hentries p v hv).1
  obtain ⟨hvalid, hcurve⟩ := key_of_commits hsound hrows (fun p v hv => (hentries p v hv).2) hpoints
  refine ⟨?_, hvalid, length_groupCommitment hcrate hpoints hsum hlength, fun a => ?_, fun a ha => ?_,
    fun a ha => ?_⟩
  · obtain ⟨hvalid', hcurve'⟩ := verifyingKey_group hcrate hpoints hsum hkey
    exact Contracts.Secp256k1.toCurve_injective hvalid hvalid' (hcurve.trans hcurve'.symm)
  · rw [hsound.registered a, ← List.mem_toFinset, ← hrows, Table.mem_keys, Option.isSome_iff_exists]
  · obtain ⟨y, hy, -, -⟩ := hstored a (hkeys a ha)
    obtain ⟨rfl, hne⟩ := (hsound.shares a y).mp hy
    exact hne
  · obtain ⟨y, hy, hvalid, hvalue⟩ := hstored a (hkeys a ha)
    obtain ⟨hsame, -⟩ := (hsound.shares a y).mp hy
    obtain ⟨hon, -⟩ := hcrate.sumCommitments (onCurves_of_mem hpoints) hsum
    rw [hsame]
    refine ⟨hvalid, ?_⟩
    rw [hvalue]
    exact (hcrate.verifyingShare _ hon).2

end Counting

/-- The shares on chain interpolate the key on chain. -/
theorem Onchain.interpolates {crate : FrostCrate} (hcrate : GeneratesKeys crate)
    {commitments : GroupCommitments} {stored : Contracts.FROSTCoordinator.Group}
    (h : Onchain crate commitments stored)
    (hkey : crate.verifyingKey commitments.groupCommitment = .ok commitments.verifyingKey)
    {holders : Finset Address} (hholders : ∀ a ∈ holders, (stored.participants.states a).status ≠ .none)
    (henough : stored.state.threshold ≤ holders.card) :
    ∑ a ∈ holders, Sharing.weight holders (pointOf crate) a • (stored.participants.keys a).toCurve =
      stored.key.toCurve := by
  rw [h.key, GroupCommitments.groupKey, ← constantTerm_of_head (hcrate.verifyingKey hkey),
    ← sum_weight_smul_evaluateVss hcrate (by rw [h.threshold]; exact henough)]
  refine Finset.sum_congr rfl fun a ha => ?_
  rw [(h.keys a (hholders a ha)).2]

/--
**The coordinator stores the sharing that the validators have checked.**

A validator that holds a key share of a group, in any run of its own, has read of the group's key generation
what the coordinator has emitted, in any run of the coordinator.  Then the key that the coordinator stores is
the key of the share, the threshold is the one of the share, and the verification share of the validator is
its signing share times the generator.  Everyone that is registered has a verification share, and those of
any threshold of them interpolate the key: none was replaced, left out or added.
-/
theorem chain_stores_key_shares (t : Transition) (hcrate : GeneratesKeys t.externals.toFrostCrate)
    (messages : List Message) (hsamples : Samples t messages)
    (externals : Contracts.Coordinator.Externals) (hkeccak : externals.keccak256 = t.externals.keccak256)
    (calls : List (Address × Contracts.Coordinator.Call)) :
    let events := Contracts.Coordinator.emitted
      (Trace.trace (Contracts.Coordinator.step externals) Contracts.Coordinator.deployed calls)
    Hears messages events →
    ∀ group share, (Trace.final t.applyTransition State.default messages).HasShare group share →
    ∀ hashed, TellsApart externals.keccak256 events group hashed →
      let stored := (Trace.final (Contracts.Coordinator.step externals) Contracts.Coordinator.deployed
        calls).groups group.id
      stored.key = share.package.verifyingKey ∧ stored.state.threshold = share.groupThreshold ∧
        (stored.participants.states t.account).status ≠ .none ∧
        (stored.participants.keys t.account).toCurve =
          (share.package.signingShare.toNat : ZMod Secp256k1.N) • Secp256k1.G.toCurve ∧
        (∀ a, (stored.participants.states a).status ≠ .none →
          stored.participants.keys a ≠ Contracts.Secp256k1.zero) ∧
        ∀ holders : Finset Address, (∀ a ∈ holders, (stored.participants.states a).status ≠ .none) →
          stored.state.threshold ≤ holders.card →
          ∑ a ∈ holders, Sharing.weight holders (pointOf t.externals.toFrostCrate) a •
            (stored.participants.keys a).toCurve = stored.key.toCurve := by
  intro events hhears group share hshare hashed happart stored
  have hreported : Reported externals events (Trace.final (Contracts.Coordinator.step externals)
    Contracts.Coordinator.deployed calls) := Contracts.Coordinator.reported_run externals calls
  obtain ⟨commitments, shared, hcommitted, hpublished, hfull, hisShare⟩ :=
    held_of_hasShare (stateHeld_final hcrate hsamples) hshare
  have honchain := onchain_of_published hcrate hreported hhears hkeccak happart hcommitted hpublished hfull
  have hown : (stored.participants.states t.account).status ≠ .none :=
    (honchain.registered t.account).mpr hisShare.member
  refine ⟨?_, ?_, hown, ?_, honchain.nonzero, fun holders => ?_⟩
  · rw [hisShare.key]
    exact honchain.key
  · rw [KeyShare.groupThreshold, hisShare.threshold]
    exact honchain.threshold.symm
  · rw [hisShare.equation]
    exact (honchain.keys t.account hown).2
  · exact honchain.interpolates hcrate (groupCommitments_eq_ok.mp hcommitted.derived).2.2

/-! ### Two participants on chain -/

/-- The message is no event of the coordinator, or one of these. -/
def readsFrom (events : List Contracts.Coordinator.Event) : Message → Bool
  | .event log => !log.data.ofCoordinator || events.any fun emitted => decide (readEvent emitted = log.data)
  | _ => true

theorem hears_of_readsFrom (h : messages.all (readsFrom events) = true) : Hears messages events := by
  rintro event ⟨log, hlog, rfl⟩ hcoordinator
  have hread := List.all_eq_true.mp h _ hlog
  simp only [readsFrom, hcoordinator, Bool.not_true, Bool.false_or, List.any_eq_true] at hread
  obtain ⟨emitted, hmem, heq⟩ := hread
  exact ⟨emitted, hmem, of_decide_eq_true heq⟩

/-- The functions of the EVM, with the hash of the two. -/
noncomputable def duoExternals : Contracts.Coordinator.Externals where
  keccak256 := duoKeccak
  proofOfKnowledge := fun _ _ _ => true
  merkleProof := fun proof root leaf => decide (proof.foldl (hashPair duoKeccak) leaf = root)
  sha256 := fun bytes => BitVec.ofNat 256 (Bytes.value bytes)
  ecrecover := Contracts.Secp256k1.ecrecover duoKeccak

/-- The two generate their key. -/
def duoCalls : List (Address × Contracts.Coordinator.Call) :=
  [(1, .keyGen (.keyGenAndCommit 67 2 2 0 [2] duoFirst.commitment)),
    (2, .keyGen (.keyGenAndCommit 67 2 2 0 [1] duoSecond.commitment)),
    (1, .keyGen (.keyGenSecretShare duoGid (duoShare 5 [3 ^^^ duoKey]))),
    (2, .keyGen (.keyGenSecretShare duoGid (duoShare 7 [3 ^^^ duoKey]))),
    (1, .keyGen (.keyGenConfirm duoGid)), (2, .keyGen (.keyGenConfirm duoGid))]

theorem duo_hears : Hears duoRun (Contracts.Coordinator.emitted (Trace.trace
    (Contracts.Coordinator.step duoExternals) Contracts.Coordinator.deployed duoCalls)) := by
  refine hears_of_readsFrom ?_
  decide +kernel

/-- What the identifier of a started group is hashed from. -/
def startedBytes : Contracts.Coordinator.Event → Option Bytes
  | .keyGen (.keyGen _ root count threshold context) => some (parameterBytes root count threshold context)
  | _ => none

theorem duo_tellsApart {calls : List (Address × Contracts.Coordinator.Call)}
    (hstarted : (Contracts.Coordinator.emitted (Trace.trace (Contracts.Coordinator.step duoExternals)
      Contracts.Coordinator.deployed calls)).filterMap startedBytes = [parameterBytes 67 2 2 0]) :
    TellsApart duoExternals.keccak256 (Contracts.Coordinator.emitted (Trace.trace
      (Contracts.Coordinator.step duoExternals) Contracts.Coordinator.deployed calls))
      (duoValidator.genesis.group duoKeccak) {parameterBytes 67 2 2 0} where
  injective := Set.injOn_singleton _ _
  started := by
    intro gid root count threshold context hevent
    have hmem : parameterBytes root count threshold context ∈ [parameterBytes 67 2 2 0] := by
      rw [← hstarted]
      exact List.mem_filterMap.mpr ⟨_, hevent, rfl⟩
    exact List.mem_singleton.mp hmem
  own := by
    have hroot : (duoValidator.genesis.group duoKeccak).root = 67 := by decide +kernel
    rw [hroot]
    rfl

theorem duo_key_is_stored : ∃ group share,
    (Trace.final duoValidator.applyTransition State.default duoRun).HasShare group share ∧
      ((Trace.final (Contracts.Coordinator.step duoExternals) Contracts.Coordinator.deployed duoCalls).groups
        group.id).key = share.package.verifyingKey := by
  obtain ⟨group, share, hshare, rfl⟩ := duo_has_share
  have hstored := chain_stores_key_shares duoValidator curveCrate_generatesKeys duoRun duoRun_samples
    duoExternals rfl duoCalls duo_hears _ share hshare _ (duo_tellsApart (by decide +kernel))
  exact ⟨_, share, hshare, hstored.1⟩

end Safenet.Validator
