/-
Key generation in the coordinator, over whole runs.

A call acts on one group, and what it does there is a list of at most two `Effect`s.
`Record` is the history of a group in the same terms: who registered with which proof
and commitment, who published which verification share, which complaints were filed.
`Sound` ties the counters, statuses and the complaint matrix of the stored group to its
record; one lemma per effect shows that it is kept, and `sound_run` carries it through
every run.  The finalisation theorem reads its conclusion off `Sound`.
-/
import Mathlib.Data.FinEnum
import Mathlib.Data.Set.Card
import Safenet.Lib.Trace
import Safenet.Contracts.FROSTCoordinator

namespace Safenet.Contracts.FROSTCoordinator

open Fallible FROSTParticipantMap

variable {verifiers : Verifiers}

/-! ### Effects on a group -/

/-- What a call does to its group. -/
inductive Effect where
  | start (root : B256) (count threshold : Nat)
  | commit (participant : Address) (poap : List B256) (c₀ : Secp256k1.Point)
  | share (participant : Address) (y : Secp256k1.Point)
  | confirm (participant : Address)
  | complain (plaintiff accused : Address)
  | respond (plaintiff accused : Address)

/-- The status and the countdown after one more participant completed a phase. -/
def countDown (state : GroupState) (next : GroupStatus) (reset : Nat) : GroupState :=
  if state.pending - 1 = 0 then { state with status := next, pending := reset }
  else { state with pending := state.pending - 1 }

/-- The status after a complaint that is the accused's `total`-th. -/
def accuse (state : GroupState) (total : Nat) : GroupState :=
  if state.threshold ≤ total then { state with status := .compromised } else state

/-- The participants after a complaint. -/
def withComplaint (self : T) (plaintiff accused : Address) : T where
  root := self.root
  keys := self.keys
  complaints := Function.update self.complaints plaintiff
    (Function.update (self.complaints plaintiff) accused .submitted)
  states := Function.update (Function.update self.states plaintiff
      { self.states plaintiff with complaints := (self.states plaintiff).complaints + 1 }) accused
      { self.states accused with accusations := (self.states accused).accusations + 1 }

/-- The participants after a complaint is answered. -/
def withResponse (self : T) (plaintiff accused : Address) : T where
  root := self.root
  keys := self.keys
  complaints := Function.update self.complaints plaintiff
    (Function.update (self.complaints plaintiff) accused .responded)
  states := Function.update self.states plaintiff
      { self.states plaintiff with complaints := (self.states plaintiff).complaints - 1 }

/-- An effect that its guards let through, with the group it leaves. -/
inductive Applies (verifiers : Verifiers) (group : Group) : Effect → Group → Prop
  | start {root : B256} {count threshold : Nat} (hparams : threshold ≤ count ∧ 1 < threshold)
      (hroot : root ≠ 0) (hfresh : group.participants.root = 0) :
      Applies verifiers group (.start root count threshold)
        { participants := { group.participants with root }
          state := ⟨.committing, count, threshold, count, 0⟩
          key := group.key }
  | commit {p : Address} {poap : List B256} {c₀ key : Secp256k1.Point}
      (hstatus : group.state.status = .committing) (hpending : 1 ≤ group.state.pending)
      (hnew : (group.participants.states p).status = .none)
      (hproof : verifiers.merkleProof poap group.participants.root (toWord p) = true)
      (hkey : Secp256k1.add group.key c₀ = .ok key) :
      Applies verifiers group (.commit p poap c₀)
        { participants := { group.participants with
            states := Function.update group.participants.states p
              { group.participants.states p with status := .registered } }
          state := countDown group.state .sharing group.state.count
          key }
  | share {p : Address} {y : Secp256k1.Point} (hstatus : group.state.status = .sharing)
      (hpending : 1 ≤ group.state.pending) (hy : y ≠ Secp256k1.zero)
      (hregistered : (group.participants.states p).status = .registered)
      (hunset : group.participants.keys p = Secp256k1.zero) :
      Applies verifiers group (.share p y)
        { participants := { group.participants with
            keys := Function.update group.participants.keys p y }
          state := countDown group.state .confirming group.state.count
          key := group.key }
  | confirm {p : Address} (hstatus : group.state.status = .confirming)
      (hpending : 1 ≤ group.state.pending)
      (hregistered : (group.participants.states p).status = .registered)
      (hclear : (group.participants.states p).complaints = 0) :
      Applies verifiers group (.confirm p)
        { participants := { group.participants with
            states := Function.update group.participants.states p
              { group.participants.states p with status := .confirmed } }
          state := countDown group.state .finalized 0
          key := group.key }
  | complain {p a : Address}
      (hstatus : group.state.status = .sharing ∨ group.state.status = .confirming) (hne : p ≠ a)
      (hnone : group.participants.complaints p a = .none)
      (hregistered : (group.participants.states p).status = .registered)
      (haccused : (group.participants.states a).status ≠ .none) :
      Applies verifiers group (.complain p a)
        { participants := withComplaint group.participants p a
          state := accuse group.state ((group.participants.states a).accusations + 1)
          key := group.key }
  | respond {p a : Address}
      (hstatus : group.state.status = .sharing ∨ group.state.status = .confirming)
      (hsubmitted : group.participants.complaints p a = .submitted) :
      Applies verifiers group (.respond p a)
        { participants := withResponse group.participants p a
          state := group.state
          key := group.key }

/-- A list of effects, one after the other. -/
inductive AppliesAll (verifiers : Verifiers) : Group → List Effect → Group → Prop
  | nil {group : Group} : AppliesAll verifiers group [] group
  | cons {group group' group'' : Group} {effect : Effect} {effects : List Effect}
      (head : Applies verifiers group effect group')
      (tail : AppliesAll verifiers group' effects group'') :
      AppliesAll verifiers group (effect :: effects) group''

/-- The group a call is about, and its effects there. -/
def effects (verifiers : Verifiers) (groups : Groups) (sender : Address) : Call → B256 × List Effect
  | .keyGen participants count threshold context =>
      (FROSTGroupId.create verifiers.keccak256 participants count threshold context,
        [.start participants count threshold])
  | .keyGenCommit gid poap commitment =>
      (gid, [.commit sender poap (commitment.c.headD Secp256k1.zero)])
  | .keyGenAndCommit participants count threshold context poap commitment =>
      let gid := FROSTGroupId.create verifiers.keccak256 participants count threshold context
      let commit := Effect.commit sender poap (commitment.c.headD Secp256k1.zero)
      (gid, if initialized (groups gid).participants then [commit]
        else [.start participants count threshold, commit])
  | .keyGenSecretShare gid share => (gid, [.share sender share.y])
  | .keyGenConfirm gid => (gid, [.confirm sender])
  | .keyGenComplain gid accused => (gid, [.complain sender accused])
  | .keyGenComplaintResponse gid plaintiff _ => (gid, [.respond plaintiff sender])

/-! ### Every call that returns is a list of effects on its group -/

private theorem requireNonZero_ne {y : Secp256k1.Point} {u : PUnit}
    (h : Secp256k1.requireNonZero y = .ok u) : y ≠ Secp256k1.zero := by
  rintro rfl
  exact absurd (require_eq_ok.mp h) (by decide)

private theorem keyGen_ok {groups groups' : Groups} {participants context : B256}
    {count threshold : Nat} {events : List Event}
    (h : keyGen verifiers groups participants count threshold context = .ok (groups', events)) :
    let gid := FROSTGroupId.create verifiers.keccak256 participants count threshold context
    ∃ group', Applies verifiers (groups gid) (.start participants count threshold) group' ∧
      groups' = Function.update groups gid group' := by
  unfold keyGen at h
  obtain ⟨_, hparams, h⟩ := bind_eq_ok.mp h
  obtain ⟨map, hinit, h⟩ := bind_eq_ok.mp h
  unfold FROSTParticipantMap.init at hinit
  obtain ⟨_, hroot, hinit⟩ := bind_eq_ok.mp hinit
  obtain ⟨_, hfresh, hinit⟩ := bind_eq_ok.mp hinit
  rw [← pure_eq_ok.mp hinit] at h
  have heq := pure_eq_ok.mp h
  simp only [Prod.mk.injEq] at heq
  refine ⟨_, .start ?_ ?_ ?_, heq.1.symm⟩
  · simpa using require_eq_ok.mp hparams
  · simpa using require_eq_ok.mp hroot
  · simpa using require_eq_ok.mp hfresh

private theorem keyGenCommit_ok {groups groups' : Groups} {sender : Address} {gid : B256}
    {poap : List B256} {commitment : KeyGenCommitment} {events : List Event}
    (h : keyGenCommit verifiers groups sender gid poap commitment = .ok (groups', events)) :
    ∃ group', Applies verifiers (groups gid)
        (.commit sender poap (commitment.c.headD Secp256k1.zero)) group' ∧
      groups' = Function.update groups gid group' := by
  unfold keyGenCommit at h
  obtain ⟨_, hstatus, h⟩ := bind_eq_ok.mp h
  obtain ⟨pending, hpending, h⟩ := bind_eq_ok.mp h
  obtain ⟨_, -, h⟩ := bind_eq_ok.mp h
  obtain ⟨hpos, rfl⟩ := checkedSub_ok.mp hpending
  cases hc : commitment.c with
  | nil =>
      simp only [hc] at h
      exact (throw_eq_ok.mp h).elim
  | cons c₀ rest =>
      simp only [hc] at h
      obtain ⟨_, -, h⟩ := bind_eq_ok.mp h
      obtain ⟨_, -, h⟩ := bind_eq_ok.mp h
      obtain ⟨map, hregister, h⟩ := bind_eq_ok.mp h
      obtain ⟨key, hkey, h⟩ := bind_eq_ok.mp h
      unfold register at hregister
      obtain ⟨_, hnew, hregister⟩ := bind_eq_ok.mp hregister
      obtain ⟨_, hproof, hregister⟩ := bind_eq_ok.mp hregister
      rw [← pure_eq_ok.mp hregister] at h
      have heq := pure_eq_ok.mp h
      simp only [Prod.mk.injEq] at heq
      refine ⟨_, .commit (by simpa using require_eq_ok.mp hstatus) hpos
        (by simpa using require_eq_ok.mp hnew) (require_eq_ok.mp hproof)
        (mapError_eq_ok.mp hkey), ?_⟩
      rw [← heq.1]
      rfl

private theorem keyGenSecretShare_ok {groups groups' : Groups} {sender : Address} {gid : B256}
    {share : KeyGenSecretShare} {events : List Event}
    (h : keyGenSecretShare groups sender gid share = .ok (groups', events)) :
    ∃ group', Applies verifiers (groups gid) (.share sender share.y) group' ∧
      groups' = Function.update groups gid group' := by
  unfold keyGenSecretShare at h
  obtain ⟨_, hstatus, h⟩ := bind_eq_ok.mp h
  obtain ⟨pending, hpending, h⟩ := bind_eq_ok.mp h
  obtain ⟨_, -, h⟩ := bind_eq_ok.mp h
  obtain ⟨map, hset, h⟩ := bind_eq_ok.mp h
  obtain ⟨hpos, rfl⟩ := checkedSub_ok.mp hpending
  unfold FROSTParticipantMap.set at hset
  obtain ⟨_, hnonzero, hset⟩ := bind_eq_ok.mp hset
  obtain ⟨_, hregistered, hset⟩ := bind_eq_ok.mp hset
  obtain ⟨_, hunset, hset⟩ := bind_eq_ok.mp hset
  rw [← pure_eq_ok.mp hset] at h
  have heq := pure_eq_ok.mp h
  simp only [Prod.mk.injEq] at heq
  refine ⟨_, .share (by simpa using require_eq_ok.mp hstatus) hpos
    (requireNonZero_ne (mapError_eq_ok.mp hnonzero)) (by simpa using require_eq_ok.mp hregistered)
    (by simpa using require_eq_ok.mp hunset), ?_⟩
  rw [← heq.1]
  rfl

private theorem keyGenConfirm_ok {groups groups' : Groups} {sender : Address} {gid : B256}
    {events : List Event} (h : keyGenConfirm groups sender gid = .ok (groups', events)) :
    ∃ group', Applies verifiers (groups gid) (.confirm sender) group' ∧
      groups' = Function.update groups gid group' := by
  unfold keyGenConfirm at h
  obtain ⟨_, hstatus, h⟩ := bind_eq_ok.mp h
  obtain ⟨map, hconfirm, h⟩ := bind_eq_ok.mp h
  obtain ⟨pending, hpending, h⟩ := bind_eq_ok.mp h
  obtain ⟨hpos, rfl⟩ := checkedSub_ok.mp hpending
  unfold FROSTParticipantMap.confirm at hconfirm
  obtain ⟨_, hregistered, hconfirm⟩ := bind_eq_ok.mp hconfirm
  obtain ⟨_, hclear, hconfirm⟩ := bind_eq_ok.mp hconfirm
  rw [← pure_eq_ok.mp hconfirm] at h
  have heq := pure_eq_ok.mp h
  simp only [Prod.mk.injEq] at heq
  refine ⟨_, .confirm (by simpa using require_eq_ok.mp hstatus) hpos
    (by simpa using require_eq_ok.mp hregistered) (by simpa using require_eq_ok.mp hclear), ?_⟩
  rw [← heq.1]
  unfold countDown
  dsimp only
  by_cases hzero : (groups gid).state.pending - 1 = 0
  · rw [if_pos hzero, if_pos hzero, hzero]
  · rw [if_neg hzero, if_neg hzero]

private theorem keyGenComplain_ok {groups groups' : Groups} {sender accused : Address} {gid : B256}
    {events : List Event} (h : keyGenComplain groups sender gid accused = .ok (groups', events)) :
    ∃ group', Applies verifiers (groups gid) (.complain sender accused) group' ∧
      groups' = Function.update groups gid group' := by
  unfold keyGenComplain at h
  obtain ⟨_, hstatus, h⟩ := bind_eq_ok.mp h
  obtain ⟨⟨map, total⟩, hcomplain, h⟩ := bind_eq_ok.mp h
  unfold FROSTParticipantMap.complain at hcomplain
  obtain ⟨_, hne, hcomplain⟩ := bind_eq_ok.mp hcomplain
  obtain ⟨_, hnone, hcomplain⟩ := bind_eq_ok.mp hcomplain
  obtain ⟨_, hregistered, hcomplain⟩ := bind_eq_ok.mp hcomplain
  obtain ⟨_, haccused, hcomplain⟩ := bind_eq_ok.mp hcomplain
  obtain ⟨filed, hfiled, hcomplain⟩ := bind_eq_ok.mp hcomplain
  obtain ⟨total', htotal, hcomplain⟩ := bind_eq_ok.mp hcomplain
  obtain ⟨-, rfl⟩ := checkedAdd_ok.mp hfiled
  obtain ⟨-, rfl⟩ := checkedAdd_ok.mp htotal
  have hmap := pure_eq_ok.mp hcomplain
  simp only [Prod.mk.injEq] at hmap
  obtain ⟨rfl, rfl⟩ := hmap
  have heq := pure_eq_ok.mp h
  simp only [Prod.mk.injEq] at heq
  refine ⟨_, .complain (by simpa using require_eq_ok.mp hstatus)
    (by simpa using require_eq_ok.mp hne) (by simpa using require_eq_ok.mp hnone)
    (by simpa using require_eq_ok.mp hregistered) (by simpa using require_eq_ok.mp haccused), ?_⟩
  rw [← heq.1]
  rfl

private theorem keyGenComplaintResponse_ok {groups groups' : Groups} {sender plaintiff : Address}
    {gid secretShare : B256} {events : List Event}
    (h : keyGenComplaintResponse groups sender gid plaintiff secretShare = .ok (groups', events)) :
    ∃ group', Applies verifiers (groups gid) (.respond plaintiff sender) group' ∧
      groups' = Function.update groups gid group' := by
  unfold keyGenComplaintResponse at h
  obtain ⟨_, hstatus, h⟩ := bind_eq_ok.mp h
  obtain ⟨map, hrespond, h⟩ := bind_eq_ok.mp h
  unfold FROSTParticipantMap.respond at hrespond
  obtain ⟨_, hsubmitted, hrespond⟩ := bind_eq_ok.mp hrespond
  obtain ⟨left, hleft, hrespond⟩ := bind_eq_ok.mp hrespond
  obtain ⟨-, rfl⟩ := checkedSub_ok.mp hleft
  rw [← pure_eq_ok.mp hrespond] at h
  have heq := pure_eq_ok.mp h
  simp only [Prod.mk.injEq] at heq
  refine ⟨_, .respond (by simpa using require_eq_ok.mp hstatus)
    (by simpa using require_eq_ok.mp hsubmitted), ?_⟩
  rw [← heq.1]
  rfl

/-- **A call that returns applies its effects to its group, and to no other.** -/
theorem call_ok {groups groups' : Groups} {sender : Address} {c : Call} {events : List Event}
    (h : call verifiers groups sender c = .ok (groups', events)) :
    ∃ group', AppliesAll verifiers (groups (effects verifiers groups sender c).1)
        (effects verifiers groups sender c).2 group' ∧
      groups' = Function.update groups (effects verifiers groups sender c).1 group' := by
  have single : ∀ {gid : B256} {effect : Effect},
      (∃ group', Applies verifiers (groups gid) effect group' ∧
        groups' = Function.update groups gid group') →
      ∃ group', AppliesAll verifiers (groups gid) [effect] group' ∧
        groups' = Function.update groups gid group' := by
    rintro gid effect ⟨group', happlies, hgroups⟩
    exact ⟨group', .cons happlies .nil, hgroups⟩
  cases c with
  | keyGen participants count threshold context => exact single (keyGen_ok h)
  | keyGenCommit gid poap commitment => exact single (keyGenCommit_ok h)
  | keyGenSecretShare gid share => exact single (keyGenSecretShare_ok h)
  | keyGenConfirm gid => exact single (keyGenConfirm_ok h)
  | keyGenComplain gid accused => exact single (keyGenComplain_ok h)
  | keyGenComplaintResponse gid plaintiff secretShare => exact single (keyGenComplaintResponse_ok h)
  | keyGenAndCommit participants count threshold context poap commitment =>
      simp only [call, keyGenAndCommit] at h
      simp only [effects]
      split at h
      · rename_i hinit
        rw [if_pos hinit]
        exact single (keyGenCommit_ok h)
      · rename_i hinit
        rw [if_neg hinit]
        obtain ⟨⟨groups₁, started⟩, hstart, h⟩ := bind_eq_ok.mp h
        obtain ⟨⟨groups₂, committed⟩, hcommit, h⟩ := bind_eq_ok.mp h
        have heq := pure_eq_ok.mp h
        simp only [Prod.mk.injEq] at heq
        obtain ⟨rfl, -⟩ := heq
        obtain ⟨group₁, happlies₁, rfl⟩ := keyGen_ok hstart
        obtain ⟨group₂, happlies₂, rfl⟩ := keyGenCommit_ok hcommit
        simp only [Function.update_self] at happlies₂
        exact ⟨group₂, .cons happlies₁ (.cons happlies₂ .nil), Function.update_idem _ _ _⟩

/-! ### The history of a group -/

/-- What happened in the key generation of a group, in order. -/
structure Record where
  /-- Who registered, with which Merkle proof and which `c[0]`. -/
  commits : List (Address × List B256 × Secp256k1.Point)
  /-- Who published which verification share. -/
  shares : List (Address × Secp256k1.Point)
  /-- The complaints ever filed, as plaintiff and accused. -/
  filed : List (Address × Address)

/-- Nothing happened yet. -/
def Record.empty : Record := ⟨[], [], []⟩

/-- Who registered. -/
def Record.participants (record : Record) : List Address := record.commits.map Prod.fst

def Record.append (record : Record) : Effect → Record
  | .commit p poap c₀ => { record with commits := record.commits ++ [(p, poap, c₀)] }
  | .share p y => { record with shares := record.shares ++ [(p, y)] }
  | .complain p a => { record with filed := record.filed ++ [(p, a)] }
  | _ => record

/-- A step of the coordinator in a run. -/
abbrev CoordinatorStep := Trace.Step Groups (Address × Call) (Except Error (List Event))

/-- The step of a run, seen from one group: only calls that returned count. -/
def Record.observe (verifiers : Verifiers) (gid : B256) (record : Record) (st : CoordinatorStep) :
    Record :=
  match st.out with
  | .error _ => record
  | .ok _ =>
      if (effects verifiers st.pre st.input.1 st.input.2).1 = gid then
        (effects verifiers st.pre st.input.1 st.input.2).2.foldl Record.append record
      else record

/-- The history of a group in a run. -/
def recordOf (verifiers : Verifiers) (gid : B256) (steps : List CoordinatorStep) : Record :=
  steps.foldl (Record.observe verifiers gid) Record.empty

/-- The sum of points, added one after the other as the contract does. -/
def sumPoints (points : List Secp256k1.Point) : Except Secp256k1.Error Secp256k1.Point :=
  points.foldlM Secp256k1.add Secp256k1.zero

theorem sumPoints_concat {points : List Secp256k1.Point} {p key key' : Secp256k1.Point}
    (h : sumPoints points = .ok key) (hadd : Secp256k1.add key p = .ok key') :
    sumPoints (points ++ [p]) = .ok key' := by
  unfold sumPoints at h ⊢
  rw [List.foldlM_append]
  refine bind_eq_ok.mpr ⟨key, h, ?_⟩
  rw [List.foldlM_cons]
  exact bind_eq_ok.mpr ⟨key', hadd, rfl⟩

/-! ### The invariant -/

/-- The participants that confirmed. -/
def confirmedSet (group : Group) : Set Address :=
  { p | (group.participants.states p).status = .confirmed }

/-- What the countdown means in each phase. -/
def PhaseOK (record : Record) (confirmed : Set Address) (status : GroupStatus) (n pending : Nat) :
    Prop :=
  match status with
  | .uninitialized => record = Record.empty ∧ n = 0 ∧ pending = 0 ∧ confirmed = ∅
  | .committing =>
      pending + record.commits.length = n ∧ 0 < pending ∧ record.shares = [] ∧ record.filed = [] ∧
        confirmed = ∅
  | .sharing =>
      record.commits.length = n ∧ pending + record.shares.length = n ∧ 0 < pending ∧ confirmed = ∅
  | .confirming =>
      record.commits.length = n ∧ record.shares.length = n ∧ pending + confirmed.ncard = n ∧
        0 < pending
  | .finalized =>
      record.commits.length = n ∧ record.shares.length = n ∧ confirmed.ncard = n ∧ pending = 0
  | .compromised =>
      record.commits.length = n ∧
        (pending + record.shares.length = n ∧ confirmed = ∅ ∨
          record.shares.length = n ∧ pending + confirmed.ncard = n)

/-- The stored group agrees with its history. -/
structure Sound (verifiers : Verifiers) (record : Record) (group : Group) : Prop where
  /-- A group is initialised exactly if it has a root. -/
  root : group.participants.root = 0 ↔ group.state.status = .uninitialized
  params : group.state.status ≠ .uninitialized →
    1 < group.state.threshold ∧ group.state.threshold ≤ group.state.count
  /-- Everyone registered once. -/
  distinct : record.participants.Nodup
  registered : ∀ p, (group.participants.states p).status ≠ .none ↔ p ∈ record.participants
  proofs : ∀ entry ∈ record.commits,
    verifiers.merkleProof entry.2.1 group.participants.root (toWord entry.1) = true
  key : sumPoints (record.commits.map fun entry => entry.2.2) = .ok group.key
  /-- Everyone set one share at most, and it is the one that is stored. -/
  sharesDistinct : (record.shares.map Prod.fst).Nodup
  shares : ∀ p y, (p, y) ∈ record.shares ↔ group.participants.keys p = y ∧ y ≠ Secp256k1.zero
  sharesRegistered : ∀ entry ∈ record.shares, entry.1 ∈ record.participants
  /-- The counter of a plaintiff counts its submitted complaints. -/
  complaints : ∀ p, (group.participants.states p).complaints =
    ({a | group.participants.complaints p a = .submitted} : Set Address).ncard
  /-- The counter of an accused counts the complaints ever filed against it. -/
  accusations : ∀ a, (group.participants.states a).accusations =
    (record.filed.filter fun entry => entry.2 = a).length
  filed : ∀ p a, group.participants.complaints p a ≠ .none ↔ (p, a) ∈ record.filed
  filedRegistered : ∀ entry ∈ record.filed, entry.1 ∈ record.participants
  /-- A confirmed participant has no open complaint. -/
  clear : ∀ p ∈ confirmedSet group, (group.participants.states p).complaints = 0
  below : group.state.status ≠ .uninitialized → group.state.status ≠ .compromised →
    ∀ a, (group.participants.states a).accusations < group.state.threshold
  phase : PhaseOK record (confirmedSet group) group.state.status group.state.count
    group.state.pending

theorem sound_empty : Sound verifiers Record.empty emptyGroup := by
  have hnone : ({a | (ComplaintStatus.none : ComplaintStatus) = .submitted} : Set Address) = ∅ := by
    simp
  refine ⟨?_, ?_, ?_, ?_, ?_, ?_, ?_, ?_, ?_, ?_, ?_, ?_, ?_, ?_, ?_, ?_⟩
  · exact ⟨fun _ => rfl, fun _ => rfl⟩
  · exact fun h => absurd rfl h
  · exact List.nodup_nil
  · intro p
    exact ⟨fun h => absurd rfl h, fun h => nomatch h⟩
  · exact fun _ h => nomatch h
  · rfl
  · exact List.nodup_nil
  · intro p y
    exact ⟨fun h => absurd h List.not_mem_nil, fun h => absurd h.1.symm h.2⟩
  · exact fun _ h => nomatch h
  · intro p
    show 0 = ({a | (ComplaintStatus.none : ComplaintStatus) = .submitted} : Set Address).ncard
    rw [hnone, Set.ncard_empty]
  · exact fun _ => rfl
  · intro p a
    exact ⟨fun h => absurd rfl h, fun h => nomatch h⟩
  · exact fun _ h => nomatch h
  · exact fun _ _ => rfl
  · exact fun h => absurd rfl h
  · refine ⟨rfl, rfl, rfl, ?_⟩
    ext p
    exact ⟨fun h => absurd h (by rintro ⟨⟩), fun h => absurd h (Set.notMem_empty p)⟩

/-! ### One effect at a time -/

section Effects

variable {record : Record} {group group' : Group}

/-- Writing a status changes no counter. -/
private theorem update_status_counters (states : Address → ParticipantState) (p q : Address)
    (status : ParticipantStatus) :
    (Function.update states p { states p with status } q).complaints = (states q).complaints ∧
      (Function.update states p { states p with status } q).accusations = (states q).accusations := by
  by_cases hq : q = p
  · subst hq
    simp
  · simp [hq]

private theorem update_status (states : Address → ParticipantState) (p q : Address)
    (status : ParticipantStatus) :
    (Function.update states p { states p with status } q).status =
      if q = p then status else (states q).status := by
  by_cases hq : q = p
  · subst hq
    simp
  · simp [hq]

theorem Sound.start (h : Sound verifiers record group) {root : B256} {count threshold : Nat}
    (ha : Applies verifiers group (.start root count threshold) group') :
    Sound verifiers (record.append (.start root count threshold)) group' := by
  cases ha with
  | start hparams hroot hfresh =>
      have hphase := h.phase
      rw [h.root.mp hfresh] at hphase
      obtain ⟨rfl, -, -, hconfirmed⟩ := hphase
      exact { h with
        root := ⟨fun hz => absurd hz hroot, fun hs => nomatch hs⟩
        params := fun _ => hparams.symm
        proofs := fun _ he => nomatch he
        below := by
          intro _ _ a
          show (group.participants.states a).accusations < threshold
          rw [h.accusations a]
          show 0 < threshold
          omega
        phase := ⟨rfl, by show 0 < count; omega, rfl, rfl, hconfirmed⟩ }

theorem Sound.commit (h : Sound verifiers record group) {p : Address} {poap : List B256}
    {c₀ : Secp256k1.Point} (ha : Applies verifiers group (.commit p poap c₀) group') :
    Sound verifiers (record.append (.commit p poap c₀)) group' := by
  cases ha with
  | @commit _ _ _ key hstatus hpending hnew hproof hkey =>
      have hphase := h.phase
      rw [hstatus] at hphase
      obtain ⟨hcount, hpos, hshares, hfiled, hconfirmed⟩ := hphase
      have hstart : group.state.status ≠ .uninitialized := by rw [hstatus]; decide
      have hparams := h.params hstart
      have hnotin : p ∉ record.participants := fun hp => (h.registered p).mpr hp hnew
      have hparts : (record.append (.commit p poap c₀)).participants = record.participants ++ [p] := by
        simp [Record.append, Record.participants]
      have hconfirmed' : ({q | (Function.update group.participants.states p
          { group.participants.states p with status := .registered } q).status = .confirmed} :
            Set Address) = ∅ := by
        rw [← hconfirmed]
        ext q
        simp only [Set.mem_ofPred_eq, update_status, confirmedSet]
        by_cases hq : q = p
        · subst hq
          simp [hnew]
        · simp [hq]
      have hstatus' : (countDown group.state .sharing group.state.count).status ≠ .uninitialized := by
        unfold countDown
        split
        · simp
        · exact hstart
      have hparams' : (countDown group.state .sharing group.state.count).threshold =
          group.state.threshold ∧
          (countDown group.state .sharing group.state.count).count = group.state.count := by
        unfold countDown
        split
        · exact ⟨rfl, rfl⟩
        · exact ⟨rfl, rfl⟩
      refine { h with
        root := ⟨fun hz => absurd (h.root.mp hz) hstart, fun hs => absurd hs hstatus'⟩
        params := ?_, distinct := ?_, registered := ?_, proofs := ?_, key := ?_
        sharesRegistered := ?_, complaints := ?_, accusations := ?_, filedRegistered := ?_
        clear := ?_, below := ?_, phase := ?_ }
      · intro _
        rw [hparams'.1, hparams'.2]
        exact hparams
      · rw [hparts, List.nodup_append]
        refine ⟨h.distinct, List.nodup_singleton p, ?_⟩
        intro a ha b hb hab
        rw [List.mem_singleton.mp hb] at hab
        exact hnotin (hab ▸ ha)
      · intro q
        rw [hparts, List.mem_append, List.mem_singleton, ← h.registered q]
        rw [update_status]
        by_cases hq : q = p
        · simp [hq]
        · simp [hq]
      · intro entry he
        rcases List.mem_append.mp he with he | he
        · exact h.proofs entry he
        · rw [List.mem_singleton.mp he]
          exact hproof
      · simp only [Record.append, List.map_append, List.map_cons, List.map_nil]
        exact sumPoints_concat h.key hkey
      · intro entry he
        rw [hparts]
        exact List.mem_append_left _ (h.sharesRegistered entry he)
      · intro q
        exact (update_status_counters _ p q _).1.trans (h.complaints q)
      · intro q
        exact (update_status_counters _ p q _).2.trans (h.accusations q)
      · intro entry he
        rw [hparts]
        exact List.mem_append_left _ (h.filedRegistered entry he)
      · intro q hq
        have : q ∈ (∅ : Set Address) := hconfirmed' ▸ hq
        exact absurd this (Set.notMem_empty q)
      · intro _ _ a
        rw [hparams'.1, (update_status_counters _ p a _).2]
        exact h.below hstart (by rw [hstatus]; decide) a
      · have hlen : (record.append (.commit p poap c₀)).commits.length =
            record.commits.length + 1 := by
          simp [Record.append]
        unfold PhaseOK countDown
        by_cases hz : group.state.pending - 1 = 0
        · simp only [hz, if_true]
          refine ⟨by omega, ?_, by omega, hconfirmed'⟩
          show group.state.count + record.shares.length = group.state.count
          rw [hshares]
          rfl
        · simp only [hz, if_false, hstatus]
          exact ⟨by omega, by omega, hshares, hfiled, hconfirmed'⟩

/-- A countdown keeps the parameters and goes to the next phase or stays. -/
private theorem countDown_params (state : GroupState) (next : GroupStatus) (reset : Nat) :
    (countDown state next reset).threshold = state.threshold ∧
      (countDown state next reset).count = state.count ∧
      ((countDown state next reset).status = next ∨
        (countDown state next reset).status = state.status) := by
  unfold countDown
  split
  · exact ⟨rfl, rfl, Or.inl rfl⟩
  · exact ⟨rfl, rfl, Or.inr rfl⟩

theorem Sound.share (h : Sound verifiers record group) {p : Address} {y : Secp256k1.Point}
    (ha : Applies verifiers group (.share p y) group') :
    Sound verifiers (record.append (.share p y)) group' := by
  cases ha with
  | share hstatus hpending hy hregistered hunset =>
      have hphase := h.phase
      rw [hstatus] at hphase
      obtain ⟨hcount, hleft, hpos, hconfirmed⟩ := hphase
      obtain ⟨hthreshold, hcount', hstatus'⟩ :=
        countDown_params group.state .confirming group.state.count
      have hstart : group.state.status ≠ .uninitialized := by rw [hstatus]; decide
      have hstart' : (countDown group.state .confirming group.state.count).status ≠
          .uninitialized := by
        rcases hstatus' with hs | hs
        · rw [hs]; decide
        · rw [hs]; exact hstart
      have hparams := h.params hstart
      have hin : p ∈ record.participants := by
        rw [← h.registered p, hregistered]
        decide
      have hnotin : p ∉ record.shares.map Prod.fst := by
        intro hp
        obtain ⟨⟨q, z⟩, he, rfl⟩ := List.mem_map.mp hp
        obtain ⟨hz, hne⟩ := (h.shares q z).mp he
        exact hne (hz.symm.trans hunset)
      refine { h with
        root := ⟨fun hz => absurd (h.root.mp hz) hstart, fun hs => absurd hs hstart'⟩
        params := ?_, sharesDistinct := ?_, shares := ?_, sharesRegistered := ?_
        below := ?_, phase := ?_ }
      · intro _
        rw [hthreshold, hcount']
        exact hparams
      · simp only [Record.append, List.map_append, List.map_cons, List.map_nil]
        rw [List.nodup_append]
        refine ⟨h.sharesDistinct, List.nodup_singleton p, ?_⟩
        intro a ha b hb hab
        rw [List.mem_singleton.mp hb] at hab
        exact hnotin (hab ▸ ha)
      · intro q z
        simp only [Record.append, List.mem_append, List.mem_singleton, Prod.mk.injEq, h.shares q z]
        by_cases hq : q = p
        · subst hq
          rw [Function.update_self, hunset]
          refine ⟨?_, fun hz => Or.inr ⟨rfl, hz.1.symm⟩⟩
          rintro (⟨rfl, hne⟩ | ⟨-, rfl⟩)
          · exact absurd rfl hne
          · exact ⟨rfl, hy⟩
        · rw [Function.update_of_ne hq]
          exact ⟨fun hz => hz.resolve_right fun hz' => hq hz'.1, Or.inl⟩
      · intro entry he
        rcases List.mem_append.mp he with he | he
        · exact h.sharesRegistered entry he
        · rw [List.mem_singleton.mp he]
          exact hin
      · intro _ _ a
        rw [hthreshold]
        exact h.below hstart (by rw [hstatus]; decide) a
      · have hlen : (record.append (.share p y)).shares.length = record.shares.length + 1 := by
          simp [Record.append]
        unfold PhaseOK countDown
        by_cases hz : group.state.pending - 1 = 0
        · simp only [hz, if_true]
          refine ⟨hcount, by omega, ?_, by omega⟩
          show group.state.count + (confirmedSet group).ncard = group.state.count
          rw [hconfirmed, Set.ncard_empty]
          rfl
        · simp only [hz, if_false, hstatus]
          exact ⟨hcount, by omega, by omega, hconfirmed⟩

theorem Sound.confirm (h : Sound verifiers record group) {p : Address}
    (ha : Applies verifiers group (.confirm p) group') :
    Sound verifiers (record.append (.confirm p)) group' := by
  cases ha with
  | confirm hstatus hpending hregistered hclear =>
      have hphase := h.phase
      rw [hstatus] at hphase
      obtain ⟨hcount, hshares, hleft, hpos⟩ := hphase
      obtain ⟨hthreshold, hcount', hstatus'⟩ := countDown_params group.state .finalized 0
      have hstart : group.state.status ≠ .uninitialized := by rw [hstatus]; decide
      have hstart' : (countDown group.state .finalized 0).status ≠ .uninitialized := by
        rcases hstatus' with hs | hs
        · rw [hs]; decide
        · rw [hs]; exact hstart
      -- one more confirmed participant
      have hset : ({q | (Function.update group.participants.states p
          { group.participants.states p with status := .confirmed } q).status = .confirmed} :
            Set Address) = insert p (confirmedSet group) := by
        ext q
        simp only [Set.mem_ofPred_eq, update_status, confirmedSet, Set.mem_insert_iff]
        by_cases hq : q = p
        · simp [hq]
        · simp [hq]
      have hnotin : p ∉ confirmedSet group := by
        intro hp
        rw [confirmedSet, Set.mem_ofPred_eq, hregistered] at hp
        cases hp
      have hcard : (insert p (confirmedSet group)).ncard = (confirmedSet group).ncard + 1 :=
        Set.ncard_insert_of_notMem hnotin
      refine { h with
        root := ⟨fun hz => absurd (h.root.mp hz) hstart, fun hs => absurd hs hstart'⟩
        params := ?_, registered := ?_, complaints := ?_, accusations := ?_, clear := ?_
        below := ?_, phase := ?_ }
      · intro _
        rw [hthreshold, hcount']
        exact h.params hstart
      · intro q
        rw [update_status]
        by_cases hq : q = p
        · subst hq
          have hin := (h.registered q).mp (by rw [hregistered]; decide)
          simp only [if_true]
          exact ⟨fun _ => hin, fun _ => by decide⟩
        · simp only [hq, if_false]
          exact h.registered q
      · intro q
        exact (update_status_counters _ p q _).1.trans (h.complaints q)
      · intro q
        exact (update_status_counters _ p q _).2.trans (h.accusations q)
      · intro q hq
        have hq : q ∈ insert p (confirmedSet group) := hset ▸ hq
        rw [(update_status_counters _ p q _).1]
        rcases Set.mem_insert_iff.mp hq with rfl | hq
        · exact hclear
        · exact h.clear q hq
      · intro _ _ a
        rw [hthreshold, (update_status_counters _ p a _).2]
        exact h.below hstart (by rw [hstatus]; decide) a
      · unfold PhaseOK countDown confirmedSet
        by_cases hz : group.state.pending - 1 = 0
        · simp only [hz, if_true, hset]
          exact ⟨hcount, hshares, by omega, trivial⟩
        · simp only [hz, if_false, hstatus, hset]
          exact ⟨hcount, hshares, by omega, by omega⟩

/-- A complaint keeps the parameters; the group goes on or is compromised. -/
private theorem accuse_params (state : GroupState) (total : Nat) :
    (accuse state total).threshold = state.threshold ∧ (accuse state total).count = state.count ∧
      (accuse state total).pending = state.pending ∧
      ((accuse state total).status = .compromised ∨
        (accuse state total).status = state.status ∧ total < state.threshold) := by
  unfold accuse
  split
  · exact ⟨rfl, rfl, rfl, Or.inl rfl⟩
  · exact ⟨rfl, rfl, rfl, Or.inr ⟨rfl, by omega⟩⟩

/-- The complaint matrix after one entry is written. -/
private theorem update_complaint (complaints : Address → Address → ComplaintStatus)
    (p a q b : Address) (status : ComplaintStatus) :
    Function.update complaints p (Function.update (complaints p) a status) q b =
      if q = p ∧ b = a then status else complaints q b := by
  by_cases hq : q = p
  · subst hq
    by_cases hb : b = a
    · subst hb
      simp
    · simp [hb]
  · simp [hq]

/-- The participants after a complaint: one more complaint, one more accusation. -/
private theorem withComplaint_states (self : T) {p a : Address} (hne : p ≠ a) (q : Address) :
    ((withComplaint self p a).states q).status = (self.states q).status ∧
    ((withComplaint self p a).states q).complaints =
      (self.states q).complaints + (if q = p then 1 else 0) ∧
    ((withComplaint self p a).states q).accusations =
      (self.states q).accusations + (if q = a then 1 else 0) := by
  unfold withComplaint
  by_cases ha : q = a
  · subst ha
    have hp : ¬ q = p := fun h => hne h.symm
    simp [hp]
  · by_cases hp : q = p
    · subst hp
      simp [ha]
    · simp [ha, hp]

theorem Sound.complain (h : Sound verifiers record group) {p a : Address}
    (ha : Applies verifiers group (.complain p a) group') :
    Sound verifiers (record.append (.complain p a)) group' := by
  cases ha with
  | complain hstatus hne hnone hregistered haccused =>
      have hstates := withComplaint_states group.participants hne
      have hmatrix : ∀ q b, (withComplaint group.participants p a).complaints q b =
          if q = p ∧ b = a then .submitted else group.participants.complaints q b :=
        fun q b => update_complaint _ p a q b _
      have hconfirmed : ({q | ((withComplaint group.participants p a).states q).status =
          .confirmed} : Set Address) = confirmedSet group := by
        ext q
        rw [Set.mem_ofPred_eq, (hstates q).1]
        rfl
      have hstart : group.state.status ≠ .uninitialized := by
        rcases hstatus with hs | hs <;> rw [hs] <;> decide
      have hnotcomp : group.state.status ≠ .compromised := by
        rcases hstatus with hs | hs <;> rw [hs] <;> decide
      have hin : p ∈ record.participants := by
        rw [← h.registered p, hregistered]
        decide
      obtain ⟨hthreshold, hcount, hpending, hstatus'⟩ :=
        accuse_params group.state ((group.participants.states a).accusations + 1)
      have hstart' : (accuse group.state
          ((group.participants.states a).accusations + 1)).status ≠ .uninitialized := by
        rcases hstatus' with hs | ⟨hs, -⟩
        · rw [hs]; decide
        · rw [hs]; exact hstart
      refine { h with
        root := ⟨fun hz => absurd (h.root.mp hz) hstart, fun hs => absurd hs hstart'⟩
        params := ?_, registered := ?_, complaints := ?_, accusations := ?_, filed := ?_
        filedRegistered := ?_, clear := ?_, below := ?_, phase := ?_ }
      · intro _
        rw [hthreshold, hcount]
        exact h.params hstart
      · intro q
        rw [(hstates q).1]
        exact h.registered q
      · intro q
        rw [(hstates q).2.1, h.complaints q]
        by_cases hq : q = p
        · subst hq
          have hset : ({b | (withComplaint group.participants q a).complaints q b = .submitted} :
              Set Address) = insert a {b | group.participants.complaints q b = .submitted} := by
            ext b
            simp only [Set.mem_ofPred_eq, hmatrix, Set.mem_insert_iff, true_and]
            by_cases hb : b = a
            · simp [hb]
            · simp [hb]
          rw [hset, Set.ncard_insert_of_notMem (by simp [hnone]), if_pos rfl]
        · simp only [hmatrix, hq, false_and, if_false, Nat.add_zero]
      · intro b
        rw [(hstates b).2.2, h.accusations b]
        by_cases hb : b = a
        · subst hb
          simp [Record.append, List.filter_append]
        · have hb' : ¬ a = b := fun heq => hb heq.symm
          simp [Record.append, List.filter_append, hb, hb']
      · intro q b
        rw [hmatrix]
        simp only [Record.append, List.mem_append, List.mem_singleton, Prod.mk.injEq, ← h.filed q b]
        by_cases hqb : q = p ∧ b = a
        · simp [hqb]
        · simp [hqb]
      · intro entry he
        rcases List.mem_append.mp he with he | he
        · exact h.filedRegistered entry he
        · rw [List.mem_singleton.mp he]
          exact hin
      · intro q hq
        have hold : q ∈ confirmedSet group := hconfirmed ▸ hq
        have hqp : ¬ q = p := by
          rintro rfl
          rw [confirmedSet, Set.mem_ofPred_eq, hregistered] at hold
          cases hold
        rw [(hstates q).2.1, if_neg hqp]
        exact h.clear q hold
      · intro _ hnc b
        rw [hthreshold, (hstates b).2.2]
        rcases hstatus' with hs | ⟨-, hlt⟩
        · exact absurd hs hnc
        · have hb := h.below hstart hnotcomp b
          split
          · rename_i heq
            rw [heq]
            exact hlt
          · exact hb
      · show PhaseOK _ {q | ((withComplaint group.participants p a).states q).status = .confirmed}
          (accuse group.state _).status (accuse group.state _).count (accuse group.state _).pending
        rw [hconfirmed, hcount, hpending]
        have hphase := h.phase
        rcases hstatus' with hs | ⟨hs, -⟩
        · rw [hs]
          rcases hstatus with hold | hold
          · rw [hold] at hphase
            exact ⟨hphase.1, Or.inl ⟨hphase.2.1, hphase.2.2.2⟩⟩
          · rw [hold] at hphase
            exact ⟨hphase.1, Or.inr ⟨hphase.2.1, hphase.2.2.1⟩⟩
        · rw [hs]
          rcases hstatus with hold | hold
          · rw [hold] at hphase ⊢
            exact hphase
          · rw [hold] at hphase ⊢
            exact hphase

/-- The participants after a response: one open complaint less. -/
private theorem withResponse_states (self : T) (p a q : Address) :
    ((withResponse self p a).states q).status = (self.states q).status ∧
    ((withResponse self p a).states q).complaints =
      (self.states q).complaints - (if q = p then 1 else 0) ∧
    ((withResponse self p a).states q).accusations = (self.states q).accusations := by
  unfold withResponse
  by_cases hp : q = p
  · subst hp
    simp
  · simp [hp]

theorem Sound.respond (h : Sound verifiers record group) {p a : Address}
    (ha : Applies verifiers group (.respond p a) group') :
    Sound verifiers (record.append (.respond p a)) group' := by
  cases ha with
  | respond hstatus hsubmitted =>
      have hstates := withResponse_states group.participants p a
      have hmatrix : ∀ q b, (withResponse group.participants p a).complaints q b =
          if q = p ∧ b = a then .responded else group.participants.complaints q b :=
        fun q b => update_complaint _ p a q b _
      have hconfirmed : ({q | ((withResponse group.participants p a).states q).status =
          .confirmed} : Set Address) = confirmedSet group := by
        ext q
        rw [Set.mem_ofPred_eq, (hstates q).1]
        rfl
      refine { h with
        registered := ?_, complaints := ?_, accusations := ?_, filed := ?_, clear := ?_
        below := ?_, phase := ?_ }
      · intro q
        rw [(hstates q).1]
        exact h.registered q
      · intro q
        rw [(hstates q).2.1, h.complaints q]
        by_cases hq : q = p
        · subst hq
          -- the submitted complaints lose exactly this one
          have hset : ({b | group.participants.complaints q b = .submitted} : Set Address) =
              insert a {b | (withResponse group.participants q a).complaints q b = .submitted} := by
            ext b
            simp only [Set.mem_ofPred_eq, hmatrix, Set.mem_insert_iff, true_and]
            by_cases hb : b = a
            · subst hb
              simp [hsubmitted]
            · simp [hb]
          rw [hset, Set.ncard_insert_of_notMem (by simp [hmatrix]), if_pos rfl, Nat.add_sub_cancel]
        · simp only [hmatrix, hq, false_and, if_false, Nat.sub_zero]
      · intro b
        rw [(hstates b).2.2]
        exact h.accusations b
      · intro q b
        rw [hmatrix]
        by_cases hqb : q = p ∧ b = a
        · obtain ⟨rfl, rfl⟩ := hqb
          rw [if_pos ⟨rfl, rfl⟩]
          exact ⟨fun _ => (h.filed q b).mp (by rw [hsubmitted]; decide), fun _ => by decide⟩
        · rw [if_neg hqb]
          exact h.filed q b
      · intro q hq
        have hold : q ∈ confirmedSet group := hconfirmed ▸ hq
        rw [(hstates q).2.1, h.clear q hold, Nat.zero_sub]
      · intro hs hc b
        rw [(hstates b).2.2]
        exact h.below hs hc b
      · show PhaseOK record {q | ((withResponse group.participants p a).states q).status =
          .confirmed} _ _ _
        rw [hconfirmed]
        exact h.phase

/-- **Every effect keeps the group in agreement with its history.** -/
theorem Sound.apply (h : Sound verifiers record group) {effect : Effect}
    (ha : Applies verifiers group effect group') :
    Sound verifiers (record.append effect) group' := by
  cases effect with
  | start root count threshold => exact h.start ha
  | commit p poap c₀ => exact h.commit ha
  | share p y => exact h.share ha
  | confirm p => exact h.confirm ha
  | complain p a => exact h.complain ha
  | respond p a => exact h.respond ha

theorem Sound.applyAll {effects : List Effect} (ha : AppliesAll verifiers group effects group') :
    ∀ {record : Record}, Sound verifiers record group →
      Sound verifiers (effects.foldl Record.append record) group' := by
  induction ha with
  | nil => intro record h; exact h
  | cons head tail ih => intro record h; exact ih (h.apply head)

end Effects

/-! ### The life of a group -/

/-- The edges of the life cycle. -/
inductive Move : GroupStatus → GroupStatus → Prop
  | start : Move .uninitialized .committing
  | committed : Move .committing .sharing
  | shared : Move .sharing .confirming
  | confirmed : Move .confirming .finalized
  | compromisedSharing : Move .sharing .compromised
  | compromisedConfirming : Move .confirming .compromised

/-- The statuses follow the edges. -/
abbrev Moves := Relation.ReflTransGen Move

private theorem moves_countDown {state : GroupState} {next : GroupStatus} {reset : Nat}
    (h : Move state.status next) : Moves state.status (countDown state next reset).status := by
  rcases (countDown_params state next reset).2.2 with hs | hs
  · rw [hs]
    exact .single h
  · rw [hs]

theorem moves_applies {record : Record} {group group' : Group} {effect : Effect}
    (h : Sound verifiers record group) (ha : Applies verifiers group effect group') :
    Moves group.state.status group'.state.status := by
  cases ha with
  | start hparams hroot hfresh =>
      rw [h.root.mp hfresh]
      exact .single .start
  | commit hstatus => exact moves_countDown (hstatus ▸ .committed)
  | share hstatus => exact moves_countDown (hstatus ▸ .shared)
  | confirm hstatus => exact moves_countDown (hstatus ▸ .confirmed)
  | @complain p a hstatus =>
      rcases (accuse_params group.state ((group.participants.states a).accusations + 1)).2.2.2 with
        hs | ⟨hs, -⟩
      · show Moves group.state.status (accuse group.state _).status
        rw [hs]
        rcases hstatus with hold | hold
        · rw [hold]
          exact .single .compromisedSharing
        · rw [hold]
          exact .single .compromisedConfirming
      · show Moves group.state.status (accuse group.state _).status
        rw [hs]
  | respond hstatus hsubmitted => exact .refl

theorem moves_appliesAll {group group' : Group} {effects : List Effect}
    (ha : AppliesAll verifiers group effects group') : ∀ {record : Record},
      Sound verifiers record group → Moves group.state.status group'.state.status := by
  induction ha with
  | nil => intro record _; exact .refl
  | cons head tail ih => intro record h; exact (moves_applies h head).trans (ih (h.apply head))

/-! ### Every run -/

/-- A call that returned, seen from any group. -/
private theorem step_group {groups : Groups} {input : Address × Call} {events : List Event}
    (hout : (step verifiers groups input).2 = .ok events) (gid : B256) :
    if (effects verifiers groups input.1 input.2).1 = gid then
      AppliesAll verifiers (groups gid) (effects verifiers groups input.1 input.2).2
        ((step verifiers groups input).1 gid)
    else (step verifiers groups input).1 gid = groups gid := by
  obtain ⟨group', happlies, hgroups⟩ := call_ok (transact_ok hout)
  have hpost : (step verifiers groups input).1 =
      Function.update groups (effects verifiers groups input.1 input.2).1 group' := hgroups
  rw [hpost]
  split
  · rename_i hgid
    subst hgid
    rw [Function.update_self]
    exact happlies
  · rename_i hgid
    rw [Function.update_of_ne (Ne.symm hgid)]

/-- One step keeps every group in agreement with its history. -/
private theorem sound_step {groups : Groups} {record : Record} {gid : B256}
    (h : Sound verifiers record (groups gid)) (input : Address × Call) :
    Sound verifiers
      (record.observe verifiers gid (Trace.take (step verifiers) groups input))
      ((step verifiers groups input).1 gid) := by
  unfold Record.observe
  rcases hout : (step verifiers groups input).2 with error | events
  · rw [Trace.take_out, hout]
    have hsame : (step verifiers groups input).1 = groups := transact_error hout
    rw [hsame]
    exact h
  · rw [Trace.take_out, hout]
    have hgroup := step_group hout gid
    show Sound verifiers (if (effects verifiers groups input.1 input.2).1 = gid then _ else _) _
    split
    · rename_i hgid
      rw [if_pos hgid] at hgroup
      exact Sound.applyAll hgroup h
    · rename_i hgid
      rw [if_neg hgid] at hgroup
      rw [hgroup]
      exact h

/-- **Every group of every run agrees with its history.** -/
theorem sound_run (verifiers : Verifiers) (calls : List (Address × Call)) (gid : B256) :
    Sound verifiers (recordOf verifiers gid (Trace.trace (step verifiers) deployed calls))
      (Trace.final (step verifiers) deployed calls gid) := by
  have hstep : ∀ (steps : List CoordinatorStep) groups input,
      Sound verifiers (recordOf verifiers gid steps) (groups gid) → True →
      Sound verifiers
        (recordOf verifiers gid (steps ++ [Trace.take (step verifiers) groups input]))
        ((step verifiers groups input).1 gid) := by
    intro steps groups input h _
    rw [recordOf, List.foldl_append]
    exact sound_step h input
  exact Trace.history_invariant
    (I := fun steps groups => Sound verifiers (recordOf verifiers gid steps) (groups gid))
    sound_empty hstep calls fun _ _ => trivial

/-- The participants that completed the current phase. -/
def completed (group : Group) : Set Address :=
  match group.state.status with
  | .committing => { p | (group.participants.states p).status ≠ .none }
  | .sharing => { p | group.participants.keys p ≠ Secp256k1.zero }
  | .confirming | .finalized => confirmedSet group
  | .uninitialized | .compromised => ∅

private theorem ncard_of_nodup {s : Set Address} {l : List Address} (hnodup : l.Nodup)
    (h : ∀ p, p ∈ s ↔ p ∈ l) : s.ncard = l.length := by
  have hs : s = (l.toFinset : Set Address) := by
    ext p
    rw [h, Finset.mem_coe, List.mem_toFinset]
  rw [hs, Set.ncard_coe_finset, List.toFinset_card_of_nodup hnodup]

namespace Sound

variable {record : Record} {group : Group}

private theorem ncard_registered (h : Sound verifiers record group) :
    ({ p | (group.participants.states p).status ≠ .none } : Set Address).ncard =
      record.commits.length := by
  have hmem : ∀ p, p ∈ ({ p | (group.participants.states p).status ≠ .none } : Set Address) ↔
      p ∈ record.participants := h.registered
  rw [ncard_of_nodup h.distinct hmem, Record.participants, List.length_map]

private theorem ncard_shared (h : Sound verifiers record group) :
    ({ p | group.participants.keys p ≠ Secp256k1.zero } : Set Address).ncard =
      record.shares.length := by
  have hmem : ∀ p, p ∈ ({ p | group.participants.keys p ≠ Secp256k1.zero } : Set Address) ↔
      p ∈ record.shares.map Prod.fst := by
    intro p
    rw [Set.mem_ofPred_eq, List.mem_map]
    constructor
    · intro hp
      exact ⟨(p, group.participants.keys p), (h.shares _ _).mpr ⟨rfl, hp⟩, rfl⟩
    · rintro ⟨⟨q, y⟩, he, rfl⟩
      obtain ⟨rfl, hne⟩ := (h.shares q y).mp he
      exact hne
  rw [ncard_of_nodup h.sharesDistinct hmem, List.length_map]

/-- The countdown is what is left of the current phase. -/
theorem pending_eq (h : Sound verifiers record group) (hlive : group.state.status ≠ .compromised) :
    group.state.pending + (completed group).ncard = group.state.count := by
  have hphase := h.phase
  unfold completed
  cases hs : group.state.status with
  | uninitialized =>
      rw [hs] at hphase
      rw [Set.ncard_empty, hphase.2.1, hphase.2.2.1]
  | committing =>
      rw [hs] at hphase
      rw [h.ncard_registered]
      exact hphase.1
  | sharing =>
      rw [hs] at hphase
      rw [h.ncard_shared]
      exact hphase.2.1
  | confirming =>
      rw [hs] at hphase
      exact hphase.2.2.1
  | finalized =>
      rw [hs] at hphase
      show group.state.pending + (confirmedSet group).ncard = group.state.count
      rw [hphase.2.2.1, hphase.2.2.2, Nat.zero_add]
  | compromised => exact absurd hs hlive

/-- In a finalised group everyone who registered is confirmed. -/
theorem confirmed_of_finalized (h : Sound verifiers record group)
    (hfinal : group.state.status = .finalized) {p : Address} (hp : p ∈ record.participants) :
    p ∈ confirmedSet group := by
  have hphase := h.phase
  rw [hfinal] at hphase
  have hsub : confirmedSet group ⊆ { q | (group.participants.states q).status ≠ .none } := by
    intro q hq
    rw [confirmedSet, Set.mem_ofPred_eq] at hq
    rw [Set.mem_ofPred_eq, hq]
    decide
  have heq := Set.eq_of_subset_of_ncard_le hsub
    (by rw [h.ncard_registered, hphase.2.2.1, hphase.1])
  rw [heq, Set.mem_ofPred_eq]
  exact (h.registered p).mpr hp

/-- In a finalised group everyone who registered set its share exactly once. -/
theorem share_of_finalized (h : Sound verifiers record group)
    (hfinal : group.state.status = .finalized) {p : Address} (hp : p ∈ record.participants) :
    group.participants.keys p ≠ Secp256k1.zero ∧
      (record.shares.filter fun entry => entry.1 = p) = [(p, group.participants.keys p)] := by
  have hphase := h.phase
  rw [hfinal] at hphase
  have hsub : ({ q | group.participants.keys q ≠ Secp256k1.zero } : Set Address) ⊆
      { q | (group.participants.states q).status ≠ .none } := by
    intro q hq
    have he := (h.shares q _).mpr ⟨rfl, hq⟩
    exact (h.registered q).mpr (h.sharesRegistered _ he)
  have heq := Set.eq_of_subset_of_ncard_le hsub
    (by rw [h.ncard_registered, h.ncard_shared, hphase.1, hphase.2.1])
  have hkey : p ∈ ({ q | group.participants.keys q ≠ Secp256k1.zero } : Set Address) := by
    rw [heq]
    exact (h.registered p).mpr hp
  refine ⟨hkey, ?_⟩
  have hmem : (p, group.participants.keys p) ∈ record.shares := (h.shares p _).mpr ⟨rfl, hkey⟩
  -- a list with distinct first components holds one entry of `p`
  obtain ⟨before, after, hsplit⟩ := List.append_of_mem hmem
  have hnodup := h.sharesDistinct
  rw [hsplit] at hnodup ⊢
  rw [List.map_append, List.map_cons, List.nodup_append, List.nodup_cons] at hnodup
  have hbefore : (before.filter fun entry => entry.1 = p) = [] := by
    rw [List.filter_eq_nil_iff]
    intro entry he heq
    have heq : entry.1 = p := by simpa using heq
    exact hnodup.2.2 entry.1 (List.mem_map_of_mem he) p (List.mem_cons_self ..) heq
  have hafter : (after.filter fun entry => entry.1 = p) = [] := by
    rw [List.filter_eq_nil_iff]
    intro entry he heq
    have heq : entry.1 = p := by simpa using heq
    have hmap : entry.1 ∈ after.map Prod.fst := List.mem_map_of_mem he
    exact hnodup.2.1.1 (heq ▸ hmap)
  rw [List.filter_append, List.filter_cons, hbefore, hafter]
  simp

/-- In a finalised group no complaint is open. -/
theorem responded_of_finalized (h : Sound verifiers record group)
    (hfinal : group.state.status = .finalized) (p a : Address) :
    group.participants.complaints p a ≠ .submitted := by
  intro hsub
  have hfiled := (h.filed p a).mp (by rw [hsub]; decide)
  have hconfirmed := h.confirmed_of_finalized hfinal (h.filedRegistered _ hfiled)
  have hzero := h.clear p hconfirmed
  rw [h.complaints p, Set.ncard_eq_zero] at hzero
  have hmem : a ∈ ({b | group.participants.complaints p b = .submitted} : Set Address) := hsub
  rw [hzero] at hmem
  exact hmem

end Sound

/-- A finalised or compromised group stays what it is. -/
private theorem moves_final {a b : GroupStatus} (h : Moves a b)
    (hfinal : a = .finalized ∨ a = .compromised) : b = a := by
  rcases Relation.ReflTransGen.cases_head h with heq | ⟨c, hmove, -⟩
  · exact heq.symm
  · rcases hfinal with rfl | rfl
    · cases hmove
    · cases hmove

/--
**Finalisation soundness of key generation.**  After every run of calls by any callers,
for every group, with `record` its history:

* `pending` and the participants that completed the current phase add up to `count`; in
  a compromised group they still do for the phase in which it stopped;
* the counters count the submitted complaints of a plaintiff and the complaints ever
  filed against an accused;
* a finalised group has `count` distinct participants, each registered with a valid
  Merkle proof, confirmed, with a nonzero verification share set exactly once; no
  complaint is open, every accused is below the threshold, and the key is the sum of
  the participants' `c[0]`;
* in every step the status only follows the edges of the life cycle, the last two
  statuses are final, and groups other than the one called are untouched.
-/
theorem keyGen_finalisation_sound (verifiers : Verifiers) (calls : List (Address × Call))
    (gid : B256) :
    let group := Trace.final (step verifiers) deployed calls gid
    let record := recordOf verifiers gid (Trace.trace (step verifiers) deployed calls)
    (group.state.status ≠ .compromised →
      group.state.pending + (completed group).ncard = group.state.count) ∧
    (group.state.status = .compromised →
      group.state.pending + ({ p | group.participants.keys p ≠ Secp256k1.zero } : Set Address).ncard =
          group.state.count ∨
        group.state.pending + (confirmedSet group).ncard = group.state.count) ∧
    (∀ p, (group.participants.states p).complaints =
      ({a | group.participants.complaints p a = .submitted} : Set Address).ncard) ∧
    (∀ a, (group.participants.states a).accusations =
      (record.filed.filter fun entry => entry.2 = a).length) ∧
    (group.state.status = .finalized →
      record.commits.length = group.state.count ∧ record.participants.Nodup ∧
      (∀ entry ∈ record.commits,
        verifiers.merkleProof entry.2.1 group.participants.root (toWord entry.1) = true ∧
        (group.participants.states entry.1).status = .confirmed ∧
        group.participants.keys entry.1 ≠ Secp256k1.zero ∧
        (record.shares.filter fun share => share.1 = entry.1) =
          [(entry.1, group.participants.keys entry.1)]) ∧
      (∀ p a, group.participants.complaints p a ≠ .submitted) ∧
      (∀ a, (group.participants.states a).accusations < group.state.threshold) ∧
      sumPoints (record.commits.map fun entry => entry.2.2) = .ok group.key) ∧
    (∀ st ∈ Trace.trace (step verifiers) deployed calls,
      Moves (st.pre gid).state.status (st.post gid).state.status ∧
      ((st.pre gid).state.status = .finalized ∨ (st.pre gid).state.status = .compromised →
        (st.post gid).state.status = (st.pre gid).state.status) ∧
      ((effects verifiers st.pre st.input.1 st.input.2).1 ≠ gid → st.post gid = st.pre gid)) := by
  intro group record
  have h : Sound verifiers record group := sound_run verifiers calls gid
  refine ⟨h.pending_eq, ?_, h.complaints, h.accusations, ?_, ?_⟩
  · intro hcomp
    have hphase := h.phase
    rw [hcomp] at hphase
    rcases hphase.2 with ⟨hleft, -⟩ | ⟨-, hleft⟩
    · exact Or.inl (by rw [h.ncard_shared]; exact hleft)
    · exact Or.inr hleft
  · intro hfinal
    have hphase := h.phase
    rw [hfinal] at hphase
    refine ⟨hphase.1, h.distinct, ?_, h.responded_of_finalized hfinal,
      h.below (by rw [hfinal]; decide) (by rw [hfinal]; decide), h.key⟩
    intro entry he
    have hp : entry.1 ∈ record.participants := List.mem_map_of_mem he
    obtain ⟨hkey, hshare⟩ := h.share_of_finalized hfinal hp
    exact ⟨h.proofs entry he, h.confirmed_of_finalized hfinal hp, hkey, hshare⟩
  · intro st hst
    obtain ⟨before, after, hrun⟩ := List.append_of_mem hst
    obtain ⟨js, ks, hcalls, -, htake, -⟩ := Trace.trace_split (step verifiers) calls hrun
    have hpre : st.pre = Trace.final (step verifiers) deployed js := by rw [htake]; rfl
    obtain ⟨earlier, hsound⟩ : ∃ earlier, Sound verifiers earlier (st.pre gid) := by
      rw [hpre]
      exact ⟨_, sound_run verifiers js gid⟩
    rw [← hpre] at htake
    have hpost : st.post = (step verifiers st.pre st.input).1 := congrArg Trace.Step.post htake
    have hmoves : Moves (st.pre gid).state.status (st.post gid).state.status ∧
        ((effects verifiers st.pre st.input.1 st.input.2).1 ≠ gid → st.post gid = st.pre gid) := by
      rw [hpost]
      rcases hout : (step verifiers st.pre st.input).2 with error | events
      · have hsame : (step verifiers st.pre st.input).1 = st.pre := transact_error hout
        rw [hsame]
        exact ⟨.refl, fun _ => rfl⟩
      · have hgroup := step_group hout gid
        split at hgroup
        · rename_i hgid
          exact ⟨moves_appliesAll hgroup hsound, fun hne => absurd hgid hne⟩
        · rw [hgroup]
          exact ⟨.refl, fun _ => rfl⟩
    exact ⟨hmoves.1, moves_final hmoves.1, hmoves.2⟩

end Safenet.Contracts.FROSTCoordinator
