/-
What the coordinator has emitted is what it stores.

A validator never reads the storage of the coordinator.  It reads events, and what it concludes from them
has to be true of the storage.  `Reported` says it event by event: a commitment and a verification share
that were emitted are in the history that `Sound` ties to the group, a ceremony has the message of its
`Sign`, and a nonce commitment comes from a confirmed participant.  One call keeps it (`Reported.call`).
-/
import Safenet.Proofs.Aggregation

namespace Safenet.Contracts.Coordinator

open Fallible
open FROSTCoordinator (Applies AppliesAll Sound Record Effect Group KeyGenCommitment KeyGenSecretShare)

variable {externals : Externals} {s s' : State} {sender : Address} {events out : List Event}
  {gid sid : B256}

/-! ### What a run has emitted -/

def emittedBy (st : CallStep) : List Event :=
  match st.out with
  | .ok events => events
  | .error _ => []

def emitted (steps : List CallStep) : List Event := steps.flatMap emittedBy

theorem emitted_concat (steps : List CallStep) (st : CallStep) :
    emitted (steps ++ [st]) = emitted steps ++ emittedBy st := by
  rw [emitted, List.flatMap_append, List.flatMap_singleton]
  rfl

/-! ### The history does not depend on the number of ceremonies -/

/-- A group with another number of ceremonies. -/
def withSequence (group : Group) (sequence : Nat) : Group :=
  { group with state := { group.state with sequence } }

theorem sound_withSequence {verifiers : FROSTCoordinator.Verifiers} {record : Record} {group : Group}
    (h : Sound verifiers record group) (sequence : Nat) :
    Sound verifiers record (withSequence group sequence) where
  root := h.root
  params := h.params
  distinct := h.distinct
  registered := h.registered
  proofs := h.proofs
  key := h.key
  sharesDistinct := h.sharesDistinct
  shares := h.shares
  sharesRegistered := h.sharesRegistered
  complaints := h.complaints
  accusations := h.accusations
  filed := h.filed
  filedRegistered := h.filedRegistered
  clear := h.clear
  below := h.below
  phase := h.phase

/-! ### One call of key generation -/

/-- A group that was started was announced with its parameters, which its identifier is made from. -/
def Named (externals : Externals) (events : List Event) (gid : B256) (group : Group) : Prop :=
  group.participants.root ≠ 0 → ∃ context,
    gid = FROSTGroupId.create externals.keccak256 group.participants.root group.state.count
        group.state.threshold context ∧
      .keyGen (.keyGen gid group.participants.root group.state.count group.state.threshold context) ∈ events

theorem Named.append {group : Group} (h : Named externals events gid group) :
    Named externals (events ++ out) gid group := by
  intro hroot
  obtain ⟨context, hgid, hevent⟩ := h hroot
  exact ⟨context, hgid, List.mem_append_left _ hevent⟩

/-- The parameters stay. -/
structure Keeps (group group' : Group) : Prop where
  root : group'.participants.root = group.participants.root
  count : group'.state.count = group.state.count
  threshold : group'.state.threshold = group.state.threshold

theorem Keeps.named {group group' : Group} (h : Keeps group group')
    (hnamed : Named externals events gid group) : Named externals events gid group' := by
  unfold Named
  rw [h.root, h.count, h.threshold]
  exact hnamed

theorem countDown_keeps (state : FROSTCoordinator.GroupState) (next : FROSTCoordinator.GroupStatus)
    (reset : Nat) : (FROSTCoordinator.countDown state next reset).count = state.count ∧
      (FROSTCoordinator.countDown state next reset).threshold = state.threshold := by
  unfold FROSTCoordinator.countDown
  split
  · exact ⟨rfl, rfl⟩
  · exact ⟨rfl, rfl⟩

theorem accuse_keeps (state : FROSTCoordinator.GroupState) (total : Nat) :
    (FROSTCoordinator.accuse state total).count = state.count ∧
      (FROSTCoordinator.accuse state total).threshold = state.threshold := by
  unfold FROSTCoordinator.accuse
  split
  · exact ⟨rfl, rfl⟩
  · exact ⟨rfl, rfl⟩

section Applies

variable {verifiers : FROSTCoordinator.Verifiers} {group group' : Group} {effect : Effect}
  {effects : List Effect}

/-- Only a start sets the parameters, and only those of a group that has none. -/
theorem applies_keeps (h : Applies verifiers group effect group') :
    Keeps group group' ∨ group.participants.root = 0 ∧ ∃ root count threshold,
      effect = .start root count threshold ∧ group'.participants.root = root ∧
        group'.state.count = count ∧ group'.state.threshold = threshold := by
  cases h with
  | start hparams hroot hfresh => exact .inr ⟨hfresh, _, _, _, rfl, rfl, rfl, rfl⟩
  | commit => exact .inl ⟨rfl, (countDown_keeps _ _ _).1, (countDown_keeps _ _ _).2⟩
  | share => exact .inl ⟨rfl, (countDown_keeps _ _ _).1, (countDown_keeps _ _ _).2⟩
  | confirm => exact .inl ⟨rfl, (countDown_keeps _ _ _).1, (countDown_keeps _ _ _).2⟩
  | complain => exact .inl ⟨rfl, (accuse_keeps _ _).1, (accuse_keeps _ _).2⟩
  | respond => exact .inl ⟨rfl, rfl, rfl⟩

theorem appliesAll_keeps (h : AppliesAll verifiers group effects group')
    (hroot : group.participants.root ≠ 0) : Keeps group group' := by
  induction h with
  | nil => exact ⟨rfl, rfl, rfl⟩
  | cons head tail ih =>
      rcases applies_keeps head with hkeeps | ⟨hzero, -⟩
      · have hrest := ih (by rw [hkeeps.root]; exact hroot)
        exact ⟨hrest.root.trans hkeeps.root, hrest.count.trans hkeeps.count,
          hrest.threshold.trans hkeeps.threshold⟩
      · exact absurd hzero hroot

theorem appliesAll_named (h : AppliesAll verifiers group effects group')
    (hstarts : ∀ root count threshold, .start root count threshold ∈ effects → ∃ context,
      gid = FROSTGroupId.create externals.keccak256 root count threshold context ∧
        .keyGen (.keyGen gid root count threshold context) ∈ events)
    (hnamed : Named externals events gid group) : Named externals events gid group' := by
  induction h with
  | nil => exact hnamed
  | cons head tail ih =>
      refine ih (fun root count threshold hmem => hstarts root count threshold
        (List.mem_cons_of_mem _ hmem)) ?_
      rcases applies_keeps head with hkeeps | ⟨-, root, count, threshold, rfl, hroot, hcount, hthreshold⟩
      · exact hkeeps.named hnamed
      · intro _
        rw [hroot, hcount, hthreshold]
        exact hstarts root count threshold List.mem_cons_self

end Applies

/-! ### What the events of one call say -/

/-- The events of a call that returns. -/
def Emits (externals : Externals) (sender : Address) (emitted : List FROSTCoordinator.Event) :
    FROSTCoordinator.Call → Prop
  | .keyGen participants count threshold context => emitted =
      [.keyGen (FROSTGroupId.create externals.keccak256 participants count threshold context) participants
        count threshold context]
  | .keyGenCommit gid _ commitment => ∃ committed, emitted =
      [.keyGenCommitted gid sender commitment committed]
  | .keyGenAndCommit participants count threshold context _ commitment =>
      let gid := FROSTGroupId.create externals.keccak256 participants count threshold context
      ∃ committed, emitted = [.keyGenCommitted gid sender commitment committed] ∨
        emitted = [.keyGen gid participants count threshold context,
          .keyGenCommitted gid sender commitment committed]
  | .keyGenSecretShare gid share => ∃ shared, emitted = [.keyGenSecretShared gid sender share shared]
  | .keyGenConfirm gid => ∃ confirmed, emitted = [.keyGenConfirmed gid sender confirmed]
  | .keyGenComplain gid accused => ∃ compromised, emitted =
      [.keyGenComplained gid sender accused compromised]
  | .keyGenComplaintResponse gid plaintiff secretShare => emitted =
      [.keyGenComplaintResponded gid plaintiff sender secretShare]

section Events

variable {groups groups' : FROSTCoordinator.Groups} {started : List FROSTCoordinator.Event}

/-- A commitment has as many points as the threshold says. -/
theorem keyGenCommit_events {poap : List B256} {commitment : KeyGenCommitment}
    (h : FROSTCoordinator.keyGenCommit externals.toVerifiers groups sender gid poap commitment =
      .ok (groups', started)) :
    commitment.c.length = (groups gid).state.threshold ∧
      ∃ committed, started = [.keyGenCommitted gid sender commitment committed] := by
  unfold FROSTCoordinator.keyGenCommit at h
  obtain ⟨u, -, h⟩ := bind_eq_ok.mp h
  obtain ⟨pending, -, h⟩ := bind_eq_ok.mp h
  obtain ⟨u, hlength, h⟩ := bind_eq_ok.mp h
  have hlength : commitment.c.length = _ := of_decide_eq_true (require_eq_ok.mp hlength)
  cases hc : commitment.c with
  | nil =>
      simp only [hc] at h
      exact (throw_eq_ok.mp h).elim
  | cons c₀ rest =>
      simp only [hc] at h
      obtain ⟨u, -, h⟩ := bind_eq_ok.mp h
      obtain ⟨u, -, h⟩ := bind_eq_ok.mp h
      obtain ⟨map, -, h⟩ := bind_eq_ok.mp h
      obtain ⟨key, -, h⟩ := bind_eq_ok.mp h
      have heq := pure_eq_ok.mp h
      simp only [Prod.mk.injEq] at heq
      rw [← hc]
      refine ⟨hlength.trans ?_, _, heq.2.symm⟩
      split
      · rfl
      · rfl

theorem keyGen_events {participants context : B256} {count threshold : Nat}
    (h : FROSTCoordinator.keyGen externals.toVerifiers groups participants count threshold context =
      .ok (groups', started)) :
    started = [.keyGen (FROSTGroupId.create externals.keccak256 participants count threshold context)
      participants count threshold context] := by
  unfold FROSTCoordinator.keyGen at h
  obtain ⟨u, -, h⟩ := bind_eq_ok.mp h
  obtain ⟨map, -, h⟩ := bind_eq_ok.mp h
  exact (Prod.mk.inj (pure_eq_ok.mp h)).2.symm

theorem call_emits {c : FROSTCoordinator.Call}
    (h : FROSTCoordinator.call externals.toVerifiers groups sender c = .ok (groups', started)) :
    Emits externals sender started c := by
  cases c with
  | keyGen participants count threshold context => exact keyGen_events h
  | keyGenCommit gid poap commitment => exact (keyGenCommit_events h).2
  | keyGenAndCommit participants count threshold context poap commitment =>
      simp only [FROSTCoordinator.call, FROSTCoordinator.keyGenAndCommit] at h
      split at h
      · obtain ⟨-, committed, rfl⟩ := keyGenCommit_events h
        exact ⟨committed, .inl rfl⟩
      · obtain ⟨⟨groups₁, started₁⟩, hstart, h⟩ := bind_eq_ok.mp h
        obtain ⟨⟨groups₂, started₂⟩, hcommit, h⟩ := bind_eq_ok.mp h
        obtain ⟨-, committed, rfl⟩ := keyGenCommit_events hcommit
        obtain rfl := keyGen_events hstart
        exact ⟨committed, .inr (Prod.mk.inj (pure_eq_ok.mp h)).2.symm⟩
  | keyGenSecretShare gid share =>
      obtain ⟨u, -, h⟩ := bind_eq_ok.mp h
      obtain ⟨pending, -, h⟩ := bind_eq_ok.mp h
      obtain ⟨u, -, h⟩ := bind_eq_ok.mp h
      obtain ⟨map, -, h⟩ := bind_eq_ok.mp h
      exact ⟨_, (Prod.mk.inj (pure_eq_ok.mp h)).2.symm⟩
  | keyGenConfirm gid =>
      obtain ⟨u, -, h⟩ := bind_eq_ok.mp h
      obtain ⟨map, -, h⟩ := bind_eq_ok.mp h
      obtain ⟨pending, -, h⟩ := bind_eq_ok.mp h
      exact ⟨_, (Prod.mk.inj (pure_eq_ok.mp h)).2.symm⟩
  | keyGenComplain gid accused =>
      obtain ⟨u, -, h⟩ := bind_eq_ok.mp h
      obtain ⟨map, -, h⟩ := bind_eq_ok.mp h
      exact ⟨_, (Prod.mk.inj (pure_eq_ok.mp h)).2.symm⟩
  | keyGenComplaintResponse gid plaintiff secretShare =>
      obtain ⟨u, -, h⟩ := bind_eq_ok.mp h
      obtain ⟨map, -, h⟩ := bind_eq_ok.mp h
      exact (Prod.mk.inj (pure_eq_ok.mp h)).2.symm

/-- After a commitment its group has the threshold that the commitment was counted against. -/
theorem keyGenCommit_threshold {poap : List B256} {commitment : KeyGenCommitment}
    (h : FROSTCoordinator.keyGenCommit externals.toVerifiers groups sender gid poap commitment =
      .ok (groups', started)) : commitment.c.length = (groups' gid).state.threshold := by
  have hlength := (keyGenCommit_events h).1
  obtain ⟨group', happlies, rfl⟩ := FROSTCoordinator.call_ok (c := .keyGenCommit gid poap commitment) h
  rw [hlength]
  show _ = (Function.update groups gid group' gid).state.threshold
  rw [Function.update_self]
  cases happlies with
  | cons head tail =>
      cases tail
      rcases applies_keeps head with hkeeps | ⟨-, _, _, _, hstart, -⟩
      · exact hkeeps.threshold.symm
      · cases hstart

/-- A commitment that a call emits is among its effects, and has the length of the threshold. -/
theorem keyGen_commits {c : FROSTCoordinator.Call}
    (h : FROSTCoordinator.call externals.toVerifiers groups sender c = .ok (groups', started))
    {participant : Address} {commitment : KeyGenCommitment} {committed : Bool}
    (hmem : .keyGenCommitted gid participant commitment committed ∈ started) :
    gid = (FROSTCoordinator.effects externals.toVerifiers groups sender c).1 ∧
      commitment.c.length = (groups' gid).state.threshold ∧
      ∃ poap, Effect.commit participant poap (commitment.c.headD Secp256k1.zero) ∈
        (FROSTCoordinator.effects externals.toVerifiers groups sender c).2 := by
  have hemits := call_emits h
  cases c with
  | keyGen participants count threshold context =>
      rw [hemits] at hmem
      cases List.mem_singleton.mp hmem
  | keyGenCommit gid' poap commitment' =>
      obtain ⟨committed', rfl⟩ := hemits
      cases List.mem_singleton.mp hmem
      exact ⟨rfl, keyGenCommit_threshold h, poap, List.mem_singleton.mpr rfl⟩
  | keyGenAndCommit participants count threshold context poap commitment' =>
      have hsame : gid = FROSTGroupId.create externals.keccak256 participants count threshold context ∧
          participant = sender ∧ commitment = commitment' := by
        obtain ⟨committed', rfl | rfl⟩ := hemits
        · cases List.mem_singleton.mp hmem
          exact ⟨rfl, rfl, rfl⟩
        · rcases List.mem_cons.mp hmem with hmem | hmem
          · cases hmem
          · cases List.mem_singleton.mp hmem
            exact ⟨rfl, rfl, rfl⟩
      obtain ⟨rfl, rfl, rfl⟩ := hsame
      simp only [FROSTCoordinator.call, FROSTCoordinator.keyGenAndCommit] at h
      refine ⟨rfl, ?_, poap, ?_⟩
      · split at h
        · exact keyGenCommit_threshold h
        · obtain ⟨⟨groups₁, started₁⟩, -, h⟩ := bind_eq_ok.mp h
          obtain ⟨⟨groups₂, started₂⟩, hcommit, h⟩ := bind_eq_ok.mp h
          obtain ⟨rfl, -⟩ := Prod.mk.inj (pure_eq_ok.mp h)
          exact keyGenCommit_threshold hcommit
      · simp only [FROSTCoordinator.effects]
        split
        · exact List.mem_singleton.mpr rfl
        · exact List.mem_cons_of_mem _ (List.mem_singleton.mpr rfl)
  | keyGenSecretShare gid' share =>
      obtain ⟨shared, rfl⟩ := hemits
      cases List.mem_singleton.mp hmem
  | keyGenConfirm gid' =>
      obtain ⟨confirmed, rfl⟩ := hemits
      cases List.mem_singleton.mp hmem
  | keyGenComplain gid' accused =>
      obtain ⟨compromised, rfl⟩ := hemits
      cases List.mem_singleton.mp hmem
  | keyGenComplaintResponse gid' plaintiff secretShare =>
      rw [hemits] at hmem
      cases List.mem_singleton.mp hmem

/-- A group is started under the identifier of its parameters, and announced. -/
theorem keyGen_starts {c : FROSTCoordinator.Call}
    (h : FROSTCoordinator.call externals.toVerifiers groups sender c = .ok (groups', started))
    {root : B256} {count threshold : Nat}
    (hmem : Effect.start root count threshold ∈
      (FROSTCoordinator.effects externals.toVerifiers groups sender c).2) :
    ∃ context, (FROSTCoordinator.effects externals.toVerifiers groups sender c).1 =
        FROSTGroupId.create externals.keccak256 root count threshold context ∧
      .keyGen (FROSTCoordinator.effects externals.toVerifiers groups sender c).1 root count threshold
        context ∈ started := by
  cases c with
  | keyGen participants count' threshold' context =>
      cases List.mem_singleton.mp hmem
      refine ⟨context, rfl, ?_⟩
      rw [keyGen_events h]
      exact List.mem_singleton.mpr rfl
  | keyGenAndCommit participants count' threshold' context poap commitment =>
      simp only [FROSTCoordinator.effects] at hmem
      split at hmem
      · cases List.mem_singleton.mp hmem
      · next hfresh =>
        rcases List.mem_cons.mp hmem with hmem | hmem
        · cases hmem
          refine ⟨context, rfl, ?_⟩
          simp only [FROSTCoordinator.call, FROSTCoordinator.keyGenAndCommit] at h
          rw [if_neg hfresh] at h
          obtain ⟨⟨groups₁, started₁⟩, hstart, h⟩ := bind_eq_ok.mp h
          obtain ⟨⟨groups₂, started₂⟩, -, h⟩ := bind_eq_ok.mp h
          rw [← (Prod.mk.inj (pure_eq_ok.mp h)).2, keyGen_events hstart]
          exact List.mem_cons_self
        · cases List.mem_singleton.mp hmem
  | keyGenCommit => cases List.mem_singleton.mp hmem
  | keyGenSecretShare => cases List.mem_singleton.mp hmem
  | keyGenConfirm => cases List.mem_singleton.mp hmem
  | keyGenComplain => cases List.mem_singleton.mp hmem
  | keyGenComplaintResponse => cases List.mem_singleton.mp hmem

/-- A verification share that a call emits is among its effects. -/
theorem keyGen_shares {c : FROSTCoordinator.Call}
    (h : FROSTCoordinator.call externals.toVerifiers groups sender c = .ok (groups', started))
    {participant : Address} {share : KeyGenSecretShare} {shared : Bool}
    (hmem : .keyGenSecretShared gid participant share shared ∈ started) :
    gid = (FROSTCoordinator.effects externals.toVerifiers groups sender c).1 ∧
      Effect.share participant share.y ∈
        (FROSTCoordinator.effects externals.toVerifiers groups sender c).2 := by
  have hemits := call_emits h
  cases c with
  | keyGen participants count threshold context =>
      rw [hemits] at hmem
      cases List.mem_singleton.mp hmem
  | keyGenCommit gid' poap commitment =>
      obtain ⟨committed, rfl⟩ := hemits
      cases List.mem_singleton.mp hmem
  | keyGenAndCommit participants count threshold context poap commitment =>
      obtain ⟨committed, rfl | rfl⟩ := hemits
      · cases List.mem_singleton.mp hmem
      · rcases List.mem_cons.mp hmem with hmem | hmem
        · cases hmem
        · cases List.mem_singleton.mp hmem
  | keyGenSecretShare gid' share' =>
      obtain ⟨shared', rfl⟩ := hemits
      cases List.mem_singleton.mp hmem
      exact ⟨rfl, List.mem_singleton.mpr rfl⟩
  | keyGenConfirm gid' =>
      obtain ⟨confirmed, rfl⟩ := hemits
      cases List.mem_singleton.mp hmem
  | keyGenComplain gid' accused =>
      obtain ⟨compromised, rfl⟩ := hemits
      cases List.mem_singleton.mp hmem
  | keyGenComplaintResponse gid' plaintiff secretShare =>
      rw [hemits] at hmem
      cases List.mem_singleton.mp hmem

end Events

/-! ### Every run -/

/-- The history of a group has what was emitted for it. -/
structure Remembers (gid : B256) (events : List Event) (record : Record) (group : Group) : Prop where
  commits : ∀ p commitment committed, .keyGen (.keyGenCommitted gid p commitment committed) ∈ events →
    commitment.c.length = group.state.threshold ∧
      ∃ poap, (p, poap, commitment.c.headD Secp256k1.zero) ∈ record.commits
  shares : ∀ p share shared, .keyGen (.keyGenSecretShared gid p share shared) ∈ events →
    (p, share.y) ∈ record.shares

/-- The storage agrees with the events. -/
structure Reported (externals : Externals) (events : List Event) (s : State) : Prop where
  ceremonies : CeremoniesOK s
  named : ∀ gid, Named externals events gid (s.groups gid)
  groups : ∀ gid, ∃ record, Sound externals.toVerifiers record (s.groups gid) ∧
    Remembers gid events record (s.groups gid)
  signs : ∀ initiator gid message sid sequence, .sign initiator gid message sid sequence ∈ events →
    message ≠ 0 ∧ (s.signatures sid).message = message ∧ FROSTSignatureId.group sid = gid
  nonces : ∀ sid p nonces, .signCommittedNonces sid p nonces ∈ events →
    (s.signatures sid).message ≠ 0 ∧ ((groupOf s sid).participants.states p).status = .confirmed

/-! ### It is kept -/

theorem mem_commits_foldl {record : Record} {effects : List Effect} {entry : Address × List B256 × Secp256k1.Point}
    (h : entry ∈ record.commits ∨ Effect.commit entry.1 entry.2.1 entry.2.2 ∈ effects) :
    entry ∈ (effects.foldl Record.append record).commits := by
  induction effects generalizing record with
  | nil => exact h.resolve_right List.not_mem_nil
  | cons effect effects ih =>
      refine ih ?_
      rcases h with h | h
      · left
        cases effect with
        | commit p poap c₀ => exact List.mem_append_left _ h
        | _ => exact h
      · rcases List.mem_cons.mp h with rfl | h
        · exact .inl (List.mem_append_right _ (List.mem_singleton.mpr rfl))
        · exact .inr h

theorem mem_shares_foldl {record : Record} {effects : List Effect} {entry : Address × Secp256k1.Point}
    (h : entry ∈ record.shares ∨ Effect.share entry.1 entry.2 ∈ effects) :
    entry ∈ (effects.foldl Record.append record).shares := by
  induction effects generalizing record with
  | nil => exact h.resolve_right List.not_mem_nil
  | cons effect effects ih =>
      refine ih ?_
      rcases h with h | h
      · left
        cases effect with
        | share p y => exact List.mem_append_left _ h
        | _ => exact h
      · rcases List.mem_cons.mp h with rfl | h
        · exact .inl (List.mem_append_right _ (List.mem_singleton.mpr rfl))
        · exact .inr h

/-- A group with a commitment was started. -/
theorem root_ne_zero_of_commits {verifiers : FROSTCoordinator.Verifiers} {record : Record} {group : Group}
    (h : Sound verifiers record group) {entry : Address × List B256 × Secp256k1.Point}
    (hentry : entry ∈ record.commits) : group.participants.root ≠ 0 := by
  intro hroot
  have hphase := h.phase
  rw [h.root.mp hroot] at hphase
  rw [hphase.1] at hentry
  cases hentry

/-- Events of ceremonies say nothing about key generation. -/
theorem Remembers.append {record : Record} {group group' : Group} (h : Remembers gid events record group)
    (hother : ∀ event, .keyGen event ∉ out) (hthreshold : group'.state.threshold = group.state.threshold) :
    Remembers gid (events ++ out) record group' where
  commits := by
    intro p commitment committed hmem
    rw [hthreshold]
    exact h.commits p commitment committed ((List.mem_append.mp hmem).resolve_right (hother _))
  shares := by
    intro p share shared hmem
    exact h.shares p share shared ((List.mem_append.mp hmem).resolve_right (hother _))

theorem Reported.keyGen (h : Reported externals events s) {c : FROSTCoordinator.Call}
    {groups : FROSTCoordinator.Groups} {started : List FROSTCoordinator.Event}
    (hcall : FROSTCoordinator.call externals.toVerifiers s.groups sender c = .ok (groups, started))
    (gid : B256) :
    Named externals (events ++ started.map Event.keyGen) gid (groups gid) ∧ ∃ record, Sound externals.toVerifiers record (groups gid) ∧
      Remembers gid (events ++ started.map Event.keyGen) record (groups gid) := by
  have hmem : ∀ {event : FROSTCoordinator.Event},
      .keyGen event ∈ events ++ started.map Event.keyGen → .keyGen event ∈ events ∨ event ∈ started := by
    intro event hmem
    rcases List.mem_append.mp hmem with hmem | hmem
    · exact .inl hmem
    · obtain ⟨event', hevent', heq⟩ := List.mem_map.mp hmem
      cases heq
      exact .inr hevent'
  obtain ⟨group', happlies, hgroups⟩ := FROSTCoordinator.call_ok hcall
  obtain ⟨record, hsound, hremembers⟩ := h.groups gid
  by_cases hgid : gid = (FROSTCoordinator.effects externals.toVerifiers s.groups sender c).1
  · have hgroup : groups gid = group' := by rw [hgroups, ← hgid, Function.update_self]
    rw [← hgid] at happlies
    have hcommits := fun p commitment committed
        (hstarted : .keyGenCommitted gid p commitment committed ∈ started) => keyGen_commits hcall hstarted
    rw [hgroup] at hcommits ⊢
    refine ⟨appliesAll_named happlies (fun root count threshold hstart => ?_) (h.named gid).append, _,
      Sound.applyAll happlies hsound, ⟨?_, ?_⟩⟩
    · obtain ⟨context, heq, hevent⟩ := keyGen_starts hcall hstart
      rw [← hgid] at heq hevent
      exact ⟨context, heq, List.mem_append_right _ (List.mem_map_of_mem hevent)⟩
    · intro p commitment committed hevent
      rcases hmem hevent with hold | hnew
      · obtain ⟨hlength, poap, hentry⟩ := hremembers.commits p commitment committed hold
        have hkeeps := appliesAll_keeps happlies (root_ne_zero_of_commits hsound hentry)
        exact ⟨hlength.trans hkeeps.threshold.symm, poap, mem_commits_foldl (.inl hentry)⟩
      · obtain ⟨-, hlength, poap, heffect⟩ := hcommits p commitment committed hnew
        exact ⟨hlength, poap, mem_commits_foldl (.inr heffect)⟩
    · intro p share shared hevent
      rcases hmem hevent with hold | hnew
      · exact mem_shares_foldl (.inl (hremembers.shares p share shared hold))
      · exact mem_shares_foldl (.inr (keyGen_shares hcall hnew).2)
  · have hgroup : groups gid = s.groups gid := by rw [hgroups, Function.update_of_ne hgid]
    rw [hgroup]
    refine ⟨(h.named gid).append, record, hsound, ⟨?_, ?_⟩⟩
    · intro p commitment committed hevent
      rcases hmem hevent with hold | hnew
      · exact hremembers.commits p commitment committed hold
      · exact absurd (keyGen_commits hcall hnew).1 hgid
    · intro p share shared hevent
      rcases hmem hevent with hold | hnew
      · exact hremembers.shares p share shared hold
      · exact absurd (keyGen_shares hcall hnew).1 hgid

/-- Nonces are only committed to by a confirmed participant of the group. -/
theorem signCommitNonces_confirmed {nonces : SignNonces}
    (h : signCommitNonces s sender sid nonces = .ok (s', out)) :
    (s.signatures sid).message ≠ 0 ∧
      ((groupOf s sid).participants.states sender).status = .confirmed := by
  obtain ⟨⟨group, message⟩, hgroup, h⟩ := bind_eq_ok.mp h
  obtain ⟨u, hmessage, hgroup⟩ := bind_eq_ok.mp hgroup
  cases pure_eq_ok.mp hgroup
  obtain ⟨u, hstatus, h⟩ := bind_eq_ok.mp h
  exact ⟨of_decide_eq_true (require_eq_ok.mp hmessage), of_decide_eq_true (require_eq_ok.mp hstatus)⟩

/-- **A call keeps the storage in agreement with the events.** -/
theorem Reported.call (h : Reported externals events s) {c : Call}
    (hcall : Coordinator.call externals s sender c = .ok (s', out)) :
    Reported externals (events ++ out) s' := by
  have hceremonies := h.ceremonies.call hcall
  -- what was emitted before stays true
  have hsigns : ∀ initiator gid message sid sequence,
      .sign initiator gid message sid sequence ∈ events →
        message ≠ 0 ∧ (s'.signatures sid).message = message ∧ FROSTSignatureId.group sid = gid := by
    intro initiator gid message sid sequence hmem
    obtain ⟨hne, hmessage, hgroup⟩ := h.signs initiator gid message sid sequence hmem
    refine ⟨hne, ?_, hgroup⟩
    rw [(call_ceremony h.ceremonies hcall (hmessage ▸ hne)).1]
    exact hmessage
  have hnonces : ∀ sid p nonces, .signCommittedNonces sid p nonces ∈ events →
      (s'.signatures sid).message ≠ 0 ∧
        ((groupOf s' sid).participants.states p).status = .confirmed := by
    intro sid p nonces hmem
    obtain ⟨hmessage, hstatus⟩ := h.nonces sid p nonces hmem
    rw [(call_ceremony h.ceremonies hcall hmessage).1, call_participants h.ceremonies hcall hmessage]
    exact ⟨hmessage, hstatus⟩
  cases c with
  | keyGen c =>
      obtain ⟨groups, started, hkeyGen, rfl, rfl⟩ := keyGen_ok hcall
      refine ⟨hceremonies, fun gid => (h.keyGen hkeyGen gid).1, fun gid => (h.keyGen hkeyGen gid).2,
        ?_, ?_⟩
      · intro initiator gid message sid sequence hmem
        refine hsigns initiator gid message sid sequence ((List.mem_append.mp hmem).resolve_right ?_)
        simp
      · intro sid p nonces hmem
        refine hnonces sid p nonces ((List.mem_append.mp hmem).resolve_right ?_)
        simp
  | sign gid message =>
      obtain ⟨⟨s₁, sid, events₁⟩, hsign, hret⟩ := bind_eq_ok.mp hcall
      have heq := pure_eq_ok.mp hret
      simp only [Prod.mk.injEq] at heq
      obtain ⟨rfl, rfl⟩ := heq
      obtain ⟨hgroup, -⟩ := h.ceremonies.fresh hsign
      obtain ⟨hne, -, -, -, hgroups, hsignatures, rfl⟩ := sign_ok hsign
      have hsame : ∀ gid', s₁.groups gid' = s.groups gid' ∨
          ∃ sequence, s₁.groups gid' = withSequence (s.groups gid') sequence := by
        intro gid'
        rw [hgroups]
        by_cases hgid : gid' = gid
        · subst hgid
          rw [Function.update_self]
          exact .inr ⟨_, rfl⟩
        · rw [Function.update_of_ne hgid]
          exact .inl rfl
      have hother : ∀ event, (.keyGen event : Event) ∉
          [.sign sender gid message sid (s.groups gid).state.sequence] := by
        intro event hmem
        cases List.mem_singleton.mp hmem
      refine ⟨hceremonies, ?_, ?_, ?_, ?_⟩
      · intro gid'
        rcases hsame gid' with hsame | ⟨sequence, hsame⟩
        · rw [hsame]
          exact (h.named gid').append
        · rw [hsame]
          exact (h.named gid').append
      · intro gid'
        obtain ⟨record, hsound, hremembers⟩ := h.groups gid'
        rcases hsame gid' with hsame | ⟨sequence, hsame⟩
        · rw [hsame]
          exact ⟨record, hsound, hremembers.append hother rfl⟩
        · rw [hsame]
          exact ⟨record, sound_withSequence hsound sequence, hremembers.append hother rfl⟩
      · intro initiator gid' message' sid' sequence hmem
        rcases List.mem_append.mp hmem with hold | hnew
        · exact hsigns initiator gid' message' sid' sequence hold
        · cases List.mem_singleton.mp hnew
          refine ⟨hne, ?_, hgroup⟩
          rw [hsignatures, Function.update_self]
      · intro sid' p nonces hmem
        refine hnonces sid' p nonces ((List.mem_append.mp hmem).resolve_right ?_)
        simp
  | signCommitNonces sid nonces =>
      obtain ⟨rfl, rfl⟩ := signCommitNonces_ok hcall
      have hother : ∀ event, (.keyGen event : Event) ∉ [.signCommittedNonces sid sender nonces] := by
        intro event hmem
        cases List.mem_singleton.mp hmem
      refine ⟨hceremonies, fun gid => (h.named gid).append, fun gid => ?_, ?_, ?_⟩
      · obtain ⟨record, hsound, hremembers⟩ := h.groups gid
        exact ⟨record, hsound, hremembers.append hother rfl⟩
      · intro initiator gid message sid' sequence hmem
        refine hsigns initiator gid message sid' sequence ((List.mem_append.mp hmem).resolve_right ?_)
        simp
      · intro sid' p nonces' hmem
        rcases List.mem_append.mp hmem with hold | hnew
        · exact hnonces sid' p nonces' hold
        · cases List.mem_singleton.mp hnew
          exact signCommitNonces_confirmed hcall
  | signShare sid selection share proof =>
      obtain ⟨⟨s₁, done, events₁⟩, hshare, hret⟩ := bind_eq_ok.mp hcall
      have heq := pure_eq_ok.mp hret
      simp only [Prod.mk.injEq] at heq
      obtain ⟨rfl, rfl⟩ := heq
      obtain ⟨-, hgroups, -, aggregate, signed, -, hout⟩ := signShare_ok hshare
      have hevents : ∀ event ∈ events₁, event = .signShared sid selection.root sender share.z ∨
          event = .signCompleted sid selection.root aggregate.signature := by
        rcases hout with ⟨-, -, rfl⟩ | ⟨-, -, rfl, -⟩
        · simp
        · simp
      refine ⟨hceremonies, fun gid => ?_, fun gid => ?_, ?_, ?_⟩
      · rw [hgroups]
        exact (h.named gid).append
      · obtain ⟨record, hsound, hremembers⟩ := h.groups gid
        rw [hgroups]
        refine ⟨record, hsound, hremembers.append (fun event hmem => ?_) rfl⟩
        rcases hevents _ hmem with heq | heq <;> cases heq
      · intro initiator gid message sid' sequence hmem
        refine hsigns initiator gid message sid' sequence
          ((List.mem_append.mp hmem).resolve_right fun hnew => ?_)
        rcases hevents _ hnew with heq | heq <;> cases heq
      · intro sid' p nonces hmem
        refine hnonces sid' p nonces ((List.mem_append.mp hmem).resolve_right fun hnew => ?_)
        rcases hevents _ hnew with heq | heq <;> cases heq

theorem reported_deployed (externals : Externals) : Reported externals [] deployed where
  ceremonies := ceremoniesOK_deployed
  named := fun _ h => absurd rfl h
  groups := fun _ => ⟨Record.empty, FROSTCoordinator.sound_empty,
    ⟨fun _ _ _ h => absurd h List.not_mem_nil, fun _ _ _ h => absurd h List.not_mem_nil⟩⟩
  signs := fun _ _ _ _ _ h => absurd h List.not_mem_nil
  nonces := fun _ _ _ h => absurd h List.not_mem_nil

/-- **In every run the storage agrees with what was emitted.** -/
theorem reported_run (externals : Externals) (calls : List (Address × Call)) :
    Reported externals (emitted (Trace.trace (step externals) deployed calls))
      (Trace.final (step externals) deployed calls) := by
  have hstep : ∀ (steps : List CallStep) s input, Reported externals (emitted steps) s → True →
      Reported externals (emitted (steps ++ [Trace.take (step externals) s input]))
        (step externals s input).1 := by
    intro steps s input h _
    rw [emitted_concat, emittedBy, Trace.take_out]
    rcases hout : (step externals s input).2 with error | events
    · have hsame : (step externals s input).1 = s := transact_error hout
      rw [hsame, List.append_nil]
      exact h
    · exact h.call (transact_ok hout)
  have hrun : Reported externals (emitted (Trace.trace (step externals) deployed calls))
      (Trace.final (step externals) deployed calls) := by
    refine Trace.history_invariant (E := fun _ => True)
      (I := fun steps s => Reported externals (emitted steps) s) ?_ hstep calls fun _ _ => trivial
    exact reported_deployed externals
  exact hrun

end Safenet.Contracts.Coordinator
