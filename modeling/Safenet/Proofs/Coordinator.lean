/-
Signing ceremonies of the coordinator, over whole runs.

`CeremoniesOK` says where ceremonies come from: each was numbered by its finalised group, so no
later `sign` reuses its identifier.  `Completed` is what a completed ceremony looks like, and
`completed_step` shows that one more call keeps it, unless the call adds a share to the very
selection the ceremony completed under: `signShare` goes on aggregating there, and
`signatureValue` reads the aggregate.
-/
import Mathlib.Data.FinEnum
import Safenet.Contracts.Coordinator
import Safenet.Proofs.FROSTCoordinator

namespace Safenet.Contracts

open Fallible

/-! ### Identifiers -/

namespace FROSTGroupId

private theorem getLsbD_mask (raw : B256) (i : Nat) :
    (mask raw).getLsbD i = (raw.getLsbD i && decide (64 ≤ i)) := by
  have hones : 0xffffffffffffffffffffffffffffffffffffffffffffffff0000000000000000#256 =
      BitVec.allOnes 256 <<< 64 := by decide
  unfold mask
  rw [hones, BitVec.getLsbD_and, BitVec.getLsbD_shiftLeft, BitVec.getLsbD_allOnes]
  by_cases hi : i < 256
  · by_cases h64 : 64 ≤ i
    · have h1 : ¬ i < 64 := by omega
      have h2 : i - 64 < 256 := by omega
      simp [hi, h64, h1, h2]
    · have h1 : i < 64 := by omega
      simp [hi, h64, h1]
  · have hout := BitVec.getLsbD_of_ge raw i (by omega)
    simp [hout]

private theorem getLsbD_small {n : Nat} (hn : n < 2 ^ 64) {i : Nat} (hi : 64 ≤ i) :
    (BitVec.ofNat 256 n).getLsbD i = false := by
  have hlt : n < 2 ^ i := Nat.lt_of_lt_of_le hn (Nat.pow_le_pow_right (by decide) hi)
  rw [BitVec.getLsbD_ofNat, Nat.testBit_lt_two_pow hlt, Bool.and_false]

theorem mask_idem (raw : B256) : mask (mask raw) = mask raw := by
  apply BitVec.eq_of_getLsbD_eq
  intro i _
  simp [getLsbD_mask]

/-- The group of a ceremony's identifier is the group it was made for. -/
theorem mask_or {gid : B256} (hgid : mask gid = gid) {n : Nat} (hn : n < 2 ^ 64) :
    mask (gid ||| BitVec.ofNat 256 n) = gid := by
  apply BitVec.eq_of_getLsbD_eq
  intro i _
  have hbit := congrArg (fun v => v.getLsbD i) hgid
  simp only [getLsbD_mask] at hbit
  rw [getLsbD_mask, BitVec.getLsbD_or]
  by_cases h64 : 64 ≤ i
  · rw [getLsbD_small hn h64]
    simp [h64]
  · simpa [h64] using hbit

/-- Ceremonies of one group with different numbers have different identifiers. -/
theorem or_inj {gid : B256} (hgid : mask gid = gid) {a b : Nat} (ha : a < 2 ^ 64) (hb : b < 2 ^ 64)
    (h : gid ||| BitVec.ofNat 256 a = gid ||| BitVec.ofNat 256 b) : a = b := by
  have heq : BitVec.ofNat 256 a = BitVec.ofNat 256 b := by
    apply BitVec.eq_of_getLsbD_eq
    intro i _
    by_cases h64 : 64 ≤ i
    · rw [getLsbD_small ha h64, getLsbD_small hb h64]
    · have hbit := congrArg (fun v => v.getLsbD i) hgid
      simp only [getLsbD_mask] at hbit
      have hzero : gid.getLsbD i = false := by simpa [h64] using hbit.symm
      have hor := congrArg (fun v => v.getLsbD i) h
      simpa only [BitVec.getLsbD_or, hzero, Bool.false_or] using hor
  have htoNat := congrArg BitVec.toNat heq
  rw [BitVec.toNat_ofNat, BitVec.toNat_ofNat] at htoNat
  omega

end FROSTGroupId

namespace Coordinator

open FROSTCoordinator (Groups Group GroupStatus Applies AppliesAll)

variable {externals : Externals} {s s' : State} {sender : Address} {events : List Event}

/-! ### What a call does -/

/-- A key generation call keeps the ceremonies and emits no signing event. -/
theorem keyGen_ok {c : FROSTCoordinator.Call}
    (h : call externals s sender (.keyGen c) = .ok (s', events)) :
    ∃ groups out, FROSTCoordinator.call externals.toVerifiers s.groups sender c = .ok (groups, out) ∧
      s' = { s with groups } ∧ events = out.map Event.keyGen := by
  obtain ⟨⟨groups, out⟩, hcall, h⟩ := bind_eq_ok.mp h
  have heq := pure_eq_ok.mp h
  simp only [Prod.mk.injEq] at heq
  exact ⟨groups, out, mapError_eq_ok.mp hcall, heq.1.symm, heq.2.symm⟩

/-- Starting a ceremony numbers it and stores its message. -/
theorem sign_ok {gid message sid : B256}
    (h : sign s sender gid message = .ok (s', sid, events)) :
    message ≠ 0 ∧ (s.groups gid).state.status = .finalized ∧
      (s.groups gid).state.sequence + 1 < 2 ^ 64 ∧
      sid = gid ||| BitVec.ofNat 256 ((s.groups gid).state.sequence + 1) ∧
      s'.groups = Function.update s.groups gid { s.groups gid with
        state := { (s.groups gid).state with sequence := (s.groups gid).state.sequence + 1 } } ∧
      s'.signatures = Function.update s.signatures sid { s.signatures sid with message } ∧
      events = [.sign sender gid message sid (s.groups gid).state.sequence] := by
  obtain ⟨u, hmessage, h⟩ := bind_eq_ok.mp h
  obtain ⟨u, hcount, h⟩ := bind_eq_ok.mp h
  obtain ⟨u, hstatus, h⟩ := bind_eq_ok.mp h
  obtain ⟨next, hnext, h⟩ := bind_eq_ok.mp h
  obtain ⟨sid', hsid, h⟩ := bind_eq_ok.mp h
  have heq := pure_eq_ok.mp h
  simp only [Prod.mk.injEq] at heq
  obtain ⟨hstate, rfl, hevents⟩ := heq
  obtain ⟨number, hnumber, hsid⟩ := bind_eq_ok.mp hsid
  have hvalue := pure_eq_ok.mp hsid
  obtain ⟨hlt, hsum⟩ := checkedAdd_ok.mp hnumber
  obtain ⟨-, hsum'⟩ := checkedAdd_ok.mp hnext
  rw [← hsum] at hvalue
  rw [← hsum'] at hstate
  refine ⟨by simpa using require_eq_ok.mp hmessage, by simpa using require_eq_ok.mp hstatus, hlt,
    hvalue.symm, ?_, ?_, hevents.symm⟩
  · rw [← hstate]
  · rw [← hstate]

/-- The aggregate of the selection after a share was added. -/
private theorem register_ok {self self' : FROSTSignatureShares.T} {participant : Address}
    {share : FROST.SignatureShare} {r : Secp256k1.Point} {root : B256} {proof : List B256}
    {signature : FROST.Signature}
    (h : FROSTSignatureShares.register externals self participant share r root proof =
      .ok (self', signature)) :
    externals.merkleProof proof root
        (FROSTSignatureShares.hash externals.keccak256 participant share r) = true ∧
      ∃ participants, self' = Function.update self root ⟨participants, signature⟩ := by
  obtain ⟨u, -, h⟩ := bind_eq_ok.mp h
  obtain ⟨u, hproof, h⟩ := bind_eq_ok.mp h
  obtain ⟨sum, -, h⟩ := bind_eq_ok.mp h
  have heq := pure_eq_ok.mp h
  simp only [Prod.mk.injEq] at heq
  obtain ⟨hself, rfl⟩ := heq
  exact ⟨require_eq_ok.mp hproof, _, hself.symm⟩

/-- A share that completes its ceremony, with the signature the ceremony gets. -/
def Completes (externals : Externals) (s s' : State) (sid root : B256) (signature : FROST.Signature) :
    Prop :=
  (s.signatures sid).signed = 0 ∧
    FROST.verify externals.precompiles (s.groups (FROSTSignatureId.group sid)).key signature
      (s.signatures sid).message = .ok ⟨⟩ ∧
    (s'.signatures sid).signed = root ∧ ((s'.signatures sid).shares root).signature = signature

/-- A share is added to its selection, and either that is all or it completes the ceremony. -/
theorem signShare_ok {sid : B256} {selection : SignSelection} {share : FROST.SignatureShare}
    {proof : List B256} {done : Bool}
    (h : signShare externals s sender sid selection share proof = .ok (s', done, events)) :
    (s.signatures sid).message ≠ 0 ∧ s'.groups = s.groups ∧
      externals.merkleProof proof selection.root
        (FROSTSignatureShares.hash externals.keccak256 sender share selection.r) = true ∧
      ∃ aggregate signed,
        s'.signatures = Function.update s.signatures sid
          { s.signatures sid with
            signed, shares := Function.update (s.signatures sid).shares selection.root aggregate } ∧
        (signed = (s.signatures sid).signed ∧ done = false ∧
            events = [.signShared sid selection.root sender share.z] ∨
          signed = selection.root ∧ done = true ∧
            events = [.signShared sid selection.root sender share.z,
              .signCompleted sid selection.root aggregate.signature] ∧
            Completes externals s s' sid selection.root aggregate.signature) := by
  obtain ⟨⟨group, message⟩, hgroup, h⟩ := bind_eq_ok.mp h
  obtain ⟨u, hmessage, hgroup⟩ := bind_eq_ok.mp hgroup
  have hpair := pure_eq_ok.mp hgroup
  simp only [Prod.mk.injEq] at hpair
  obtain ⟨rfl, rfl⟩ := hpair
  obtain ⟨participant, -, h⟩ := bind_eq_ok.mp h
  obtain ⟨u, -, h⟩ := bind_eq_ok.mp h
  obtain ⟨⟨shares, accumulator⟩, hregister, h⟩ := bind_eq_ok.mp h
  obtain ⟨hproof, participants, rfl⟩ := register_ok hregister
  refine ⟨by simpa using require_eq_ok.mp hmessage, ?_⟩
  obtain ⟨equal, -, h⟩ := bind_eq_ok.mp h
  have hkept : ∀ {stored : State} {b : Bool} {out : List Event},
      (pure (stored, b, out) : Except Error _) = .ok (s', done, events) →
      stored = s' ∧ b = done ∧ out = events := by
    intro stored b out h
    simpa only [Prod.mk.injEq] using pure_eq_ok.mp h
  cases equal with
  | false =>
      obtain ⟨rfl, rfl, rfl⟩ := hkept h
      exact ⟨rfl, hproof, ⟨participants, accumulator⟩, _, rfl, .inl ⟨rfl, rfl, rfl⟩⟩
  | true =>
      obtain ⟨u, hverify, h⟩ := bind_eq_ok.mp h
      by_cases hsigned : (s.signatures sid).signed = 0
      · rw [if_pos (by simpa using hsigned)] at h
        obtain ⟨rfl, rfl, rfl⟩ := hkept h
        refine ⟨rfl, hproof, ⟨participants, accumulator⟩, selection.root, ?_, .inr ⟨rfl, rfl, rfl, ?_⟩⟩
        · simp
        · refine ⟨hsigned, mapError_eq_ok.mp hverify, ?_, ?_⟩
          · simp
          · simp
      · rw [if_neg (by simpa using hsigned)] at h
        obtain ⟨rfl, rfl, rfl⟩ := hkept h
        exact ⟨rfl, hproof, ⟨participants, accumulator⟩, _, rfl, .inl ⟨rfl, rfl, rfl⟩⟩

theorem signCommitNonces_ok {sid : B256} {nonces : SignNonces}
    (h : signCommitNonces s sender sid nonces = .ok (s', events)) :
    s' = s ∧ events = [.signCommittedNonces sid sender nonces] := by
  obtain ⟨_, -, h⟩ := bind_eq_ok.mp h
  obtain ⟨u, -, h⟩ := bind_eq_ok.mp h
  obtain ⟨u, -, h⟩ := bind_eq_ok.mp h
  obtain ⟨u, -, h⟩ := bind_eq_ok.mp h
  have heq := pure_eq_ok.mp h
  simp only [Prod.mk.injEq] at heq
  exact ⟨heq.1.symm, heq.2.symm⟩

/-! ### Where ceremonies come from -/

/-- Groups and ceremonies have the identifiers the coordinator gave them. -/
structure CeremoniesOK (s : State) : Prop where
  /-- A group that was started knows its participants, and its identifier carries no number. -/
  group : ∀ gid, (s.groups gid).state.status ≠ .uninitialized →
    (s.groups gid).participants.root ≠ 0 ∧ FROSTGroupId.mask gid = gid
  /-- A ceremony has a number that its finalised group has given away. -/
  started : ∀ sid, (s.signatures sid).message ≠ 0 →
    (s.groups (FROSTSignatureId.group sid)).state.status = .finalized ∧
      ∃ n < (s.groups (FROSTSignatureId.group sid)).state.sequence, n + 1 < 2 ^ 64 ∧
        sid = FROSTSignatureId.group sid ||| BitVec.ofNat 256 (n + 1)
  /-- Only a ceremony that was started is completed. -/
  signed : ∀ sid, (s.signatures sid).signed ≠ 0 → (s.signatures sid).message ≠ 0

theorem ceremoniesOK_deployed : CeremoniesOK deployed where
  group := fun _ h => absurd rfl h
  started := fun _ h => absurd rfl h
  signed := fun _ h => absurd rfl h

/-- Ceremonies are numbered from one, so their identifiers are not zero. -/
theorem CeremoniesOK.sid_ne_zero (h : CeremoniesOK s) {sid : B256}
    (hsid : (s.signatures sid).message ≠ 0) : sid ≠ 0 := by
  obtain ⟨-, n, -, hlt, heq⟩ := h.started sid hsid
  intro hzero
  have hgid : FROSTSignatureId.group 0#256 = 0#256 := by decide
  rw [show sid = 0#256 from hzero, hgid, BitVec.zero_or] at heq
  have htoNat := congrArg BitVec.toNat heq
  rw [BitVec.toNat_ofNat, BitVec.toNat_ofNat] at htoNat
  omega

section KeyGen

variable {group group' : Group} {effect : FROSTCoordinator.Effect}
  {effects : List FROSTCoordinator.Effect} {verifiers : FROSTCoordinator.Verifiers}

/-- Key generation leaves a finalised group alone. -/
private theorem applies_finalized (h : Applies verifiers group effect group')
    (hstatus : group.state.status = .finalized) (hroot : group.participants.root ≠ 0) : False := by
  cases h with
  | start _ _ hfresh => exact hroot hfresh
  | commit hother => rw [hstatus] at hother; cases hother
  | share hother => rw [hstatus] at hother; cases hother
  | confirm hother => rw [hstatus] at hother; cases hother
  | complain hother => rw [hstatus] at hother; rcases hother with hother | hother <;> cases hother
  | respond hother => rw [hstatus] at hother; rcases hother with hother | hother <;> cases hother

private theorem applies_root (h : Applies verifiers group effect group') :
    group'.participants.root ≠ 0 ∨ group.state.status ≠ .uninitialized ∧
      group'.participants.root = group.participants.root := by
  cases h with
  | start _ hroot => exact .inl hroot
  | commit hstatus => exact .inr ⟨by rw [hstatus]; decide, rfl⟩
  | share hstatus => exact .inr ⟨by rw [hstatus]; decide, rfl⟩
  | confirm hstatus => exact .inr ⟨by rw [hstatus]; decide, rfl⟩
  | complain hstatus =>
      refine .inr ⟨?_, rfl⟩
      rcases hstatus with hstatus | hstatus <;> rw [hstatus] <;> decide
  | respond hstatus =>
      refine .inr ⟨?_, rfl⟩
      rcases hstatus with hstatus | hstatus <;> rw [hstatus] <;> decide

private theorem appliesAll_root (h : AppliesAll verifiers group effects group') :
    (group.state.status ≠ .uninitialized → group.participants.root ≠ 0) →
      effects ≠ [] → group'.participants.root ≠ 0 := by
  induction h with
  | nil => intro _ hne; exact absurd rfl hne
  | @cons g₀ g₁ g₂ e es head tail ih =>
      intro hroot _
      have hnext : g₁.participants.root ≠ 0 := by
        rcases applies_root head with hnew | ⟨hlive, hsame⟩
        · exact hnew
        · rw [hsame]
          exact hroot hlive
      cases tail with
      | nil => exact hnext
      | cons head' tail' => exact ih (fun _ => hnext) (by simp)

end KeyGen

private theorem effects_ne_nil (verifiers : FROSTCoordinator.Verifiers) (groups : Groups)
    (sender : Address) (c : FROSTCoordinator.Call) :
    (FROSTCoordinator.effects verifiers groups sender c).2 ≠ [] := by
  cases c with
  | keyGenAndCommit =>
      simp only [FROSTCoordinator.effects]
      split <;> simp
  | _ => simp [FROSTCoordinator.effects]

/-- The group of a key generation call has an identifier without a number. -/
private theorem effects_mask {verifiers : FROSTCoordinator.Verifiers} {groups groups' : Groups}
    {c : FROSTCoordinator.Call} {out : List FROSTCoordinator.Event}
    (hok : ∀ gid, (groups gid).state.status ≠ .uninitialized → FROSTGroupId.mask gid = gid)
    (h : FROSTCoordinator.call verifiers groups sender c = .ok (groups', out)) :
    FROSTGroupId.mask (FROSTCoordinator.effects verifiers groups sender c).1 =
      (FROSTCoordinator.effects verifiers groups sender c).1 := by
  obtain ⟨group', happlies, -⟩ := FROSTCoordinator.call_ok h
  have hlive : ∀ {gid : B256} {effect : FROSTCoordinator.Effect},
      AppliesAll verifiers (groups gid) [effect] group' →
      (∀ root count threshold, effect ≠ .start root count threshold) → FROSTGroupId.mask gid = gid := by
    intro gid effect happlies hother
    cases happlies with
    | cons head tail =>
        apply hok
        cases head with
        | start => exact absurd rfl (hother _ _ _)
        | commit hstatus => rw [hstatus]; decide
        | share hstatus => rw [hstatus]; decide
        | confirm hstatus => rw [hstatus]; decide
        | complain hstatus => rcases hstatus with hstatus | hstatus <;> rw [hstatus] <;> decide
        | respond hstatus => rcases hstatus with hstatus | hstatus <;> rw [hstatus] <;> decide
  cases c with
  | keyGen => exact FROSTGroupId.mask_idem _
  | keyGenAndCommit => exact FROSTGroupId.mask_idem _
  | keyGenCommit => exact hlive happlies (by simp)
  | keyGenSecretShare => exact hlive happlies (by simp)
  | keyGenConfirm => exact hlive happlies (by simp)
  | keyGenComplain => exact hlive happlies (by simp)
  | keyGenComplaintResponse => exact hlive happlies (by simp)

/-- A key generation call, seen from any group: a finalised one is kept. -/
theorem keyGen_group {groups : Groups} {c : FROSTCoordinator.Call} {out : List FROSTCoordinator.Event}
    (h : CeremoniesOK s)
    (hcall : FROSTCoordinator.call externals.toVerifiers s.groups sender c = .ok (groups, out))
    (gid : B256) :
    ((s.groups gid).state.status = .finalized → groups gid = s.groups gid) ∧
      ((groups gid).state.status ≠ .uninitialized →
        (groups gid).participants.root ≠ 0 ∧ FROSTGroupId.mask gid = gid) := by
  obtain ⟨group', happlies, rfl⟩ := FROSTCoordinator.call_ok hcall
  have hmask := effects_mask (fun gid hlive => (h.group gid hlive).2) hcall
  have hnil := effects_ne_nil externals.toVerifiers s.groups sender c
  generalize (FROSTCoordinator.effects externals.toVerifiers s.groups sender c).1 = gid₀ at *
  generalize (FROSTCoordinator.effects externals.toVerifiers s.groups sender c).2 = effects at *
  by_cases hgid : gid = gid₀
  · subst hgid
    rw [Function.update_self]
    refine ⟨?_, fun _ => ⟨appliesAll_root happlies (fun hlive => (h.group gid hlive).1) hnil, hmask⟩⟩
    intro hstatus
    cases happlies with
    | nil => rfl
    | cons head tail =>
        exact (applies_finalized head hstatus (h.group gid (by rw [hstatus]; decide)).1).elim
  · rw [Function.update_of_ne hgid]
    exact ⟨fun _ => rfl, h.group gid⟩

/-- Starting a ceremony writes a fresh identifier. -/
theorem CeremoniesOK.fresh (h : CeremoniesOK s) {gid message sid : B256}
    (hsign : sign s sender gid message = .ok (s', sid, events)) :
    FROSTSignatureId.group sid = gid ∧ (s.signatures sid).message = 0 := by
  obtain ⟨-, hstatus, hlt, hsid, -⟩ := sign_ok hsign
  obtain ⟨-, hmask⟩ := h.group gid (by rw [hstatus]; decide)
  have hgroup : FROSTSignatureId.group sid = gid := by
    rw [hsid]
    exact FROSTGroupId.mask_or hmask hlt
  refine ⟨hgroup, ?_⟩
  by_contra hstarted
  obtain ⟨-, n, hn, hn64, heq⟩ := h.started sid hstarted
  rw [hgroup] at hn heq
  rw [hsid] at heq
  have hnumber := FROSTGroupId.or_inj hmask hlt hn64 heq
  omega

/-- **A call keeps groups and ceremonies in order.** -/
theorem CeremoniesOK.call (h : CeremoniesOK s) {c : Call}
    (hcall : Coordinator.call externals s sender c = .ok (s', events)) : CeremoniesOK s' := by
  cases c with
  | keyGen c =>
      obtain ⟨groups, out, hkeyGen, rfl, -⟩ := keyGen_ok hcall
      refine ⟨fun gid => (keyGen_group h hkeyGen gid).2, ?_, h.signed⟩
      intro sid hsid
      have hold := h.started sid hsid
      have hkeep : groups (FROSTSignatureId.group sid) = s.groups (FROSTSignatureId.group sid) :=
        (keyGen_group h hkeyGen _).1 hold.1
      show (groups _).state.status = _ ∧ ∃ n < (groups _).state.sequence, _
      rw [hkeep]
      exact hold
  | sign gid message =>
      obtain ⟨⟨s₁, sid, out⟩, hsign, hret⟩ := bind_eq_ok.mp hcall
      have heq := pure_eq_ok.mp hret
      simp only [Prod.mk.injEq] at heq
      obtain ⟨rfl, -⟩ := heq
      obtain ⟨hgroup, hfresh⟩ := h.fresh hsign
      obtain ⟨-, hstatus, hlt, hsid, hgroups, hsignatures, -⟩ := sign_ok hsign
      refine ⟨?_, ?_, ?_⟩
      · intro gid'
        rw [hgroups]
        by_cases hgid : gid' = gid
        · subst hgid
          rw [Function.update_self]
          exact h.group gid'
        · rw [Function.update_of_ne hgid]
          exact h.group gid'
      · intro sid' hsid'
        rw [hgroups]
        rw [hsignatures] at hsid'
        by_cases heq : sid' = sid
        · subst heq
          rw [hgroup, Function.update_self]
          exact ⟨hstatus, _, Nat.lt_succ_self _, hlt, hsid⟩
        · rw [Function.update_of_ne heq] at hsid'
          obtain ⟨hfinal, n, hn, hn64, hid⟩ := h.started sid' hsid'
          by_cases hgid : FROSTSignatureId.group sid' = gid
          · rw [hgid] at hn hid ⊢
            rw [Function.update_self]
            exact ⟨hstatus, n, Nat.lt_succ_of_lt hn, hn64, hid⟩
          · rw [Function.update_of_ne hgid]
            exact ⟨hfinal, n, hn, hn64, hid⟩
      · intro sid' hsid'
        rw [hsignatures] at hsid' ⊢
        by_cases heq : sid' = sid
        · subst heq
          rw [Function.update_self] at hsid'
          exact absurd hfresh (h.signed sid' hsid')
        · rw [Function.update_of_ne heq] at hsid' ⊢
          exact h.signed sid' hsid'
  | signCommitNonces sid nonces =>
      obtain ⟨rfl, -⟩ := signCommitNonces_ok hcall
      exact h
  | signShare sid selection share proof =>
      obtain ⟨⟨s₁, done, out⟩, hshare, hret⟩ := bind_eq_ok.mp hcall
      have heq := pure_eq_ok.mp hret
      simp only [Prod.mk.injEq] at heq
      obtain ⟨rfl, -⟩ := heq
      obtain ⟨hmessage, hgroups, -, aggregate, signed, hsignatures, -⟩ := signShare_ok hshare
      have hsame : ∀ sid', (s₁.signatures sid').message = (s.signatures sid').message := by
        intro sid'
        rw [hsignatures]
        by_cases heq : sid' = sid
        · subst heq
          rw [Function.update_self]
        · rw [Function.update_of_ne heq]
      refine ⟨?_, ?_, ?_⟩
      · rw [hgroups]
        exact h.group
      · intro sid' hsid'
        rw [hgroups]
        rw [hsame] at hsid'
        exact h.started sid' hsid'
      · intro sid' hsid'
        rw [hsame]
        by_cases heq : sid' = sid
        · rw [heq]
          exact hmessage
        · rw [hsignatures, Function.update_of_ne heq] at hsid'
          exact h.signed sid' hsid'

/-- A call, seen from a ceremony that was started: message and key are kept, and it is completed
only by a share that makes a valid signature. -/
theorem call_ceremony (h : CeremoniesOK s) {c : Call}
    (hcall : Coordinator.call externals s sender c = .ok (s', events)) {sid : B256}
    (hstarted : (s.signatures sid).message ≠ 0) :
    (s'.signatures sid).message = (s.signatures sid).message ∧
      (s'.groups (FROSTSignatureId.group sid)).key = (s.groups (FROSTSignatureId.group sid)).key ∧
      ((s'.signatures sid).signed = (s.signatures sid).signed ∨
        ∃ root signature, .signCompleted sid root signature ∈ events ∧
          Completes externals s s' sid root signature) := by
  cases c with
  | keyGen c =>
      obtain ⟨groups, out, hkeyGen, rfl, -⟩ := keyGen_ok hcall
      refine ⟨rfl, ?_, .inl rfl⟩
      show (groups _).key = _
      rw [(keyGen_group h hkeyGen _).1 (h.started sid hstarted).1]
  | sign gid message =>
      obtain ⟨⟨s₁, sid', out⟩, hsign, hret⟩ := bind_eq_ok.mp hcall
      have heq := pure_eq_ok.mp hret
      simp only [Prod.mk.injEq] at heq
      obtain ⟨rfl, -⟩ := heq
      obtain ⟨-, hfresh⟩ := h.fresh hsign
      obtain ⟨-, -, -, -, hgroups, hsignatures, -⟩ := sign_ok hsign
      have hne : sid ≠ sid' := by
        intro heq
        rw [← heq] at hfresh
        exact hstarted hfresh
      rw [hsignatures, Function.update_of_ne hne]
      refine ⟨rfl, ?_, .inl rfl⟩
      rw [hgroups]
      by_cases hgid : FROSTSignatureId.group sid = gid
      · rw [hgid, Function.update_self]
      · rw [Function.update_of_ne hgid]
  | signCommitNonces sid' nonces =>
      obtain ⟨rfl, -⟩ := signCommitNonces_ok hcall
      exact ⟨rfl, rfl, .inl rfl⟩
  | signShare sid' selection share proof =>
      obtain ⟨⟨s₁, done, out⟩, hshare, hret⟩ := bind_eq_ok.mp hcall
      have heq := pure_eq_ok.mp hret
      simp only [Prod.mk.injEq] at heq
      obtain ⟨rfl, rfl⟩ := heq
      obtain ⟨-, hgroups, -, aggregate, signed, hsignatures, hcases⟩ := signShare_ok hshare
      rw [hgroups]
      by_cases hsid : sid = sid'
      · subst hsid
        refine ⟨by rw [hsignatures, Function.update_self], rfl, ?_⟩
        rcases hcases with ⟨rfl, -, -⟩ | ⟨-, -, rfl, hcompletes⟩
        · exact .inl (by rw [hsignatures, Function.update_self])
        · exact .inr ⟨_, _, by simp, hcompletes⟩
      · rw [hsignatures, Function.update_of_ne hsid]
        exact ⟨rfl, rfl, .inl rfl⟩

/-- Only a ceremony that was started before the call is completed after it. -/
theorem started_of_signed (h : CeremoniesOK s) {c : Call}
    (hcall : Coordinator.call externals s sender c = .ok (s', events)) {sid : B256}
    (hsigned : (s'.signatures sid).signed ≠ 0) : (s.signatures sid).message ≠ 0 := by
  cases c with
  | keyGen c =>
      obtain ⟨groups, out, -, rfl, -⟩ := keyGen_ok hcall
      exact h.signed sid hsigned
  | sign gid message =>
      obtain ⟨⟨s₁, sid', out⟩, hsign, hret⟩ := bind_eq_ok.mp hcall
      have heq := pure_eq_ok.mp hret
      simp only [Prod.mk.injEq] at heq
      obtain ⟨rfl, -⟩ := heq
      obtain ⟨-, -, -, -, -, hsignatures, -⟩ := sign_ok hsign
      apply h.signed sid
      rw [hsignatures] at hsigned
      by_cases hsid : sid = sid'
      · subst hsid
        rwa [Function.update_self] at hsigned
      · rwa [Function.update_of_ne hsid] at hsigned
  | signCommitNonces sid' nonces =>
      obtain ⟨rfl, -⟩ := signCommitNonces_ok hcall
      exact h.signed sid hsigned
  | signShare sid' selection share proof =>
      obtain ⟨⟨s₁, done, out⟩, hshare, hret⟩ := bind_eq_ok.mp hcall
      have heq := pure_eq_ok.mp hret
      simp only [Prod.mk.injEq] at heq
      obtain ⟨rfl, -⟩ := heq
      obtain ⟨hmessage, -, -, aggregate, signed, hsignatures, -⟩ := signShare_ok hshare
      by_cases hsid : sid = sid'
      · rw [hsid]
        exact hmessage
      · rw [hsignatures, Function.update_of_ne hsid] at hsigned
        exact h.signed sid hsigned

/-! ### Completed ceremonies -/

/-- A ceremony that completed under a selection, with what its signature is about. -/
structure Completed (s : State) (sid root : B256) (signature : FROST.Signature) (message : B256)
    (key : Secp256k1.Point) : Prop where
  signed : (s.signatures sid).signed = root
  message : (s.signatures sid).message = message
  value : ((s.signatures sid).shares root).signature = signature
  key : (s.groups (FROSTSignatureId.group sid)).key = key

theorem Completed.signatureValue {sid root message : B256} {signature : FROST.Signature}
    {key : Secp256k1.Point} (h : Completed s sid root signature message key) (hroot : root ≠ 0) :
    Coordinator.signatureValue s sid = .ok signature := by
  have hne : root ≠ 0#256 := hroot
  simp [Coordinator.signatureValue, FROSTSignatureShares.groupSignature, h.signed, h.value, hne,
    require, bind, Except.bind, pure, Except.pure]

theorem Completed.signatureVerify {sid root message : B256} {signature : FROST.Signature}
    {key : Secp256k1.Point} (h : Completed s sid root signature message key) (hroot : root ≠ 0) :
    Coordinator.signatureVerify s sid (FROSTSignatureId.group sid) message = .ok signature := by
  have hne : root ≠ 0#256 := hroot
  simp [Coordinator.signatureVerify, FROSTSignatureShares.groupSignature, h.signed, h.value,
    h.message, hne, require, bind, Except.bind, pure, Except.pure]

/-- The call adds a share to the selection its ceremony completed under. -/
def AddsToCompleted (s : State) : Call → Prop
  | .signShare sid selection _ _ =>
      (s.signatures sid).signed ≠ 0 ∧ selection.root = (s.signatures sid).signed
  | _ => False

instance (s : State) : (c : Call) → Decidable (AddsToCompleted s c)
  | .keyGen _ => inferInstanceAs (Decidable False)
  | .sign .. => inferInstanceAs (Decidable False)
  | .signCommitNonces .. => inferInstanceAs (Decidable False)
  | .signShare .. => inferInstanceAs (Decidable (_ ∧ _))

/-- **A completed ceremony survives every call that does not add to its selection**, and it is
not completed again. -/
theorem Completed.call {sid root message : B256} {signature : FROST.Signature} {key : Secp256k1.Point}
    {c : Call} (h : Completed s sid root signature message key) (hok : CeremoniesOK s)
    (hroot : root ≠ 0) (hadds : ¬ AddsToCompleted s c)
    (hcall : Coordinator.call externals s sender c = .ok (s', events)) :
    Completed s' sid root signature message key ∧
      ∀ root' signature', Event.signCompleted sid root' signature' ∉ events := by
  have hsigned : (s.signatures sid).signed ≠ 0 := by rw [h.signed]; exact hroot
  obtain ⟨hmessage, hkey, hcompleted⟩ := call_ceremony hok hcall (hok.signed sid hsigned)
  have hkept : (s'.signatures sid).signed = (s.signatures sid).signed := by
    rcases hcompleted with hsame | ⟨_, _, _, hcompletes⟩
    · exact hsame
    · exact absurd hcompletes.1 hsigned
  suffices hrest : ((s'.signatures sid).shares root).signature = signature ∧
      ∀ root' signature', Event.signCompleted sid root' signature' ∉ events by
    exact ⟨⟨hkept.trans h.signed, hmessage.trans h.message, hrest.1, hkey.trans h.key⟩, hrest.2⟩
  cases c with
  | keyGen c =>
      obtain ⟨groups, out, -, rfl, rfl⟩ := keyGen_ok hcall
      exact ⟨h.value, by simp⟩
  | sign gid message' =>
      obtain ⟨⟨s₁, sid', out⟩, hsign, hret⟩ := bind_eq_ok.mp hcall
      have heq := pure_eq_ok.mp hret
      simp only [Prod.mk.injEq] at heq
      obtain ⟨rfl, rfl⟩ := heq
      obtain ⟨-, -, -, -, -, hsignatures, hevents⟩ := sign_ok hsign
      refine ⟨?_, by simp [hevents]⟩
      rw [hsignatures]
      by_cases hsid : sid = sid'
      · subst hsid
        rw [Function.update_self]
        exact h.value
      · rw [Function.update_of_ne hsid]
        exact h.value
  | signCommitNonces sid' nonces =>
      obtain ⟨rfl, rfl⟩ := signCommitNonces_ok hcall
      exact ⟨h.value, by simp⟩
  | signShare sid' selection share proof =>
      obtain ⟨⟨s₁, done, out⟩, hshare, hret⟩ := bind_eq_ok.mp hcall
      have heq := pure_eq_ok.mp hret
      simp only [Prod.mk.injEq] at heq
      obtain ⟨rfl, rfl⟩ := heq
      obtain ⟨-, -, -, aggregate, signed, hsignatures, hcases⟩ := signShare_ok hshare
      by_cases hsid : sid = sid'
      · subst hsid
        have hother : root ≠ selection.root := by
          intro heq
          apply hadds
          exact ⟨hsigned, by rw [h.signed, heq]⟩
        rcases hcases with ⟨-, -, rfl⟩ | ⟨-, -, -, hcompletes⟩
        · refine ⟨?_, by simp⟩
          rw [hsignatures, Function.update_self]
          show (Function.update (s.signatures sid).shares selection.root aggregate root).signature = _
          rw [Function.update_of_ne hother]
          exact h.value
        · exact absurd hcompletes.1 hsigned
      · rw [hsignatures, Function.update_of_ne hsid]
        refine ⟨h.value, ?_⟩
        intro root' signature'
        rcases hcases with ⟨-, -, rfl⟩ | ⟨-, -, rfl, -⟩
        · simp
        · simp [hsid]

/-! ### Every run -/

/-- A step of a run. -/
abbrev CallStep := Trace.Step State (Address × Call) (Except Error (List Event))

/-- The step completed the ceremony: it emitted `SignCompleted`. -/
def EmitsCompleted (st : CallStep) (sid root : B256) (signature : FROST.Signature) : Prop :=
  ∃ events, st.out = .ok events ∧ .signCompleted sid root signature ∈ events

/-- No leaf is in a tree with root zero, which stands for "not completed" in the storage. -/
def NoZeroRoot (externals : Externals) : Prop :=
  ∀ proof participant share r, externals.merkleProof proof 0
    (FROSTSignatureShares.hash externals.keccak256 participant share r) = false

/-- A call that emits `SignCompleted` is a share that completes its ceremony. -/
theorem completes_of_event {c : Call} {sid root : B256} {signature : FROST.Signature}
    (hzero : NoZeroRoot externals)
    (hcall : call externals s sender c = .ok (s', events))
    (hevent : Event.signCompleted sid root signature ∈ events) :
    Completes externals s s' sid root signature ∧ root ≠ 0 ∧
      (s'.signatures sid).message = (s.signatures sid).message ∧ s'.groups = s.groups := by
  cases c with
  | keyGen c =>
      obtain ⟨groups, out, -, -, rfl⟩ := keyGen_ok hcall
      simp at hevent
  | sign gid message' =>
      obtain ⟨⟨s₁, sid', out⟩, hsign, hret⟩ := bind_eq_ok.mp hcall
      have heq := pure_eq_ok.mp hret
      simp only [Prod.mk.injEq] at heq
      obtain ⟨-, -, -, -, -, -, hevents⟩ := sign_ok hsign
      rw [← heq.2, hevents] at hevent
      simp at hevent
  | signCommitNonces sid' nonces =>
      obtain ⟨-, rfl⟩ := signCommitNonces_ok hcall
      simp at hevent
  | signShare sid' selection share proof =>
      obtain ⟨⟨s₁, done, out⟩, hshare, hret⟩ := bind_eq_ok.mp hcall
      have heq := pure_eq_ok.mp hret
      simp only [Prod.mk.injEq] at heq
      obtain ⟨rfl, rfl⟩ := heq
      obtain ⟨-, hgroups, hproof, aggregate, signed, hsignatures, hcases⟩ := signShare_ok hshare
      rcases hcases with ⟨-, -, rfl⟩ | ⟨-, -, rfl, hcompletes⟩
      · simp at hevent
      · simp only [List.mem_cons, Event.signCompleted.injEq, reduceCtorEq, false_or,
          List.not_mem_nil, or_false] at hevent
        obtain ⟨rfl, rfl, rfl⟩ := hevent
        refine ⟨hcompletes, ?_, by rw [hsignatures, Function.update_self], hgroups⟩
        intro hroot
        rw [hroot, hzero] at hproof
        cases hproof

/-- Completion is kept along the rest of a run. -/
private theorem completed_run {sid root message : B256} {signature : FROST.Signature}
    {key : Secp256k1.Point} (hroot : root ≠ 0) (inputs : List (Address × Call)) :
    ∀ {s : State}, CeremoniesOK s → Completed s sid root signature message key →
      (∀ st ∈ Trace.trace (step externals) s inputs,
        AddsToCompleted st.pre st.input.2 → st.out.isOk = false) →
      ∀ st ∈ Trace.trace (step externals) s inputs,
        Completed st.post sid root signature message key ∧
          ∀ root' signature', ¬ EmitsCompleted st sid root' signature' := by
  induction inputs with
  | nil =>
      intro s _ _ _ st hst
      cases hst
  | cons input inputs ih =>
      intro s hok h hadds st hst
      have hhead := hadds _ (List.mem_cons_self ..)
      have hnext : CeremoniesOK (step externals s input).1 ∧
          Completed (step externals s input).1 sid root signature message key ∧
          ∀ root' signature', ¬ EmitsCompleted (Trace.take (step externals) s input) sid root' signature' := by
        rcases hout : (step externals s input).2 with error | events
        · have hsame : (step externals s input).1 = s := transact_error hout
          rw [hsame]
          refine ⟨hok, h, ?_⟩
          intro root' signature' hemits
          obtain ⟨events, hevents, -⟩ := hemits
          rw [Trace.take_out, hout] at hevents
          cases hevents
        · have hcall := transact_ok hout
          have hother : ¬ AddsToCompleted s input.2 := by
            intro hadd
            have hreverted := hhead hadd
            rw [Trace.take_out, hout] at hreverted
            cases hreverted
          obtain ⟨hkept, hnone⟩ := h.call hok hroot hother hcall
          refine ⟨hok.call hcall, hkept, ?_⟩
          intro root' signature' hemits
          obtain ⟨events', hevents, hmem⟩ := hemits
          rw [Trace.take_out, hout] at hevents
          cases hevents
          exact hnone _ _ hmem
      rw [Trace.trace_cons] at hst hadds
      rcases List.mem_cons.mp hst with rfl | hst
      · exact hnext.2
      · exact ih hnext.1 hnext.2.1 (fun st' hst' => hadds st' (List.mem_cons_of_mem _ hst')) st hst

theorem ceremoniesOK_run (inputs : List (Address × Call)) :
    CeremoniesOK (Trace.final (step externals) deployed inputs) := by
  apply Trace.final_invariant ceremoniesOK_deployed
  intro s input h
  rcases hout : (step externals s input).2 with error | events
  · have hsame : (step externals s input).1 = s := transact_error hout
    rw [hsame]
    exact h
  · exact h.call (transact_ok hout)

section Run

variable {inputs : List (Address × Call)} {before after : List CallStep} {st : CallStep}
  {sid root : B256} {signature : FROST.Signature}

/-- A completion in the middle of a run, and everything after it. -/
private theorem completed_split (hzero : NoZeroRoot externals)
    (hadds : ∀ st ∈ Trace.trace (step externals) deployed inputs,
      AddsToCompleted st.pre st.input.2 → st.out.isOk = false)
    (hrun : Trace.trace (step externals) deployed inputs = before ++ st :: after)
    (hcompleted : EmitsCompleted st sid root signature) :
    Completes externals st.pre st.post sid root signature ∧ root ≠ 0 ∧
      Completed st.post sid root signature (st.pre.signatures sid).message
        (st.pre.groups (FROSTSignatureId.group sid)).key ∧
      ∀ st' ∈ after, Completed st'.post sid root signature (st.pre.signatures sid).message
          (st.pre.groups (FROSTSignatureId.group sid)).key ∧
        ∀ root' signature', ¬ EmitsCompleted st' sid root' signature' := by
  obtain ⟨js, ks, rfl, rfl, hst, rfl⟩ := Trace.trace_split (step externals) inputs hrun
  have hpre : CeremoniesOK st.pre := by
    rw [hst]
    exact ceremoniesOK_run js
  obtain ⟨events, hout, hevent⟩ := hcompleted
  have hstep : step externals st.pre st.input = (st.post, st.out) := by rw [hst]; rfl
  have hout' : (step externals st.pre st.input).2 = .ok events := by rw [hstep, hout]
  have hcall := transact_ok hout'
  have hpost : (transact st.pre (call externals st.pre st.input.1 st.input.2)).1 = st.post :=
    congrArg Prod.fst hstep
  rw [hpost] at hcall
  obtain ⟨hcompletes, hroot, hmessage, hgroups⟩ := completes_of_event hzero hcall hevent
  have hdone : Completed st.post sid root signature (st.pre.signatures sid).message
      (st.pre.groups (FROSTSignatureId.group sid)).key :=
    ⟨hcompletes.2.2.1, hmessage, hcompletes.2.2.2, by rw [hgroups]⟩
  refine ⟨hcompletes, hroot, hdone, ?_⟩
  apply completed_run hroot ks (hpre.call hcall) hdone
  intro st' hst'
  apply hadds
  rw [hrun]
  exact List.mem_append_right _ (List.mem_cons_of_mem _ hst')

/-- **A completed group signature is final in every run in which no further share gets into the
selection a ceremony completed under.**  A ceremony completes once, with a signature that is valid under the
key of its group for its message, and from then on the coordinator answers with that signature. -/
theorem completed_signature_is_final (externals : Externals)
    (hzero : NoZeroRoot externals)
    (hadds : ∀ st ∈ Trace.trace (step externals) deployed inputs,
      AddsToCompleted st.pre st.input.2 → st.out.isOk = false)
    (hrun : Trace.trace (step externals) deployed inputs = before ++ st :: after)
    (hcompleted : EmitsCompleted st sid root signature) :
    let message := (st.pre.signatures sid).message
    let key := (st.pre.groups (FROSTSignatureId.group sid)).key
    (st.pre.signatures sid).signed = 0 ∧
      FROST.verify externals.precompiles key signature message = .ok ⟨⟩ ∧
      (∀ st' ∈ before ++ after, ∀ root' signature', ¬ EmitsCompleted st' sid root' signature') ∧
      ∀ st' ∈ st :: after, (st'.post.signatures sid).signed = root ∧
        (st'.post.signatures sid).message = message ∧
        (st'.post.groups (FROSTSignatureId.group sid)).key = key ∧
        signatureValue st'.post sid = .ok signature ∧
        signatureVerify st'.post sid (FROSTSignatureId.group sid) message = .ok signature := by
  intro message key
  obtain ⟨⟨hfresh, hverify, -⟩, hroot, hdone, hafter⟩ := completed_split hzero hadds hrun hcompleted
  refine ⟨hfresh, hverify, ?_, ?_⟩
  · intro st' hst' root' signature' hemits
    rcases List.mem_append.mp hst' with hbefore | hlater
    · -- seen from the earlier completion, this one is a second one
      obtain ⟨b₁, b₂, rfl⟩ := List.append_of_mem hbefore
      have hrun' : Trace.trace (step externals) deployed inputs = b₁ ++ st' :: (b₂ ++ st :: after) := by
        rw [hrun]
        simp
      obtain ⟨-, -, -, hnone⟩ := completed_split hzero hadds hrun' hemits
      exact (hnone st (by simp)).2 root signature hcompleted
    · exact (hafter st' hlater).2 root' signature' hemits
  · intro st' hst'
    have hkept : Completed st'.post sid root signature message key := by
      rcases List.mem_cons.mp hst' with rfl | hlater
      · exact hdone
      · exact (hafter st' hlater).1
    exact ⟨hkept.signed, hkept.message, hkept.key, hkept.signatureValue hroot,
      hkept.signatureVerify hroot⟩

end Run

/-! ### A share after the completion

Two participants build a selection with a leaf for each.  The first one's share alone adds up to
the commitment of the selection and completes the ceremony; then the second one's share is added
to the same aggregate.  The key is three times the generator, and the hashes and recovered
addresses are those of the real functions at the inputs of the run.
-/

/-- Reads a table of function values by the residues of the arguments. -/
def tabulated (table : List (Nat × Nat)) (argument : Nat) : Nat :=
  (table.lookup (argument % (2 ^ 64 - 59))).getD 1

def tabulatedKeccak (table : List (Nat × Nat)) (input : Bytes) : B256 :=
  BitVec.ofNat 256 (tabulated table (Bytes.value input))

/-- `MerkleProof.verify`: the leaf is hashed with the siblings up to the root. -/
def merkleVerify (keccak : Keccak) (proof : List B256) (root leaf : B256) : Bool :=
  let pair := fun (a b : B256) =>
    if a.toNat < b.toNat then keccak (Bytes.word a ++ Bytes.word b)
    else keccak (Bytes.word b ++ Bytes.word a)
  proof.foldl pair leaf = root

/-- The functions of the EVM from tables of their values. -/
def tabulatedExternals (keccakTable sha256Table ecrecoverTable : List (Nat × Nat)) : Externals where
  keccak256 := tabulatedKeccak keccakTable
  proofOfKnowledge := fun _ _ _ => true
  merkleProof := merkleVerify (tabulatedKeccak keccakTable)
  sha256 := fun input => BitVec.ofNat 256 (tabulated sha256Table (Bytes.value input))
  ecrecover := fun hash _ _ _ => BitVec.ofNat 160 (tabulated ecrecoverTable hash.toNat)

private def keccakTable : List (Nat × Nat) :=
  [ (0x738f675, 0xc47c2f4ab42fe2617dd76ca1eb9781d09fced5e5671df71824e2f8a8f694e024),
    (0xaecf4d1437eb5b0b, 0x4aa8882583dba94293ad06d6469f8b8f1ee2a556f96167ee7674519992f8d3f4),
    (0x7487e41e897eeeeb, 0xb8e8fc962bf5ccca6c6f73d280c0dbf239224071c59dd8970ab9d542e3414ab2),
    (0x18a3bce3814e2660, 0x12fe13c6c5304188f431a4c192d48ff5523c9b04aa426191b4bd21e6080f074a),
    (0x3fdf3b038ebcd03a, 0xec375b5a77804438a32db990f3abb6d10dd7c19435535d2bb07d77ca7e7d3220),
    (0xe8b19fcd97570cb9, 0xfce3c1d164a350c9207d2082e12585fa0b8eb45f205493a0d05395f69cc25e84),
    (0x8957ae4c0cdba458, 0xc1791b22c68f991fdf9178e4d8e896674965c23ec0916d493a204e296dfca90d),
    (0x6b3a0b2003cf0345, 0xc9b7d2d16d177a9f3793cc9ca4ca2e50245339aa00a68daa544b63f64e767b15),
    (0x7ea350707c0e6106, 0xbeb9b5ad724faa6e22b79fc02ef1f47e3244806c0faf4bd42d96cd1e05aeffec)]

private def sha256Table : List (Nat × Nat) :=
  [ (0xe1bc4d10087ee516, 0x8528d7d8e2ca8487332186adf1f60c1ebd115d61d6a00a4b439a41cfa94fb0f8),
    (0xcd3c9c2811b83be, 0xf9ff43a1a34ad32868541bfd03aed6e7aec67c2a7fa0522f41f84266d65d7d74),
    (0x94d9d034efddba40, 0x5fa773d4036f78f1ed89fdf7745e6fa84dee57d7aa1439f3e729ec0fbb78178b),
    (0xc940e3a735888947, 0xd5e2380ff5cee4e0343f9c5012c689544ae58c8de585f1d26c0634fea24cfe2a),
    (0xcc04816537f3b1d5, 0x1d16133e02c49909cf12331a2d07a2ec2a3f7e05424e4333156b41767c2b4f82),
    (0x2e35f1470358e7a4, 0x5ede8535dfb82096741d3873cb656c847a29aeaed9089d40fbd0ab1cbf229f52)]

private def ecrecoverTable : List (Nat × Nat) :=
  [ (0x41f32d3397d96571, 0x80c0dbf239224071c59dd8970ab9d542e3414ab2),
    (0xcd31ce8abf80e764, 0x92d48ff5523c9b04aa426191b4bd21e6080f074a),
    (0x82c8b224df80d8d2, 0xa4ca2e50245339aa00a68daa544b63f64e767b15)]

private def curveExternals : Externals := tabulatedExternals keccakTable sha256Table ecrecoverTable

def generator : Secp256k1.Point :=
  ⟨0x79be667ef9dcbbac55a06295ce870b07029bfcdb2dce28d959f2815b16f81798, 0x483ada7726a3c4655da4fbfc0e1108a8fd17b448a68554199c47d08ffb10d4b8⟩

def twiceGenerator : Secp256k1.Point :=
  ⟨0xc6047f9441ed7d6d3045406e95c07cd85c778e4b8cef3ca7abac09b95c709ee5, 0x1ae168fea63dc339a3c58419466ceaeef7f632653266d0e1236431a950cfe52a⟩

def thriceGenerator : Secp256k1.Point :=
  ⟨0xf9308a019258c31049344f85f89d5229b531c845836f99b08601f113bce036f9, 0x388f7b0f632de8140fe337e62a37f3566500a99934c2231b6cb9fd7584b8e672⟩

def pairGid : B256 := 0x4aa8882583dba94293ad06d6469f8b8f1ee2a556f96167ee0000000000000000

def pairSid : B256 := 0x4aa8882583dba94293ad06d6469f8b8f1ee2a556f96167ee0000000000000001

/-- Two participants generate a key. -/
def keyGenRun : List (Address × Call) :=
  let committed := fun (c : Secp256k1.Point) =>
    FROSTCoordinator.KeyGenCommitment.mk c ⟨generator, 1⟩ [c, generator] ⟨generator, 1⟩
  [(0xA, .keyGen (.keyGen 0xc47c2f4ab42fe2617dd76ca1eb9781d09fced5e5671df71824e2f8a8f694e024 2 2 0)),
    (0xA, .keyGen (.keyGenCommit pairGid [0xB] (committed generator))),
    (0xB, .keyGen (.keyGenCommit pairGid [0xA] (committed twiceGenerator))),
    (0xA, .keyGen (.keyGenSecretShare pairGid ⟨thriceGenerator, [0]⟩)),
    (0xB, .keyGen (.keyGenSecretShare pairGid ⟨twiceGenerator, [0]⟩)),
    (0xA, .keyGen (.keyGenConfirm pairGid)), (0xB, .keyGen (.keyGenConfirm pairGid))]

/-- A ceremony for message 7 starts. -/
private def ceremonyRun : List (Address × Call) := keyGenRun ++ [(0xA, .sign pairGid 7)]

private def pairSelection : SignSelection :=
  ⟨generator, 0xc1791b22c68f991fdf9178e4d8e896674965c23ec0916d493a204e296dfca90d⟩

private def firstShare : Address × Call :=
  (0xA, .signShare pairSid pairSelection
    ⟨generator, 0xc5645b352b379583557c5612d022631dadfa8ae0afb9e2d185fb8c2b41fe61bf, 1⟩
    [0xfce3c1d164a350c9207d2082e12585fa0b8eb45f205493a0d05395f69cc25e84])

private def secondShare : Address × Call :=
  (0xB, .signShare pairSid pairSelection
    ⟨twiceGenerator, 0xd8ed922372250e578e52e40c8ac19768b236a63804e9774a43edd24bc6bbac41, 1⟩
    [0xec375b5a77804438a32db990f3abb6d10dd7c19435535d2bb07d77ca7e7d3220])

private def firstSignature : FROST.Signature :=
  ⟨generator, 0xc5645b352b379583557c5612d022631dadfa8ae0afb9e2d185fb8c2b41fe61bf⟩

private def secondSignature : FROST.Signature :=
  ⟨thriceGenerator, 0x9e51ed589d5ca3dae3cf3a1f5ae3fa87a5825432055ab9e00a16ffea3883ccbf⟩

private theorem first_share_completes :
    (step curveExternals (Trace.final (step curveExternals) deployed ceremonyRun) firstShare).2 =
      .ok [.signShared pairSid pairSelection.root 0xA firstSignature.z,
        .signCompleted pairSid pairSelection.root firstSignature] := by
  decide +kernel

/-- A share added after the completion replaces the completed signature by one that is not valid. -/
theorem further_share_replaces_signature :
    (step curveExternals (Trace.final (step curveExternals) deployed ceremonyRun) firstShare).2 =
        .ok [.signShared pairSid pairSelection.root 0xA firstSignature.z,
          .signCompleted pairSid pairSelection.root firstSignature] ∧
      signatureValue (Trace.final (step curveExternals) deployed
        (ceremonyRun ++ [firstShare, secondShare])) pairSid = .ok secondSignature ∧
      FROST.verify curveExternals.precompiles thriceGenerator firstSignature 7 = .ok ⟨⟩ ∧
      FROST.verify curveExternals.precompiles thriceGenerator secondSignature 7 =
        .error .invalidMulMulAddWitness := by
  refine ⟨first_share_completes, ?_, ?_, ?_⟩
  · decide +kernel
  · decide +kernel
  · decide +kernel

private theorem tabulated_ne_zero {table : List (Nat × Nat)} (h : ∀ row ∈ table, row.2 % 2 ^ 256 ≠ 0)
    (argument : Nat) : tabulated table argument % 2 ^ 256 ≠ 0 := by
  unfold tabulated
  generalize argument % (2 ^ 64 - 59) = key
  induction table with
  | nil => exact Nat.one_ne_zero
  | cons row table ih =>
      rw [List.lookup_cons]
      cases key == row.1 with
      | true => exact h row (List.mem_cons_self ..)
      | false => exact ih fun row' hrow' => h row' (List.mem_cons_of_mem _ hrow')

private theorem keccak_ne_zero (input : Bytes) : tabulatedKeccak keccakTable input ≠ 0 := by
  intro hzero
  have htoNat := congrArg BitVec.toNat hzero
  unfold tabulatedKeccak at htoNat
  rw [BitVec.toNat_ofNat] at htoNat
  exact tabulated_ne_zero (by decide +kernel) _ htoNat

private theorem foldl_ne_zero {pair : B256 → B256 → B256} (hpair : ∀ a b, pair a b ≠ 0)
    (proof : List B256) : ∀ {leaf : B256}, leaf ≠ 0 → proof.foldl pair leaf ≠ 0 := by
  induction proof with
  | nil => intro leaf hleaf; exact hleaf
  | cons sibling proof ih => intro leaf _; exact ih (hpair _ _)

private theorem curve_noZeroRoot : NoZeroRoot curveExternals := by
  intro proof participant share r
  have hleaf : FROSTSignatureShares.hash curveExternals.keccak256 participant share r ≠ 0 :=
    keccak_ne_zero _
  have hpair : ∀ a b : B256, (if a.toNat < b.toNat then
      tabulatedKeccak keccakTable (Bytes.word a ++ Bytes.word b)
      else tabulatedKeccak keccakTable (Bytes.word b ++ Bytes.word a)) ≠ 0 := by
    intro a b
    split
    · exact keccak_ne_zero _
    · exact keccak_ne_zero _
  exact decide_eq_false (foldl_ne_zero hpair proof hleaf)

private theorem emitsCompleted_take {input : Address × Call} {sid root : B256}
    {signature : FROST.Signature} (hout : (step externals s input).2 = .ok events)
    (hmem : .signCompleted sid root signature ∈ events) :
    EmitsCompleted (Trace.take (step externals) s input) sid root signature :=
  ⟨events, hout, hmem⟩

/-- Without the second share, and whatever else is signed, the first signature stays. -/
theorem first_signature_stays :
    (∀ st' ∈ Trace.take (step curveExternals)
          (Trace.final (step curveExternals) deployed ceremonyRun) firstShare ::
        Trace.trace (step curveExternals) (step curveExternals
          (Trace.final (step curveExternals) deployed ceremonyRun) firstShare).1 [(0xB, .sign pairGid 8)],
      signatureValue st'.post pairSid = .ok firstSignature) ∧
    NoZeroRoot curveExternals := by
  refine ⟨fun st' hst' => ?_, curve_noZeroRoot⟩
  have hadds : ∀ st ∈ Trace.trace (step curveExternals) deployed
      (ceremonyRun ++ firstShare :: [(0xB, .sign pairGid 8)]),
      AddsToCompleted st.pre st.input.2 → st.out.isOk = false := by
    decide +kernel
  have hrun := Trace.trace_append (step curveExternals) ceremonyRun deployed
    (firstShare :: [(0xB, .sign pairGid 8)])
  rw [Trace.trace_cons] at hrun
  obtain ⟨-, -, -, hkept⟩ := completed_signature_is_final curveExternals curve_noZeroRoot hadds hrun
    (emitsCompleted_take first_share_completes (List.mem_cons_of_mem _ (List.mem_cons_self ..)))
  exact (hkept st' hst').2.2.2.1

end Coordinator

end Safenet.Contracts
