/-
A selection of signers completes exactly at its last share.

A selection is built by `signature_share`: the commitments of the signers add up to `R`, and the root
is that of the tree of their leaves.  The aggregate of a root is kept by the sums of what was
contributed to it (`sums_run`).  What ties the contributions to the signers is the tree: an accepted
share has a leaf in it, so it is a signer's, with the commitment and the coefficient of that signer,
and for the `R` of the selection (`signer_of_proof`).  `Aggregated` keeps this together with the
equation of every share, over every run.  Once all signers have contributed, their equations add up
to the one of the group, which is why the check of the completed signature passes.
-/
import Mathlib.Algebra.BigOperators.Group.Finset.Basic
import Safenet.Proofs.GroupLaw
import Safenet.Proofs.MerkleTree
import Safenet.Proofs.ShareVerification
import Safenet.Validator.Frost

namespace Safenet.Contracts.Coordinator

open Fallible
open Secp256k1 (N Point G Distinguishes Recovers Schnorr)
open FROST (challengeOf)
open Validator (Signer signerLeaf MerkleTree Verifies)

variable {externals : Externals} {s s' : State} {sender : Address} {events : List Event}
  {sid root : B256}

/-! ### What a share does -/

/-- The signature of a selection with one more share. -/
def withShare (signature : FROST.Signature) (sum : Point) (share : FROST.SignatureShare) :
    FROST.Signature :=
  ⟨sum, BitVec.ofNat 256 (Secp256k1.addmod signature.z.toNat share.z.toNat N)⟩

theorem register_eq_ok {self self' : FROSTSignatureShares.T} {share : FROST.SignatureShare} {r : Point}
    {proof : List B256} {signature : FROST.Signature} :
    FROSTSignatureShares.register externals self sender share r root proof = .ok (self', signature) ↔
      (self root).participants sender = 0 ∧
        externals.merkleProof proof root
          (FROSTSignatureShares.hash externals.keccak256 sender share r) = true ∧
        ∃ sum, Secp256k1.add (self root).signature.r share.r = .ok sum ∧
          signature = withShare (self root).signature sum share ∧
          self' = Function.update self root
            ⟨Function.update (self root).participants sender
              (FROSTSignatureShares.hash externals.keccak256 sender share r), signature⟩ := by
  unfold FROSTSignatureShares.register
  constructor
  · intro h
    obtain ⟨u, hfresh, h⟩ := bind_eq_ok.mp h
    obtain ⟨u, hproof, h⟩ := bind_eq_ok.mp h
    obtain ⟨sum, hsum, h⟩ := bind_eq_ok.mp h
    cases pure_eq_ok.mp h
    exact ⟨of_decide_eq_true (require_eq_ok.mp hfresh), require_eq_ok.mp hproof, sum,
      mapError_eq_ok.mp hsum, rfl, rfl⟩
  · rintro ⟨hfresh, hproof, sum, hsum, rfl, rfl⟩
    refine bind_eq_ok.mpr ⟨⟨⟩, require_eq_ok.mpr (decide_eq_true hfresh), ?_⟩
    refine bind_eq_ok.mpr ⟨⟨⟩, require_eq_ok.mpr hproof, ?_⟩
    exact bind_eq_ok.mpr ⟨sum, mapError_eq_ok.mpr hsum, rfl⟩

theorem getKey_eq_ok {participants : FROSTParticipantMap.T} {participant : Address} {y : Point} :
    getKey participants participant = .ok y ↔ y ≠ Secp256k1.zero ∧ y = participants.keys participant := by
  unfold getKey
  rw [bind_eq_ok]
  constructor
  · rintro ⟨u, hne, h⟩
    cases pure_eq_ok.mp h
    exact ⟨of_decide_eq_true (require_eq_ok.mp hne), rfl⟩
  · rintro ⟨hne, rfl⟩
    exact ⟨⟨⟩, require_eq_ok.mpr (decide_eq_true hne), rfl⟩

/-- The group of a ceremony. -/
abbrev groupOf (s : State) (sid : B256) : FROSTCoordinator.Group :=
  s.groups (FROSTSignatureId.group sid)

/-- The state with these shares of a ceremony. -/
def State.withShares (s : State) (sid : B256) (shares : FROSTSignatureShares.T) : State :=
  { s with signatures := Function.update s.signatures sid { s.signatures sid with shares } }

theorem signShare_eq {selection : SignSelection} {share : FROST.SignatureShare} {proof : List B256}
    {answer : State × Bool × List Event} :
    signShare externals s sender sid selection share proof = .ok answer ↔
      (s.signatures sid).message ≠ 0 ∧
        (groupOf s sid).participants.keys sender ≠ Secp256k1.zero ∧
        FROST.verifyShare externals.precompiles (groupOf s sid).key selection.r
          ((groupOf s sid).participants.keys sender) share (s.signatures sid).message = .ok ⟨⟩ ∧
        ∃ shares signature,
          FROSTSignatureShares.register externals (s.signatures sid).shares sender share selection.r
            selection.root proof = .ok (shares, signature) ∧
          complete externals (s.withShares sid shares) sid (groupOf s sid).key
            (s.signatures sid).message selection signature
            [.signShared sid selection.root sender share.z] = .ok answer := by
  unfold signShare signatureGroupAndMessage
  constructor
  · intro h
    obtain ⟨⟨group, message⟩, hgroup, h⟩ := bind_eq_ok.mp h
    obtain ⟨u, hmessage, hgroup⟩ := bind_eq_ok.mp hgroup
    cases pure_eq_ok.mp hgroup
    obtain ⟨y, hy, h⟩ := bind_eq_ok.mp h
    obtain ⟨hne, rfl⟩ := getKey_eq_ok.mp hy
    obtain ⟨u, hverify, h⟩ := bind_eq_ok.mp h
    obtain ⟨⟨shares, signature⟩, hregister, h⟩ := bind_eq_ok.mp h
    exact ⟨of_decide_eq_true (require_eq_ok.mp hmessage), hne, mapError_eq_ok.mp hverify, shares,
      signature, hregister, h⟩
  · rintro ⟨hmessage, hne, hverify, shares, signature, hregister, h⟩
    refine bind_eq_ok.mpr ⟨(groupOf s sid, (s.signatures sid).message), ?_, ?_⟩
    · exact bind_eq_ok.mpr ⟨⟨⟩, require_eq_ok.mpr (decide_eq_true hmessage), rfl⟩
    · refine bind_eq_ok.mpr ⟨_, getKey_eq_ok.mpr ⟨hne, rfl⟩, ?_⟩
      refine bind_eq_ok.mpr ⟨⟨⟩, mapError_eq_ok.mpr hverify, ?_⟩
      exact bind_eq_ok.mpr ⟨_, hregister, h⟩

/-- Points that are on the curve or zero are compared. -/
theorem eq_ok {p q : Point} (hp : p.Valid) (hq : q.Valid) :
    Secp256k1.eq p q = .ok (decide (p = q)) := by
  unfold Secp256k1.eq
  rw [Secp256k1.unpack_ok hp, Secp256k1.unpack_ok hq]
  refine congrArg Except.ok ?_
  cases p
  cases q
  simp [BitVec.toNat_inj]

/-- The answer when the sum is the one of the selection. -/
def completed (s : State) (sid : B256) (selection : SignSelection) (accumulator : FROST.Signature)
    (shared : List Event) : State × Bool × List Event :=
  if (s.signatures sid).signed = 0 then
    ({ s with
        signatures := Function.update s.signatures sid { s.signatures sid with signed := selection.root } },
      true, shared ++ [.signCompleted sid selection.root accumulator])
  else (s, false, shared)

/-- A ceremony completes if the sum is the one of the selection, and then the signature is valid. -/
theorem complete_eq_ok {key : Point} {message : B256} {selection : SignSelection}
    {accumulator : FROST.Signature} {answer : State × Bool × List Event} (hr : selection.r.Valid)
    (hsum : accumulator.r.Valid) :
    complete externals s sid key message selection accumulator events = .ok answer ↔
      selection.r ≠ accumulator.r ∧ answer = (s, false, events) ∨
        selection.r = accumulator.r ∧
          FROST.verify externals.precompiles key accumulator message = .ok ⟨⟩ ∧
          answer = completed s sid selection accumulator events := by
  have hequal := eq_ok hr hsum
  unfold complete
  rw [hequal]
  by_cases heq : selection.r = accumulator.r
  · rw [decide_eq_true heq]
    constructor
    · intro h
      obtain ⟨equal, hread, h⟩ := bind_eq_ok.mp h
      obtain rfl : true = equal := Except.ok.inj hread
      rw [if_pos rfl] at h
      obtain ⟨u, hverify, h⟩ := bind_eq_ok.mp h
      refine .inr ⟨heq, mapError_eq_ok.mp hverify, ?_⟩
      unfold completed
      by_cases hsigned : (s.signatures sid).signed = 0
      · rw [if_pos (by simpa using hsigned)] at h
        rw [if_pos hsigned]
        exact (pure_eq_ok.mp h).symm
      · rw [if_neg (by simpa using hsigned)] at h
        rw [if_neg hsigned]
        exact (pure_eq_ok.mp h).symm
    · rintro (⟨hne, -⟩ | ⟨-, hverify, rfl⟩)
      · exact absurd heq hne
      · refine bind_eq_ok.mpr ⟨true, rfl, ?_⟩
        rw [if_pos rfl]
        refine bind_eq_ok.mpr ⟨⟨⟩, mapError_eq_ok.mpr hverify, ?_⟩
        unfold completed
        by_cases hsigned : (s.signatures sid).signed = 0
        · rw [if_pos hsigned, if_pos (by simpa using hsigned)]
          rfl
        · rw [if_neg hsigned, if_neg (by simpa using hsigned)]
          rfl
  · rw [decide_eq_false heq]
    constructor
    · intro h
      obtain ⟨equal, hread, h⟩ := bind_eq_ok.mp h
      obtain rfl : false = equal := Except.ok.inj hread
      exact .inl ⟨heq, (pure_eq_ok.mp h).symm⟩
    · rintro (⟨-, rfl⟩ | ⟨heq', -⟩)
      · rfl
      · exact absurd heq' heq

/-! ### Selections -/

/-- What is hashed to the leaf of a signer. -/
def leafBytes (signer : Signer) (r : Point) : Bytes :=
  [toWord signer.address, signer.r.x, signer.r.y, signer.l, r.x, r.y].flatMap Bytes.word

/-- The leaves of the signers of a selection, in their order. -/
def leaves (keccak : Keccak) (signers : List Signer) (r : Point) : List B256 :=
  signers.map fun signer => signerLeaf keccak signer.address signer.r signer.l r

/-- A selection with the root of the tree of its signers, who are different participants. -/
structure Built (keccak : Keccak) (signers : List Signer) (selection : SignSelection) : Prop where
  distinct : (signers.map Signer.address).Nodup
  root : selection.root = (MerkleTree.build keccak (leaves keccak signers selection.r)).root

/-- What is hashed to build a selection. -/
def hashedBuild (keccak : Keccak) (signers : List Signer) (r : Point) : List Bytes :=
  signers.map (leafBytes · r) ++ MerkleTree.hashed keccak (leaves keccak signers r)

/-- What is hashed to check that a signer is in a selection. -/
def hashedCheck (keccak : Keccak) (signer : Signer) (r : Point) (proof : List B256) : List Bytes :=
  leafBytes signer r ::
    MerkleTree.checked keccak (signerLeaf keccak signer.address signer.r signer.l r) proof

/-- Different inputs have different hashes, and none is zero. -/
structure NoCollision (keccak : Keccak) (inputs : Set Bytes) : Prop where
  injective : ∀ a ∈ inputs, ∀ b ∈ inputs, keccak a = keccak b → a = b
  ne_zero : ∀ a ∈ inputs, keccak a ≠ 0

theorem leafBytes_length (signer : Signer) (r : Point) : (leafBytes signer r).length ≠ 64 := by
  rw [leafBytes, Bytes.flatMap_word_length]
  show 32 * 6 ≠ 64
  decide

theorem leafBytes_injective {signer signer' : Signer} {r r' : Point}
    (h : leafBytes signer r = leafBytes signer' r') : signer = signer' ∧ r = r' := by
  have hwords := Bytes.flatMap_word_inj h
  simp only [List.cons.injEq, and_true] at hwords
  obtain ⟨haddress, hx, hy, hl, hrx, hry⟩ := hwords
  have haddress := toWord_injective (by decide) haddress
  obtain ⟨address, ⟨x, y⟩, l⟩ := signer
  obtain ⟨address', ⟨x', y'⟩, l'⟩ := signer'
  obtain ⟨rx, ry⟩ := r
  obtain ⟨rx', ry'⟩ := r'
  simp only at haddress hx hy hl hrx hry
  subst haddress hx hy hl hrx hry
  exact ⟨rfl, rfl⟩

section Membership

variable {keccak : Keccak} {signers : List Signer} {selection : SignSelection} {inputs : Set Bytes}

/-- **Only a signer has a proof**, and only with its own values and the `R` of the selection. -/
theorem signer_of_proof (hbuilt : Built keccak signers selection) (hfree : NoCollision keccak inputs)
    (hbuild : ∀ a ∈ hashedBuild keccak signers selection.r, a ∈ inputs) {signer : Signer} {r : Point}
    {proof : List B256} (hcheck : ∀ a ∈ hashedCheck keccak signer r proof, a ∈ inputs)
    (h : proof.foldl (Validator.hashPair keccak)
      (signerLeaf keccak signer.address signer.r signer.l r) = selection.root) :
    signer ∈ signers ∧ r = selection.r := by
  have hleaf : leafBytes signer r ∈ inputs := hcheck _ List.mem_cons_self
  have hmembers : ∀ signer' ∈ signers, leafBytes signer' selection.r ∈ inputs := by
    intro signer' hsigner'
    exact hbuild _ (List.mem_append_left _ (List.mem_map_of_mem hsigner'))
  have hmem : signerLeaf keccak signer.address signer.r signer.l r ∈
      leaves keccak signers selection.r := by
    refine MerkleTree.mem_of_verifies hfree.injective hfree.ne_zero
      (fun a ha => hbuild a (List.mem_append_right _ ha))
      (fun a ha => hcheck a (List.mem_cons_of_mem _ ha)) ?_
      ⟨_, hleaf, leafBytes_length signer r, rfl⟩ (h.trans hbuilt.root)
    intro l hl
    obtain ⟨signer', hsigner', rfl⟩ := List.mem_map.mp hl
    exact ⟨_, hmembers signer' hsigner', leafBytes_length signer' selection.r, rfl⟩
  obtain ⟨signer', hsigner', heq⟩ := List.mem_map.mp hmem
  obtain ⟨rfl, rfl⟩ := leafBytes_injective
    (hfree.injective _ (hmembers signer' hsigner') _ hleaf heq)
  exact ⟨hsigner', rfl⟩

/-- The proof that a signer is given. -/
theorem proof_of_signer (hbuilt : Built keccak signers selection) {i : Nat} {signer : Signer}
    (hi : signers[i]? = some signer) :
    ((MerkleTree.build keccak (leaves keccak signers selection.r)).proof i).foldl
        (Validator.hashPair keccak)
        (signerLeaf keccak signer.address signer.r signer.l selection.r) = selection.root := by
  have hleaf : (leaves keccak signers selection.r)[i]? =
      some (signerLeaf keccak signer.address signer.r signer.l selection.r) := by
    rw [leaves, List.getElem?_map, hi, Option.map_some]
  obtain ⟨hlt, -⟩ := List.getElem?_eq_some_iff.mp hleaf
  have hfold := @MerkleTree.proof_leads_to_root keccak _ _ hlt
  rw [List.getD_eq_getElem?_getD, hleaf] at hfold
  rw [hbuilt.root]
  exact hfold

end Membership

/-! ### Contributions -/

/-- What a step contributed to a selection: who, with which share. -/
def contribution (sid root : B256) (st : CallStep) : Option (Signer × B256) :=
  (addedShare sid root st).map fun share => (⟨st.input.1, share.r, share.l⟩, share.z)

/-- What a run contributed to a selection, in order. -/
def contributions (sid root : B256) (steps : List CallStep) : List (Signer × B256) :=
  steps.filterMap (contribution sid root)

/-- The signers that contributed. -/
def contributed (sid root : B256) (steps : List CallStep) : Finset Signer :=
  ((contributions sid root steps).map Prod.fst).toFinset

theorem mem_contributed {steps : List CallStep} {signer : Signer} :
    signer ∈ contributed sid root steps ↔ ∃ c ∈ contributions sid root steps, c.1 = signer := by
  rw [contributed, List.mem_toFinset, List.mem_map]

/-- The share of a contribution. -/
def shareOf (contribution : Signer × B256) : FROST.SignatureShare :=
  ⟨contribution.1.r, contribution.2, contribution.1.l⟩

theorem addedShares_eq (steps : List CallStep) :
    addedShares sid root steps = (contributions sid root steps).map shareOf := by
  rw [contributions, List.map_filterMap]
  refine List.filterMap_congr fun st _ => ?_
  rw [contribution, Option.map_map]
  exact (Option.map_id' ..).symm

/-- The challenge of a ceremony. -/
def challengeIn (externals : Externals) (s : State) (sid : B256) (r : Point) : Nat :=
  challengeOf externals.precompiles r (groupOf s sid).key (s.signatures sid).message

/-- The equation of a share, with what `verifyShare` asks of the points and scalars in it. -/
def Satisfies (externals : Externals) (s : State) (sid : B256) (r : Point)
    (contribution : Signer × B256) : Prop :=
  contribution.2.toNat < N ∧ r.OnCurve ∧ (groupOf s sid).key.OnCurve ∧
    Schnorr contribution.2.toNat (challengeIn externals s sid r * contribution.1.l.toNat)
      ((groupOf s sid).participants.keys contribution.1.address) contribution.1.r

/-- The addresses that are compared to check a share belong to different points if they differ. -/
def Separates (externals : Externals) (s : State) (sid : B256) (r : Point)
    (contribution : Signer × B256) : Prop :=
  Distinguishes externals.keccak256
    (((challengeIn externals s sid r * contribution.1.l.toNat : ℕ) : ZMod N) •
        ((groupOf s sid).participants.keys contribution.1.address).toCurve -
      (contribution.2.toNat : ZMod N) • G.toCurve)
    (-contribution.1.r.toCurve)

/-- No check of a share of the selection is mistaken: what it hashes is among the inputs, and the
addresses it compares are told apart. -/
def Sure (externals : Externals) (sid root : B256) (inputs : Set Bytes) (st : CallStep) : Prop :=
  ∀ selection share proof, st.input.2 = .signShare sid selection share proof → selection.root = root →
    (∀ a ∈ hashedCheck externals.keccak256 ⟨st.input.1, share.r, share.l⟩ selection.r proof,
      a ∈ inputs) ∧
      Separates externals st.pre sid selection.r (⟨st.input.1, share.r, share.l⟩, share.z)

theorem verifyShare_iff_satisfies (hrecovers : Recovers externals.precompiles) {r : Point}
    {contribution : Signer × B256} (hseparates : Separates externals s sid r contribution) :
    FROST.verifyShare externals.precompiles (groupOf s sid).key r
        ((groupOf s sid).participants.keys contribution.1.address) (shareOf contribution)
        (s.signatures sid).message = .ok ⟨⟩ ↔ Satisfies externals s sid r contribution :=
  FROST.verifyShare_iff hrecovers hseparates

/-- A call keeps the verification shares of a group that signs. -/
theorem call_participants (h : CeremoniesOK s) {c : Call}
    (hcall : call externals s sender c = .ok (s', events)) (hstarted : (s.signatures sid).message ≠ 0) :
    (groupOf s' sid).participants = (groupOf s sid).participants := by
  cases c with
  | keyGen c =>
      obtain ⟨groups, out, hkeyGen, rfl, -⟩ := keyGen_ok hcall
      exact congrArg _ ((keyGen_group h hkeyGen _).1 (h.started sid hstarted).1)
  | sign gid message =>
      obtain ⟨⟨s₁, sid', out⟩, hsign, hret⟩ := bind_eq_ok.mp hcall
      have heq := pure_eq_ok.mp hret
      simp only [Prod.mk.injEq] at heq
      obtain ⟨rfl, -⟩ := heq
      obtain ⟨-, -, -, -, hgroups, -⟩ := sign_ok hsign
      show (s₁.groups _).participants = _
      rw [hgroups]
      by_cases hgid : FROSTSignatureId.group sid = gid
      · rw [hgid, Function.update_self, ← hgid]
      · rw [Function.update_of_ne hgid]
  | signCommitNonces sid' nonces =>
      obtain ⟨rfl, -⟩ := signCommitNonces_ok hcall
      rfl
  | signShare sid' selection share proof =>
      obtain ⟨⟨s₁, done, out⟩, hshare, hret⟩ := bind_eq_ok.mp hcall
      have heq := pure_eq_ok.mp hret
      simp only [Prod.mk.injEq] at heq
      obtain ⟨rfl, -⟩ := heq
      obtain ⟨-, hgroups, -⟩ := signShare_ok hshare
      show (s₁.groups _).participants = _
      rw [hgroups]

/-- A call keeps what the equation of a share is about. -/
theorem Satisfies.call {r : Point} {contribution : Signer × B256}
    (hsatisfies : Satisfies externals s sid r contribution) (h : CeremoniesOK s) {c : Call}
    (hcall : Coordinator.call externals s sender c = .ok (s', events))
    (hstarted : (s.signatures sid).message ≠ 0) : Satisfies externals s' sid r contribution := by
  obtain ⟨hmessage, hkey, -⟩ := call_ceremony h hcall hstarted
  have hparticipants := call_participants h hcall hstarted
  unfold Satisfies challengeIn at hsatisfies ⊢
  rw [hmessage, hparticipants]
  rw [show (groupOf s' sid).key = (groupOf s sid).key from hkey]
  exact hsatisfies

/-! ### The signature of all signers -/

/-- The commitments of the signers add up to `R`, and those of no other group of them do. -/
structure AddsUp (signers : List Signer) (r : Point) : Prop where
  sum : ∑ signer ∈ signers.toFinset, signer.r.toCurve = r.toCurve
  minimal : ∀ part ⊂ signers.toFinset, part.Nonempty →
    ∑ signer ∈ part, signer.r.toCurve ≠ r.toCurve

/-- The verification shares of the signers give the key of the group. -/
def Interpolates (s : State) (sid : B256) (signers : List Signer) : Prop :=
  ∑ signer ∈ signers.toFinset,
      (signer.l.toNat : ZMod N) • ((groupOf s sid).participants.keys signer.address).toCurve =
    (groupOf s sid).key.toCurve

/-- What `mulmuladd` asks of the key and of `R`. -/
def Checkable (externals : Externals) (s : State) (sid : B256) (r : Point) : Prop :=
  0 < (groupOf s sid).key.x.toNat ∧ (groupOf s sid).key.x.toNat < N ∧
    Secp256k1.address externals.keccak256 (-r.toCurve) ≠ 0

/-- The signature that contributions add up to. -/
def signatureOf (r : Point) (contributions : List (Signer × B256)) : FROST.Signature :=
  ⟨r, BitVec.ofNat 256 ((contributions.map (·.2.toNat)).sum % N)⟩

/-- The equations of all signers add up to the one of the group. -/
theorem verify_signatureOf (hrecovers : Recovers externals.precompiles) {signers : List Signer} {r : Point}
    {cs : List (Signer × B256)} (hne : cs ≠ []) (hnodup : (cs.map Prod.fst).Nodup)
    (hall : (cs.map Prod.fst).toFinset = signers.toFinset)
    (hsatisfied : ∀ c ∈ cs, Satisfies externals s sid r c) (hsum : AddsUp signers r)
    (hgroup : Interpolates s sid signers) (hcheckable : Checkable externals s sid r) :
    FROST.verify externals.precompiles (groupOf s sid).key (signatureOf r cs)
      (s.signatures sid).message = .ok ⟨⟩ := by
  obtain ⟨c₀, hc₀⟩ := List.exists_mem_of_ne_nil cs hne
  obtain ⟨-, hr, hkey, -, -, -, -, hscalar, -⟩ := hsatisfied c₀ hc₀
  have hchallenge : (challengeIn externals s sid r : ZMod N) ≠ 0 := by
    intro hzero
    rw [Nat.cast_mul, hzero, zero_mul] at hscalar
    exact hscalar rfl
  -- a sum over the contributions is a sum over the signers
  have hsigners : ∀ f : Signer → Secp256k1.Curve,
      (cs.map fun c => f c.1).sum = ∑ signer ∈ signers.toFinset, f signer := by
    intro f
    rw [← hall, List.sum_toFinset f hnodup, List.map_map]
    rfl
  have hshare : ∀ c ∈ cs, (c.2.toNat : ZMod N) • G.toCurve = c.1.r.toCurve +
      (challengeIn externals s sid r : ZMod N) • ((c.1.l.toNat : ZMod N) •
        ((groupOf s sid).participants.keys c.1.address).toCurve) := by
    intro c hc
    obtain ⟨-, -, -, -, -, -, -, -, hequation⟩ := hsatisfied c hc
    rw [smul_smul, ← Nat.cast_mul, ← sub_eq_iff_eq_add]
    exact hequation
  have hz : (signatureOf r cs).z.toNat = (cs.map (·.2.toNat)).sum % N := Secp256k1.ofNat_mod_toNat _
  have htotal : ((signatureOf r cs).z.toNat : ZMod N) • G.toCurve =
      r.toCurve + (challengeIn externals s sid r : ZMod N) • (groupOf s sid).key.toCurve := by
    calc ((signatureOf r cs).z.toNat : ZMod N) • G.toCurve
        = (cs.map fun c => (c.2.toNat : ZMod N) • G.toCurve).sum := by
          rw [hz, ZMod.natCast_mod, Nat.cast_list_sum, List.sum_smul, List.map_map, List.map_map]
          rfl
      _ = (cs.map fun c => c.1.r.toCurve).sum +
            (cs.map fun c => (challengeIn externals s sid r : ZMod N) • ((c.1.l.toNat : ZMod N) •
              ((groupOf s sid).participants.keys c.1.address).toCurve)).sum := by
          rw [List.map_congr_left hshare, List.sum_map_add]
      _ = r.toCurve + (challengeIn externals s sid r : ZMod N) • (groupOf s sid).key.toCurve := by
          rw [hsigners fun signer => signer.r.toCurve, hsum.sum,
            hsigners fun signer => (challengeIn externals s sid r : ZMod N) •
              ((signer.l.toNat : ZMod N) •
                ((groupOf s sid).participants.keys signer.address).toCurve),
            ← Finset.smul_sum, hgroup]
  have hequation : (challengeIn externals s sid r : ZMod N) • (groupOf s sid).key.toCurve -
      ((signatureOf r cs).z.toNat : ZMod N) • G.toCurve = -r.toCurve := by
    rw [htotal, sub_add_cancel_right]
  have hdistinct : Distinguishes externals.keccak256
      ((challengeOf externals.precompiles (signatureOf r cs).r (groupOf s sid).key
          (s.signatures sid).message : ZMod N) • (groupOf s sid).key.toCurve -
        ((signatureOf r cs).z.toNat : ZMod N) • G.toCurve) (-(signatureOf r cs).r.toCurve) := by
    rw [show (challengeOf externals.precompiles (signatureOf r cs).r (groupOf s sid).key
      (s.signatures sid).message) = challengeIn externals s sid r from rfl, hequation]
    exact Secp256k1.distinguishes_self hcheckable.2.2
  refine (FROST.verify_iff hrecovers hdistinct).mpr ⟨?_, hkey, hr, hcheckable.1, hcheckable.2.1,
    hchallenge, sub_eq_iff_eq_add.mpr htotal⟩
  rw [hz]
  exact Nat.mod_lt _ Secp256k1.prime_N.pos

/-! ### Every run -/

/-- The history of a selection agrees with what is stored of it. -/
structure Aggregated (externals : Externals) (sid : B256) (signers : List Signer)
    (selection : SignSelection) (steps : List CallStep) (s : State) : Prop where
  ceremonies : CeremoniesOK s
  /-- Nobody contributed twice. -/
  distinct : ((contributions sid selection.root steps).map (·.1.address)).Nodup
  member : ∀ c ∈ contributions sid selection.root steps, c.1 ∈ signers
  /-- Who contributed has a leaf, and nobody else. -/
  recorded : ∀ a, ((s.signatures sid).shares selection.root).participants a = 0 ↔
    ∀ c ∈ contributions sid selection.root steps, c.1.address ≠ a
  started : ∀ c ∈ contributions sid selection.root steps, (s.signatures sid).message ≠ 0
  satisfied : ∀ c ∈ contributions sid selection.root steps, Satisfies externals s sid selection.r c

section Run

variable {signers : List Signer} {selection : SignSelection} {inputs : Set Bytes} {steps : List CallStep}

theorem Aggregated.nodup (h : Aggregated externals sid signers selection steps s) :
    ((contributions sid selection.root steps).map Prod.fst).Nodup := by
  refine List.Nodup.of_map Signer.address ?_
  rw [List.map_map]
  exact h.distinct

/-- A share that is accepted is a signer's, and its first one. -/
theorem Aggregated.accepted (h : Aggregated externals sid signers selection steps s)
    (hverifies : Verifies externals.keccak256 externals.merkleProof)
    (hrecovers : Recovers externals.precompiles) (hbuilt : Built externals.keccak256 signers selection)
    (hfree : NoCollision externals.keccak256 inputs)
    (hbuild : ∀ a ∈ hashedBuild externals.keccak256 signers selection.r, a ∈ inputs)
    {selection' : SignSelection} {share : FROST.SignatureShare} {proof : List B256}
    (hcheck : ∀ a ∈ hashedCheck externals.keccak256 ⟨sender, share.r, share.l⟩ selection'.r proof,
      a ∈ inputs)
    (hseparates : Separates externals s sid selection'.r (⟨sender, share.r, share.l⟩, share.z))
    (hroot : selection'.root = selection.root) {answer : State × Bool × List Event}
    (hshare : signShare externals s sender sid selection' share proof = .ok answer) :
    ⟨sender, share.r, share.l⟩ ∈ signers ∧ selection' = selection ∧
      (∀ c ∈ contributions sid selection.root steps, c.1.address ≠ sender) ∧
      (s.signatures sid).message ≠ 0 ∧
      Satisfies externals s sid selection.r (⟨sender, share.r, share.l⟩, share.z) := by
  obtain ⟨hmessage, -, hverify, shares, signature, hregister, -⟩ := signShare_eq.mp hshare
  obtain ⟨hfresh, hproof, -⟩ := register_eq_ok.mp hregister
  rw [hverifies] at hproof
  obtain ⟨hmember, hr⟩ := signer_of_proof hbuilt hfree hbuild hcheck
    ((of_decide_eq_true hproof).trans hroot)
  obtain rfl : selection' = selection := by
    cases selection
    cases selection'
    exact congrArg₂ SignSelection.mk hr hroot
  refine ⟨hmember, rfl, (h.recorded sender).mp hfresh, hmessage, ?_⟩
  exact (verifyShare_iff_satisfies hrecovers hseparates).mp hverify

/-- The leaves after a share was accepted. -/
theorem signShare_participants {selection : SignSelection} {share : FROST.SignatureShare}
    {proof : List B256} {done : Bool}
    (hshare : signShare externals s sender sid selection share proof = .ok (s', done, events)) :
    ((s'.signatures sid).shares selection.root).participants =
      Function.update ((s.signatures sid).shares selection.root).participants sender
        (signerLeaf externals.keccak256 sender share.r share.l selection.r) := by
  obtain ⟨shares, signature, hregister, hself, -⟩ := signShare_aggregate hshare
  obtain ⟨-, -, sum, -, -, rfl⟩ := register_eq_ok.mp hregister
  rw [hself, Function.update_self]
  rfl

theorem Aggregated.concat (h : Aggregated externals sid signers selection steps s)
    (hverifies : Verifies externals.keccak256 externals.merkleProof)
    (hrecovers : Recovers externals.precompiles) (hbuilt : Built externals.keccak256 signers selection)
    (hfree : NoCollision externals.keccak256 inputs)
    (hbuild : ∀ a ∈ hashedBuild externals.keccak256 signers selection.r, a ∈ inputs)
    {input : Address × Call}
    (hsure : Sure externals sid selection.root inputs (Trace.take (step externals) s input)) :
    Aggregated externals sid signers selection (steps ++ [Trace.take (step externals) s input])
      (step externals s input).1 := by
  obtain ⟨sender, c⟩ := input
  have hconcat : contributions sid selection.root
      (steps ++ [Trace.take (step externals) s (sender, c)]) =
        contributions sid selection.root steps ++
          (contribution sid selection.root (Trace.take (step externals) s (sender, c))).toList := by
    rw [contributions, List.filterMap_append]
    cases hc : contribution sid selection.root (Trace.take (step externals) s (sender, c)) <;>
      simp [contributions, hc]
  rcases hout : (step externals s (sender, c)).2 with error | events
  · have hsame : (step externals s (sender, c)).1 = s := transact_error hout
    have hnone : contribution sid selection.root (Trace.take (step externals) s (sender, c)) = none := by
      rw [contribution, addedShare, Trace.take_out, hout]
      rfl
    rw [hnone, Option.toList_none, List.append_nil] at hconcat
    rw [hsame]
    exact ⟨h.ceremonies, by rw [hconcat]; exact h.distinct, by rw [hconcat]; exact h.member,
      by rw [hconcat]; exact h.recorded, by rw [hconcat]; exact h.started,
      by rw [hconcat]; exact h.satisfied⟩
  · have hcall : call externals s sender c = .ok ((step externals s (sender, c)).1, events) :=
      transact_ok hout
    have htake : addedShare sid selection.root (Trace.take (step externals) s (sender, c)) =
        addedShare sid selection.root
          ⟨s, (sender, c), .ok events, (step externals s (sender, c)).1⟩ := by
      rw [addedShare, Trace.take_out, hout]
      rfl
    have hstarted : ∀ c' ∈ contributions sid selection.root steps,
        ((step externals s (sender, c)).1.signatures sid).message ≠ 0 := by
      intro c' hc'
      rw [(call_ceremony h.ceremonies hcall (h.started c' hc')).1]
      exact h.started c' hc'
    have hsatisfied : ∀ c' ∈ contributions sid selection.root steps,
        Satisfies externals (step externals s (sender, c)).1 sid selection.r c' :=
      fun c' hc' => (h.satisfied c' hc').call h.ceremonies hcall (h.started c' hc')
    have hceremonies : CeremoniesOK (step externals s (sender, c)).1 := h.ceremonies.call hcall
    generalize (step externals s (sender, c)).1 = s' at *
    cases hadded : addedShare sid selection.root ⟨s, (sender, c), .ok events, s'⟩ with
    | none =>
        have hnone : contribution sid selection.root (Trace.take (step externals) s (sender, c)) =
            none := by
          rw [contribution, htake, hadded]
          rfl
        rw [hnone, Option.toList_none, List.append_nil] at hconcat
        refine ⟨hceremonies, ?_, ?_, ?_, ?_, ?_⟩ <;> rw [hconcat]
        · exact h.distinct
        · exact h.member
        · rw [call_kept hcall hadded]
          exact h.recorded
        · exact hstarted
        · exact hsatisfied
    | some share =>
        have hsome : contribution sid selection.root (Trace.take (step externals) s (sender, c)) =
            some (⟨sender, share.r, share.l⟩, share.z) := by
          rw [contribution, htake, hadded]
          rfl
        rw [hsome, Option.toList_some] at hconcat
        obtain ⟨selection', proof, done, rfl, hroot, hshare⟩ := call_added hcall hadded
        obtain ⟨hcheck, hseparates⟩ := hsure selection' share proof rfl hroot
        obtain ⟨hmember, rfl, hfresh, hmessage, hshared⟩ :=
          h.accepted hverifies hrecovers hbuilt hfree hbuild hcheck hseparates hroot hshare
        have hleaf : signerLeaf externals.keccak256 sender share.r share.l selection'.r ≠ 0 :=
          hfree.ne_zero _ (hcheck _ List.mem_cons_self)
        refine ⟨hceremonies, ?_, ?_, ?_, ?_, ?_⟩ <;> rw [hconcat]
        · rw [List.map_append, List.nodup_append]
          refine ⟨h.distinct, List.nodup_singleton _, ?_⟩
          intro a ha b hb
          obtain ⟨c', hc', rfl⟩ := List.mem_map.mp ha
          rw [List.mem_singleton.mp hb]
          exact hfresh c' hc'
        · exact List.forall_mem_append.mpr ⟨h.member, List.forall_mem_singleton.mpr hmember⟩
        · intro a
          rw [signShare_participants hshare, List.forall_mem_append, List.forall_mem_singleton]
          by_cases ha : a = sender
          · subst ha
            rw [Function.update_self]
            exact ⟨fun hzero => absurd hzero hleaf, fun hne => absurd rfl hne.2⟩
          · rw [Function.update_of_ne ha, h.recorded a]
            exact ⟨fun hne => ⟨hne, Ne.symm ha⟩, And.left⟩
        · have hkept := (call_ceremony h.ceremonies hcall hmessage).1
          intro c' _
          rw [hkept]
          exact hmessage
        · exact List.forall_mem_append.mpr ⟨hsatisfied,
            List.forall_mem_singleton.mpr (hshared.call h.ceremonies hcall hmessage)⟩

/-- A signer that has not contributed is one with an address that has not. -/
theorem Aggregated.fresh_iff (h : Aggregated externals sid signers selection steps s)
    (hbuilt : Built externals.keccak256 signers selection) {signer : Signer} (hsigner : signer ∈ signers) :
    (∀ c ∈ contributions sid selection.root steps, c.1.address ≠ signer.address) ↔
      signer ∉ contributed sid selection.root steps := by
  rw [mem_contributed]
  constructor
  · rintro hfresh ⟨c, hc, rfl⟩
    exact hfresh c hc rfl
  · intro hnot c hc haddress
    exact hnot ⟨c, hc, List.inj_on_of_nodup_map hbuilt.distinct (h.member c hc) hsigner haddress⟩

/-- The sums of a selection, on the curve. -/
theorem Aggregated.sums (h : Aggregated externals sid signers selection steps s)
    {signature : FROST.Signature}
    (hsums : Sums ((contributions sid selection.root steps).map shareOf) signature) :
    signature.r.Valid ∧
      signature.r.toCurve = ∑ signer ∈ contributed sid selection.root steps, signer.r.toCurve ∧
      signature.z.toNat = ((contributions sid selection.root steps).map (·.2.toNat)).sum % N := by
  obtain ⟨hr, hz⟩ := hsums
  have hvalid : ∀ p ∈ ((contributions sid selection.root steps).map shareOf).map (·.r), p.Valid := by
    intro p hp
    obtain ⟨share, hshare, rfl⟩ := List.mem_map.mp hp
    obtain ⟨c, hc, rfl⟩ := List.mem_map.mp hshare
    obtain ⟨-, -, -, -, hcurve, -⟩ := h.satisfied c hc
    exact .inr (Secp256k1.onCurve_iff.mp hcurve)
  obtain ⟨r, hr', hrvalid, hsum⟩ := FROSTCoordinator.sumPoints_ok hvalid
  cases Except.ok.inj (hr.symm.trans hr')
  refine ⟨hrvalid, hsum.trans ?_, ?_⟩
  · rw [contributed, List.sum_toFinset _ h.nodup]
    simp only [List.map_map]
    rfl
  · rw [hz, List.map_map]
    rfl

theorem Aggregated.insert_subset (h : Aggregated externals sid signers selection steps s)
    {signer : Signer} (hsigner : signer ∈ signers) :
    insert signer (contributed sid selection.root steps) ⊆ signers.toFinset := by
  intro x hx
  rcases Finset.mem_insert.mp hx with rfl | hx
  · exact List.mem_toFinset.mpr hsigner
  · obtain ⟨c, hc, rfl⟩ := mem_contributed.mp hx
    exact List.mem_toFinset.mpr (h.member c hc)

/-- The aggregate with one more share. -/
theorem Aggregated.added (h : Aggregated externals sid signers selection steps s)
    {aggregate : FROST.Signature}
    (hsums : Sums ((contributions sid selection.root steps).map shareOf) aggregate) {signer : Signer}
    {z : B256} (hfresh : signer ∉ contributed sid selection.root steps) (hcurve : signer.r.OnCurve)
    {sum : Point} (hadd : Secp256k1.add aggregate.r signer.r = .ok sum) :
    sum.Valid ∧
      sum.toCurve =
        ∑ signer' ∈ insert signer (contributed sid selection.root steps), signer'.r.toCurve ∧
      withShare aggregate sum (shareOf (signer, z)) =
        signatureOf sum (contributions sid selection.root steps ++ [(signer, z)]) := by
  obtain ⟨hvalid, hr, hz⟩ := h.sums hsums
  obtain ⟨sum', hadd', hsum, htotal⟩ :=
    Secp256k1.add_ok hvalid (.inr (Secp256k1.onCurve_iff.mp hcurve))
  cases Except.ok.inj (hadd.symm.trans hadd')
  refine ⟨hsum, ?_, ?_⟩
  · rw [htotal, hr, Finset.sum_insert hfresh, add_comm]
  · unfold withShare signatureOf
    rw [hz, Secp256k1.addmod, Nat.mod_add_mod, List.map_append, List.sum_append]
    rfl

/-- Whether the sum is the one of the selection tells whether all signers have contributed. -/
theorem AddsUp.eq_iff (hsum : AddsUp signers selection.r) {part : Finset Signer} {r : Point}
    (hpart : part ⊆ signers.toFinset) (hne : part.Nonempty) (hr : r.Valid)
    (hvalid : selection.r.Valid) (htotal : r.toCurve = ∑ signer ∈ part, signer.r.toCurve) :
    selection.r = r ↔ part = signers.toFinset := by
  constructor
  · intro heq
    by_contra hproper
    refine hsum.minimal part (Finset.ssubset_iff_subset_ne.mpr ⟨hpart, hproper⟩) hne ?_
    rw [← htotal, heq]
  · rintro rfl
    exact Secp256k1.toCurve_injective hvalid hr (by rw [htotal, hsum.sum])

/-- What a share does that is accepted. -/
theorem Aggregated.outcome (h : Aggregated externals sid signers selection steps s)
    (hsums : Sums ((contributions sid selection.root steps).map shareOf)
      ((s.signatures sid).shares selection.root).signature)
    (hsum : AddsUp signers selection.r) {signer : Signer} {z : B256} (hsigner : signer ∈ signers)
    (hfresh : signer ∉ contributed sid selection.root steps)
    (hsatisfies : Satisfies externals s sid selection.r (signer, z)) {proof : List B256} {done : Bool}
    (hshare : signShare externals s signer.address sid selection (shareOf (signer, z)) proof =
      .ok (s', done, events)) :
    (insert signer (contributed sid selection.root steps) ≠ signers.toFinset →
      (s'.signatures sid).signed = (s.signatures sid).signed ∧
        events = [.signShared sid selection.root signer.address z]) ∧
    (insert signer (contributed sid selection.root steps) = signers.toFinset →
      let signature := signatureOf selection.r (contributions sid selection.root steps ++ [(signer, z)])
      FROST.verify externals.precompiles (groupOf s sid).key signature (s.signatures sid).message =
          .ok ⟨⟩ ∧
        if (s.signatures sid).signed = 0 then
          (s'.signatures sid).signed = selection.root ∧
            events = [.signShared sid selection.root signer.address z,
              .signCompleted sid selection.root signature]
        else
          (s'.signatures sid).signed = (s.signatures sid).signed ∧
            events = [.signShared sid selection.root signer.address z]) := by
  obtain ⟨-, hr, -, -, hcurve, -⟩ := hsatisfies
  have hvalid : selection.r.Valid := .inr (Secp256k1.onCurve_iff.mp hr)
  obtain ⟨-, -, -, shares, signature, hregister, hcomplete⟩ := signShare_eq.mp hshare
  obtain ⟨-, -, sum, hadd, hsignature, -⟩ := register_eq_ok.mp hregister
  obtain ⟨hsumValid, htotal, hwith⟩ := h.added (z := z) hsums hfresh hcurve hadd
  rw [hwith] at hsignature
  subst hsignature
  have hall := hsum.eq_iff (h.insert_subset hsigner) (Finset.insert_nonempty ..) hsumValid hvalid htotal
  have hkept : (((s.withShares sid shares).signatures sid).signed) = (s.signatures sid).signed := by
    simp [State.withShares]
  rcases (complete_eq_ok hvalid hsumValid).mp hcomplete with ⟨hne, hanswer⟩ | ⟨heq, hverify, hanswer⟩
  · refine ⟨fun _ => ?_, fun hfull => absurd (hall.mpr hfull) hne⟩
    cases hanswer
    exact ⟨hkept, rfl⟩
  · refine ⟨fun hproper => absurd (hall.mp heq) hproper, fun _ => ?_⟩
    have hsame : selection.r = sum := heq
    rw [← hsame] at hverify hanswer
    refine ⟨hverify, ?_⟩
    unfold completed at hanswer
    rw [hkept] at hanswer
    by_cases hsigned : (s.signatures sid).signed = 0
    · rw [if_pos hsigned] at hanswer ⊢
      cases hanswer
      exact ⟨by simp, rfl⟩
    · rw [if_neg hsigned] at hanswer ⊢
      cases hanswer
      exact ⟨hkept, rfl⟩

/-- A signer's first share that satisfies its equation is accepted. -/
theorem Aggregated.accepts (h : Aggregated externals sid signers selection steps s)
    (hverifies : Verifies externals.keccak256 externals.merkleProof)
    (hrecovers : Recovers externals.precompiles) (hbuilt : Built externals.keccak256 signers selection)
    (hsums : Sums ((contributions sid selection.root steps).map shareOf)
      ((s.signatures sid).shares selection.root).signature)
    (hsum : AddsUp signers selection.r) {i : Nat} {signer : Signer} {z : B256}
    (hi : signers[i]? = some signer) (hfresh : signer ∉ contributed sid selection.root steps)
    (hseparates : Separates externals s sid selection.r (signer, z))
    (hsatisfies : Satisfies externals s sid selection.r (signer, z))
    (hmessage : (s.signatures sid).message ≠ 0) (hgroup : Interpolates s sid signers)
    (hcheckable : Checkable externals s sid selection.r) :
    ∃ answer, signShare externals s signer.address sid selection (shareOf (signer, z))
      ((MerkleTree.build externals.keccak256
        (leaves externals.keccak256 signers selection.r)).proof i) = .ok answer := by
  have hsigner : signer ∈ signers := List.mem_of_getElem? hi
  obtain ⟨-, hr, -, hy, hcurve, -⟩ := id hsatisfies
  have hvalid : selection.r.Valid := .inr (Secp256k1.onCurve_iff.mp hr)
  obtain ⟨hold, -, -⟩ := h.sums hsums
  obtain ⟨sum, hadd, -, -⟩ := Secp256k1.add_ok hold (.inr (Secp256k1.onCurve_iff.mp hcurve))
  obtain ⟨hsumValid, htotal, hwith⟩ := h.added (z := z) hsums hfresh hcurve hadd
  have hnonzero : (groupOf s sid).participants.keys signer.address ≠ Secp256k1.zero := by
    intro hzero
    have hy' : ((groupOf s sid).participants.keys signer.address).OnCurve := hy
    rw [hzero] at hy'
    exact Secp256k1.not_zero (Secp256k1.onCurve_iff.mp hy') ⟨rfl, rfl⟩
  obtain ⟨shares, hregister⟩ : ∃ shares, FROSTSignatureShares.register externals
      (s.signatures sid).shares signer.address (shareOf (signer, z)) selection.r selection.root
      ((MerkleTree.build externals.keccak256
        (leaves externals.keccak256 signers selection.r)).proof i) =
          .ok (shares, withShare ((s.signatures sid).shares selection.root).signature sum
            (shareOf (signer, z))) := by
    refine ⟨_, register_eq_ok.mpr ⟨?_, ?_, sum, hadd, rfl, rfl⟩⟩
    · exact (h.recorded signer.address).mpr ((h.fresh_iff hbuilt hsigner).mpr hfresh)
    · rw [hverifies]
      exact decide_eq_true (proof_of_signer hbuilt hi)
  have hall := hsum.eq_iff (h.insert_subset hsigner) (Finset.insert_nonempty ..) hsumValid hvalid htotal
  have haccumulator : (withShare ((s.signatures sid).shares selection.root).signature sum
      (shareOf (signer, z))).r.Valid := hsumValid
  have hverified := (verifyShare_iff_satisfies hrecovers hseparates).mpr hsatisfies
  by_cases hfull : insert signer (contributed sid selection.root steps) = signers.toFinset
  · have heq : selection.r = sum := hall.mpr hfull
    have hverify : FROST.verify externals.precompiles (groupOf s sid).key
        (withShare ((s.signatures sid).shares selection.root).signature sum (shareOf (signer, z)))
        (s.signatures sid).message = .ok ⟨⟩ := by
      rw [hwith, ← heq]
      refine verify_signatureOf hrecovers (List.append_ne_nil_of_right_ne_nil _ (List.cons_ne_nil _ _))
        ?_ ?_ ?_ hsum hgroup hcheckable
      · rw [List.map_append, List.nodup_append]
        refine ⟨h.nodup, List.nodup_singleton _, ?_⟩
        rintro a ha b hb rfl
        rw [List.mem_singleton.mp hb] at ha
        exact hfresh (List.mem_toFinset.mpr ha)
      · rw [← hfull, List.map_append, List.toFinset_append, contributed, Finset.union_comm]
        rfl
      · exact List.forall_mem_append.mpr ⟨h.satisfied, List.forall_mem_singleton.mpr hsatisfies⟩
    exact ⟨_, signShare_eq.mpr ⟨hmessage, hnonzero, hverified, _, _, hregister,
      (complete_eq_ok hvalid haccumulator).mpr (.inr ⟨heq, hverify, rfl⟩)⟩⟩
  · exact ⟨_, signShare_eq.mpr ⟨hmessage, hnonzero, hverified, _, _, hregister,
      (complete_eq_ok hvalid haccumulator).mpr (.inl ⟨fun heq => hfull (hall.mp heq), rfl⟩)⟩⟩

end Run

/-! ### The selections of the validators -/

theorem signersTable_identified (crate : Validator.FrostCrate) (signers : List Signer) :
    ∀ {id : B256} {signer : Signer}, (Validator.signersTable crate signers).lookup id = some signer →
      id = crate.identifier signer.address := by
  induction signers using List.reverseRecOn with
  | nil => exact nofun
  | append_singleton signers last ih =>
      intro id signer h
      rw [Validator.signersTable, List.foldl_append] at h
      change ((Validator.signersTable crate signers).insert (crate.identifier last.address) last).lookup id =
        some signer at h
      rw [Table.lookup_insert] at h
      split at h
      · next hid =>
        cases h
        exact hid
      · exact ih h

section Ceremony

variable {signers : List Signer} {selection : SignSelection} {hashed : Set Bytes}
  {calls : List (Address × Call)} {before after : List CallStep} {st : CallStep}

theorem aggregated_deployed (externals : Externals) (sid : B256) (signers : List Signer)
    (selection : SignSelection) : Aggregated externals sid signers selection [] deployed where
  ceremonies := ceremoniesOK_deployed
  distinct := List.nodup_nil
  member := nofun
  recorded := fun _ => ⟨fun _ => nofun, fun _ => rfl⟩
  started := nofun
  satisfied := nofun

/-- The step of a share, whether it was accepted or not. -/
theorem accepted_iff (htake : st = Trace.take (step externals) st.pre st.input) {signer : Address}
    {share : FROST.SignatureShare} {proof : List B256}
    (hinput : st.input = (signer, .signShare sid selection share proof)) :
    (∃ events, st.out = .ok events) ↔
      ∃ answer, signShare externals st.pre signer sid selection share proof = .ok answer := by
  have hout : st.out = (step externals st.pre (signer, .signShare sid selection share proof)).2 := by
    conv_lhs => rw [htake, hinput]
    rfl
  rw [hout]
  constructor
  · rintro ⟨events, h⟩
    obtain ⟨answer, hanswer, -⟩ := bind_eq_ok.mp (transact_ok h)
    exact ⟨answer, hanswer⟩
  · rintro ⟨⟨s', done, events⟩, h⟩
    refine ⟨events, ?_⟩
    have hcall : call externals st.pre signer (.signShare sid selection share proof) =
        .ok (s', events) := bind_eq_ok.mpr ⟨_, h, rfl⟩
    show (transact st.pre (call externals st.pre signer _)).2 = _
    rw [hcall]
    rfl

end Ceremony

end Safenet.Contracts.Coordinator
