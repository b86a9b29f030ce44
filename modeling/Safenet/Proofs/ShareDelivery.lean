/-
Every secret share reaches its receiver.

The sender encrypts its shares in one pass over the other participants; the receiver counts where its
own one must be.  Both leave out the sender, so they mean the same place (`decryptShare_eq`), and the
Diffie-Hellman value is the same from both sides.  What comes out is the sender's polynomial at the
receiver's identifier, which satisfies the equation that shares are verified with.
-/
import Safenet.Proofs.Keystream
import Safenet.Proofs.Secp256k1
import Safenet.Proofs.Sharing
import Safenet.Validator.Keygen

namespace Safenet.Validator

open Contracts (Secp256k1.N Secp256k1.G)
open Fallible

/-! ### Polynomials -/

/-- `evaluate_polynomial` of `frost_core`: the constant term comes first. -/
def evaluatePolynomial (coefficients : List Scalar) (identifier : Identifier) : Scalar :=
  BitVec.ofNat 256
    (coefficients.foldr (fun a sum => (a.toNat + sum * identifier.toNat) % Secp256k1.N) 0)

/-- `evaluate_vss` of `frost_core`: the same in the exponent. -/
noncomputable def evaluateVss (commitment : VssCommitment) (identifier : Identifier) :
    Contracts.Secp256k1.Curve :=
  commitment.foldr (fun c sum => c.toCurve + (identifier.toNat : ZMod Secp256k1.N) • sum) 0

/-- A commitment to coefficients: the generator times each of them. -/
def CommitsTo (commitment : VssCommitment) (coefficients : List Scalar) : Prop :=
  coefficients ≠ [] ∧
    commitment.map Contracts.Secp256k1.Point.toCurve =
      coefficients.map fun a => (a.toNat : ZMod Secp256k1.N) • Secp256k1.G.toCurve

theorem evaluatePolynomial_toNat (coefficients : List Scalar) (identifier : Identifier) :
    (evaluatePolynomial coefficients identifier).toNat =
      coefficients.foldr (fun a sum => (a.toNat + sum * identifier.toNat) % Secp256k1.N) 0 := by
  cases coefficients with
  | nil => rfl
  | cons a coefficients => exact Contracts.Secp256k1.ofNat_mod_toNat _

theorem evaluatePolynomial_lt (coefficients : List Scalar) (identifier : Identifier) :
    (evaluatePolynomial coefficients identifier).toNat < Secp256k1.N := by
  rw [evaluatePolynomial_toNat]
  cases coefficients with
  | nil => exact Contracts.Secp256k1.prime_N.pos
  | cons a coefficients => exact Nat.mod_lt _ Contracts.Secp256k1.prime_N.pos

/-- **A commitment, evaluated in the exponent, is the commitment to the value.** -/
theorem evaluateVss_eq {commitment : VssCommitment} {coefficients : List Scalar}
    (identifier : Identifier) (h : CommitsTo commitment coefficients) :
    evaluateVss commitment identifier =
      ((evaluatePolynomial coefficients identifier).toNat : ZMod Secp256k1.N) • Secp256k1.G.toCurve := by
  obtain ⟨-, h⟩ := h
  rw [evaluatePolynomial_toNat]
  unfold evaluateVss
  induction coefficients generalizing commitment with
  | nil =>
      obtain rfl := List.map_eq_nil_iff.mp h
      rw [List.foldr_nil, List.foldr_nil, Nat.cast_zero]
      exact (zero_smul (ZMod Secp256k1.N) Secp256k1.G.toCurve).symm
  | cons a coefficients ih =>
      cases commitment with
      | nil => cases h
      | cons c commitment =>
          obtain ⟨hc, hrest⟩ := List.cons.inj h
          rw [List.foldr_cons, List.foldr_cons, ih hrest, ZMod.natCast_mod, hc, smul_smul, ← add_smul,
            Nat.cast_add, Nat.cast_mul, mul_comm]

/-! ### What a participant generates -/

namespace Ceremony

/-- What is relied on of the crates, besides identifiers and multiples of the generator. -/
structure Dealt (ceremony : Ceremony) : Prop where
  lawful : ceremony.Lawful
  /-- `dkg::part1`: the commitment is one to the coefficients. -/
  sampled : ∀ a ∈ ceremony.members, CommitsTo (ceremony.secrets a).secretPackage.commitment
    (ceremony.secrets a).secretPackage.coefficients
  /-- `dkg::part2`: the polynomial at the own identifier, and at those of the peers. -/
  part2 : ∀ {secret packages result}, ceremony.crate.part2 secret packages = .ok result →
    result.1.identifier = secret.identifier ∧ result.1.commitment = secret.commitment ∧
      result.1.secretShare = evaluatePolynomial secret.coefficients secret.identifier ∧
      ∀ identifier, result.2.lookup identifier =
        (packages.lookup identifier).map fun _ => ⟨evaluatePolynomial secret.coefficients identifier⟩
  /-- `SecretShare::verify`: the generator times the share against the commitment. -/
  verifies : ∀ identifier share commitment, commitment ≠ [] →
    (ceremony.crate.verifySecretShare identifier share commitment = .ok ⟨⟩ ↔
      (share.toNat : ZMod Secp256k1.N) • Secp256k1.G.toCurve = evaluateVss commitment identifier)
  /-- A verifying share is a point. -/
  point : ∀ identifier commitment,
    frostPoint (ceremony.crate.verifyingShare identifier commitment) =
      .ok (ceremony.crate.verifyingShare identifier commitment)

/-- The polynomial of a participant at the identifier of another one. -/
def dealt (ceremony : Ceremony) (sender receiver : Address) : Scalar :=
  evaluatePolynomial (ceremony.secrets sender).secretPackage.coefficients
    (ceremony.crate.identifier receiver)

/-- What `generate_secret_shares` has left behind. -/
structure Generated (ceremony : Ceremony) (a : Address) : Prop where
  commitments : (ceremony.sharing a).groupCommitments.commitments = ceremony.commitments
  groupCommitment : (ceremony.share a).y = ceremony.crate.verifyingShare (ceremony.crate.identifier a)
    (ceremony.sharing a).groupCommitments.groupCommitment
  identifier : (ceremony.sharing a).secretPackage.identifier = ceremony.crate.identifier a
  encryptionKey : (ceremony.sharing a).encryptionKey = (ceremony.secrets a).encryptionKey
  commitment : (ceremony.sharing a).secretPackage.commitment =
    (ceremony.secrets a).secretPackage.commitment
  secretShare : (ceremony.sharing a).secretPackage.secretShare = ceremony.dealt a a
  own : ∀ v, ceremony.commitments.lookup a = some v →
    v.package.commitment = (ceremony.secrets a).secretPackage.commitment
  peers : ∀ b v, ceremony.commitments.lookup b = some v → b ≠ a →
    (ceremony.sharing a).peerPackages.lookup (ceremony.crate.identifier b) = some ⟨ceremony.dealt a b⟩
  encrypted : (encryptionPeers ceremony.crate (ceremony.crate.identifier a) ceremony.commitments).mapM
    (encryptShare ceremony.crate (ceremony.secrets a).encryptionKey (ceremony.sharing a).peerPackages) =
      .ok (ceremony.share a).f

variable {ceremony : Ceremony}

theorem Dealt.generated (hdealt : ceremony.Dealt) {a : Address} (ha : a ∈ ceremony.members) :
    ceremony.Generated a := by
  have hinjective := hdealt.lawful.injective
  have hidentified := ceremony.identified a ha
  obtain ⟨⟨peers, mine⟩, hpackages, hgenerate⟩ := bind_eq_ok.mp (ceremony.generated a ha)
  have hgenerate := mapError_eq_ok.mp hgenerate
  obtain ⟨round2, hround2, hgenerate⟩ := bind_eq_ok.mp hgenerate
  obtain ⟨u, hmine, hgenerate⟩ := bind_eq_ok.mp hgenerate
  obtain ⟨sum, -, hgenerate⟩ := bind_eq_ok.mp hgenerate
  obtain ⟨key, -, hgenerate⟩ := bind_eq_ok.mp hgenerate
  obtain ⟨encrypted, hencrypted, hgenerate⟩ := bind_eq_ok.mp hgenerate
  obtain ⟨hsharing, hbroadcast⟩ := Prod.mk.inj (pure_eq_ok.mp hgenerate)
  have hmine : mine.commitment = round2.1.commitment := of_decide_eq_true (require_eq_ok.mp hmine)
  obtain ⟨hidentifier, hcommitment, hshare, hlookup⟩ := hdealt.part2 hround2
  rw [hidentified] at hidentifier hshare hpackages
  -- the own package was found by its identifier, the others are the peers
  unfold peerPackages at hpackages
  split at hpackages
  · next own hown =>
    obtain ⟨hpeers, hsame⟩ := Prod.mk.inj (Except.ok.inj hpackages)
    have hfound : ∀ b v, ceremony.commitments.lookup b = some v →
        (byIdentifier ceremony.crate ceremony.commitments VerifiedCommitment.package).lookup
          (ceremony.crate.identifier b) = some v.package :=
      fun b v hb => lookup_byIdentifier_of_distinct hinjective hb
    exact
      { commitments := by rw [← hsharing]
        groupCommitment := by rw [← hsharing, ← hbroadcast, hidentified]
        identifier := by rw [← hsharing]; exact hidentifier
        encryptionKey := by rw [← hsharing]
        commitment := by rw [← hsharing]; exact hcommitment
        secretShare := by rw [← hsharing]; exact hshare
        own := by
          intro v hv
          rw [hfound a v hv, Option.some.injEq] at hown
          rw [hown, hsame]
          exact hmine.trans hcommitment
        peers := by
          intro b v hb hne
          have hother : ceremony.crate.identifier b ≠ ceremony.crate.identifier a := by
            obtain ⟨w, hw, -⟩ := ceremony.committed a ha
            exact fun heq => hne (hinjective b a v w hb hw heq)
          rw [← hsharing]
          refine (hlookup _).trans ?_
          rw [← hpeers, Table.lookup_erase, if_neg hother, hfound b v hb]
          rfl
        encrypted := by
          rw [← hsharing, ← hbroadcast, ← hidentifier]
          exact hencrypted }
  · cases hpackages

/-- There is a share for everyone else. -/
theorem Dealt.length_f (hdealt : ceremony.Dealt) {a : Address} (ha : a ∈ ceremony.members) :
    (ceremony.share a).f.length + 1 = ceremony.commitments.rows.length := by
  obtain ⟨v, hv, -⟩ := ceremony.committed a ha
  have hmem : a ∈ ceremony.commitments.keys := Table.mem_keys.mpr ⟨v, hv⟩
  have hothers : (ceremony.commitments.rows.filter fun row => row.1 ≠ a) =
      (ceremony.commitments.erase a).rows := rfl
  have hlength := length_of_mapM _ (hdealt.generated ha).encrypted
  rw [encryptionPeers_eq hdealt.lawful hv, List.length_map, hothers] at hlength
  rw [hlength, ← Table.card_keys, Table.keys_erase, Finset.card_erase_add_one hmem, Table.card_keys]

/-- The coordinator does not refuse the number of shares. -/
theorem Dealt.accepted (hdealt : ceremony.Dealt) {a : Address} (ha : a ∈ ceremony.members)
    {groups : Contracts.FROSTCoordinator.Groups} {gid : B256}
    (hcount : (groups gid).state.count = ceremony.commitments.rows.length) :
    Contracts.FROSTCoordinator.keyGenSecretShare groups a gid (ceremony.share a) ≠
      .error .invalidSecretShare := by
  have hlength := hdealt.length_f ha
  have hsmall := ceremony.count
  have hf : (ceremony.share a).f.length = ((groups gid).state.count + (2 ^ 16 - 1)) % 2 ^ 16 := by
    omega
  have hcounted : ∀ state : Contracts.FROSTCoordinator.GroupState,
      state.count = (groups gid).state.count → Avoids (· = .invalidSecretShare)
        (require ((ceremony.share a).f.length = (state.count + (2 ^ 16 - 1)) % 2 ^ 16)
          Contracts.FROSTCoordinator.Error.invalidSecretShare) := by
    intro state hstate
    rw [hstate, decide_eq_true hf]
    exact avoids_ok
  have havoids : Avoids (· = .invalidSecretShare)
      (Contracts.FROSTCoordinator.keyGenSecretShare groups a gid (ceremony.share a)) := by
    refine avoids_bind (avoids_require nofun) fun _ _ => ?_
    refine avoids_bind ?_ fun pending _ => ?_
    · unfold Contracts.checkedSub
      split
      · exact avoids_ok
      · exact avoids_error nofun
    refine avoids_bind (hcounted _ ?_) fun _ _ => ?_
    · split <;> rfl
    refine avoids_bind ?_ fun _ _ => avoids_ok
    refine avoids_bind (avoids_mapError nofun) fun _ _ => ?_
    refine avoids_bind (avoids_require nofun) fun _ _ => ?_
    exact avoids_bind (avoids_require nofun) fun _ _ => avoids_ok
  exact fun herror => havoids _ herror rfl

/-- **The receiver decrypts what was encrypted for it.** -/
theorem Dealt.decryptShare_eq (hdealt : ceremony.Dealt) {s r : Address} (hs : s ∈ ceremony.members)
    (hr : r ∈ ceremony.members) (hne : s ≠ r) :
    decryptShare ceremony.crate (ceremony.sharing r) s (ceremony.share s).f =
      .ok ((ceremony.secrets s).secretPackage.commitment, ceremony.dealt s r) := by
  obtain ⟨v, hv, hkey⟩ := ceremony.committed s hs
  obtain ⟨w, hw, hkey'⟩ := ceremony.committed r hr
  have hinjective := hdealt.lawful.injective
  have hsent := hdealt.generated hs
  have hreceived := hdealt.generated hr
  have hother : ceremony.crate.identifier s ≠ ceremony.crate.identifier r :=
    fun heq => hne (hinjective s r v w hv hw heq)
  -- both mean the same place
  obtain ⟨index, hindex, hrow⟩ := exists_index hw hne.symm
  have hplace : ((ceremony.commitments.rows.map Prod.fst).filter (· ≠ s)).findIdx?
      (fun address => ceremony.crate.identifier address = ceremony.crate.identifier r) = some index := by
    obtain ⟨hlt, hfound, hbefore⟩ := List.findIdx?_eq_some_iff_getElem.mp hindex
    refine List.findIdx?_eq_some_iff_getElem.mpr ⟨hlt, ?_, fun j hj hfalse => hbefore j hj ?_⟩
    · rw [of_decide_eq_true hfound, decide_eq_true rfl]
    · obtain ⟨row, hmem, heq⟩ := List.mem_map.mp
        (List.mem_filter.mp (List.getElem_mem (hj.trans hlt))).1
      refine decide_eq_true ?_
      rw [← heq] at hfalse ⊢
      exact hinjective _ r _ w (Table.lookup_eq_some.mpr hmem) hw (of_decide_eq_true hfalse)
  -- and what is there was encrypted for the receiver
  have hencrypted := hsent.encrypted
  rw [encryptionPeers_eq hdealt.lawful hv] at hencrypted
  have hpeer : ((ceremony.commitments.rows.filter fun row => row.1 ≠ s).map fun row =>
      (ceremony.crate.identifier row.1, row.2.encryptionPublicKey))[index]? =
        some (ceremony.crate.identifier r, w.encryptionPublicKey) := by
    rw [List.getElem?_map, hrow]
    rfl
  obtain ⟨ciphertext, hencrypt, hciphertext⟩ := mapM_getElem? hencrypted hpeer
  simp only [encryptShare, hsent.peers r w hw hne.symm] at hencrypt
  have hdecrypted : ceremony.crate.ecdh (ceremony.secrets r).encryptionKey v.encryptionPublicKey
      ciphertext = ceremony.dealt s r := by
    rw [← Except.ok.inj hencrypt, ceremony.ecdh_eq, hkey, hkey']
    unfold Curve.ecdh
    rw [hdealt.lawful.commutes s hs r hr, BitVec.xor_assoc, BitVec.xor_self, BitVec.xor_zero]
  simp only [decryptShare, hreceived.identifier, if_neg hother, hreceived.commitments, hv, hplace,
    hciphertext, hreceived.encryptionKey, hdecrypted, hsent.own v hv]

/-- **What was dealt satisfies the commitment.** -/
theorem Dealt.newVerifiedShare_eq (hdealt : ceremony.Dealt) {s : Address} (hs : s ∈ ceremony.members)
    (r peer : Address) :
    newVerifiedShare ceremony.crate (ceremony.crate.identifier r) peer
      (ceremony.secrets s).secretPackage.commitment (ceremony.dealt s r) = .ok ⟨⟨ceremony.dealt s r⟩⟩ := by
  have hcommits := hdealt.sampled s hs
  have hne : (ceremony.secrets s).secretPackage.commitment ≠ [] := by
    intro hnil
    obtain ⟨hcoefficients, hmap⟩ := hcommits
    rw [hnil, List.map_nil] at hmap
    exact hcoefficients (List.map_eq_nil_iff.mp hmap.symm)
  have hscalar : frostScalar (ceremony.dealt s r) = .ok (ceremony.dealt s r) := by
    unfold frostScalar
    rw [decide_eq_true (show (ceremony.dealt s r).toNat < Secp256k1.N from evaluatePolynomial_lt _ _)]
    rfl
  have hverified := (hdealt.verifies (ceremony.crate.identifier r) (ceremony.dealt s r) _ hne).mpr
    (evaluateVss_eq _ hcommits).symm
  unfold newVerifiedShare
  rw [hscalar]
  show (ceremony.crate.verifySecretShare _ _ _ >>= _).mapError _ = _
  rw [hverified]
  rfl

/-- The receiver accepts the share. -/
theorem Dealt.verifyEncryptedSecretShare_eq (hdealt : ceremony.Dealt) {s r : Address}
    (hs : s ∈ ceremony.members) (hr : r ∈ ceremony.members) (hne : s ≠ r) :
    verifyEncryptedSecretShare ceremony.crate (ceremony.sharing r) s (ceremony.share s).f =
      .ok ⟨⟨ceremony.dealt s r⟩⟩ := by
  unfold verifyEncryptedSecretShare
  rw [hdealt.decryptShare_eq hs hr hne, (hdealt.generated hr).identifier]
  exact hdealt.newVerifiedShare_eq hs r s

/-- The own share is not encrypted. -/
theorem Dealt.decryptShare_self (hdealt : ceremony.Dealt) {r : Address} (hr : r ∈ ceremony.members)
    (encryptedShares : List B256) :
    decryptShare ceremony.crate (ceremony.sharing r) r encryptedShares =
      .ok ((ceremony.secrets r).secretPackage.commitment, ceremony.dealt r r) := by
  have hown := hdealt.generated hr
  simp only [decryptShare, hown.identifier, if_true, hown.commitment, hown.secretShare]

/-- The public part of an honest broadcast is accepted. -/
theorem Dealt.verifySecretShare_eq (hdealt : ceremony.Dealt) {s r : Address}
    (hs : s ∈ ceremony.members) (hr : r ∈ ceremony.members) :
    verifySecretShare ceremony.crate (ceremony.sharing r).groupCommitments s (ceremony.share s) =
      .ok (ceremony.share s).f := by
  obtain ⟨v, hv, -⟩ := ceremony.committed s hs
  have hsent := hdealt.generated hs
  have hreceived := hdealt.generated hr
  -- both have summed up the same commitments
  have hsum : (ceremony.sharing s).groupCommitments = (ceremony.sharing r).groupCommitments := by
    have hs' := groupCommitments_of_generate (ceremony.generated s hs)
    rw [groupCommitments_of_generate (ceremony.generated r hr)] at hs'
    exact (Except.ok.inj hs').symm
  unfold verifySecretShare
  rw [hreceived.commitments, hv, hsent.groupCommitment, hsum, hdealt.point]
  show ((require (decide _) _ : Except FrostError PUnit).mapError _ >>= _) = _
  rw [decide_eq_true rfl]
  rfl

/-- A receiver that follows the broadcasts takes the share and has nothing to complain about. -/
theorem Dealt.registerShare_eq (hdealt : ceremony.Dealt) {s r : Address} (hs : s ∈ ceremony.members)
    (hr : r ∈ ceremony.members) (hne : s ≠ r) {t : Transition} {round : RolloverState.CollectingShares}
    {block : Nat}
    (hcrate : t.externals.toFrostCrate = ceremony.crate)
    (hround : round.participation = .participating (ceremony.sharing r)) :
    t.registerShare round block s (ceremony.share s) =
      ({ round with
          shared := insert s round.shared
          shares := round.shares.insert s ⟨⟨ceremony.dealt s r⟩⟩ }, []) := by
  have hgroup : round.participation.groupCommitments = (ceremony.sharing r).groupCommitments := by
    rw [hround]
    rfl
  unfold Transition.registerShare Transition.addShare
  rw [hgroup, hcrate, hdealt.verifySecretShare_eq hs hr]
  simp only [hround, hdealt.verifyEncryptedSecretShare_eq hs hr hne]

/--
**Every share reaches its receiver.**

The sender publishes as many shares as the coordinator asks for.  The one for the receiver is where the
receiver looks, decrypts to the sender's polynomial at the receiver's identifier, and gives no cause for
a complaint; it is what the sender would reveal, and what anybody would accept.  The own share is taken
from the own package, whatever was published.
-/
theorem share_reaches_receiver (ceremony : Ceremony) (hdealt : ceremony.Dealt) (s r : Address)
    (hs : s ∈ ceremony.members) (hr : r ∈ ceremony.members) :
    ((ceremony.share s).f.length = ceremony.commitments.rows.length - 1 ∧
      ∀ (groups : Contracts.FROSTCoordinator.Groups) (gid : B256),
        (groups gid).state.count = ceremony.commitments.rows.length →
          Contracts.FROSTCoordinator.keyGenSecretShare groups s gid (ceremony.share s) ≠
            .error .invalidSecretShare) ∧
    (s ≠ r →
      ceremony.ciphertext s r = some (ceremony.dealt s r ^^^ ceremony.diffieHellman s r) ∧
      decryptShare ceremony.crate (ceremony.sharing r) s (ceremony.share s).f =
        .ok ((ceremony.secrets s).secretPackage.commitment, ceremony.dealt s r) ∧
      verifyEncryptedSecretShare ceremony.crate (ceremony.sharing r) s (ceremony.share s).f =
        .ok ⟨⟨ceremony.dealt s r⟩⟩ ∧
      (∀ (t : Transition) (round : RolloverState.CollectingShares) (block : Nat),
        t.externals.toFrostCrate = ceremony.crate →
        round.participation = .participating (ceremony.sharing r) →
          t.registerShare round block s (ceremony.share s) =
            ({ round with
                shared := insert s round.shared
                shares := round.shares.insert s ⟨⟨ceremony.dealt s r⟩⟩ }, [])) ∧
      revealSecretShare ceremony.crate (ceremony.sharing s) r = .ok (ceremony.dealt s r) ∧
      ∀ commitments : GroupCommitments, commitments.commitments = ceremony.commitments →
        verifyRevealedSecretShare ceremony.crate commitments r s (ceremony.dealt s r) =
          .ok ⟨⟨ceremony.dealt s r⟩⟩) ∧
    ∀ encryptedShares : List B256,
      decryptShare ceremony.crate (ceremony.sharing r) r encryptedShares =
        .ok ((ceremony.secrets r).secretPackage.commitment,
          (ceremony.sharing r).secretPackage.secretShare) ∧
      verifyEncryptedSecretShare ceremony.crate (ceremony.sharing r) r encryptedShares =
        .ok ⟨⟨(ceremony.sharing r).secretPackage.secretShare⟩⟩ := by
  have hlength := hdealt.length_f hs
  refine ⟨⟨by omega, fun groups gid => hdealt.accepted hs⟩, ?_, ?_⟩
  · intro hne
    obtain ⟨v, hv, -⟩ := ceremony.committed s hs
    obtain ⟨w, hw, -⟩ := ceremony.committed r hr
    have hreveal : revealSecretShare ceremony.crate (ceremony.sharing s) r =
        .ok (ceremony.dealt s r) := by
      simp only [revealSecretShare, (hdealt.generated hs).peers r w hw hne.symm]
    refine ⟨?_, hdealt.decryptShare_eq hs hr hne, hdealt.verifyEncryptedSecretShare_eq hs hr hne,
      fun t round block => hdealt.registerShare_eq hs hr hne, hreveal, ?_⟩
    · obtain ⟨share, hplaintext, hciphertext⟩ := ciphertext_eq hdealt.lawful hs hr hne
      simp only [plaintext, hreveal, Except.toOption, Option.some.injEq] at hplaintext
      rw [hciphertext, hplaintext]
    · intro commitments hcommitments
      unfold verifyRevealedSecretShare
      rw [hcommitments, hv]
      show newVerifiedShare _ _ _ v.package.commitment _ = _
      rw [(hdealt.generated hs).own v hv]
      exact hdealt.newVerifiedShare_eq hs r s
  · intro encryptedShares
    have hown := hdealt.decryptShare_self hr encryptedShares
    rw [(hdealt.generated hr).secretShare]
    refine ⟨hown, ?_⟩
    unfold verifyEncryptedSecretShare
    rw [hown, (hdealt.generated hr).identifier]
    exact hdealt.newVerifiedShare_eq hr r r

/-! ### Three participants -/

open Classical in
/-- The crates of the three, with the check of a share. -/
noncomputable def verifyingCrate : FrostCrate :=
  { Trio.crate with
    verifySecretShare := fun identifier share commitment =>
      if (share.toNat : ZMod Secp256k1.N) • Secp256k1.G.toCurve = evaluateVss commitment identifier then
        .ok ⟨⟩
      else .error .other }

/-- The three, when their shares are checked. -/
noncomputable def verifyingTrio : Ceremony where
  crate := verifyingCrate
  curve := Trio.secp256k1
  ecdh_eq := rfl
  commitments := Trio.commitments
  count := Trio.trio.count
  members := Trio.members
  secrets := Trio.secrets
  sharing := Trio.trio.sharing
  share := Trio.trio.share
  committed := Trio.trio.committed
  identified := Trio.trio.identified
  generated := Trio.trio.generated

/-- The first multiples of the generator. -/
theorem multiple_toCurve : ∀ k ≤ 6, (Trio.multiple k).toCurve = k • Secp256k1.G.toCurve := by
  have hadd : ∀ k < 6, Contracts.Secp256k1.add (Trio.multiple k) Secp256k1.G =
      .ok (Trio.multiple (k + 1)) := by
    decide +kernel
  intro k
  induction k with
  | zero =>
      intro _
      rw [zero_nsmul]
      exact Contracts.Secp256k1.toCurve_zero
  | succ k ih =>
      intro hk
      rw [Contracts.Secp256k1.toCurve_add (hadd k (by omega)), ih (by omega), succ_nsmul]

theorem verifyingTrio_dealt : verifyingTrio.Dealt where
  lawful := ⟨Trio.lawful.injective, Trio.lawful.keeps, Trio.lawful.commutes⟩
  sampled := by
    have hcommits : ∀ a b : Scalar, a.toNat ≤ 6 → b.toNat ≤ 6 →
        CommitsTo [Trio.multiple a.toNat, Trio.multiple b.toNat] [a, b] := by
      intro a b ha hb
      refine ⟨List.cons_ne_nil _ _, ?_⟩
      simp only [List.map_cons, List.map_nil, multiple_toCurve _ ha, multiple_toCurve _ hb,
        Contracts.Secp256k1.natCast_smul]
    refine Trio.forall_members ⟨?_, ?_, ?_⟩
    · exact hcommits 1 2 (by decide) (by decide)
    · exact hcommits 3 4 (by decide) (by decide)
    · exact hcommits 5 6 (by decide) (by decide)
  part2 := by
    intro secret packages result h
    cases h
    refine ⟨rfl, rfl, rfl, fun identifier => ?_⟩
    cases hlookup : packages.lookup identifier with
    | none =>
        refine Table.lookup_foldl_of_ne (fun row : Identifier × Round1.Package => row.1) _ packages.rows _ ?_
        rintro ⟨i, p⟩ hrow rfl
        rw [Table.lookup_eq_some.mpr hrow] at hlookup
        cases hlookup
    | some p =>
        exact Table.lookup_foldl_of_mem (fun row : Identifier × Round1.Package => row.1)
          (fun row => Round2.Package.mk (evaluatePolynomial secret.coefficients row.1)) packages.rows .empty
          (packages.sorted.imp ne_of_lt) (Table.lookup_eq_some.mp hlookup)
  verifies := by
    intro identifier share commitment _
    show (if _ then _ else _) = _ ↔ _
    split
    · next heq => exact ⟨fun _ => heq, fun _ => rfl⟩
    · next hne => exact ⟨nofun, fun heq => absurd heq hne⟩
  point := by
    intro identifier commitment
    have hpoint : ∀ {p : Point}, Contracts.Secp256k1.satisfiesCurveEquation p.x.toNat p.y.toNat = true →
        frostPoint p = .ok p := by
      intro p hp
      rw [frostPoint, hp, Bool.or_true]
      rfl
    show frostPoint (Trio.crate.verifyingShare identifier commitment) =
      .ok (Trio.crate.verifyingShare identifier commitment)
    unfold Trio.crate
    dsimp only
    split_ifs
    · exact hpoint (by decide +kernel)
    · exact hpoint (by decide +kernel)
    · exact hpoint (by decide +kernel)

/-- Bob gets the share that Alice has dealt for him. -/
theorem bob_gets_share :
    verifyEncryptedSecretShare verifyingTrio.crate (verifyingTrio.sharing Trio.bob) Trio.alice
      (verifyingTrio.share Trio.alice).f = .ok ⟨⟨verifyingTrio.dealt Trio.alice Trio.bob⟩⟩ := by
  have halice : Trio.alice ∈ verifyingTrio.members := by simp [verifyingTrio, Trio.members]
  have hbob : Trio.bob ∈ verifyingTrio.members := by simp [verifyingTrio, Trio.members]
  exact ((share_reaches_receiver verifyingTrio verifyingTrio_dealt Trio.alice Trio.bob halice
    hbob).2.1 (by decide)).2.2.1

end Ceremony

end Safenet.Validator
