/-
A participant can share exactly when an observer can follow.

Both sum the commitments and derive the group key.  A participant also runs the second round of the
crate, which succeeds on a full set of verified commitments (`DerivesShares`), finds its own
commitment among them, and encrypts a share for every peer.
-/
import Safenet.Validator.Frost

namespace Safenet.Validator

open Fallible

/-- What the crate documents about identifiers and the second round of key generation. -/
structure DerivesShares (crate : FrostCrate) : Prop where
  injective : Function.Injective crate.identifier
  /-- The round succeeds on valid packages from all peers. -/
  succeeds : ∀ secret packages, packages.rows.length + 1 = secret.maxSigners →
    (∀ i p, packages.lookup i = some p → p.commitment.length = secret.minSigners ∧
      crate.verifyProofOfKnowledge i p.commitment p.proofOfKnowledge = .ok ⟨⟩) →
    ∃ result, crate.part2 secret packages = .ok result
  /-- It keeps the identifier and the commitment. -/
  keeps : ∀ {secret packages result}, crate.part2 secret packages = .ok result →
    result.1.identifier = secret.identifier ∧ result.1.commitment = secret.commitment
  /-- There is a package for every peer. -/
  covers : ∀ {secret packages result}, crate.part2 secret packages = .ok result →
    ∀ i p, packages.lookup i = some p → ∃ q, result.2.lookup i = some q

/-! ### The items by identifier -/

section ByIdentifier

variable {crate : FrostCrate} {T P : Type} {select : T → P}

/-- An item is found by its identifier if no other one has it. -/
theorem lookup_byIdentifier_of_distinct {items : Table Address T}
    (hdistinct : ∀ a b v w, items.lookup a = some v → items.lookup b = some w →
      crate.identifier a = crate.identifier b → a = b)
    {a : Address} {v : T} (h : items.lookup a = some v) :
    (byIdentifier crate items select).lookup (crate.identifier a) = some (select v) := by
  refine Table.lookup_foldl_of_mem (fun row : Address × T => crate.identifier row.1)
    (fun row => select row.2) items.rows .empty ?_ (Table.lookup_eq_some.mp h)
  refine items.sorted.imp_of_mem fun {x y} hx hy hlt heq => ne_of_lt hlt ?_
  exact hdistinct _ _ _ _ (Table.lookup_eq_some.mpr hx) (Table.lookup_eq_some.mpr hy) heq

theorem lookup_byIdentifier (hinj : Function.Injective crate.identifier) {items : Table Address T}
    {a : Address} {v : T} (h : items.lookup a = some v) :
    (byIdentifier crate items select).lookup (crate.identifier a) = some (select v) :=
  lookup_byIdentifier_of_distinct (fun _ _ _ _ _ _ heq => hinj heq) h

/-- Every package comes from an item. -/
theorem of_lookup_byIdentifier (hinj : Function.Injective crate.identifier) {items : Table Address T}
    {i : Identifier} {p : P} (h : (byIdentifier crate items select).lookup i = some p) :
    ∃ a v, items.lookup a = some v ∧ crate.identifier a = i ∧ select v = p := by
  by_cases hmem : ∃ row ∈ items.rows, crate.identifier row.1 = i
  · obtain ⟨⟨a, v⟩, hrow, rfl⟩ := hmem
    have hv : items.lookup a = some v := Table.lookup_eq_some.mpr hrow
    rw [lookup_byIdentifier hinj hv, Option.some.injEq] at h
    exact ⟨a, v, hv, rfl, h⟩
  · have hnone : (byIdentifier crate items select).lookup i = none := by
      refine (Table.lookup_foldl_of_ne (fun row : Address × T => crate.identifier row.1)
        (fun row => select row.2) items.rows .empty fun row hrow heq => ?_).trans rfl
      exact hmem ⟨row, hrow, heq⟩
    rw [hnone] at h
    cases h

theorem keys_byIdentifier (hinj : Function.Injective crate.identifier) (items : Table Address T) :
    (byIdentifier crate items select).keys = items.keys.image crate.identifier := by
  ext i
  rw [Table.mem_keys, Finset.mem_image]
  constructor
  · rintro ⟨p, hp⟩
    obtain ⟨a, v, hv, rfl, -⟩ := of_lookup_byIdentifier hinj hp
    exact ⟨a, Table.mem_keys.mpr ⟨v, hv⟩, rfl⟩
  · rintro ⟨a, ha, rfl⟩
    obtain ⟨v, hv⟩ := Table.mem_keys.mp ha
    exact ⟨select v, lookup_byIdentifier hinj hv⟩

/-- All packages but the own one. -/
theorem length_peers (hinj : Function.Injective crate.identifier) {items : Table Address T} {a : Address}
    {v : T} (h : items.lookup a = some v) :
    ((byIdentifier crate items select).erase (crate.identifier a)).rows.length + 1 =
      items.rows.length := by
  have hmem : crate.identifier a ∈ (byIdentifier crate items select).keys := by
    rw [Table.mem_keys]
    exact ⟨select v, lookup_byIdentifier hinj h⟩
  rw [← Table.card_keys, Table.keys_erase, Finset.card_erase_add_one hmem, keys_byIdentifier hinj,
    Finset.card_image_of_injective _ hinj, Table.card_keys]

end ByIdentifier

/-! ### Sharing -/

/-- A full set of verified commitments, with the one of the own secrets among them. -/
structure Complete (crate : FrostCrate) (account : Address) (secrets : Secrets)
    (commitments : Table Address VerifiedCommitment) : Prop where
  identifier : secrets.secretPackage.identifier = crate.identifier account
  count : commitments.rows.length = secrets.secretPackage.maxSigners
  own : ∃ mine, commitments.lookup account = some mine ∧
    mine.package.commitment = secrets.secretPackage.commitment
  verified : ∀ participant c, commitments.lookup participant = some c →
    c.package.commitment.length = secrets.secretPackage.minSigners ∧
      crate.verifyProofOfKnowledge (crate.identifier participant) c.package.commitment
        c.package.proofOfKnowledge = .ok ⟨⟩

variable {crate : FrostCrate} {account : Address} {secrets : Secrets}
  {commitments : Table Address VerifiedCommitment}

/-- An observer reads the group commitments off the same sums. -/
theorem groupCommitments_eq_ok {gc : GroupCommitments} :
    groupCommitments crate commitments = .ok gc ↔ gc.commitments = commitments ∧
      groupCommitment crate commitments = .ok gc.groupCommitment ∧
      crate.verifyingKey gc.groupCommitment = .ok gc.verifyingKey := by
  constructor
  · intro h
    obtain ⟨sum, hsum, h⟩ := bind_eq_ok.mp h
    obtain ⟨key, hkey, h⟩ := bind_eq_ok.mp h
    obtain rfl := pure_eq_ok.mp h
    exact ⟨rfl, mapError_eq_ok.mp hsum, mapError_eq_ok.mp hkey⟩
  · rintro ⟨rfl, hsum, hkey⟩
    refine bind_eq_ok.mpr ⟨gc.groupCommitment, mapError_eq_ok.mpr hsum, ?_⟩
    exact bind_eq_ok.mpr ⟨gc.verifyingKey, mapError_eq_ok.mpr hkey, rfl⟩

/-- A participant that shares has the group commitments of an observer. -/
theorem groupCommitments_of_generate
    {result : SharingState × Contracts.FROSTCoordinator.KeyGenSecretShare}
    (h : generateSecretShares crate secrets commitments = .ok result) :
    groupCommitments crate commitments = .ok result.1.groupCommitments := by
  obtain ⟨packages, -, h⟩ := bind_eq_ok.mp h
  have h := mapError_eq_ok.mp h
  obtain ⟨round2, -, h⟩ := bind_eq_ok.mp h
  obtain ⟨-, -, h⟩ := bind_eq_ok.mp h
  obtain ⟨sum, hsum, h⟩ := bind_eq_ok.mp h
  obtain ⟨key, hkey, h⟩ := bind_eq_ok.mp h
  obtain ⟨encrypted, -, h⟩ := bind_eq_ok.mp h
  obtain rfl := pure_eq_ok.mp h
  exact groupCommitments_eq_ok.mpr ⟨rfl, hsum, hkey⟩

/-- **A participant with a full set of commitments shares whenever an observer can follow.** -/
theorem generate_of_groupCommitments (hcrate : DerivesShares crate)
    (hcomplete : Complete crate account secrets commitments) {gc : GroupCommitments}
    (h : groupCommitments crate commitments = .ok gc) :
    ∃ result, generateSecretShares crate secrets commitments = .ok result ∧
      result.1.groupCommitments = gc := by
  obtain ⟨mine, hmine, hown⟩ := hcomplete.own
  obtain ⟨hcommitments, hsum, hkey⟩ := groupCommitments_eq_ok.mp h
  have hinj := hcrate.injective
  let packages := byIdentifier crate commitments VerifiedCommitment.package
  let peers := packages.erase (crate.identifier account)
  have hpeer : ∀ i p, peers.lookup i = some p → ∃ a c, commitments.lookup a = some c ∧
      crate.identifier a = i ∧ c.package = p := by
    intro i p hp
    change (packages.erase _).lookup i = some p at hp
    rw [Table.lookup_erase, Option.ite_none_left_eq_some] at hp
    exact of_lookup_byIdentifier hinj hp.2
  -- the second round accepts the packages of the peers
  obtain ⟨round2, hround2⟩ := hcrate.succeeds secrets.secretPackage peers
    ((length_peers hinj hmine).trans hcomplete.count) (by
      intro i p hp
      obtain ⟨a, c, hc, rfl, rfl⟩ := hpeer i p hp
      exact hcomplete.verified a c hc)
  obtain ⟨hidentifier, hcommitment⟩ := hcrate.keeps hround2
  -- and a share can be encrypted for every one of them
  obtain ⟨encrypted, hencrypted⟩ : ∃ encrypted,
      (encryptionPeers crate round2.1.identifier commitments).mapM
        (encryptShare crate secrets.encryptionKey round2.2) = .ok encrypted := by
    refine mapM_ok _ fun peer hpeer' => ?_
    obtain ⟨hrow, hother⟩ := List.mem_filter.mp hpeer'
    obtain ⟨⟨a, c⟩, hmem, rfl⟩ := List.mem_map.mp hrow
    have hc : commitments.lookup a = some c := Table.lookup_eq_some.mpr hmem
    have hne : crate.identifier a ≠ crate.identifier account := by
      rw [← hcomplete.identifier, ← hidentifier]
      exact of_decide_eq_true hother
    have hlookup : peers.lookup (crate.identifier a) = some c.package := by
      show (packages.erase _).lookup _ = _
      rw [Table.lookup_erase, if_neg hne]
      exact lookup_byIdentifier hinj hc
    obtain ⟨q, hq⟩ := hcrate.covers hround2 _ _ hlookup
    refine ⟨crate.ecdh secrets.encryptionKey c.encryptionPublicKey q.signingShare, ?_⟩
    unfold encryptShare
    dsimp only
    rw [hq]
  have hpackages : peerPackages crate secrets.secretPackage.identifier commitments
      VerifiedCommitment.package = .ok (peers, mine.package) := by
    unfold peerPackages
    rw [hcomplete.identifier, lookup_byIdentifier hinj hmine]
  refine ⟨(⟨secrets.encryptionKey, round2.1, round2.2, gc⟩,
    ⟨crate.verifyingShare secrets.secretPackage.identifier gc.groupCommitment, encrypted⟩), ?_, rfl⟩
  refine bind_eq_ok.mpr ⟨(peers, mine.package), hpackages, mapError_eq_ok.mpr ?_⟩
  refine bind_eq_ok.mpr ⟨round2, hround2, bind_eq_ok.mpr ⟨⟨⟩, ?_, ?_⟩⟩
  · exact require_eq_ok.mpr (decide_eq_true (hown.trans hcommitment.symm))
  refine bind_eq_ok.mpr ⟨gc.groupCommitment, hsum, bind_eq_ok.mpr ⟨gc.verifyingKey, hkey, ?_⟩⟩
  refine bind_eq_ok.mpr ⟨encrypted, hencrypted, ?_⟩
  rw [pure_eq_ok, ← hcommitments]

end Safenet.Validator
