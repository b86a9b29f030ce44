/-
Honest signature shares are accepted.

The crates document what a signature share is (`SignsShares`), and from it `signature_share` builds a
selection whose commitment shares add up to `R` and whose coefficients are the weights of the signers
(`Selects`).  On chain the verification shares of the signers interpolate the key (`Onchain`), so the share
satisfies its equation and the signature of all signers the one of the key.  What the coordinator asks of a
share is then true of every share that a validator emits, whoever else submits whatever.
-/
import Safenet.Proofs.Aggregation
import Safenet.Proofs.Agreement
import Safenet.Proofs.OnchainShares
import Safenet.Proofs.SigningRounds
import Safenet.Validator.SecretStore

namespace Safenet.Validator

open Contracts (Secp256k1.N Secp256k1.G)
open Contracts.Coordinator (AddsUp Aggregated Built Checkable Interpolates NoCollision Satisfies Separates Sums
  Sure challengeIn
  contributed contributions groupOf hashedBuild leaves shareOf)
open Contracts.FROST (challengeOf)
open Fallible

/-! ### What the crates document -/

/-- Secret nonces with the commitments to them. -/
structure CommitsNonces (nonces : SigningNonces) : Prop where
  hidingPoint : nonces.commitments.hidingPoint.toCurve =
    (nonces.hidingNonce.toNat : ZMod Secp256k1.N) • Secp256k1.G.toCurve
  bindingPoint : nonces.commitments.bindingPoint.toCurve =
    (nonces.bindingNonce.toNat : ZMod Secp256k1.N) • Secp256k1.G.toCurve

def SigningCommitments.Valid (c : SigningCommitments) : Prop := c.hidingPoint.Valid ∧ c.bindingPoint.Valid

/-- `hiding + binding * factor`, in the group. -/
noncomputable def SigningCommitments.bound (c : SigningCommitments) (factor : Scalar) :
    Contracts.Secp256k1.Curve :=
  c.hidingPoint.toCurve + (factor.toNat : ZMod Secp256k1.N) • c.bindingPoint.toCurve

/-- The arithmetic of signing. -/
structure SignsShares (crate : FrostCrate) (precompiles : Contracts.FROST.Precompiles) : Prop where
  /-- `round2::sign` asks for a threshold of commitments with the own one among them, for the signature of a
  key that is no identity, and answers `d + e⋅ρ + λ⋅s⋅c`. -/
  sign : ∀ {package nonces key z}, crate.sign package nonces key = .ok z →
    key.minSigners ≤ package.commitments.rows.length ∧
      package.commitments.lookup key.identifier = some nonces.commitments ∧
      key.verifyingKey ≠ Contracts.Secp256k1.zero ∧ z.toNat < Secp256k1.N ∧
      ∃ factors factor r l, crate.bindingFactors package key.verifyingKey = .ok factors ∧
        factors.lookup key.identifier = some factor ∧ crate.signingCommitment package factors = .ok r ∧
        r ≠ Contracts.Secp256k1.zero ∧ crate.interpolatingValue key.identifier package = .ok l ∧
        (z.toNat : ZMod Secp256k1.N) = nonces.hidingNonce.toNat + nonces.bindingNonce.toNat * factor.toNat +
          l.toNat * key.signingShare.toNat *
            (challengeOf precompiles r key.verifyingKey package.message : ZMod Secp256k1.N)
  /-- `derive_interpolating_value` is the coefficient of Lagrange at zero. -/
  interpolatingValue : ∀ {identifier package l}, crate.interpolatingValue identifier package = .ok l →
    (l.toNat : ZMod Secp256k1.N) =
      Sharing.weight package.commitments.keys (fun i => (i.toNat : ZMod Secp256k1.N)) identifier
  commitmentShare : ∀ {commitments : SigningCommitments} {factor}, commitments.Valid →
    (crate.commitmentShare commitments factor).Valid ∧
      (crate.commitmentShare commitments factor).toCurve = commitments.bound factor
  /-- `compute_group_commitment` adds up the commitment shares. -/
  signingCommitment : ∀ {package factors r}, (∀ i c, package.commitments.lookup i = some c → c.Valid) →
    crate.signingCommitment package factors = .ok r →
    r.Valid ∧ r.toCurve = (package.commitments.rows.map fun row =>
      row.2.bound ((factors.lookup row.1).getD 0)).sum

/-! ### The signers of a selection -/

section Signers

variable {crate : FrostCrate} {keccak : Contracts.Keccak}

/-- The signers are found by their identifiers. -/
theorem mem_signersTable (hinj : Function.Injective crate.identifier) {rows : List Signer}
    (hdistinct : (rows.map Signer.address).Nodup) {signer : Signer} :
    signer ∈ (signersTable crate rows).rows.map Prod.snd ↔ signer ∈ rows := by
  have hpairwise : rows.Pairwise fun x y => crate.identifier x.address ≠ crate.identifier y.address := by
    rw [List.nodup_iff_pairwise_ne, List.pairwise_map] at hdistinct
    exact hdistinct.imp fun hne heq => hne (hinj heq)
  have hfound : ∀ x ∈ rows, (signersTable crate rows).lookup (crate.identifier x.address) = some x := by
    intro x hx
    exact Table.lookup_foldl_of_mem (fun row : Signer => crate.identifier row.address) id rows .empty hpairwise hx
  constructor
  · intro h
    obtain ⟨row, hrow, rfl⟩ := List.mem_map.mp h
    have hlookup := Table.lookup_eq_some.mpr hrow
    have hid := Contracts.Coordinator.signersTable_identified crate rows hlookup
    by_cases hmem : ∃ x ∈ rows, crate.identifier x.address = row.1
    · obtain ⟨x, hx, hxid⟩ := hmem
      have hx' := hfound x hx
      rw [hxid, hlookup, Option.some.injEq] at hx'
      rw [hx']
      exact hx
    · have hnone : (signersTable crate rows).lookup row.1 = none :=
        (Table.lookup_foldl_of_ne (fun row : Signer => crate.identifier row.address) id rows .empty
          fun x hx heq => hmem ⟨x, hx, heq⟩).trans rfl
      rw [hnone] at hlookup
      cases hlookup
  · intro h
    exact List.mem_map_of_mem (Table.lookup_eq_some.mp (hfound signer h))

variable {precompiles : Contracts.FROST.Precompiles}

/-- What `signerOf` makes of a row. -/
theorem signerOf_eq_ok {package : SigningPackage} {factors : Table Identifier Scalar}
    {row : Address × CommittedNonces} {signer : Signer} :
    signerOf crate package factors row = .ok signer ↔ ∃ factor l,
      factors.lookup (crate.identifier row.1) = some factor ∧
        crate.interpolatingValue (crate.identifier row.1) package = .ok l ∧
        signer = ⟨row.1, crate.commitmentShare row.2.commitments factor, l⟩ := by
  unfold signerOf
  cases hfactor : factors.lookup (crate.identifier row.1) with
  | none =>
      constructor
      · intro h
        cases h
      · rintro ⟨factor, l, h, -⟩
        cases h
  | some factor =>
      constructor
      · intro h
        obtain ⟨l, hl, h⟩ := bind_eq_ok.mp h
        exact ⟨factor, l, rfl, hl, (pure_eq_ok.mp h).symm⟩
      · rintro ⟨_, l, h, hl, rfl⟩
        cases h
        exact bind_eq_ok.mpr ⟨l, hl, rfl⟩

/-- The signers of a selection, by identifier. -/
def selectionSigners (crate : FrostCrate) (key : KeyPackage) (committed : Table Address CommittedNonces)
    (message : B256) : Except FrostError (List Signer) := do
  let package := ⟨byIdentifier crate committed CommittedNonces.commitments, message⟩
  let factors ← crate.bindingFactors package key.verifyingKey
  let rows ← committed.rows.mapM (signerOf crate package factors)
  return (signersTable crate rows).rows.map Prod.snd

/-- What a participant submits: the share of one of the signers, in the selection of all of them. -/
structure Selects (crate : FrostCrate) (precompiles : Contracts.FROST.Precompiles) (account : Address)
    (keyShare : KeyShare) (committed : Finset Address) (m : B256) (result : SignatureShare)
    (signers : List Signer) (i : Nat) (signer : Signer) (z : Scalar) : Prop where
  built : Built precompiles.keccak256 signers result.selection
  place : signers[i]? = some signer
  own : signer.address = account
  share : result.share = shareOf (signer, z)
  proof : result.proof = (MerkleTree.build precompiles.keccak256
    (leaves precompiles.keccak256 signers result.selection.r)).proof i
  addresses : signers.toFinset.image Signer.address = committed
  weights : ∀ x ∈ signers, (x.l.toNat : ZMod Secp256k1.N) = Sharing.weight committed (pointOf crate) x.address
  enough : keyShare.package.minSigners ≤ committed.card
  sum : ∑ x ∈ signers.toFinset, x.r.toCurve = result.selection.r.toCurve
  points : ∀ x ∈ signers, x.r.Valid
  onCurve : result.selection.r.OnCurve
  key : keyShare.package.verifyingKey ≠ Contracts.Secp256k1.zero
  scalar : z.toNat < Secp256k1.N
  equation : (z.toNat : ZMod Secp256k1.N) • Secp256k1.G.toCurve -
      ((challengeOf precompiles result.selection.r keyShare.package.verifyingKey m * signer.l.toNat : ℕ) :
        ZMod Secp256k1.N) • (keyShare.package.signingShare.toNat : ZMod Secp256k1.N) • Secp256k1.G.toCurve =
    signer.r.toCurve

theorem onCurve_of_valid {p : Point} (hvalid : p.Valid) (hne : p ≠ Contracts.Secp256k1.zero) : p.OnCurve :=
  Contracts.Secp256k1.onCurve_iff.mpr (hvalid.resolve_left hne)

/-- **`signature_share` selects the signers that committed**, and answers the share of the own one. -/
theorem signatureShare_selects (hcrate : GeneratesKeys crate) (hsigns : SignsShares crate precompiles)
    {account : Address} {keyShare : KeyShare} (hidentifier : keyShare.package.identifier = crate.identifier account)
    {nonces : SigningNonces} (hnonces : CommitsNonces nonces) {committed : Table Address CommittedNonces}
    (hvalid : ∀ a n, committed.lookup a = some n → n.commitments.Valid) {m : B256} {result : SignatureShare}
    (h : signatureShare crate precompiles.keccak256 keyShare nonces committed m = .ok result) :
    ∃ signers i signer z, selectionSigners crate keyShare.package committed m = .ok signers ∧
      Selects crate precompiles account keyShare committed.keys m result signers i signer z := by
  have h := mapError_eq_ok.mp h
  obtain ⟨z, hsign, h⟩ := bind_eq_ok.mp h
  obtain ⟨factors, hfactors, h⟩ := bind_eq_ok.mp h
  obtain ⟨rows, hrows, h⟩ := bind_eq_ok.mp h
  obtain ⟨groupR, hgroupR, h⟩ := bind_eq_ok.mp h
  obtain ⟨own, hown, h⟩ := bind_eq_ok.mp h
  cases pure_eq_ok.mp h
  obtain ⟨henough, hmine, hkey, hz, factors', factor, r, l, hfactors', hfactor, hr, hrne, hl, hvalue⟩ :=
    hsigns.sign hsign
  cases Except.ok.inj (hfactors'.symm.trans hfactors)
  cases Except.ok.inj (hr.symm.trans hgroupR)
  have hmembers := fun x hx => mem_of_mapM hrows (b := x) hx
  have haddresses : rows.map Signer.address = committed.rows.map Prod.fst := by
    refine map_of_mapM _ (fun row _ x hx => ?_) hrows
    obtain ⟨_, _, -, -, rfl⟩ := signerOf_eq_ok.mp hx
    rfl
  have hdistinct : (rows.map Signer.address).Nodup := by
    rw [haddresses]
    exact rows_nodup committed
  have hsigners : ∀ x, x ∈ (signersTable crate rows).rows.map Prod.snd ↔ x ∈ rows :=
    fun x => mem_signersTable hcrate.injective hdistinct
  have hset : ((signersTable crate rows).rows.map Prod.snd).toFinset = rows.toFinset := by
    ext x
    rw [List.mem_toFinset, List.mem_toFinset, hsigners]
  have hpackage : ∀ i c, (byIdentifier crate committed CommittedNonces.commitments).lookup i = some c →
      c.Valid := by
    intro i c hc
    obtain ⟨a, n, hn, -, rfl⟩ := of_lookup_byIdentifier hcrate.injective hc
    exact hvalid a n hn
  obtain ⟨hgroupValid, hgroupSum⟩ := hsigns.signingCommitment hpackage hgroupR
  -- the own signer is the one of the own row
  have hlookup : (signersTable crate rows).lookup keyShare.package.identifier = some own := by
    unfold ownSigner at hown
    cases hfound : (signersTable crate rows).lookup keyShare.package.identifier with
    | none =>
        rw [hfound] at hown
        cases hown
    | some x =>
        rw [hfound] at hown
        exact congrArg some (Except.ok.inj hown)
  have hownId := Contracts.Coordinator.signersTable_identified crate rows hlookup
  have hownAddress : own.address = account := hcrate.injective (hownId.symm.trans hidentifier)
  obtain ⟨row, hrow, hownRow⟩ := hmembers own
    ((hsigners own).mp (List.mem_map_of_mem (Table.lookup_eq_some.mp hlookup)))
  obtain ⟨factor', l', hfactor', hl', hownEq⟩ := signerOf_eq_ok.mp hownRow
  have hrowAddress : row.1 = own.address := by rw [hownEq]
  rw [hrowAddress, ← hownId] at hfactor' hl'
  cases Option.some.inj (hfactor'.symm.trans hfactor)
  cases Except.ok.inj (hl'.symm.trans hl)
  have hcommitments : row.2.commitments = nonces.commitments := by
    have hpeer : (byIdentifier crate committed CommittedNonces.commitments).lookup (crate.identifier row.1) =
        some row.2.commitments := lookup_byIdentifier hcrate.injective (Table.lookup_eq_some.mpr hrow)
    rw [hrowAddress, ← hownId] at hpeer
    exact Option.some.inj (hpeer.symm.trans hmine)
  have hrowValid : row.2.commitments.Valid := hvalid row.1 row.2 (Table.lookup_eq_some.mpr hrow)
  have hleaves : (signersTable crate rows).rows.map
      (fun row => signerLeaf precompiles.keccak256 row.2.address row.2.r row.2.l groupR) =
        leaves precompiles.keccak256 ((signersTable crate rows).rows.map Prod.snd) groupR := by
    rw [leaves, List.map_map]
    rfl
  have hkeys : (byIdentifier crate committed CommittedNonces.commitments).keys =
      committed.keys.image crate.identifier := keys_byIdentifier hcrate.injective committed
  have hpoint : ∀ x ∈ rows, x.r.Valid := by
    intro x hx
    obtain ⟨row, hrow, hsigner⟩ := hmembers x hx
    obtain ⟨_, _, -, -, rfl⟩ := signerOf_eq_ok.mp hsigner
    exact (hsigns.commitmentShare (hvalid row.1 row.2 (Table.lookup_eq_some.mpr hrow))).1
  rw [hleaves]
  have hselected : selectionSigners crate keyShare.package committed m =
      .ok ((signersTable crate rows).rows.map Prod.snd) :=
    bind_eq_ok.mpr ⟨factors, hfactors, bind_eq_ok.mpr ⟨rows, hrows, rfl⟩⟩
  refine ⟨_, _, own, z, hselected, ⟨?_, rfl⟩, ?_, hownAddress, rfl, rfl, ?_, ?_, ?_, ?_, ?_, ?_, hkey, hz, ?_⟩
  · -- the identifiers of the signers are the keys of the table
    have hsame : (signersTable crate rows).rows.map Prod.fst =
        (((signersTable crate rows).rows.map Prod.snd).map Signer.address).map crate.identifier := by
      rw [List.map_map, List.map_map]
      exact List.map_congr_left fun row hrow =>
        Contracts.Coordinator.signersTable_identified crate rows (Table.lookup_eq_some.mpr hrow)
    have hnodup := rows_nodup (signersTable crate rows)
    rw [hsame] at hnodup
    exact hnodup.of_map
  · rw [List.getElem?_map, Table.rows_getElem? hlookup]
    rfl
  · ext a
    rw [hset, Finset.mem_image, Table.keys, List.mem_toFinset, ← haddresses, List.mem_map]
    simp only [List.mem_toFinset]
  · intro x hx
    obtain ⟨row, hrow, hsigner⟩ := hmembers x ((hsigners x).mp hx)
    obtain ⟨_, l', -, hl', rfl⟩ := signerOf_eq_ok.mp hsigner
    have hweight := hsigns.interpolatingValue hl'
    rw [hkeys, Sharing.weight_image hcrate.injective] at hweight
    exact hweight
  · rw [← Table.card_keys, hkeys, Finset.card_image_of_injective _ hcrate.injective] at henough
    exact henough
  · rw [hset, List.sum_toFinset _ hdistinct.of_map, hgroupSum,
      sum_rows_byIdentifier hcrate.injective committed fun i (c : SigningCommitments) =>
        c.bound ((factors.lookup i).getD 0)]
    refine congrArg List.sum (map_of_mapM _ (fun row hrow x hx => ?_) hrows)
    obtain ⟨factor', _, hfactor', -, rfl⟩ := signerOf_eq_ok.mp hx
    rw [hfactor']
    exact (hsigns.commitmentShare (hvalid row.1 row.2 (Table.lookup_eq_some.mpr hrow))).2
  · exact fun x hx => hpoint x ((hsigners x).mp hx)
  · exact onCurve_of_valid hgroupValid hrne
  · have hr : own.r.toCurve = nonces.commitments.bound factor := by
      rw [hownEq, ← hcommitments]
      exact (hsigns.commitmentShare hrowValid).2
    rw [hr, SigningCommitments.bound, hnonces.hidingPoint, hnonces.bindingPoint, hvalue, hownEq]
    push_cast
    module

end Signers

/-! ### What the coordinator asks of a share -/

/-- Points and scalars that `ecrecover` can be asked about, as all but a few are. -/
structure Usable (externals : Contracts.Coordinator.Externals) (s : Contracts.Coordinator.State) (sid : B256)
    (r : Point) (signer : Signer) : Prop where
  commitment : signer.r ≠ Contracts.Secp256k1.zero
  share : 0 < ((groupOf s sid).participants.keys signer.address).x.toNat ∧
    ((groupOf s sid).participants.keys signer.address).x.toNat < Secp256k1.N
  coefficient : ((challengeIn externals s sid r * signer.l.toNat : ℕ) : ZMod Secp256k1.N) ≠ 0
  address : Contracts.Secp256k1.address externals.keccak256 (-signer.r.toCurve) ≠ 0
  group : Checkable externals s sid r

section Chain

variable {crate : FrostCrate} {externals : Contracts.Coordinator.Externals}
  {s : Contracts.Coordinator.State} {sid m : B256} {account : Address} {keyShare : KeyShare}
  {committed : Finset Address} {result : SignatureShare} {signers : List Signer} {i : Nat} {signer : Signer}
  {z : Scalar} {commitments : GroupCommitments}

/-- The share satisfies its equation on chain. -/
theorem Selects.satisfies
    (h : Selects crate externals.precompiles account keyShare committed m result signers i signer z)
    (honchain : Onchain crate commitments (groupOf s sid)) (hshare : IsShare crate account commitments keyShare)
    (hmessage : (s.signatures sid).message = m)
    (husable : Usable externals s sid result.selection.r signer) :
    Satisfies externals s sid result.selection.r (signer, z) := by
  have hkey : (groupOf s sid).key = keyShare.package.verifyingKey := by
    rw [hshare.key]
    exact honchain.key
  have hregistered := (honchain.registered account).mpr hshare.member
  obtain ⟨hvalid, hvalue⟩ := honchain.keys account hregistered
  have hown : (groupOf s sid).participants.keys signer.address = (groupOf s sid).participants.keys account := by
    rw [h.own]
  refine ⟨h.scalar, h.onCurve, onCurve_of_valid honchain.valid ?_, ?_, ?_, husable.share.1, husable.share.2,
    husable.coefficient, ?_⟩
  · rw [hkey]
    exact h.key
  · rw [hown]
    exact onCurve_of_valid hvalid (honchain.nonzero account hregistered)
  · exact onCurve_of_valid (h.points signer (List.mem_of_getElem? h.place)) husable.commitment
  · have hequation := h.equation
    rw [← hkey, ← hmessage, hshare.equation, ← hvalue, ← hown] at hequation
    exact hequation

/-- The verification shares of the signers interpolate the key on chain. -/
theorem Selects.interpolates (hcrate : GeneratesKeys crate)
    (h : Selects crate externals.precompiles account keyShare committed m result signers i signer z)
    (honchain : Onchain crate commitments (groupOf s sid)) (hshare : IsShare crate account commitments keyShare)
    (hderived : crate.verifyingKey commitments.groupCommitment = .ok commitments.verifyingKey)
    (hregistered : ∀ a ∈ committed, ((groupOf s sid).participants.states a).status ≠ .none) :
    Interpolates s sid signers := by
  have henough : (groupOf s sid).state.threshold ≤ committed.card := by
    rw [← honchain.threshold, ← hshare.threshold]
    exact h.enough
  have hinj : Set.InjOn Signer.address signers.toFinset := by
    intro x hx y hy heq
    exact List.inj_on_of_nodup_map h.built.distinct (List.mem_toFinset.mp hx) (List.mem_toFinset.mp hy) heq
  unfold Interpolates
  rw [← honchain.interpolates hcrate hderived hregistered henough, ← h.addresses, Finset.sum_image hinj,
    h.addresses]
  refine Finset.sum_congr rfl fun x hx => ?_
  rw [h.weights x (List.mem_toFinset.mp hx)]

end Chain

/-! ### What the validator has read of the ceremony -/

section Heard

variable {t : Transition} {messages : List Message} {events : List Contracts.Coordinator.Event}

theorem Hears.signs (h : Hears messages events) {gid m sid : B256} (hheard : Heard messages (.sign gid m sid)) :
    ∃ initiator sequence, .sign initiator gid m sid sequence ∈ events := by
  obtain ⟨emitted, hmem, hread⟩ := h _ hheard rfl
  unfold readEvent at hread
  split at hread <;> cases hread
  exact ⟨_, _, hmem⟩

theorem Hears.committedNonces (h : Hears messages events) {sid : B256} {p : Address}
    {nonces : Contracts.Coordinator.SignNonces} (hheard : Heard messages (.signCommittedNonces sid p nonces)) :
    .signCommittedNonces sid p nonces ∈ events := by
  obtain ⟨emitted, hmem, hread⟩ := h _ hheard rfl
  unfold readEvent at hread
  split at hread <;> cases hread
  exact hmem

/-- Verified nonces are points. -/
theorem verifyCommittedNonces_valid {p : Address} {nonces : Contracts.Coordinator.SignNonces}
    {n : CommittedNonces} (h : verifyCommittedNonces p nonces = .ok n) : n.commitments.Valid := by
  have h := mapError_eq_ok.mp h
  obtain ⟨commitments, hcommitments, h⟩ := bind_eq_ok.mp h
  cases pure_eq_ok.mp h
  obtain ⟨d, hd, h⟩ := bind_eq_ok.mp hcommitments
  obtain ⟨e, he, h⟩ := bind_eq_ok.mp h
  obtain ⟨u, -, h⟩ := bind_eq_ok.mp h
  cases pure_eq_ok.mp h
  obtain ⟨hdValid, rfl⟩ := frostPoint_eq_ok.mp hd
  obtain ⟨heValid, rfl⟩ := frostPoint_eq_ok.mp he
  exact ⟨hdValid, heValid⟩

end Heard

/-! ### Every run -/

section Run

variable {externals : Contracts.Coordinator.Externals} {calls : List (Address × Contracts.Coordinator.Call)}
  {sid : B256} {signers : List Signer} {selection : Contracts.Coordinator.SignSelection} {inputs : Set Bytes}

/-- The hashes, the commitments and the coordinates of a ceremony are none of the few that the contracts
mistake or refuse. -/
structure Unexceptional (externals : Contracts.Coordinator.Externals)
    (calls : List (Address × Contracts.Coordinator.Call)) (group : Group) (sid : B256)
    (selection : Contracts.Coordinator.SignSelection) (signers : List Signer) (signer : Signer) : Prop where
  groups : ∃ hashed, TellsApart externals.keccak256 (Contracts.Coordinator.emitted
    (Trace.trace (Contracts.Coordinator.step externals) Contracts.Coordinator.deployed calls)) group hashed
  leaves : ∃ inputs, NoCollision externals.keccak256 inputs ∧
    (∀ a ∈ hashedBuild externals.keccak256 signers selection.r, a ∈ inputs) ∧
    ∀ st ∈ Trace.trace (Contracts.Coordinator.step externals) Contracts.Coordinator.deployed calls,
      Sure externals sid selection.root inputs st
  /-- Not all signers are needed to get to `R` only by accident. -/
  minimal : ∀ part ⊂ signers.toFinset, part.Nonempty →
    ∑ signer ∈ part, signer.r.toCurve ≠ selection.r.toCurve
  usable : Usable externals (Trace.final (Contracts.Coordinator.step externals)
    Contracts.Coordinator.deployed calls) sid selection.r signer

theorem step_signShare {s s' : Contracts.Coordinator.State} {a : Address}
    {selection : Contracts.Coordinator.SignSelection} {share : Contracts.FROST.SignatureShare}
    {proof : List B256} {done : Bool} {events : List Contracts.Coordinator.Event}
    (h : Contracts.Coordinator.signShare externals s a sid selection share proof = .ok (s', done, events)) :
    (Contracts.Coordinator.step externals s (a, .signShare sid selection share proof)).2 = .ok events := by
  have hcall : Contracts.Coordinator.call externals s a (.signShare sid selection share proof) =
      .ok (s', events) := bind_eq_ok.mpr ⟨_, h, rfl⟩
  show (Contracts.transact s (Contracts.Coordinator.call externals s a _)).2 = _
  rw [hcall]
  rfl

theorem aggregated_final (hverifies : Verifies externals.keccak256 externals.merkleProof)
    (hrecovers : Contracts.Secp256k1.Recovers externals.precompiles)
    (hbuilt : Built externals.keccak256 signers selection) (hfree : NoCollision externals.keccak256 inputs)
    (hbuild : ∀ a ∈ hashedBuild externals.keccak256 signers selection.r, a ∈ inputs)
    (hsure : ∀ st ∈ Trace.trace (Contracts.Coordinator.step externals) Contracts.Coordinator.deployed calls,
      Sure externals sid selection.root inputs st) :
    Aggregated externals sid signers selection
      (Trace.trace (Contracts.Coordinator.step externals) Contracts.Coordinator.deployed calls)
      (Trace.final (Contracts.Coordinator.step externals) Contracts.Coordinator.deployed calls) :=
  Trace.history_invariant (Contracts.Coordinator.aggregated_deployed externals sid signers selection)
    (fun _ _ _ h hstep => h.concat hverifies hrecovers hbuilt hfree hbuild hstep) calls hsure

/--
**An honest share is accepted, and the last one completes the ceremony.**

A validator emits a signature share, in any run of its own, and has read of the coordinator what the
coordinator has emitted, in any run with any other participants.  Then the coordinator accepts the share
exactly if the validator has not submitted one for the selection before.  If everyone else in the selection
has, the ceremony completes with a signature that verifies under the key of the group.
-/
theorem honest_shares_are_accepted (t : Transition) (hcrate : GeneratesKeys t.externals.toFrostCrate)
    (externals : Contracts.Coordinator.Externals) (hkeccak : externals.keccak256 = t.externals.keccak256)
    (hsigns : SignsShares t.externals.toFrostCrate externals.precompiles)
    (hverifies : Verifies externals.keccak256 externals.merkleProof)
    (hrecovers : Contracts.Secp256k1.Recovers externals.precompiles)
    (messages : List Message) (hsamples : Samples t messages)
    (hnonces : ∀ m nonces, .resume (.nonces m nonces) ∈ messages → CommitsNonces nonces)
    (horderly : Orderly t messages) (calls : List (Address × Contracts.Coordinator.Call)) :
    let steps := Trace.trace (Contracts.Coordinator.step externals) Contracts.Coordinator.deployed calls
    let s := Trace.final (Contracts.Coordinator.step externals) Contracts.Coordinator.deployed calls
    Hears messages (Contracts.Coordinator.emitted steps) →
    ∀ st ∈ Trace.trace t.applyTransition State.default messages, ∀ sid share callback deadline,
      .action (.signShare sid share callback deadline) ∈ st.out →
      ∃ m session epoch signers signer,
        st.post.signing.lookup m = some (.collectSigningShares session) ∧ session.signatureId = sid ∧
        st.post.epochs.lookup session.packet.epoch = some epoch ∧
        selectionSigners t.externals.toFrostCrate session.keyShare.package session.committed m = .ok signers ∧
        Built externals.keccak256 signers share.selection ∧ signer ∈ signers ∧ signer.address = t.account ∧
        share.share = shareOf (signer, share.share.z) ∧
        (Unexceptional externals calls epoch.group sid share.selection signers signer →
          let answer := (Contracts.Coordinator.step externals s (t.account,
            .signShare sid share.selection share.share share.proof)).2
          let contributors := contributed sid share.selection.root steps
          ((∃ events, answer = .ok events) ↔ signer ∉ contributors) ∧
          (signer ∉ contributors → insert signer contributors = signers.toFinset →
            (s.signatures sid).signed = 0 →
            ∃ signature, answer = .ok [.signShared sid share.selection.root t.account share.share.z,
                .signCompleted sid share.selection.root signature] ∧
              Contracts.FROST.verify externals.precompiles session.keyShare.package.verifyingKey signature m =
                .ok ⟨⟩)) := by
  intro steps s hhears st hst sid share callback deadline hout
  have hreported : Contracts.Coordinator.Reported externals (Contracts.Coordinator.emitted steps) s :=
    Contracts.Coordinator.reported_run externals calls
  obtain ⟨m, session, epoch, nonces, hsigning⟩ := signShare_emitted hcrate hsamples horderly hst hout
  obtain ⟨commitments, shared, hcommitted, hpublished, hfull, hisShare⟩ := hsigning.held
  obtain ⟨initiator, sequence, hsign⟩ := hhears.signs hsigning.started
  obtain ⟨hne, hmessage, hgid⟩ := hreported.signs initiator session.groupId m sid sequence hsign
  have hderived := (groupCommitments_eq_ok.mp hcommitted.derived).2.2
  -- who committed nonces is confirmed on chain
  have hregistered : ∀ a ∈ session.committed.keys, ((groupOf s sid).participants.states a).status ≠ .none := by
    intro a ha
    obtain ⟨n, hn⟩ := Table.mem_keys.mp ha
    obtain ⟨nonces', hheard, -⟩ := hsigning.gathered a n hn
    rw [(hreported.nonces sid a nonces' (hhears.committedNonces hheard)).2]
    decide
  have hmade := hsigning.made
  rw [← hkeccak] at hmade
  obtain ⟨signers, i, signer, z, hsigners, hselects⟩ := signatureShare_selects
    hcrate hsigns hisShare.identifier (hnonces m nonces hsigning.resumed) (fun a n hn => by
      obtain ⟨_, -, hverified⟩ := hsigning.gathered a n hn
      exact verifyCommittedNonces_valid hverified) hmade
  have hz : share.share.z = z := by rw [hselects.share]; rfl
  refine ⟨m, session, epoch, signers, signer, hsigning.round, hsigning.named, hsigning.registered, hsigners,
    hselects.built, List.mem_of_getElem? hselects.place, hselects.own, by rw [hz]; exact hselects.share,
    fun hfair => ?_⟩
  obtain ⟨hashed, happart⟩ := hfair.groups
  obtain ⟨inputs, hfree, hbuild, hsure⟩ := hfair.leaves
  have honchain : Onchain t.externals.toFrostCrate commitments (groupOf s sid) := by
    have hstored := onchain_of_published hcrate hreported hhears hkeccak happart hcommitted hpublished hfull
    rw [hsigning.group, ← hgid] at hstored
    exact hstored
  have haggregated := aggregated_final hverifies hrecovers hselects.built hfree hbuild hsure
  have hsums : Sums ((contributions sid share.selection.root steps).map shareOf)
      ((s.signatures sid).shares share.selection.root).signature := by
    rw [← Contracts.Coordinator.addedShares_eq]
    exact Contracts.Coordinator.sums_run externals sid share.selection.root calls
  have haddsUp : AddsUp signers share.selection.r := ⟨hselects.sum, hfair.minimal⟩
  have hsatisfies := hselects.satisfies honchain hisShare hmessage hfair.usable
  have hseparates : Separates externals s sid share.selection.r (signer, z) := by
    obtain ⟨-, -, -, -, -, -, -, -, hequation⟩ := hsatisfies
    unfold Separates
    rw [← neg_sub, hequation]
    exact Contracts.Secp256k1.distinguishes_self hfair.usable.address
  have hinterpolates := hselects.interpolates hcrate honchain hisShare hderived hregistered
  have hsigner : signer ∈ signers := List.mem_of_getElem? hselects.place
  have haccepted : (∃ events, (Contracts.Coordinator.step externals s (t.account,
      .signShare sid share.selection share.share share.proof)).2 = .ok events) ↔
        ∃ answer, Contracts.Coordinator.signShare externals s signer.address sid share.selection
          (shareOf (signer, z)) share.proof = .ok answer := by
    rw [hselects.own, ← hselects.share]
    have htake : Trace.take (Contracts.Coordinator.step externals) s
        (t.account, .signShare sid share.selection share.share share.proof) =
          Trace.take (Contracts.Coordinator.step externals) s
            (t.account, .signShare sid share.selection share.share share.proof) := rfl
    exact Contracts.Coordinator.accepted_iff htake rfl
  have hfirst : (∃ answer, Contracts.Coordinator.signShare externals s signer.address sid share.selection
      (shareOf (signer, z)) share.proof = .ok answer) ↔
        signer ∉ contributed sid share.selection.root steps := by
    constructor
    · rintro ⟨answer, hanswer⟩
      obtain ⟨-, -, -, shares, signature, hregister, -⟩ := Contracts.Coordinator.signShare_eq.mp hanswer
      exact (haggregated.fresh_iff hselects.built hsigner).mp
        ((haggregated.recorded signer.address).mp (Contracts.Coordinator.register_eq_ok.mp hregister).1)
    · intro hfresh
      rw [hselects.proof]
      exact haggregated.accepts hverifies hrecovers hselects.built hsums haddsUp hselects.place hfresh hseparates
        hsatisfies (hmessage ▸ hne) hinterpolates hfair.usable.group
  refine ⟨haccepted.trans hfirst, fun hfresh hall hsigned => ?_⟩
  obtain ⟨⟨s', done, events⟩, hshare⟩ := hfirst.mpr hfresh
  obtain ⟨hverify, houtcome⟩ := (haggregated.outcome hsums haddsUp hsigner hfresh hsatisfies hshare).2 hall
  have hkey : (groupOf s sid).key = session.keyShare.package.verifyingKey := by
    rw [hisShare.key]
    exact honchain.key
  rw [if_pos hsigned] at houtcome
  rw [hkey, hmessage] at hverify
  refine ⟨_, ?_, hverify⟩
  rw [hselects.own, ← hselects.share] at hshare
  rw [step_signShare hshare, houtcome.2, hselects.own, hz]

end Run

/-! ### Two participants sign -/

def boundPoint (c : SigningCommitments) (factor : Scalar) : Point :=
  plus c.hidingPoint (times c.bindingPoint factor.toNat)

theorem boundPoint_ok {c : SigningCommitments} (h : c.Valid) (factor : Scalar) :
    (boundPoint c factor).Valid ∧ (boundPoint c factor).toCurve = c.bound factor := by
  obtain ⟨htimes, hmultiple⟩ := times_ok h.2 factor.toNat
  obtain ⟨hvalid, hsum⟩ := plus_ok h.1 htimes
  refine ⟨hvalid, hsum.trans ?_⟩
  rw [hmultiple, SigningCommitments.bound, Contracts.Secp256k1.natCast_smul]

/-- The same factor for everyone. -/
def unitFactors (package : SigningPackage) : Table Identifier Scalar :=
  package.commitments.rows.foldl (fun factors row => factors.insert row.1 1) .empty

def signingPoint (package : SigningPackage) (factors : Table Identifier Scalar) : Point :=
  (package.commitments.rows.map fun row => boundPoint row.2 ((factors.lookup row.1).getD 0)).foldr plus
    Contracts.Secp256k1.zero

/-- The weights of the participants 1 and 2. -/
def duoWeight (identifier : Identifier) (package : SigningPackage) : Except FrostError Scalar :=
  if package.commitments.rows.map Prod.fst = [1, 2] then
    if identifier = 1 then .ok 2
    else if identifier = 2 then .ok (BitVec.ofNat 256 (Secp256k1.N - 1)) else .error .unknownIdentifier
  else .error .other

/-- What the challenge is hashed with. -/
def duoPrecompiles : Contracts.FROST.Precompiles where
  keccak256 := duoKeccak
  sha256 := fun bytes => BitVec.ofNat 256 (Bytes.value bytes)
  ecrecover := fun _ _ _ _ => 0

def duoSign (package : SigningPackage) (nonces : SigningNonces) (key : KeyPackage) : Except FrostError Scalar :=
  match (unitFactors package).lookup key.identifier, duoWeight key.identifier package with
  | some factor, .ok l =>
      let r := signingPoint package (unitFactors package)
      if key.minSigners ≤ package.commitments.rows.length ∧
          package.commitments.lookup key.identifier = some nonces.commitments ∧
          key.verifyingKey ≠ Contracts.Secp256k1.zero ∧ r ≠ Contracts.Secp256k1.zero then
        .ok (BitVec.ofNat 256 ((nonces.hidingNonce.toNat + nonces.bindingNonce.toNat * factor.toNat +
          l.toNat * key.signingShare.toNat * challengeOf duoPrecompiles r key.verifyingKey package.message) %
            Secp256k1.N))
      else .error .other
  | _, _ => .error .other

/-- The crates on the curve, for the two. -/
def signingCrate : FrostCrate :=
  { curveCrate with
    sign := duoSign
    bindingFactors := fun package _ => .ok (unitFactors package)
    interpolatingValue := duoWeight
    commitmentShare := boundPoint
    signingCommitment := fun package factors => .ok (signingPoint package factors) }

theorem signingCrate_generatesKeys : GeneratesKeys signingCrate where
  injective := curveCrate_generatesKeys.injective
  canonical := curveCrate_generatesKeys.canonical
  sumCommitments := curveCrate_generatesKeys.sumCommitments
  verifyingKey := curveCrate_generatesKeys.verifyingKey
  verifyingShare := curveCrate_generatesKeys.verifyingShare
  part2 := curveCrate_generatesKeys.part2
  part3 := curveCrate_generatesKeys.part3

theorem duo_challengeOf (r y : Point) (m : B256) :
    challengeOf duoPrecompiles r y m = challengeOf duoExternals.precompiles r y m := rfl

theorem duoWeight_ok {identifier : Identifier} {package : SigningPackage} {l : Scalar}
    (h : duoWeight identifier package = .ok l) : (l.toNat : ZMod Secp256k1.N) =
      Sharing.weight package.commitments.keys (fun i => (i.toNat : ZMod Secp256k1.N)) identifier := by
  unfold duoWeight at h
  split at h
  · next hrows =>
    have hkeys : package.commitments.keys = {1, 2} := by
      rw [Table.keys, hrows]
      rfl
    rw [hkeys, Sharing.weight]
    split at h
    · next hfirst =>
      cases h
      rw [hfirst, show (({1, 2} : Finset Identifier).erase 1) = {2} by decide, Finset.prod_singleton]
      show ((2 : ℕ) : ZMod Secp256k1.N) =
        ((2 : ℕ) : ZMod Secp256k1.N) * (((2 : ℕ) : ZMod Secp256k1.N) - ((1 : ℕ) : ZMod Secp256k1.N))⁻¹
      rw [← Nat.cast_sub (by decide), Nat.cast_one, inv_one, mul_one]
    · split at h
      · next hsecond =>
        cases h
        rw [hsecond, show (({1, 2} : Finset Identifier).erase 2) = {1} by decide, Finset.prod_singleton]
        show ((Secp256k1.N - 1 : ℕ) : ZMod Secp256k1.N) =
          ((1 : ℕ) : ZMod Secp256k1.N) * (((1 : ℕ) : ZMod Secp256k1.N) - ((2 : ℕ) : ZMod Secp256k1.N))⁻¹
        rw [Nat.cast_sub (by decide), ZMod.natCast_self, Nat.cast_one, zero_sub, one_mul,
          show (1 : ZMod Secp256k1.N) - ((2 : ℕ) : ZMod Secp256k1.N) = -1 by push_cast; ring, inv_neg, inv_one]
      · cases h
  · cases h

theorem signingCrate_signsShares : SignsShares signingCrate duoExternals.precompiles where
  sign := by
    intro package nonces key z h
    change duoSign package nonces key = .ok z at h
    unfold duoSign at h
    split at h
    · next factor l hfactor hl =>
      dsimp only at h
      split at h
      · next hchecks =>
        cases h
        obtain ⟨henough, hmine, hkey, hr⟩ := hchecks
        refine ⟨henough, hmine, hkey, ?_, _, factor, _, l, rfl, hfactor, rfl, hr, hl, ?_⟩
        · rw [Contracts.Secp256k1.ofNat_mod_toNat]
          exact Nat.mod_lt _ Contracts.Secp256k1.prime_N.pos
        · rw [Contracts.Secp256k1.ofNat_mod_toNat, ZMod.natCast_mod, ← duo_challengeOf]
          push_cast
          ring
      · cases h
    · cases h
  interpolatingValue := duoWeight_ok
  commitmentShare := fun h => boundPoint_ok h _
  signingCommitment := by
    intro package factors r hvalid h
    cases h
    have hbound : ∀ row ∈ package.commitments.rows,
        (boundPoint row.2 ((factors.lookup row.1).getD 0)).Valid ∧
          (boundPoint row.2 ((factors.lookup row.1).getD 0)).toCurve =
            row.2.bound ((factors.lookup row.1).getD 0) :=
      fun row hrow => boundPoint_ok (hvalid row.1 row.2 (Table.lookup_eq_some.mpr hrow)) _
    have hpoints : ∀ p ∈ package.commitments.rows.map fun row =>
        boundPoint row.2 ((factors.lookup row.1).getD 0), p.Valid := by
      intro p hp
      obtain ⟨row, hrow, rfl⟩ := List.mem_map.mp hp
      exact (hbound row hrow).1
    obtain ⟨hsumValid, hsum⟩ := foldr_plus_ok hpoints (.inl rfl)
    refine ⟨hsumValid, hsum.trans ?_⟩
    rw [Contracts.Secp256k1.toCurve_zero, add_zero, List.map_map]
    exact congrArg List.sum (List.map_congr_left fun row hrow => (hbound row hrow).2)

def signingValidator : Transition :=
  { duoValidator with externals := { signingCrate with keccak256 := duoKeccak } }

def duoMessage : B256 := signingValidator.packetHash (.transaction .genesis 0xa [] trioTransaction)

def duoSid : B256 := duoGid ||| 1

/-- A pair of nonces with its commitments. -/
def duoNonces (d e : Scalar) : SigningNonces :=
  ⟨d, e, ⟨times Secp256k1.G d.toNat, times Secp256k1.G e.toNat⟩⟩

/-- A transaction is proposed and approved, and both commit nonces. -/
def duoRound : List Message :=
  duoRun ++ [eventAt 5 (.transactionProposed 0xa 0 [] trioTransaction), eventAt 5 (.sign duoGid duoMessage duoSid),
    .event ⟨⟨6, 0⟩, 0, 0xa, .oracleResult duoMessage true⟩,
    eventAt 7 (.signCommittedNonces duoSid 1 (duoNonces 1 1).published),
    eventAt 7 (.signCommittedNonces duoSid 2 (duoNonces 2 1).published)]

def duoResumed : Message := .resume (.nonces duoMessage (duoNonces 1 1))

def duoSigningCalls : List (Address × Contracts.Coordinator.Call) :=
  duoCalls ++ [(1, .sign duoGid duoMessage), (1, .signCommitNonces duoSid (duoNonces 1 1).published),
    (2, .signCommitNonces duoSid (duoNonces 2 1).published)]

/-- The commitment shares are `1 + 1` and `2 + 1` times the generator. -/
def duoSigners : List Signer :=
  [⟨1, times Secp256k1.G 2, 2⟩, ⟨2, times Secp256k1.G 3, BitVec.ofNat 256 (Secp256k1.N - 1)⟩]

/-- The share that a command submits. -/
def submitted : Command → Option (B256 × SignatureShare)
  | .action (.signShare sid share _ _) => some (sid, share)
  | _ => none

theorem duo_submits :
    ((signingValidator.applyTransition (Trace.final signingValidator.applyTransition State.default duoRound)
      duoResumed).2.filterMap submitted).map (fun share => (share.1, share.2.selection.r)) =
        [(duoSid, times Secp256k1.G 5)] := by
  decide +kernel

/-- The signing round that a session is in. -/
def SigningState.round? : SigningState → Option CollectSigningShares
  | .collectSigningShares session => some session
  | _ => none

theorem duo_session :
    (Trace.final signingValidator.applyTransition State.default (duoRound ++ [duoResumed])).signing.rows.map
      (fun row => (row.1, row.2.round?.map fun session => (session.packet.epoch,
        selectionSigners signingCrate session.keyShare.package session.committed row.1))) =
          [(duoMessage, some (.genesis, .ok duoSigners))] ∧
    (Trace.final signingValidator.applyTransition State.default (duoRound ++ [duoResumed])).epochs.rows.map
      (fun row => (row.1, row.2.group)) =
        [(.genesis, duoValidator.genesis.group duoKeccak)] := by
  decide +kernel

theorem duo_samples : Samples signingValidator (duoRound ++ [duoResumed]) := by
  intro gid secrets h
  have hsampled : ∀ message ∈ duoRound ++ [duoResumed], message = .resume (.setup gid secrets) →
      message ∈ duoRun := by
    intro message hmessage heq
    subst heq
    rw [duoRound, List.append_assoc, List.mem_append] at hmessage
    refine hmessage.resolve_right fun hlater => ?_
    simp [duoResumed, eventAt] at hlater
  obtain ⟨hidentifier, hcommitted, hthreshold⟩ := duoRun_samples gid secrets (hsampled _ h rfl)
  exact ⟨hidentifier, hcommitted, hthreshold⟩

theorem duo_resumed {m : B256} {nonces : SigningNonces}
    (h : .resume (.nonces m nonces) ∈ duoRound ++ [duoResumed]) : CommitsNonces nonces := by
  simp only [duoRound, duoRun, duoResumed, eventAt, List.cons_append, List.nil_append, List.mem_cons,
    Core.Message.resume.injEq, Resume.nonces.injEq, reduceCtorEq, false_or, List.not_mem_nil, or_false] at h
  rw [h.2]
  have hG : Secp256k1.G.Valid := .inr Contracts.Secp256k1.satisfiesCurveEquation_G
  constructor
  · exact (times_ok hG _).2.trans (Contracts.Secp256k1.natCast_smul _ _).symm
  · exact (times_ok hG _).2.trans (Contracts.Secp256k1.natCast_smul _ _).symm

theorem duo_orderly : Orderly signingValidator (duoRound ++ [duoResumed]) where
  fresh := by decide +kernel
  promised := by
    intro st hst
    have hquiet : ((Trace.trace signingValidator.applyTransition State.default (duoRound ++ [duoResumed])).all
        fun st => st.pre.quiet && plainMessage st.input) = true := by
      decide +kernel
    have hstep := List.all_eq_true.mp hquiet st hst
    rw [Bool.and_eq_true] at hstep
    exact promised_of_quiet hstep.1 hstep.2

theorem duo_hears_signing : Hears (duoRound ++ [duoResumed]) (Contracts.Coordinator.emitted (Trace.trace
    (Contracts.Coordinator.step duoExternals) Contracts.Coordinator.deployed duoSigningCalls)) := by
  refine hears_of_readsFrom ?_
  decide +kernel

theorem duo_chain :
    let s := Trace.final (Contracts.Coordinator.step duoExternals) Contracts.Coordinator.deployed duoSigningCalls
    (groupOf s duoSid).key = times Secp256k1.G 3 ∧
      (groupOf s duoSid).participants.keys 1 = times Secp256k1.G 5 ∧
      challengeIn duoExternals s duoSid (times Secp256k1.G 5) * (2 : Scalar).toNat % Secp256k1.N ≠ 0 := by
  decide +kernel

theorem duo_unsubmitted : ∀ call ∈ duoSigningCalls, ∀ sid selection share proof,
    call.2 ≠ .signShare sid selection share proof := by
  simp [duoSigningCalls, duoCalls]

theorem duo_unsigned (root : B256) :
    contributed duoSid root (Trace.trace (Contracts.Coordinator.step duoExternals)
      Contracts.Coordinator.deployed duoSigningCalls) = ∅ := by
  have hnone : contributions duoSid root (Trace.trace (Contracts.Coordinator.step duoExternals)
      Contracts.Coordinator.deployed duoSigningCalls) = [] := by
    refine List.filterMap_eq_nil_iff.mpr fun st hst => ?_
    have hplain := duo_unsubmitted _ (Trace.input_mem hst)
    rw [Contracts.Coordinator.contribution, Contracts.Coordinator.addedShare]
    split
    · next hinput => exact absurd hinput (hplain _ _ _ _)
    · rfl
  rw [contributed, hnone]
  rfl

theorem generator_times (n : Nat) : (times Secp256k1.G n).Valid :=
  (times_ok (.inr Contracts.Secp256k1.satisfiesCurveEquation_G) n).1

theorem duo_unexceptional {selection : Contracts.Coordinator.SignSelection}
    (hr : selection.r = times Secp256k1.G 5) {signer : Signer} (hsigner : signer ∈ duoSigners)
    (haddress : signer.address = 1) :
    Unexceptional duoExternals duoSigningCalls (duoValidator.genesis.group duoKeccak) duoSid selection
      duoSigners signer where
  groups := ⟨_, duo_tellsApart (by decide +kernel)⟩
  leaves := by
    refine ⟨{a | a ∈ hashedBuild duoExternals.keccak256 duoSigners selection.r}, ?_, fun a ha => ha, ?_⟩
    · rw [hr]
      have hinjective : ∀ a ∈ hashedBuild duoKeccak duoSigners (times Secp256k1.G 5),
          ∀ b ∈ hashedBuild duoKeccak duoSigners (times Secp256k1.G 5), duoKeccak a = duoKeccak b → a = b := by
        decide +kernel
      have hnonzero : ∀ a ∈ hashedBuild duoKeccak duoSigners (times Secp256k1.G 5), duoKeccak a ≠ 0 := by
        decide +kernel
      exact ⟨hinjective, hnonzero⟩
    · intro st hst selection' share proof hinput
      exact absurd hinput (duo_unsubmitted _ (Trace.input_mem hst) _ _ _ _)
  minimal := by
    intro part hpart hne hsum
    rw [hr] at hsum
    have hsingle : part = {⟨1, times Secp256k1.G 2, 2⟩} ∨
        part = {⟨2, times Secp256k1.G 3, BitVec.ofNat 256 (Secp256k1.N - 1)⟩} := by
      obtain ⟨hsubset, hproper⟩ := Finset.ssubset_iff_subset_ne.mp hpart
      rw [duoSigners, List.toFinset_cons, List.toFinset_cons, List.toFinset_nil, insert_empty_eq] at hsubset hproper
      have hset : (part : Set Signer) ⊆ {⟨1, times Secp256k1.G 2, 2⟩,
          ⟨2, times Secp256k1.G 3, BitVec.ofNat 256 (Secp256k1.N - 1)⟩} := by
        intro x hx
        have hmem := hsubset hx
        rw [Finset.mem_insert, Finset.mem_singleton] at hmem
        exact hmem
      have hcases := Set.subset_pair_iff_eq.mp hset
      norm_cast at hcases
      rcases hcases with rfl | rfl | rfl | rfl
      · exact absurd hne Finset.not_nonempty_empty
      · exact .inl rfl
      · exact .inr rfl
      · exact absurd rfl hproper
    rcases hsingle with rfl | rfl
    · rw [Finset.sum_singleton] at hsum
      dsimp only at hsum
      have heq := Contracts.Secp256k1.toCurve_injective (generator_times 2) (generator_times 5) hsum
      exact absurd heq (by decide +kernel)
    · rw [Finset.sum_singleton] at hsum
      dsimp only at hsum
      have heq := Contracts.Secp256k1.toCurve_injective (generator_times 3) (generator_times 5) hsum
      exact absurd heq (by decide +kernel)
  usable := by
    have hchain := duo_chain
    dsimp only at hchain
    obtain ⟨hkey, hshare, hchallenge⟩ := hchain
    obtain rfl : signer = ⟨1, times Secp256k1.G 2, 2⟩ := by
      rcases List.mem_cons.mp hsigner with rfl | hsecond
      · rfl
      · rw [List.mem_singleton.mp hsecond] at haddress
        exact absurd haddress (by decide)
    have haddress : ∀ n, times Secp256k1.G n ≠ Contracts.Secp256k1.zero →
        Contracts.Secp256k1.address duoKeccak (-(times Secp256k1.G n).toCurve) =
          Contracts.Secp256k1.toAddress duoKeccak (times Secp256k1.G n).x.toNat
            (Contracts.Secp256k1.P - (times Secp256k1.G n).y.toNat) :=
      fun n hn => Contracts.Secp256k1.address_neg (onCurve_of_valid (generator_times n) hn)
    rw [hr]
    refine ⟨by decide +kernel, ?_, ?_, ?_, ?_⟩
    · dsimp only
      rw [hshare]
      decide +kernel
    · dsimp only
      rw [ne_eq, ZMod.natCast_eq_zero_iff, Nat.dvd_iff_mod_eq_zero]
      exact hchallenge
    · dsimp only
      rw [show duoExternals.keccak256 = duoKeccak from rfl, haddress 2 (by decide +kernel)]
      decide +kernel
    · unfold Checkable
      rw [hkey, show duoExternals.keccak256 = duoKeccak from rfl, haddress 5 (by decide +kernel)]
      decide +kernel

theorem duo_share_is_accepted : ∃ share : SignatureShare,
    (duoSid, share) ∈ (signingValidator.applyTransition
      (Trace.final signingValidator.applyTransition State.default duoRound) duoResumed).2.filterMap submitted ∧
    ∃ events, (Contracts.Coordinator.step duoExternals (Trace.final (Contracts.Coordinator.step duoExternals)
      Contracts.Coordinator.deployed duoSigningCalls)
      (1, .signShare duoSid share.selection share.share share.proof)).2 = .ok events := by
  obtain ⟨⟨sid, share⟩, hmem, heq⟩ : ∃ pair ∈ (signingValidator.applyTransition
      (Trace.final signingValidator.applyTransition State.default duoRound) duoResumed).2.filterMap submitted,
      (pair.1, pair.2.selection.r) = (duoSid, times Secp256k1.G 5) := by
    rw [← List.mem_map, duo_submits]
    exact List.mem_cons_self
  simp only [Prod.mk.injEq] at heq
  obtain ⟨rfl, hr⟩ := heq
  refine ⟨share, hmem, ?_⟩
  obtain ⟨command, hcommand, hsubmitted⟩ := List.mem_filterMap.mp hmem
  obtain ⟨callback, deadline, rfl⟩ : ∃ callback deadline,
      command = .action (.signShare duoSid share callback deadline) := by
    unfold submitted at hsubmitted
    split at hsubmitted
    · cases hsubmitted
      exact ⟨_, _, rfl⟩
    · cases hsubmitted
  have hlast : Trace.take signingValidator.applyTransition
      (Trace.final signingValidator.applyTransition State.default duoRound) duoResumed ∈
        Trace.trace signingValidator.applyTransition State.default (duoRound ++ [duoResumed]) := by
    rw [Trace.trace_concat]
    exact List.mem_append_right _ List.mem_cons_self
  have hout : .action (.signShare duoSid share callback deadline) ∈ (Trace.take signingValidator.applyTransition
      (Trace.final signingValidator.applyTransition State.default duoRound) duoResumed).out := by
    rw [Trace.take_out]
    exact hcommand
  obtain ⟨m, session, epoch, signers, signer, hround, -, hepoch, hsigners, -, hsigner, haddress, -, haccepted⟩ :=
    honest_shares_are_accepted signingValidator signingCrate_generatesKeys duoExternals rfl
      signingCrate_signsShares (fun _ _ _ => rfl) (Contracts.Secp256k1.recovers_ecrecover _ _)
      (duoRound ++ [duoResumed]) duo_samples (fun _ _ => duo_resumed) duo_orderly duoSigningCalls
      duo_hears_signing _ hlast duoSid share callback deadline hout
  obtain ⟨hsessions, hepochs⟩ := duo_session
  rw [Trace.final_concat] at hsessions hepochs
  rw [Trace.take_post] at hround hepoch
  have hrow := List.mem_map_of_mem (f := fun row : B256 × SigningState => (row.1, row.2.round?.map
    fun session => (session.packet.epoch,
      selectionSigners signingCrate session.keyShare.package session.committed row.1)))
        (Table.lookup_eq_some.mp hround)
  rw [hsessions, List.mem_singleton] at hrow
  have hsame : (session.packet.epoch, selectionSigners signingCrate session.keyShare.package session.committed m) =
      (.genesis, .ok duoSigners) := Option.some.inj (congrArg Prod.snd hrow)
  have hduo : signers = duoSigners := Except.ok.inj (hsigners.symm.trans (congrArg Prod.snd hsame))
  have hepochRow := List.mem_map_of_mem (f := fun row : EpochId × Epoch => (row.1, row.2.group))
    (Table.lookup_eq_some.mp hepoch)
  rw [hepochs, List.mem_singleton] at hepochRow
  have hgroup : epoch.group = duoValidator.genesis.group duoKeccak := congrArg Prod.snd hepochRow
  have hunexceptional := duo_unexceptional hr (hduo ▸ hsigner) haddress
  rw [← hgroup, ← hduo] at hunexceptional
  refine (haccepted hunexceptional).1.mpr ?_
  rw [duo_unsigned]
  exact Finset.notMem_empty _

end Safenet.Validator
