/-
The key shares that a validator holds are shares of the key of their group.

A share is final once the crate has checked what every peer dealt (`part3`), so the shares add up in the
exponent to the sum of the commitments at the own identifier (`isShare_of_finalize`), whatever the peers
sent.  Where the commitments come from is followed over every run: `Held` ties a key share to the events
that the validator has read for its group, and to the verification shares that were published and checked
before the key generation was confirmed.
-/
import Mathlib.Data.List.GetD
import Safenet.Lib.Sharing
import Safenet.Proofs.Lockstep
import Safenet.Proofs.ShareDelivery

namespace Safenet.Validator

open Contracts (Secp256k1.N Secp256k1.G Secp256k1.Curve)
open Contracts.FROSTCoordinator (KeyGenSecretShare)
open Fallible

/-! ### Sums over tables -/

section Total

variable {κ α M : Type} [LinearOrder κ] [AddCommGroup M]

theorem rows_nodup (t : Table κ α) : (t.rows.map Prod.fst).Nodup := by
  rw [List.nodup_iff_pairwise_ne, List.pairwise_map]
  exact t.sorted.imp ne_of_lt

theorem sum_rows (t : Table κ α) (f : κ → α → M) :
    (t.rows.map fun row => f row.1 row.2).sum = ∑ k ∈ t.keys, ((t.lookup k).map (f k)).getD 0 := by
  rw [Table.keys, List.sum_toFinset _ (rows_nodup t), List.map_map]
  refine congrArg List.sum (List.map_congr_left fun row hrow => ?_)
  have hlookup : t.lookup row.1 = some row.2 := Table.lookup_eq_some.mpr hrow
  rw [Function.comp_apply, hlookup]
  rfl

/-- The sum over the rows of a table. -/
def total (t : Table κ α) (f : α → M) : M := (t.rows.map fun row => f row.2).sum

theorem total_eq_sum (t : Table κ α) (f : α → M) :
    total t f = ∑ k ∈ t.keys, ((t.lookup k).map f).getD 0 := sum_rows t fun _ => f

theorem total_erase {t : Table κ α} {k : κ} {v : α} (h : t.lookup k = some v) (f : α → M) :
    total t f = f v + total (t.erase k) f := by
  have hmem : k ∈ t.keys := Table.mem_keys.mpr ⟨v, h⟩
  rw [total_eq_sum, total_eq_sum, Table.keys_erase, ← Finset.add_sum_erase _ _ hmem, h]
  refine congrArg₂ (· + ·) rfl (Finset.sum_congr rfl fun k' hk' => ?_)
  rw [Table.lookup_erase, if_neg (Finset.ne_of_mem_erase hk')]

/-- Tables with the same keys and matching values have the same sum. -/
theorem total_congr {β : Type} {t : Table κ α} {t' : Table κ β} (hkeys : t.keys = t'.keys)
    {f : α → M} {g : β → M} (h : ∀ k v w, t.lookup k = some v → t'.lookup k = some w → f v = g w) :
    total t f = total t' g := by
  rw [total_eq_sum, total_eq_sum, ← hkeys]
  refine Finset.sum_congr rfl fun k hk => ?_
  obtain ⟨v, hv⟩ := Table.mem_keys.mp hk
  obtain ⟨w, hw⟩ := Table.mem_keys.mp (hkeys ▸ hk)
  rw [hv, hw]
  exact h k v w hv hw

end Total

theorem sum_rows_byIdentifier {crate : FrostCrate} {T P M : Type} [AddCommGroup M] {select : T → P}
    (hinjective : Function.Injective crate.identifier) (items : Table Address T) (f : Identifier → P → M) :
    ((byIdentifier crate items select).rows.map fun row => f row.1 row.2).sum =
      (items.rows.map fun row => f (crate.identifier row.1) (select row.2)).sum := by
  rw [sum_rows, sum_rows items fun a v => f (crate.identifier a) (select v), keys_byIdentifier hinjective,
    Finset.sum_image hinjective.injOn]
  refine Finset.sum_congr rfl fun a ha => ?_
  obtain ⟨v, hv⟩ := Table.mem_keys.mp ha
  rw [lookup_byIdentifier hinjective hv, hv]
  rfl

theorem total_byIdentifier {crate : FrostCrate} {T P M : Type} [AddCommGroup M] {select : T → P}
    (hinjective : Function.Injective crate.identifier) (items : Table Address T) (f : P → M) :
    total (byIdentifier crate items select) f = total items fun v => f (select v) :=
  sum_rows_byIdentifier hinjective items fun _ => f

/-! ### What the crates document -/

/-- The points of a commitment are on the curve or the identity. -/
def OnCurves (commitment : VssCommitment) : Prop := ∀ p ∈ commitment, p.Valid

/-- The commitment to the constant term, in the group. -/
noncomputable def constantTerm (commitment : VssCommitment) : Secp256k1.Curve :=
  (commitment.map Contracts.Secp256k1.Point.toCurve).headD 0

/-- The arithmetic of key generation. -/
structure GeneratesKeys (crate : FrostCrate) : Prop where
  injective : Function.Injective crate.identifier
  /-- An identifier is a scalar. -/
  canonical : ∀ a, (crate.identifier a).toNat < Secp256k1.N
  /-- `keys::sum_commitments` adds coefficient by coefficient, as far as the first commitment goes. -/
  sumCommitments : ∀ {commitments sum}, (∀ c ∈ commitments, OnCurves c) →
    crate.sumCommitments commitments = .ok sum →
    OnCurves sum ∧ commitments.head?.map List.length = some sum.length ∧
      ∀ k < sum.length, (sum.map Contracts.Secp256k1.Point.toCurve).getD k 0 =
        (commitments.map fun c => (c.map Contracts.Secp256k1.Point.toCurve).getD k 0).sum
  /-- `VerifyingKey::from_commitment` is the constant term. -/
  verifyingKey : ∀ {commitment key}, crate.verifyingKey commitment = .ok key →
    commitment.head? = some key
  /-- `VerifyingShare::from_commitment` evaluates in the exponent. -/
  verifyingShare : ∀ identifier {commitment}, OnCurves commitment →
    (crate.verifyingShare identifier commitment).Valid ∧
      (crate.verifyingShare identifier commitment).toCurve = evaluateVss commitment identifier
  /-- `dkg::part2` counts the coefficients of the peers, keeps the round and evaluates the polynomial at
  the own identifier. -/
  part2 : ∀ {secret packages result}, crate.part2 secret packages = .ok result →
    (∀ i p, packages.lookup i = some p → p.commitment.length = secret.minSigners) ∧
      result.1.identifier = secret.identifier ∧ result.1.commitment = secret.commitment ∧
      result.1.minSigners = secret.minSigners ∧
      result.1.secretShare = evaluatePolynomial secret.coefficients secret.identifier
  /-- `dkg::part3` verifies the share of every peer, and adds them up. -/
  part3 : ∀ {secret round1 round2 key}, crate.part3 secret round1 round2 = .ok key →
    key.identifier = secret.identifier ∧ key.minSigners = secret.minSigners ∧
      round1.keys = round2.keys ∧
      (∀ i p q, round1.lookup i = some p → round2.lookup i = some q → OnCurves p.commitment →
        (q.signingShare.toNat : ZMod Secp256k1.N) • Secp256k1.G.toCurve =
          evaluateVss p.commitment secret.identifier) ∧
      (key.signingShare.toNat : ZMod Secp256k1.N) =
        total round2 (fun q => (q.signingShare.toNat : ZMod Secp256k1.N)) + secret.secretShare.toNat ∧
      ((∀ i p, round1.lookup i = some p → OnCurves p.commitment) → OnCurves secret.commitment →
        key.verifyingKey.Valid ∧ key.verifyingKey.toCurve =
          total round1 (fun p => constantTerm p.commitment) + constantTerm secret.commitment)

/-- The secrets that `dkg::part1` samples for a participant. -/
structure SampledSecrets (crate : FrostCrate) (account : Address) (secrets : Secrets) : Prop where
  identifier : secrets.secretPackage.identifier = crate.identifier account
  committed : CommitsTo secrets.secretPackage.commitment secrets.secretPackage.coefficients
  threshold : secrets.secretPackage.commitment.length = secrets.secretPackage.minSigners

theorem evaluateVss_eq_evaluate (commitment : VssCommitment) (identifier : Identifier) :
    evaluateVss commitment identifier =
      Sharing.evaluate (commitment.map Contracts.Secp256k1.Point.toCurve)
        (identifier.toNat : ZMod Secp256k1.N) := by
  rw [evaluateVss, Sharing.evaluate, List.foldr_map]

theorem headD_eq_getD {α : Type} (l : List α) (a : α) : l.headD a = l.getD 0 a := by
  cases l with
  | nil => rfl
  | cons b l => rfl

theorem constantTerm_of_head {commitment : VssCommitment} {key : Point}
    (h : commitment.head? = some key) : constantTerm commitment = key.toCurve := by
  cases commitment with
  | nil => cases h
  | cons c commitment =>
      cases h
      rfl

/-! ### Decoded commitments -/

theorem frostPoint_eq_ok {p q : Point} : frostPoint p = .ok q ↔ p.Valid ∧ q = p := by
  unfold frostPoint
  constructor
  · intro h
    obtain ⟨u, hvalid, h⟩ := bind_eq_ok.mp h
    cases pure_eq_ok.mp h
    refine ⟨?_, rfl⟩
    rcases (Bool.or_eq_true _ _).mp (require_eq_ok.mp hvalid) with hzero | hcurve
    · obtain ⟨hx, hy⟩ := (Bool.and_eq_true _ _).mp hzero
      left
      cases p
      exact congrArg₂ _ (of_decide_eq_true hx) (of_decide_eq_true hy)
    · exact .inr hcurve
  · rintro ⟨hvalid, rfl⟩
    refine bind_eq_ok.mpr ⟨⟨⟩, require_eq_ok.mpr ?_, rfl⟩
    rcases hvalid with rfl | hcurve
    · rfl
    · rw [hcurve, Bool.or_true]

theorem mapM_frostPoint {points decoded : List Point} (h : points.mapM frostPoint = .ok decoded) :
    decoded = points ∧ OnCurves points := by
  induction points generalizing decoded with
  | nil =>
      cases h
      exact ⟨rfl, fun p hp => absurd hp List.not_mem_nil⟩
  | cons p points ih =>
      rw [List.mapM_cons] at h
      obtain ⟨q, hq, h⟩ := bind_eq_ok.mp h
      obtain ⟨rest, hrest, h⟩ := bind_eq_ok.mp h
      cases pure_eq_ok.mp h
      obtain ⟨hvalid, rfl⟩ := frostPoint_eq_ok.mp hq
      obtain ⟨rfl, hpoints⟩ := ih hrest
      refine ⟨rfl, fun r hr => ?_⟩
      rcases List.mem_cons.mp hr with rfl | hr
      · exact hvalid
      · exact hpoints r hr

/-- A verified commitment has the published coefficients, which are points. -/
theorem verifyCommitment_coefficients {crate : FrostCrate} {participant : Address}
    {commitment : Contracts.FROSTCoordinator.KeyGenCommitment} {verified : VerifiedCommitment}
    (h : verifyCommitment crate participant commitment = .ok verified) :
    verified.package.commitment = commitment.c ∧ OnCurves commitment.c := by
  have h := mapError_eq_ok.mp h
  obtain ⟨⟨encryption, package⟩, hdecoded, h⟩ := bind_eq_ok.mp h
  obtain ⟨key, -, h⟩ := bind_eq_ok.mp h
  obtain ⟨u, -, h⟩ := bind_eq_ok.mp h
  cases pure_eq_ok.mp h
  obtain ⟨q, -, hdecoded⟩ := bind_eq_ok.mp hdecoded
  obtain ⟨pop, -, hdecoded⟩ := bind_eq_ok.mp hdecoded
  obtain ⟨coefficients, hcoefficients, hdecoded⟩ := bind_eq_ok.mp hdecoded
  obtain ⟨pok, -, hdecoded⟩ := bind_eq_ok.mp hdecoded
  cases pure_eq_ok.mp hdecoded
  exact mapM_frostPoint hcoefficients

/-! ### A final key share -/

/-- Every package holds points. -/
def AllOnCurves (commitments : Table Address VerifiedCommitment) : Prop :=
  ∀ p v, commitments.lookup p = some v → OnCurves v.package.commitment

/-- A key share is the value of the group's polynomial at the identifier of its holder. -/
structure IsShare (crate : FrostCrate) (account : Address) (group : GroupCommitments)
    (share : KeyShare) : Prop where
  member : (group.commitments.lookup account).isSome = true
  identifier : share.package.identifier = crate.identifier account
  threshold : share.package.minSigners = group.groupCommitment.length
  key : share.package.verifyingKey = group.verifyingKey
  equation : (share.package.signingShare.toNat : ZMod Secp256k1.N) • Secp256k1.G.toCurve =
    evaluateVss group.groupCommitment (crate.identifier account)

section Group

variable {crate : FrostCrate} (hcrate : GeneratesKeys crate)
  {commitments : Table Address VerifiedCommitment} (hpoints : AllOnCurves commitments)

theorem onCurves_of_mem (hpoints : AllOnCurves commitments) :
    ∀ c ∈ commitments.rows.map fun row => row.2.package.commitment, OnCurves c := by
  intro c hc
  obtain ⟨⟨a, v⟩, hrow, rfl⟩ := List.mem_map.mp hc
  exact hpoints a v (Table.lookup_eq_some.mpr hrow)

include hcrate hpoints in
/-- The group commitment has the length of the commitments, when they have one. -/
theorem length_groupCommitment {sum : VssCommitment} (h : groupCommitment crate commitments = .ok sum)
    {n : ℕ} (hlength : ∀ p v, commitments.lookup p = some v → v.package.commitment.length = n) :
    sum.length = n := by
  obtain ⟨-, hhead, -⟩ := hcrate.sumCommitments (onCurves_of_mem hpoints) h
  obtain ⟨c, hc, hsame⟩ := Option.map_eq_some_iff.mp hhead
  obtain ⟨row, hrow, rfl⟩ := List.mem_map.mp (List.mem_of_mem_head? hc)
  rw [← hsame, hlength row.1 row.2 (Table.lookup_eq_some.mpr hrow)]

include hcrate hpoints in
/-- The group commitment at an identifier is the sum of what the participants committed to. -/
theorem evaluateVss_group {sum : VssCommitment} (h : groupCommitment crate commitments = .ok sum)
    {n : ℕ} (hlength : ∀ p v, commitments.lookup p = some v → v.package.commitment.length = n)
    (identifier : Identifier) :
    evaluateVss sum identifier =
      total commitments fun v => evaluateVss v.package.commitment identifier := by
  have hsum := length_groupCommitment hcrate hpoints h hlength
  obtain ⟨-, -, hcoefficients⟩ := hcrate.sumCommitments (onCurves_of_mem hpoints) h
  have hlengths : ∀ l ∈ commitments.rows.map fun row =>
      row.2.package.commitment.map Contracts.Secp256k1.Point.toCurve,
      l.length = (sum.map Contracts.Secp256k1.Point.toCurve).length := by
    intro l hl
    obtain ⟨row, hrow, rfl⟩ := List.mem_map.mp hl
    rw [List.length_map, List.length_map, hsum]
    exact hlength row.1 row.2 (Table.lookup_eq_some.mpr hrow)
  have hsums : ∀ k < (sum.map Contracts.Secp256k1.Point.toCurve).length,
      (sum.map Contracts.Secp256k1.Point.toCurve).getD k 0 =
        ((commitments.rows.map fun row =>
          row.2.package.commitment.map Contracts.Secp256k1.Point.toCurve).map fun l => l.getD k 0).sum := by
    intro k hk
    rw [List.length_map] at hk
    rw [hcoefficients k hk, List.map_map, List.map_map]
    rfl
  rw [evaluateVss_eq_evaluate, Sharing.evaluate_sum hlengths hsums, List.map_map, total]
  refine congrArg List.sum (List.map_congr_left fun row _ => ?_)
  exact (evaluateVss_eq_evaluate _ _).symm

include hcrate hpoints in
/-- The group key is the sum of the constant terms. -/
theorem verifyingKey_group {sum : VssCommitment} (h : groupCommitment crate commitments = .ok sum)
    {key : Point} (hkey : crate.verifyingKey sum = .ok key) :
    key.Valid ∧ key.toCurve = total commitments fun v => constantTerm v.package.commitment := by
  obtain ⟨hvalid, -, hcoefficients⟩ := hcrate.sumCommitments (onCurves_of_mem hpoints) h
  have hhead := hcrate.verifyingKey hkey
  refine ⟨hvalid key (List.mem_of_mem_head? hhead), ?_⟩
  have hzero := hcoefficients 0 (List.length_pos_of_mem (List.mem_of_mem_head? hhead))
  rw [← headD_eq_getD, List.map_map] at hzero
  rw [← constantTerm_of_head hhead, constantTerm, hzero, total]
  exact congrArg List.sum (List.map_congr_left fun row _ => (headD_eq_getD _ _).symm)

end Group

/-- The own item, and the others by identifier. -/
theorem peerPackages_eq_ok {crate : FrostCrate} {T P : Type} {me : Identifier} {items : Table Address T}
    {select : T → P} {result : Table Identifier P × P}
    (h : peerPackages crate me items select = .ok result) :
    (byIdentifier crate items select).lookup me = some result.2 ∧
      result.1 = (byIdentifier crate items select).erase me := by
  unfold peerPackages at h
  cases hlookup : (byIdentifier crate items select).lookup me with
  | none =>
      rw [hlookup] at h
      cases h
  | some mine =>
      rw [hlookup] at h
      cases h
      exact ⟨rfl, rfl⟩

/-- A sum over all items is one over the peers and the own item. -/
theorem total_peerPackages {crate : FrostCrate} (hinjective : Function.Injective crate.identifier)
    {T P M : Type} [AddCommGroup M] {me : Identifier} {items : Table Address T} {select : T → P}
    {result : Table Identifier P × P} (h : peerPackages crate me items select = .ok result) (f : P → M) :
    total items (fun v => f (select v)) = f result.2 + total result.1 f := by
  obtain ⟨hlookup, hpeers⟩ := peerPackages_eq_ok h
  rw [hpeers, ← total_erase hlookup f, total_byIdentifier hinjective]

/-- A sum of multiples of a point. -/
theorem total_smul {κ α : Type} [LinearOrder κ] (t : Table κ α) (f : α → ZMod Secp256k1.N)
    (c : Secp256k1.Curve) : total t f • c = total t fun v => f v • c := by
  rw [total, total, List.sum_smul, List.map_map]
  rfl

/-- What a participant that shares has looked up. -/
theorem generateSecretShares_packages {crate : FrostCrate} {secrets : Secrets}
    {commitments : Table Address VerifiedCommitment} {result : SharingState × KeyGenSecretShare}
    (h : generateSecretShares crate secrets commitments = .ok result) :
    ∃ packages round2, peerPackages crate secrets.secretPackage.identifier commitments
        VerifiedCommitment.package = .ok packages ∧
      crate.part2 secrets.secretPackage packages.1 = .ok round2 ∧
      packages.2.commitment = round2.1.commitment ∧ result.1.secretPackage = round2.1 := by
  obtain ⟨packages, hpackages, h⟩ := bind_eq_ok.mp h
  have h := mapError_eq_ok.mp h
  obtain ⟨round2, hround2, h⟩ := bind_eq_ok.mp h
  obtain ⟨u, hmine, h⟩ := bind_eq_ok.mp h
  obtain ⟨sum, -, h⟩ := bind_eq_ok.mp h
  obtain ⟨key, -, h⟩ := bind_eq_ok.mp h
  obtain ⟨encrypted, -, h⟩ := bind_eq_ok.mp h
  obtain rfl := pure_eq_ok.mp h
  exact ⟨packages, round2, hpackages, hround2, of_decide_eq_true (require_eq_ok.mp hmine), rfl⟩

/-- What a participant that finalizes has looked up. -/
theorem finalizeKeyShare_packages {crate : FrostCrate} {sharing : SharingState}
    {shares : Table Address VerifiedShare} {share : KeyShare}
    (h : finalizeKeyShare crate sharing shares = .ok share) :
    ∃ round1 round2, peerPackages crate sharing.secretPackage.identifier
        sharing.groupCommitments.commitments VerifiedCommitment.package = .ok round1 ∧
      peerPackages crate sharing.secretPackage.identifier shares VerifiedShare.package = .ok round2 ∧
      crate.part3 sharing.secretPackage round1.1 round2.1 = .ok share.package := by
  obtain ⟨round1, hround1, h⟩ := bind_eq_ok.mp h
  obtain ⟨round2, hround2, h⟩ := bind_eq_ok.mp h
  obtain ⟨u, -, h⟩ := bind_eq_ok.mp h
  obtain ⟨package, hpart3, h⟩ := bind_eq_ok.mp h
  obtain rfl := pure_eq_ok.mp h
  exact ⟨round1, round2, hround1, hround2, mapError_eq_ok.mp hpart3⟩

/-- **What the crate finalizes is a share of the group key**, whatever the peers dealt. -/
theorem isShare_of_finalize {crate : FrostCrate} (hcrate : GeneratesKeys crate) {account : Address}
    {secrets : Secrets} (hsampled : SampledSecrets crate account secrets)
    {commitments : Table Address VerifiedCommitment} (hpoints : AllOnCurves commitments)
    {result : SharingState × KeyGenSecretShare}
    (hgenerate : generateSecretShares crate secrets commitments = .ok result)
    {shares : Table Address VerifiedShare} {share : KeyShare}
    (hfinalize : finalizeKeyShare crate result.1 shares = .ok share) :
    IsShare crate account result.1.groupCommitments share := by
  obtain ⟨hcommitments, hsum, hkey⟩ :=
    groupCommitments_eq_ok.mp (groupCommitments_of_generate hgenerate)
  obtain ⟨packages, round2, hpackages, hround2, hmine, hsecret⟩ := generateSecretShares_packages hgenerate
  obtain ⟨peers, dealt, hpeers, hdealt, hpart3⟩ := finalizeKeyShare_packages hfinalize
  obtain ⟨hcounted, hidentifier, hcommitment, hminSigners, hown⟩ := hcrate.part2 hround2
  have hme : round2.1.identifier = crate.identifier account := hidentifier.trans hsampled.identifier
  rw [hsecret] at hpeers hdealt hpart3
  rw [hme, hcommitments] at hpeers
  obtain ⟨hholder, hthreshold, hkeys, hverified, hsigning, hverifying⟩ := hcrate.part3 hpart3
  -- the own package is the same one in both rounds
  rw [hsampled.identifier, hpeers] at hpackages
  obtain rfl := Except.ok.inj hpackages
  obtain ⟨hlookup, herase⟩ := peerPackages_eq_ok hpeers
  obtain ⟨a, v, hv, ha, hselect⟩ := of_lookup_byIdentifier hcrate.injective hlookup
  obtain rfl := hcrate.injective ha
  have hpackage : v.package.commitment = secrets.secretPackage.commitment := by
    rw [hselect, hmine, hcommitment]
  -- the crate counts the coefficients of the peers, and the own package has as many
  have hlength : ∀ p w, commitments.lookup p = some w →
      w.package.commitment.length = secrets.secretPackage.minSigners := by
    intro p w hw
    by_cases hown : p = a
    · rw [hown] at hw
      rw [← Option.some.inj (hv.symm.trans hw), hpackage, hsampled.threshold]
    · refine hcounted (crate.identifier p) w.package ?_
      rw [herase, Table.lookup_erase, if_neg fun h => hown (hcrate.injective h)]
      exact lookup_byIdentifier hcrate.injective hw
  have hcount := length_groupCommitment hcrate hpoints hsum hlength
  have hpeerPoints : ∀ i p, peers.1.lookup i = some p → OnCurves p.commitment := by
    intro i p hp
    rw [herase, Table.lookup_erase, Option.ite_none_left_eq_some] at hp
    obtain ⟨b, w, hw, -, rfl⟩ := of_lookup_byIdentifier hcrate.injective hp.2
    exact hpoints b w hw
  refine ⟨by rw [hcommitments, hv]; rfl, hholder.trans hme, ?_, ?_, ?_⟩
  · rw [hthreshold, hminSigners, hcount]
  · have hownPoints : OnCurves round2.1.commitment := by
      rw [hcommitment, ← hpackage]
      exact hpoints a v hv
    obtain ⟨hvalid, hcurve⟩ := hverifying hpeerPoints hownPoints
    obtain ⟨hkeyValid, hkeyCurve⟩ := verifyingKey_group hcrate hpoints hsum hkey
    refine Contracts.Secp256k1.toCurve_injective hvalid hkeyValid ?_
    rw [hcurve, hkeyCurve,
      total_peerPackages hcrate.injective hpeers fun p => constantTerm p.commitment, hmine, add_comm]
  · rw [evaluateVss_group hcrate hpoints hsum hlength,
      total_peerPackages hcrate.injective hpeers fun p => evaluateVss p.commitment (crate.identifier a),
      hsigning, add_smul, total_smul, add_comm, hmine, hcommitment]
    refine congrArg₂ (· + ·) ?_ ?_
    · rw [hown, hsampled.identifier, evaluateVss_eq _ hsampled.committed]
    · refine total_congr hkeys.symm fun i q p hq hp => ?_
      rw [hverified i p q hp hq (hpeerPoints i p hp), hme]

/-! ### Thresholds -/

/-- The identifier of a participant as a scalar. -/
def pointOf (crate : FrostCrate) (a : Address) : ZMod Secp256k1.N := (crate.identifier a).toNat

theorem GeneratesKeys.pointOf_injective {crate : FrostCrate} (hcrate : GeneratesKeys crate) :
    Function.Injective (pointOf crate) := by
  intro a b h
  refine hcrate.injective (BitVec.eq_of_toNat_eq ?_)
  have hmod := (ZMod.natCast_eq_natCast_iff' _ _ _).mp h
  rwa [Nat.mod_eq_of_lt (hcrate.canonical a), Nat.mod_eq_of_lt (hcrate.canonical b)] at hmod

/-- As many values of a commitment as it has coefficients give its constant term. -/
theorem sum_weight_smul_evaluateVss {crate : FrostCrate} (hcrate : GeneratesKeys crate)
    {commitment : VssCommitment} {holders : Finset Address} (henough : commitment.length ≤ holders.card) :
    ∑ a ∈ holders, Sharing.weight holders (pointOf crate) a • evaluateVss commitment (crate.identifier a) =
      constantTerm commitment := by
  simp only [evaluateVss_eq_evaluate]
  exact Sharing.sum_weight_smul_evaluate hcrate.pointOf_injective.injOn
    (by rw [List.length_map]; exact henough)

/-- The key shares of a threshold of participants give the secret key. -/
theorem reconstructs {crate : FrostCrate} (hcrate : GeneratesKeys crate) {group : GroupCommitments}
    (hkey : crate.verifyingKey group.groupCommitment = .ok group.verifyingKey) {holders : Finset Address}
    {share : Address → KeyShare} (hshares : ∀ a ∈ holders, IsShare crate a group (share a))
    (henough : group.groupCommitment.length ≤ holders.card) :
    (∑ a ∈ holders, Sharing.weight holders (pointOf crate) a *
        ((share a).package.signingShare.toNat : ZMod Secp256k1.N)) • Secp256k1.G.toCurve =
      group.verifyingKey.toCurve := by
  rw [Finset.sum_smul, ← constantTerm_of_head (hcrate.verifyingKey hkey),
    ← sum_weight_smul_evaluateVss hcrate henough]
  refine Finset.sum_congr rfl fun a ha => ?_
  rw [mul_smul, (hshares a ha).equation]

/-! ### What a validator has read -/

/-- The messages contain the event. -/
def Heard (messages : List Message) (event : Event) : Prop :=
  ∃ log, .event log ∈ messages ∧ log.data = event

variable {t : Transition} {messages : List Message} {message : Message} {group : Group}

theorem Heard.concat {event : Event} (h : Heard messages event) : Heard (messages ++ [message]) event := by
  obtain ⟨log, hlog, hdata⟩ := h
  exact ⟨log, List.mem_append_left _ hlog, hdata⟩

theorem heard_last {log : Core.EventLog Event} : Heard (messages ++ [.event log]) log.data :=
  ⟨log, List.mem_append_right _ List.mem_cons_self, rfl⟩

/-- Every commitment was published for the group of some participants, and verified. -/
structure Collected (t : Transition) (messages : List Message) (group : Group)
    (commitments : Table Address VerifiedCommitment) : Prop where
  formed : ∃ set : ParticipantSet, group = set.group t.externals.keccak256
  verified : ∀ p v, commitments.lookup p = some v → ∃ c,
    Heard messages (.keyGenCommitted group.id p c) ∧
      verifyCommitment t.externals.toFrostCrate p c = .ok v

/-- The commitments of all participants, with what they add up to. -/
structure Committed (t : Transition) (messages : List Message) (group : Group)
    (commitments : GroupCommitments) : Prop where
  collected : Collected t messages group commitments.commitments
  full : lenU16 commitments.commitments.rows.length = group.count
  derived : groupCommitments t.externals.toFrostCrate commitments.commitments = .ok commitments

/-- Participants whose verification share was published and is the one of the commitments. -/
def Published (t : Transition) (messages : List Message) (group : Group)
    (commitments : GroupCommitments) (shared : Finset Address) : Prop :=
  ∀ p ∈ shared, ∃ share encrypted, Heard messages (.keyGenSecretShared group.id p share) ∧
    verifySecretShare t.externals.toFrostCrate commitments p share = .ok encrypted

/-- A participant sampled its secrets and generated its shares from the commitments. -/
structure Participates (t : Transition) (messages : List Message) (group : Group)
    (participation : KeyGenParticipation) : Prop where
  committed : Committed t messages group participation.groupCommitments
  generated : ∀ sharing, participation = .participating sharing →
    ∃ secrets share, SampledSecrets t.externals.toFrostCrate t.account secrets ∧
      generateSecretShares t.externals.toFrostCrate secrets sharing.groupCommitments.commitments =
        .ok (sharing, share)

/-- A key share of a group whose verification shares were all published. -/
def Held (t : Transition) (messages : List Message) (group : Group) (share : KeyShare) : Prop :=
  ∃ commitments shared, Committed t messages group commitments ∧
    Published t messages group commitments shared ∧ lenU16 shared.card = group.count ∧
    IsShare t.externals.toFrostCrate t.account commitments share

/-- What was read of the key generation that is underway. -/
def RolloverHeld (t : Transition) (messages : List Message) : RolloverState → Prop
  | .collectingCommitments round => Collected t messages round.group round.commitments ∧
      ∀ poap secrets, round.secrets = .participating poap (some secrets) →
        SampledSecrets t.externals.toFrostCrate t.account secrets
  | .collectingShares round => Participates t messages round.group round.participation ∧
      Published t messages round.group round.participation.groupCommitments round.shared
  | .collectingConfirmations round => Participates t messages round.group round.participation ∧
      (∃ shared, Published t messages round.group round.participation.groupCommitments shared ∧
        lenU16 shared.card = round.group.count) ∧
      ∀ share, round.status = .confirmed share →
        IsShare t.externals.toFrostCrate t.account round.participation.groupCommitments share
  | .signingRollover rollover => ∀ share, rollover.keyShare = some share →
      Held t messages rollover.group share
  | _ => True

/-! ### It stays read -/

theorem Collected.concat {commitments : Table Address VerifiedCommitment}
    (h : Collected t messages group commitments) : Collected t (messages ++ [message]) group commitments := by
  refine ⟨h.formed, fun p v hv => ?_⟩
  obtain ⟨c, hc, hverified⟩ := h.verified p v hv
  exact ⟨c, hc.concat, hverified⟩

theorem Committed.concat {commitments : GroupCommitments} (h : Committed t messages group commitments) :
    Committed t (messages ++ [message]) group commitments :=
  ⟨h.collected.concat, h.full, h.derived⟩

theorem Published.concat {commitments : GroupCommitments} {shared : Finset Address}
    (h : Published t messages group commitments shared) :
    Published t (messages ++ [message]) group commitments shared := by
  intro p hp
  obtain ⟨share, encrypted, hshare, hverified⟩ := h p hp
  exact ⟨share, encrypted, hshare.concat, hverified⟩

theorem Held.concat {share : KeyShare} (h : Held t messages group share) :
    Held t (messages ++ [message]) group share := by
  obtain ⟨commitments, shared, hcommitted, hpublished, hfull, hshare⟩ := h
  exact ⟨commitments, shared, hcommitted.concat, hpublished.concat, hfull, hshare⟩

theorem RolloverHeld.concat {r : RolloverState} (h : RolloverHeld t messages r) :
    RolloverHeld t (messages ++ [message]) r := by
  cases r with
  | collectingCommitments round => exact ⟨h.1.concat, h.2⟩
  | collectingShares round => exact ⟨⟨h.1.committed.concat, h.1.generated⟩, h.2.concat⟩
  | collectingConfirmations round =>
      obtain ⟨hparticipates, ⟨shared, hpublished, hfull⟩, hconfirmed⟩ := h
      exact ⟨⟨hparticipates.committed.concat, hparticipates.generated⟩,
        ⟨shared, hpublished.concat, hfull⟩, hconfirmed⟩
  | signingRollover rollover => exact fun share hshare => (h share hshare).concat
  | waitingForGenesis => trivial
  | halted => trivial
  | epochStaged next => trivial
  | epochSkipped next => trivial

/-! ### One message -/

theorem rolloverHeld_failure {epoch : EpochId} : RolloverHeld t messages (rolloverFailure epoch) := by
  cases epoch <;> trivial

theorem rolloverHeld_startKeyGen {epoch : EpochId} {participants : ParticipantSet} {deadline : Option Nat} :
    RolloverHeld t messages (t.startKeyGen epoch participants deadline).1 := by
  unfold Transition.startKeyGen
  split
  · next group poap hparticipates =>
    have hgroup : group = participants.group t.externals.keccak256 := by
      unfold ParticipantSet.participateAs at hparticipates
      split at hparticipates
      · exact (Prod.mk.inj (Option.some.inj hparticipates)).1.symm
      · cases hparticipates
    refine ⟨⟨⟨participants, hgroup⟩, fun p v hv => ?_⟩, fun poap secrets hsecrets => ?_⟩
    · cases hv
    · cases hsecrets
  · refine ⟨⟨⟨participants, rfl⟩, fun p v hv => ?_⟩, fun poap secrets hsecrets => ?_⟩
    · cases hv
    · cases hsecrets

theorem rolloverHeld_restart {epoch : EpochId} {excluded : Finset Address} {deadline : Option Nat} :
    RolloverHeld t messages (t.restartKeyGenExcluding epoch excluded deadline).1 := by
  unfold Transition.restartKeyGenExcluding
  split
  · exact rolloverHeld_startKeyGen
  · exact rolloverHeld_failure

theorem Collected.onCurves {commitments : Table Address VerifiedCommitment}
    (h : Collected t messages group commitments) : AllOnCurves commitments := by
  intro p v hv
  obtain ⟨c, -, hverified⟩ := h.verified p v hv
  obtain ⟨hcoefficients, hpoints⟩ := verifyCommitment_coefficients hverified
  rw [hcoefficients]
  exact hpoints

/-- A full set of commitments is derived from, as a participant or as an observer. -/
theorem participates_of_participate {secrets : Option Secrets}
    {commitments : Table Address VerifiedCommitment} {deadline : Option Nat}
    {participation : KeyGenParticipation} {commands : List Command}
    (hcollected : Collected t messages group commitments)
    (hfull : lenU16 commitments.rows.length = group.count)
    (hsampled : ∀ sampled, secrets = some sampled → SampledSecrets t.externals.toFrostCrate t.account sampled)
    (h : t.participate group secrets commitments deadline = .ok (participation, commands)) :
    Participates t messages group participation := by
  unfold Transition.participate at h
  cases secrets with
  | none =>
      obtain ⟨derived, hderived, h⟩ := bind_eq_ok.mp h
      cases pure_eq_ok.mp h
      obtain ⟨hsame, -⟩ := groupCommitments_eq_ok.mp hderived
      refine ⟨⟨?_, ?_, ?_⟩, fun sharing h => by cases h⟩
      · rw [KeyGenParticipation.groupCommitments, hsame]
        exact hcollected
      · rw [KeyGenParticipation.groupCommitments, hsame]
        exact hfull
      · rw [KeyGenParticipation.groupCommitments, hsame]
        exact hderived
  | some secrets =>
      obtain ⟨⟨sharing, share⟩, hgenerate, h⟩ := bind_eq_ok.mp h
      cases pure_eq_ok.mp h
      have hderived := groupCommitments_of_generate hgenerate
      obtain ⟨hsame, -⟩ := groupCommitments_eq_ok.mp hderived
      refine ⟨⟨?_, ?_, ?_⟩, fun sharing' h => ?_⟩
      · rw [KeyGenParticipation.groupCommitments, hsame]
        exact hcollected
      · rw [KeyGenParticipation.groupCommitments, hsame]
        exact hfull
      · rw [KeyGenParticipation.groupCommitments, hsame]
        exact hderived
      · cases h
        rw [hsame]
        exact ⟨secrets, share, hsampled secrets rfl, hgenerate⟩

theorem rolloverHeld_finalizeKeyGenCommitments {epoch : EpochId} {secrets : Option Secrets}
    {commitments : Table Address VerifiedCommitment} {deadline : Option Nat}
    (hcollected : Collected t messages group commitments)
    (hfull : lenU16 commitments.rows.length = group.count)
    (hsampled : ∀ sampled, secrets = some sampled → SampledSecrets t.externals.toFrostCrate t.account sampled) :
    RolloverHeld t messages
      (t.finalizeKeyGenCommitments epoch group secrets commitments deadline).1 := by
  unfold Transition.finalizeKeyGenCommitments
  split
  · next hok =>
    refine ⟨participates_of_participate hcollected hfull hsampled hok, fun p hp => ?_⟩
    exact absurd hp (Finset.notMem_empty p)
  · exact rolloverHeld_failure

/-- A participant that confirms has a share of the group key. -/
theorem isShare_of_confirmKeyGen (hcrate : GeneratesKeys t.externals.toFrostCrate) {epoch : EpochId}
    {sharing : SharingState} {shares : Table Address VerifiedShare}
    {deadlines : Option ConfirmationDeadlines} {share : KeyShare} {commands : List Command}
    (hparticipates : Participates t messages group (.participating sharing))
    (h : t.confirmKeyGen epoch group sharing shares deadlines = .ok (.confirmed share, commands)) :
    IsShare t.externals.toFrostCrate t.account sharing.groupCommitments share := by
  obtain ⟨share', hfinalize, hstatus⟩ := confirmKeyGen_ok h
  cases hstatus
  obtain ⟨secrets, published, hsampled, hgenerate⟩ := hparticipates.generated sharing rfl
  exact isShare_of_finalize hcrate hsampled hparticipates.committed.collected.onCurves hgenerate hfinalize

namespace RolloverHeld

variable {r : RolloverState} (hr : RolloverHeld t messages r)

include hr

theorem genesisKeyGen (gid : B256) : RolloverHeld t messages (t.genesisKeyGen r gid).1 := by
  unfold Transition.genesisKeyGen
  split
  · split
    · exact rolloverHeld_startKeyGen
    · trivial
  · exact hr

theorem keyGenSetup {groupId : B256} {secrets : Secrets}
    (hsampled : SampledSecrets t.externals.toFrostCrate t.account secrets) :
    RolloverHeld t messages (t.keyGenSetup r groupId secrets).1 := by
  unfold Transition.keyGenSetup
  split
  · next round =>
    split
    · split
      · dsimp only
        split
        · refine ⟨hr.1, fun poap stored hstored => ?_⟩
          cases hstored
          exact hsampled
        · next hfull =>
          refine rolloverHeld_finalizeKeyGenCommitments hr.1 (not_not.mp hfull) fun stored hstored => ?_
          cases hstored
          exact hsampled
      · exact hr
    · exact hr
  · exact hr

theorem keyGenCommitted (block : Nat) {gid : B256} {participant : Address}
    {commitment : Contracts.FROSTCoordinator.KeyGenCommitment}
    (hheard : Heard messages (.keyGenCommitted gid participant commitment)) :
    RolloverHeld t messages (t.keyGenCommitted r block gid participant commitment).1 := by
  unfold Transition.keyGenCommitted
  split
  · next round =>
    split
    · next hgid =>
      subst hgid
      have hcollected : Collected t messages round.group
          (t.addCommitment round participant commitment) := by
        unfold Transition.addCommitment
        split
        · next verified hverified =>
          refine ⟨hr.1.formed, fun p v hv => ?_⟩
          rw [Table.lookup_insert] at hv
          split at hv
          · next hp =>
            subst hp
            cases hv
            exact ⟨commitment, hheard, hverified⟩
          · exact hr.1.verified p v hv
        · exact hr.1
      dsimp only
      split
      · exact ⟨hcollected, hr.2⟩
      · next hfull =>
        have hfull := not_not.mp hfull
        split
        · refine rolloverHeld_finalizeKeyGenCommitments hcollected hfull fun sampled h => ?_
          cases h
        · next hsecrets =>
          refine rolloverHeld_finalizeKeyGenCommitments hcollected hfull fun sampled h => ?_
          cases h
          exact hr.2 _ _ hsecrets
        · exact ⟨hcollected, hr.2⟩
    · exact hr
  · exact hr

theorem keyGenSecretShared (hcrate : GeneratesKeys t.externals.toFrostCrate) (block : Nat) {gid : B256}
    {participant : Address} {share : KeyGenSecretShare}
    (hheard : Heard messages (.keyGenSecretShared gid participant share)) :
    RolloverHeld t messages (t.keyGenSecretShared r block gid participant share).1 := by
  unfold Transition.keyGenSecretShared
  split
  · next round =>
    split
    · next hgid =>
      subst hgid
      obtain ⟨hepoch, hgroup, hparticipation⟩ := KeyGenMove.registerShare_eq t round block participant share
      have hpublished : Published t messages round.group round.participation.groupCommitments
          (t.registerShare round block participant share).1.shared := by
        unfold Transition.registerShare
        split
        · next encrypted hverified =>
          intro p hp
          rcases Finset.mem_insert.mp hp with rfl | hp
          · exact ⟨share, encrypted, hheard, hverified⟩
          · exact hr.2 p hp
        · exact hr.2
      have hparticipates := hr.1
      generalize t.registerShare round block participant share = registered at *
      rw [← hgroup, ← hparticipation] at hparticipates hpublished
      dsimp only
      split
      · exact ⟨hparticipates, hpublished⟩
      · next hfull =>
        unfold Transition.startConfirmations
        dsimp only
        split
        · next status commands hstatus =>
          refine ⟨hparticipates, ⟨registered.1.shared, hpublished, ?_⟩, fun confirmed hconfirmed => ?_⟩
          · rw [hgroup]
            exact not_not.mp hfull
          · -- only a participant whose shares were all valid is confirmed at once
            dsimp only at hconfirmed
            subst hconfirmed
            dsimp only
            unfold Transition.initialStatus at hstatus
            split at hstatus
            · next sharing hsharing =>
              rw [hsharing] at hparticipates ⊢
              split at hstatus
              · exact isShare_of_confirmKeyGen hcrate hparticipates hstatus
              · cases hstatus
            · cases hstatus
        · exact rolloverHeld_failure
    · exact hr
  · exact hr

theorem keyGenComplained (block : Nat) (gid : B256) (plaintiff accused : Address) :
    RolloverHeld t messages (t.keyGenComplained r block gid plaintiff accused).1 := by
  unfold Transition.keyGenComplained
  split
  · split
    · dsimp only
      split
      · exact rolloverHeld_restart
      · exact ⟨hr.1, hr.2⟩
    · exact hr
  · split
    · dsimp only
      split
      · exact rolloverHeld_restart
      · exact ⟨hr.1, hr.2⟩
    · exact hr
  · exact hr

/-- A response resolves a complaint, and may bring in the share that was missing. -/
theorem keyGenComplaintResponded (hcrate : GeneratesKeys t.externals.toFrostCrate) (block : Nat)
    (gid : B256) (plaintiff accused : Address) (secretShare : B256) :
    RolloverHeld t messages
      (t.keyGenComplaintResponded r block gid plaintiff accused secretShare).1 := by
  unfold Transition.keyGenComplaintResponded
  split
  · split
    · split
      · exact hr
      · split
        · exact ⟨hr.1, hr.2⟩
        · exact rolloverHeld_restart
    · exact hr
  · next round =>
    split
    · split
      · exact hr
      · next complaint _ =>
        split
        · next share _ =>
          obtain ⟨hparticipates, hshared, hconfirmed⟩ := hr
          have hrevealed : ∀ confirmed, t.addRevealed round.status plaintiff accused share =
              .confirmed confirmed → round.status = .confirmed confirmed := by
            intro confirmed h
            unfold Transition.addRevealed at h
            split at h
            · split at h <;> cases h
            · exact h
          unfold Transition.confirmRevealed
          split
          · next sharing shares hsharing _ =>
            dsimp only at hsharing
            rw [hsharing] at hparticipates hshared hconfirmed
            dsimp only
            split
            · split
              · next status commands hstatus =>
                refine ⟨?_, ?_, fun confirmed h => ?_⟩
                · dsimp only
                  rw [hsharing]
                  exact hparticipates
                · dsimp only
                  rw [hsharing]
                  exact hshared
                · dsimp only at h ⊢
                  subst h
                  rw [hsharing]
                  exact isShare_of_confirmKeyGen hcrate hparticipates hstatus
              · exact rolloverHeld_failure
            · refine ⟨?_, ?_, fun confirmed h => ?_⟩
              · dsimp only
                rw [hsharing]
                exact hparticipates
              · dsimp only
                rw [hsharing]
                exact hshared
              · dsimp only at h ⊢
                rw [hsharing]
                exact hconfirmed confirmed (hrevealed confirmed h)
          · exact ⟨hparticipates, hshared, fun confirmed h => hconfirmed confirmed (hrevealed confirmed h)⟩
        · exact rolloverHeld_restart
    · exact hr
  · exact hr

theorem keyGenTimeouts (block : Nat) : RolloverHeld t messages (t.keyGenTimeouts r block).1 := by
  have hstalled : RolloverHeld t messages (t.restartStalled r block).1 := by
    unfold Transition.restartStalled
    split
    · exact rolloverHeld_restart
    · exact hr
  unfold Transition.keyGenTimeouts
  split
  · split
    · exact rolloverHeld_failure
    · exact hstalled
  · exact hstalled

end RolloverHeld

/-! ### Every run -/

/-- Every key share in the state is one of its group. -/
structure StateHeld (t : Transition) (messages : List Message) (s : State) : Prop where
  rollover : RolloverHeld t messages s.rollover
  epochs : ∀ e epoch, s.epochs.lookup e = some epoch → Held t messages epoch.group epoch.keyShare

namespace StateHeld

variable {s : State} (hs : StateHeld t messages s)

include hs

theorem concat : StateHeld t (messages ++ [message]) s :=
  ⟨hs.rollover.concat, fun e epoch he => (hs.epochs e epoch he).concat⟩

/-- A handler that leaves both alone. -/
theorem of_eq {s' : State} (hrollover : s'.rollover = s.rollover) (hepochs : s'.epochs = s.epochs) :
    StateHeld t messages s' :=
  ⟨hrollover ▸ hs.rollover, hepochs ▸ hs.epochs⟩

theorem withRollover {result : RolloverState × List Command} (h : RolloverHeld t messages result.1) :
    StateHeld t messages (s.withRollover result).1 :=
  ⟨h, hs.epochs⟩

/-- A key share that is held is registered. -/
theorem finalizeKeyGen {epoch : EpochId} {keyShare : Option KeyShare}
    (h : ∀ share, keyShare = some share → Held t messages group share) :
    StateHeld t messages (Transition.finalizeKeyGen s epoch group keyShare) := by
  unfold Transition.finalizeKeyGen
  split
  · next share =>
    refine ⟨hs.rollover, fun e registered he => ?_⟩
    rw [Table.lookup_insert] at he
    split at he
    · cases he
      exact h share rfl
    · exact hs.epochs e registered he
  · exact hs

theorem handleRolloverNewBlock (block : Nat) :
    StateHeld t messages (t.handleRolloverNewBlock s block).1 := by
  have hactive : ∀ target, (Transition.activate s target).epochs = s.epochs := by
    intro target
    unfold Transition.activate
    split <;> rfl
  unfold Transition.handleRolloverNewBlock
  split
  · exact hs
  · next target _ =>
    dsimp only
    split
    · exact hs
    · split
      · exact ⟨rolloverHeld_startKeyGen, by
          rw [State.withRollover, hactive]
          exact hs.epochs⟩
      · exact ⟨trivial, by
          dsimp only
          rw [hactive]
          exact hs.epochs⟩

theorem newBlock (block : Nat) : StateHeld t messages (t.newBlock s block).1 := by
  have hclock := hs.handleRolloverNewBlock block
  have htimeouts := hclock.withRollover (hclock.rollover.keyGenTimeouts block)
  refine ⟨htimeouts.rollover, fun e epoch he => ?_⟩
  exact htimeouts.epochs e epoch (Table.lookup_filter_eq_some.mp he).1

theorem handleKeyGenConfirmed (block : Nat) (gid : B256) (participant : Address) :
    StateHeld t messages (t.handleKeyGenConfirmed s block gid participant).1 := by
  unfold Transition.handleKeyGenConfirmed
  split
  · next round hrollover =>
    have hround := hs.rollover
    rw [hrollover] at hround
    obtain ⟨hparticipates, ⟨shared, hpublished, hfull⟩, hconfirmed⟩ := hround
    have hheld : ∀ share, round.status.keyShare = some share → Held t messages round.group share := by
      intro share hshare
      refine ⟨round.participation.groupCommitments, shared, hparticipates.committed, hpublished, hfull,
        hconfirmed share ?_⟩
      cases hstatus : round.status with
      | observing =>
          rw [hstatus] at hshare
          cases hshare
      | collecting shares =>
          rw [hstatus] at hshare
          cases hshare
      | confirmed keyShare =>
          rw [hstatus] at hshare
          cases hshare
          rfl
    split
    · dsimp only
      split
      · exact ⟨⟨hparticipates, ⟨shared, hpublished, hfull⟩, hconfirmed⟩, hs.epochs⟩
      · split
        · have hskipped : StateHeld t messages
              { s with rollover := .epochSkipped (nextNumber block t.config.blocksPerEpoch) } :=
            ⟨trivial, hs.epochs⟩
          have hgenesis : StateHeld t messages (Transition.finalizeKeyGen
              { s with rollover := .epochSkipped (nextNumber block t.config.blocksPerEpoch) } .genesis
              round.group round.status.keyShare) :=
            hskipped.finalizeKeyGen hheld
          unfold Transition.genesisConfirmed
          dsimp only
          split
          · exact hgenesis.withRollover rolloverHeld_startKeyGen
          · exact hgenesis
        · exact ⟨hheld, hs.epochs⟩
    · exact hs
  · exact hs

theorem handleSignAttested (m : B256) : StateHeld t messages (Transition.handleSignAttested s m).1 :=
  hs.of_eq rfl rfl

theorem handleEpochStaged (proposedEpoch : Nat) (groupId : B256) :
    StateHeld t messages (Transition.handleEpochStaged s proposedEpoch groupId).1 := by
  unfold Transition.handleEpochStaged
  split
  · next rollover hrollover =>
    have hround := hs.rollover
    rw [hrollover] at hround
    split
    · have hstaged : StateHeld t messages { s with rollover := .epochStaged rollover.nextEpoch } :=
        ⟨trivial, hs.epochs⟩
      exact (hstaged.finalizeKeyGen hround).handleSignAttested _
    · exact hs
  · refine ⟨?_, hs.epochs⟩
    dsimp only
    split <;> trivial
  · exact hs

end StateHeld

/-- The events of sessions register no epoch. -/
theorem epochs_ofSession {s : State} {event : Event} {block : Nat} {oracle : Address}
    (h : event.ofSession = true) : (t.onEvent s block oracle event).1.epochs = s.epochs := by
  cases event with
  | sign gid m sid =>
      show (t.handleSign s block gid m sid).1.epochs = _
      unfold Transition.handleSign
      split
      · split <;> rfl
      · rfl
  | signCommittedNonces sid participant nonces =>
      show (t.handleSignCommittedNonces s block sid participant nonces).1.epochs = _
      unfold Transition.handleSignCommittedNonces
      split
      · rfl
      · split <;> rfl
  | signShared sid root participant =>
      show (Transition.handleSignShared s sid root participant).1.epochs = _
      unfold Transition.handleSignShared
      split
      · rfl
      · split <;> rfl
  | signCompleted sid =>
      show (t.handleSignCompleted s block sid).1.epochs = _
      unfold Transition.handleSignCompleted
      split
      · rfl
      · split <;> rfl
  | transactionProposed eventOracle epoch oracleData tx =>
      show (t.handleTransactionProposed s block eventOracle (.fromRaw epoch) oracleData tx).1.epochs = _
      unfold Transition.handleTransactionProposed
      split
      · rfl
      · split
        · dsimp only
          split <;> rfl
        · rfl
  | oracleResult requestId isApproved =>
      show (t.handleOracleResult s block oracle requestId isApproved).1.epochs = _
      unfold Transition.handleOracleResult
      split
      · split
        · split <;> rfl
        · rfl
      · rfl
  | transactionAttested safeTxHash eventOracle epoch oracleDataHash signatureId => rfl
  | other => rfl
  | keyGen gid => cases h
  | keyGenCommitted gid participant commitment => cases h
  | keyGenSecretShared gid participant share => cases h
  | keyGenConfirmed gid participant => cases h
  | keyGenComplained gid plaintiff accused => cases h
  | keyGenComplaintResponded gid plaintiff accused secretShare => cases h
  | epochStaged proposedEpoch gid signatureId => cases h

/-- Setups resume with sampled secrets. -/
def Samples (t : Transition) (messages : List Message) : Prop :=
  ∀ gid secrets, .resume (.setup gid secrets) ∈ messages →
    SampledSecrets t.externals.toFrostCrate t.account secrets

theorem StateHeld.onEvent {s : State} (hs : StateHeld t messages s)
    (hcrate : GeneratesKeys t.externals.toFrostCrate) (block : Nat) (oracle : Address) {event : Event}
    (hheard : Heard messages event) : StateHeld t messages (t.onEvent s block oracle event).1 := by
  by_cases hsession : event.ofSession = true
  · exact hs.of_eq (onEvent_ofSession hsession).1 (epochs_ofSession hsession)
  · cases event with
    | keyGen gid => exact hs.withRollover (hs.rollover.genesisKeyGen gid)
    | keyGenCommitted gid participant commitment =>
        exact hs.withRollover (hs.rollover.keyGenCommitted block hheard)
    | keyGenSecretShared gid participant share =>
        exact hs.withRollover (hs.rollover.keyGenSecretShared hcrate block hheard)
    | keyGenConfirmed gid participant => exact hs.handleKeyGenConfirmed block gid participant
    | keyGenComplained gid plaintiff accused =>
        exact hs.withRollover (hs.rollover.keyGenComplained block gid plaintiff accused)
    | keyGenComplaintResponded gid plaintiff accused secretShare =>
        exact hs.withRollover
          (hs.rollover.keyGenComplaintResponded hcrate block gid plaintiff accused secretShare)
    | epochStaged proposedEpoch gid signatureId => exact hs.handleEpochStaged proposedEpoch gid
    | sign gid m sid => exact absurd rfl hsession
    | signCommittedNonces sid participant nonces => exact absurd rfl hsession
    | signShared sid root participant => exact absurd rfl hsession
    | signCompleted sid => exact absurd rfl hsession
    | transactionProposed eventOracle epoch oracleData tx => exact absurd rfl hsession
    | transactionAttested safeTxHash eventOracle epoch oracleDataHash sid => exact absurd rfl hsession
    | oracleResult requestId isApproved => exact absurd rfl hsession
    | other => exact absurd rfl hsession

theorem StateHeld.onResume {s : State} (hs : StateHeld t messages s) {result : Resume}
    (hsampled : ∀ gid secrets, result = .setup gid secrets →
      SampledSecrets t.externals.toFrostCrate t.account secrets) :
    StateHeld t messages (t.onResume s result).1 := by
  cases result with
  | noop => exact hs
  | setup groupId secrets =>
      exact hs.withRollover (hs.rollover.keyGenSetup (hsampled groupId secrets rfl))
  | nonceCommitments signatureId nonces =>
      refine hs.of_eq ?_ ?_
      · show (Transition.handleNonceCommitments s signatureId nonces).1.rollover = _
        unfold Transition.handleNonceCommitments
        split
        · split <;> rfl
        · rfl
      · show (Transition.handleNonceCommitments s signatureId nonces).1.epochs = _
        unfold Transition.handleNonceCommitments
        split
        · split <;> rfl
        · rfl
  | nonces m nonces =>
      have hsame : (t.onResume s (.nonces m nonces)).1 = s := Changes.handleNonces m nonces
      rw [hsame]
      exact hs

/-- **Every key share in every reachable state is a share of the key of its group.** -/
theorem stateHeld_final (hcrate : GeneratesKeys t.externals.toFrostCrate)
    (hsamples : Samples t messages) :
    StateHeld t messages (Trace.final t.applyTransition State.default messages) := by
  induction messages using List.reverseRecOn with
  | nil => exact ⟨trivial, fun _ _ h => by cases h⟩
  | append_singleton messages message ih =>
      have hs : StateHeld t (messages ++ [message]) (Trace.final t.applyTransition State.default messages) :=
        (ih fun gid secrets h => hsamples gid secrets (List.mem_append_left _ h)).concat
      rw [Trace.final_concat]
      cases message with
      | newBlock block => exact hs.newBlock block
      | event log => exact hs.onEvent hcrate log.block.number log.address heard_last
      | resume result =>
          refine hs.onResume fun gid secrets h => ?_
          subst h
          exact hsamples gid secrets (List.mem_append_right _ List.mem_cons_self)

theorem kept_final (t : Transition) (messages : List Message) :
    Kept (Trace.final t.applyTransition State.default messages) :=
  Trace.final_invariant kept_default (fun _ message h => h.applyTransition t message) messages

/-- A key share of a group: of a registered epoch, of a proposed one, or just confirmed. -/
def State.HasShare (s : State) (group : Group) (share : KeyShare) : Prop :=
  (∃ e, s.epochs.lookup e = some ⟨group, share⟩) ∨
    (∃ rollover, s.rollover = .signingRollover rollover ∧ rollover.group = group ∧
      rollover.keyShare = some share) ∨
    ∃ round, s.rollover = .collectingConfirmations round ∧ round.group = group ∧
      round.status = .confirmed share

theorem held_of_hasShare {s : State} (hs : StateHeld t messages s) {share : KeyShare}
    (h : s.HasShare group share) : Held t messages group share := by
  have hrollover := hs.rollover
  rcases h with ⟨e, he⟩ | ⟨rollover, hsigning, rfl, hshare⟩ | ⟨round, hround, rfl, hstatus⟩
  · exact hs.epochs e _ he
  · rw [hsigning] at hrollover
    exact hrollover share hshare
  · rw [hround] at hrollover
    obtain ⟨hparticipates, ⟨shared, hpublished, hfull⟩, hconfirmed⟩ := hrollover
    exact ⟨_, shared, hparticipates.committed, hpublished, hfull, hconfirmed share hstatus⟩

/-- A session has the key share of its epoch. -/
theorem held_of_session {s : State} (hs : StateHeld t messages s) (hkept : Kept s) {m gid : B256}
    {x : SigningState} {share : KeyShare} (hx : s.signing.lookup m = some x)
    (hsigner : x.signer? = some (gid, share)) : ∃ group, group.id = gid ∧ Held t messages group share := by
  obtain ⟨epoch, hepoch, hsame⟩ := hkept.belong m x hx
  have hpair := hsame _ hsigner
  simp only [Prod.mk.injEq] at hpair
  obtain ⟨rfl, rfl⟩ := hpair
  exact ⟨epoch.group, rfl, hs.epochs _ epoch hepoch⟩

/--
**Every key share that a validator holds is a share of the key of its group.**

In every run, the share of a confirmed key generation, of a proposed epoch, of a registered epoch and of a
signing session lies on the polynomial that the group committed to, in events that the validator has read
and verified, whatever the peers and the coordinator sent.  The shares of as many participants as the
polynomial has coefficients give the secret key, each with its Lagrange coefficient.
-/
theorem key_shares_are_shares (t : Transition) (hcrate : GeneratesKeys t.externals.toFrostCrate)
    (messages : List Message) (hsamples : Samples t messages) :
    let s := Trace.final t.applyTransition State.default messages
    (∀ group share, s.HasShare group share → Held t messages group share) ∧
    (∀ m x gid share, s.signing.lookup m = some x → x.signer? = some (gid, share) →
      ∃ group, group.id = gid ∧ Held t messages group share) ∧
    ∀ group commitments, Committed t messages group commitments →
      ∀ (holders : Finset Address) (share : Address → KeyShare),
        (∀ a ∈ holders, IsShare t.externals.toFrostCrate a commitments (share a)) →
        commitments.groupCommitment.length ≤ holders.card →
        (∑ a ∈ holders, Sharing.weight holders (pointOf t.externals.toFrostCrate) a *
            ((share a).package.signingShare.toNat : ZMod Secp256k1.N)) • Secp256k1.G.toCurve =
          commitments.groupKey.toCurve := by
  intro s
  have hs : StateHeld t messages s := stateHeld_final hcrate hsamples
  refine ⟨fun group share => held_of_hasShare hs, ?_, ?_⟩
  · intro m x gid share hx hsigner
    exact held_of_session hs (kept_final t messages) hx hsigner
  · intro group commitments hcommitted holders share hshares henough
    exact reconstructs hcrate (groupCommitments_eq_ok.mp hcommitted.derived).2.2 hshares henough

/-! ### Two participants -/

/-- The sum of two points. -/
def plus (p q : Point) : Point := (Contracts.Secp256k1.add p q).toOption.getD Contracts.Secp256k1.zero

def times (p : Point) : Nat → Point
  | 0 => Contracts.Secp256k1.zero
  | n + 1 => plus (times p n) p

/-- `evaluate_vss` on points. -/
def evaluatePoints (commitment : VssCommitment) (identifier : Identifier) : Point :=
  commitment.foldr (fun c sum => plus c (times sum identifier.toNat)) Contracts.Secp256k1.zero

/-- The columns of the commitments, as far as the first one goes. -/
def sumPoints (first : VssCommitment) (commitments : List VssCommitment) : VssCommitment :=
  (List.range first.length).map fun k =>
    (commitments.map fun c => c.getD k Contracts.Secp256k1.zero).foldr plus Contracts.Secp256k1.zero

theorem plus_ok {p q : Point} (hp : p.Valid) (hq : q.Valid) :
    (plus p q).Valid ∧ (plus p q).toCurve = p.toCurve + q.toCurve := by
  obtain ⟨r, hr, hvalid, hsum⟩ := Contracts.Secp256k1.add_ok hp hq
  unfold plus
  rw [hr]
  exact ⟨hvalid, hsum⟩

theorem times_ok {p : Point} (hp : p.Valid) (n : ℕ) :
    (times p n).Valid ∧ (times p n).toCurve = n • p.toCurve := by
  induction n with
  | zero => exact ⟨.inl rfl, by rw [zero_nsmul]; exact Contracts.Secp256k1.toCurve_zero⟩
  | succ n ih =>
      obtain ⟨hvalid, hsum⟩ := plus_ok ih.1 hp
      exact ⟨hvalid, by rw [succ_nsmul, ← ih.2]; exact hsum⟩

theorem evaluatePoints_ok (identifier : Identifier) {commitment : VssCommitment}
    (h : OnCurves commitment) : (evaluatePoints commitment identifier).Valid ∧
      (evaluatePoints commitment identifier).toCurve = evaluateVss commitment identifier := by
  induction commitment with
  | nil => exact ⟨.inl rfl, Contracts.Secp256k1.toCurve_zero⟩
  | cons c commitment ih =>
      obtain ⟨hrest, hcurve⟩ := ih fun p hp => h p (List.mem_cons_of_mem c hp)
      obtain ⟨htimes, hmultiple⟩ := times_ok hrest identifier.toNat
      obtain ⟨hvalid, hsum⟩ := plus_ok (h c List.mem_cons_self) htimes
      refine ⟨hvalid, hsum.trans ?_⟩
      rw [hmultiple, hcurve, ← Contracts.Secp256k1.natCast_smul]
      rfl

theorem foldr_plus_ok {points : List Point} (hpoints : ∀ p ∈ points, p.Valid) {start : Point}
    (hstart : start.Valid) : (points.foldr plus start).Valid ∧
      (points.foldr plus start).toCurve =
        (points.map Contracts.Secp256k1.Point.toCurve).sum + start.toCurve := by
  induction points with
  | nil => exact ⟨hstart, by simp⟩
  | cons p points ih =>
      obtain ⟨hvalid, hsum⟩ := ih fun q hq => hpoints q (List.mem_cons_of_mem p hq)
      obtain ⟨hplus, hcurve⟩ := plus_ok (hpoints p List.mem_cons_self) hvalid
      refine ⟨hplus, hcurve.trans ?_⟩
      rw [hsum, List.map_cons, List.sum_cons, add_assoc]

theorem valid_getD {commitment : VssCommitment} (h : OnCurves commitment) (k : ℕ) :
    (commitment.getD k Contracts.Secp256k1.zero).Valid := by
  by_cases hk : k < commitment.length
  · rw [List.getD_eq_getElem _ _ hk]
    exact h _ (List.getElem_mem hk)
  · rw [List.getD_eq_default _ _ (not_lt.mp hk)]
    exact .inl rfl

theorem toCurve_getD (commitment : VssCommitment) (k : ℕ) :
    (commitment.getD k Contracts.Secp256k1.zero).toCurve =
      (commitment.map Contracts.Secp256k1.Point.toCurve).getD k 0 := by
  rw [← Contracts.Secp256k1.toCurve_zero, List.getD_map]

/-- The crates on the curve, with an address as the identifier.  The proofs are not checked. -/
def curveCrate : FrostCrate where
  identifier := Contracts.toWord
  verifiedPublicKey := fun package _ => .ok package.publicKey
  ecdh := fun secret key message => message ^^^ (times key secret.toNat).x
  verifyProofOfKnowledge := fun _ _ _ => .ok ⟨⟩
  part2 := fun secret packages =>
    if ∀ row ∈ packages.rows, row.2.commitment.length = secret.minSigners then
      .ok (⟨secret.identifier, secret.commitment, evaluatePolynomial secret.coefficients secret.identifier,
          secret.minSigners, secret.maxSigners⟩,
        packages.rows.foldl (fun shares row =>
          shares.insert row.1 ⟨evaluatePolynomial secret.coefficients row.1⟩) .empty)
    else .error .other
  part3 := fun secret round1 round2 =>
    if (∀ row ∈ round1.rows, (round2.lookup row.1).isSome) ∧
        ∀ row ∈ round2.rows, ((round1.lookup row.1).map fun p => evaluatePoints p.commitment secret.identifier) =
          some (times Secp256k1.G row.2.signingShare.toNat) then
      let share : Scalar := BitVec.ofNat 256 (((round2.rows.map fun row => row.2.signingShare.toNat).sum +
        secret.secretShare.toNat) % Secp256k1.N)
      .ok ⟨secret.identifier, share, times Secp256k1.G share.toNat,
        (round1.rows.map fun row => row.2.commitment.headD Contracts.Secp256k1.zero).foldr plus
          (secret.commitment.headD Contracts.Secp256k1.zero), secret.minSigners⟩
    else .error .other
  sumCommitments := fun commitments =>
    match commitments with
    | [] => .error .other
    | first :: rest => .ok (sumPoints first (first :: rest))
  verifyingKey := fun commitment =>
    match commitment.head? with
    | some key => .ok key
    | none => .error .other
  verifyingShare := fun identifier commitment => evaluatePoints commitment identifier
  verifySecretShare := fun identifier share commitment =>
    if times Secp256k1.G share.toNat = evaluatePoints commitment identifier then .ok ⟨⟩ else .error .other
  sign := fun _ _ _ => .error .other
  bindingFactors := fun _ _ => .error .other
  interpolatingValue := fun _ _ => .error .other
  commitmentShare := fun _ _ => Contracts.Secp256k1.zero
  signingCommitment := fun _ _ => .error .other

theorem curveCrate_part3 {secret : Round2.SecretPackage} {round1 : Table Identifier Round1.Package}
    {round2 : Table Identifier Round2.Package} {key : KeyPackage}
    (h : curveCrate.part3 secret round1 round2 = .ok key) :
    key.identifier = secret.identifier ∧ key.minSigners = secret.minSigners ∧
      round1.keys = round2.keys ∧
      (∀ i p q, round1.lookup i = some p → round2.lookup i = some q →
        evaluatePoints p.commitment secret.identifier = times Secp256k1.G q.signingShare.toNat) ∧
      (key.signingShare.toNat : ZMod Secp256k1.N) =
        total round2 (fun q => (q.signingShare.toNat : ZMod Secp256k1.N)) + secret.secretShare.toNat ∧
      key.verifyingKey = (round1.rows.map fun row => row.2.commitment.headD Contracts.Secp256k1.zero).foldr
        plus (secret.commitment.headD Contracts.Secp256k1.zero) := by
  change (if _ then _ else _) = _ at h
  split at h
  · next hcheck =>
    cases h
    obtain ⟨hall, hverified⟩ := hcheck
    have hlookup : ∀ i q, round2.lookup i = some q → ∃ p, round1.lookup i = some p ∧
        evaluatePoints p.commitment secret.identifier = times Secp256k1.G q.signingShare.toNat := by
      intro i q hq
      obtain ⟨p, hp, heq⟩ := Option.map_eq_some_iff.mp (hverified (i, q) (Table.lookup_eq_some.mp hq))
      exact ⟨p, hp, heq⟩
    refine ⟨rfl, rfl, ?_, ?_, ?_, rfl⟩
    · ext i
      rw [Table.mem_keys, Table.mem_keys]
      constructor
      · rintro ⟨p, hp⟩
        exact Option.isSome_iff_exists.mp (hall (i, p) (Table.lookup_eq_some.mp hp))
      · rintro ⟨q, hq⟩
        obtain ⟨p, hp, -⟩ := hlookup i q hq
        exact ⟨p, hp⟩
    · intro i p q hp hq
      obtain ⟨p', hp', heq⟩ := hlookup i q hq
      rw [hp, Option.some.injEq] at hp'
      rw [hp', heq]
    · rw [Contracts.Secp256k1.ofNat_mod_toNat, ZMod.natCast_mod, Nat.cast_add, Nat.cast_list_sum,
        List.map_map]
      rfl
  · cases h

theorem curveCrate_generatesKeys : GeneratesKeys curveCrate where
  injective := fun a b h => by
    have heq := congrArg (BitVec.setWidth 160) h
    simpa [curveCrate, Contracts.toWord] using heq
  canonical := fun a => by
    have hlt := a.isLt
    have hbound : 2 ^ 160 < Secp256k1.N := by decide
    show (Contracts.toWord a).toNat < _
    rw [Contracts.toWord, BitVec.toNat_ofNat]
    omega
  sumCommitments := by
    intro commitments sum hpoints h
    cases commitments with
    | nil => cases h
    | cons first rest =>
        cases h
        have hcolumn : ∀ k, ∀ p ∈ (first :: rest).map fun c => c.getD k Contracts.Secp256k1.zero, p.Valid := by
          intro k p hp
          obtain ⟨c, hc, rfl⟩ := List.mem_map.mp hp
          exact valid_getD (hpoints c hc) k
        refine ⟨fun p hp => ?_, ?_, fun k hk => ?_⟩
        · obtain ⟨k, -, rfl⟩ := List.mem_map.mp hp
          exact (foldr_plus_ok (hcolumn k) (.inl rfl)).1
        · simp [sumPoints]
        · have hlt : k < first.length := by simpa [sumPoints] using hk
          have hsum := (foldr_plus_ok (hcolumn k) (.inl rfl)).2
          rw [← toCurve_getD, sumPoints, List.getD_eq_getElem _ _ (by simpa using hlt), List.getElem_map,
            List.getElem_range, hsum, Contracts.Secp256k1.toCurve_zero, add_zero, List.map_map]
          exact congrArg List.sum (List.map_congr_left fun c _ => toCurve_getD c k)
  verifyingKey := by
    intro commitment key h
    cases commitment with
    | nil => cases h
    | cons c commitment =>
        cases h
        rfl
  verifyingShare := fun identifier commitment h => evaluatePoints_ok identifier h
  part2 := by
    intro secret packages result h
    change (if _ then _ else _) = _ at h
    split at h
    · next hcheck =>
      cases h
      exact ⟨fun i p hp => hcheck (i, p) (Table.lookup_eq_some.mp hp), rfl, rfl, rfl, rfl⟩
    · cases h
  part3 := by
    intro secret round1 round2 key h
    obtain ⟨hidentifier, hmin, hkeys, hverified, hshare, hkey⟩ := curveCrate_part3 h
    refine ⟨hidentifier, hmin, hkeys, fun i p q hp hq hpoints => ?_, hshare, fun hpoints hown => ?_⟩
    · rw [← (evaluatePoints_ok secret.identifier hpoints).2, hverified i p q hp hq,
        (times_ok (.inr Contracts.Secp256k1.satisfiesCurveEquation_G) _).2, Contracts.Secp256k1.natCast_smul]
    · have hterm : ∀ commitment : VssCommitment,
          (commitment.headD Contracts.Secp256k1.zero).toCurve = constantTerm commitment := by
        intro commitment
        rw [headD_eq_getD, toCurve_getD, constantTerm, headD_eq_getD]
      have hvalid : ∀ commitment : VssCommitment, OnCurves commitment →
          (commitment.headD Contracts.Secp256k1.zero).Valid := by
        intro commitment h
        rw [headD_eq_getD]
        exact valid_getD h 0
      have hpeers : ∀ c ∈ round1.rows.map fun row => row.2.commitment.headD Contracts.Secp256k1.zero,
          c.Valid := by
        intro c hc
        obtain ⟨row, hrow, rfl⟩ := List.mem_map.mp hc
        exact hvalid _ (hpoints row.1 row.2 (Table.lookup_eq_some.mpr hrow))
      obtain ⟨hkeyValid, hkeyCurve⟩ := foldr_plus_ok hpeers (hvalid _ hown)
      rw [hkey]
      refine ⟨hkeyValid, hkeyCurve.trans ?_⟩
      rw [hterm, List.map_map, total]
      exact congrArg₂ (· + ·) (congrArg List.sum (List.map_congr_left fun row _ => hterm _)) rfl

/-- A hash that tells the few inputs of the examples apart. -/
def duoKeccak (bytes : Bytes) : B256 :=
  BitVec.ofNat 256 (Bytes.value bytes + Bytes.value (bytes.take 32) + bytes.length)

def duoAddresses : Finset Address := {1, 2}

theorem duoAddresses_card : duoAddresses.card = 2 := by decide

/-- The validator of the first of two participants of a genesis group. -/
def duoValidator : Transition where
  account := 1
  genesis := ⟨duoAddresses, ∅, 0, duoAddresses_card.ge, by rw [duoAddresses_card]; omega⟩
  consensus := trioValidator.consensus
  config := { trioValidator.config with participants := [⟨1, 0, none⟩, ⟨2, 0, none⟩] }
  externals := { curveCrate with keccak256 := duoKeccak }

def duoGid : B256 := (duoValidator.genesis.group duoValidator.externals.keccak256).id

/-- A polynomial of degree one, with an encryption key. -/
def duoSecrets (participant : Address) (encryptionKey a b : Scalar) : Secrets where
  encryptionKey := encryptionKey
  encryptionPackage := ⟨times Secp256k1.G encryptionKey.toNat, ⟨Contracts.Secp256k1.zero, 0⟩⟩
  secretPackage := ⟨Contracts.toWord participant, [a, b],
    [times Secp256k1.G a.toNat, times Secp256k1.G b.toNat], 2, 2⟩
  proofOfKnowledge := ⟨Contracts.Secp256k1.zero, 0⟩

/-- The first participant deals `1 + x`, the second one `2 + x`. -/
def duoFirst : Secrets := duoSecrets 1 1 1 1

def duoSecond : Secrets := duoSecrets 2 2 2 1

/-- What a participant publishes in the second round. -/
def duoShare (value : Nat) (encrypted : List B256) : KeyGenSecretShare :=
  ⟨times Secp256k1.G value, encrypted⟩

/-- The keystream of the two. -/
def duoKey : B256 := (times Secp256k1.G 2).x

/-- The key generation of the genesis group. -/
def duoRun : List Message :=
  [eventAt 1 (.keyGen duoGid), .resume (.setup duoGid duoFirst),
    eventAt 2 (.keyGenCommitted duoGid 1 duoFirst.commitment),
    eventAt 2 (.keyGenCommitted duoGid 2 duoSecond.commitment),
    eventAt 3 (.keyGenSecretShared duoGid 1 (duoShare 5 [3 ^^^ duoKey])),
    eventAt 3 (.keyGenSecretShared duoGid 2 (duoShare 7 [3 ^^^ duoKey])),
    eventAt 4 (.keyGenConfirmed duoGid 1), eventAt 4 (.keyGenConfirmed duoGid 2)]

theorem duoSecrets_sampled (participant : Address) (encryptionKey a b : Scalar) :
    SampledSecrets curveCrate participant (duoSecrets participant encryptionKey a b) where
  identifier := rfl
  committed := by
    refine ⟨List.cons_ne_nil _ _, ?_⟩
    have hG : Secp256k1.G.Valid := .inr Contracts.Secp256k1.satisfiesCurveEquation_G
    simp only [duoSecrets, List.map_cons, List.map_nil, (times_ok hG _).2, Contracts.Secp256k1.natCast_smul]
  threshold := rfl

theorem duoRun_samples : Samples duoValidator duoRun := by
  intro gid secrets h
  simp only [duoRun, eventAt, List.mem_cons, reduceCtorEq, false_or, or_false, List.not_mem_nil,
    Core.Message.resume.injEq, Resume.setup.injEq] at h
  rw [h.2]
  exact duoSecrets_sampled 1 1 1 1

theorem duo_has_share : ∃ group share,
    (Trace.final duoValidator.applyTransition State.default duoRun).HasShare group share ∧
      group = duoValidator.genesis.group duoValidator.externals.keccak256 := by
  have hgenesis : ((Trace.final duoValidator.applyTransition State.default duoRun).epochs.lookup
      .genesis).map (·.group) = some (duoValidator.genesis.group duoValidator.externals.keccak256) := by
    decide +kernel
  obtain ⟨epoch, hepoch, hgroup⟩ := Option.map_eq_some_iff.mp hgenesis
  exact ⟨epoch.group, epoch.keyShare, .inl ⟨.genesis, hepoch⟩, hgroup⟩

theorem duo_holds_share : ∃ group share,
    (Trace.final duoValidator.applyTransition State.default duoRun).HasShare group share ∧
      Held duoValidator duoRun group share := by
  obtain ⟨group, share, hshare, -⟩ := duo_has_share
  have hheld := (key_shares_are_shares duoValidator curveCrate_generatesKeys duoRun duoRun_samples).1
  exact ⟨group, share, hshare, hheld group share hshare⟩

end Safenet.Validator
