/-
What the checks of `FROST.sol` mean on the curve.

`mulmuladd` asks `ecrecover` for the address of a public key.  `Recovers` is the documented
behaviour of that precompile, and `mulmuladd_iff` reads the check as an equation between points.
Addresses are compared, not points.  An address has 160 bits, so there is none for every point:
the equation needs that the points of the comparison have different addresses (`Distinguishes`).
-/
import Safenet.Proofs.Secp256k1

namespace Safenet.Contracts

open Fallible

namespace Secp256k1

variable {keccak : Keccak} {precompiles : FROST.Precompiles}

/-! ### Recovery of a public key -/

/-- The address of a point, zero for the point at infinity. -/
noncomputable def address (keccak : Keccak) : Curve → Address
  | .zero => 0
  | .some x y _ => toAddress keccak x.val y.val

/-- A point that is not zero: reduced coordinates that satisfy the curve equation. -/
def Point.OnCurve (p : Point) : Prop :=
  (p.y.toNat : ZMod P) ^ 2 = (p.x.toNat : ZMod P) ^ 3 + 7 ∧ p.x.toNat < P ∧ p.y.toNat < P

theorem onCurve_iff {p : Point} :
    p.OnCurve ↔ satisfiesCurveEquation p.x.toNat p.y.toNat = true := by
  rw [satisfiesCurveEquation_iff]
  rfl

/-- `ecrecover(hash, v, r, s)` is the address of `r⁻¹⋅(s⋅K - hash⋅G)`, where `K` has the coordinate
`r` and the parity that `v` says. -/
structure Recovers (precompiles : FROST.Precompiles) : Prop where
  recovered : ∀ {hash s : B256} {k : Point}, k.OnCurve → 0 < k.x.toNat → k.x.toNat < N →
    0 < s.toNat → s.toNat < N →
      precompiles.ecrecover hash (k.y.toNat % 2 + 27) k.x s =
        address precompiles.keccak256 ((k.x.toNat : ZMod N)⁻¹ •
          ((s.toNat : ZMod N) • k.toCurve - (hash.toNat : ZMod N) • G.toCurve))
  failed : ∀ {hash r s : B256} {v : Nat},
    ¬(0 < r.toNat ∧ r.toNat < N ∧ 0 < s.toNat ∧ s.toNat < N) → precompiles.ecrecover hash v r s = 0

/-- Addresses tell the two points apart, and both from the point at infinity. -/
def Distinguishes (keccak : Keccak) (q r : Curve) : Prop := Set.InjOn (address keccak) {0, q, r}

/-- A point whose address is not zero is only compared with itself. -/
theorem distinguishes_self {q : Curve} (hne : address keccak q ≠ 0) : Distinguishes keccak q q := by
  intro a ha b hb heq
  simp only [Set.mem_insert_iff, Set.mem_singleton_iff, or_self] at ha hb
  rcases ha with rfl | rfl
  · rcases hb with rfl | rfl
    · rfl
    · exact absurd heq.symm hne
  · rcases hb with rfl | rfl
    · exact absurd heq hne
    · rfl

theorem address_neg {r : Point} (h : r.OnCurve) :
    address keccak (-r.toCurve) = toAddress keccak r.x.toNat (P - r.y.toNat) := by
  have hequation := onCurve_iff.mp h
  obtain ⟨-, hx, hy⟩ := h
  obtain ⟨hns, heq⟩ := toCurve_eq_some hequation
  have hxval : (r.x.toNat : ZMod P).val = r.x.toNat := ZMod.val_cast_of_lt hx
  have hyval : (-(r.y.toNat : ZMod P)).val = P - r.y.toNat := by
    rw [ZMod.neg_val, if_neg (y_ne_zero hequation), ZMod.val_cast_of_lt hy]
  rw [heq, WeierstrassCurve.Affine.Point.neg_some]
  simp only [address, Curve.negY_eq, hxval, hyval]

theorem requireNonZero_iff {p : Point} {u : PUnit} : requireNonZero p = .ok u ↔ p.OnCurve := by
  rw [requireNonZero, onCurve_iff]
  exact require_eq_ok

theorem cast_ne_zero_iff {x : Nat} (hlt : x < N) : (x : ZMod N) ≠ 0 ↔ 0 < x := by
  rw [Ne, ZMod.natCast_eq_zero_iff, Nat.pos_iff_ne_zero]
  constructor
  · rintro hdvd rfl
    exact hdvd (dvd_zero N)
  · intro hpos hdvd
    exact absurd (Nat.le_of_dvd (Nat.pos_of_ne_zero hpos) hdvd) (Nat.not_le_of_lt hlt)

/-- What `ecrecover` answers to `mulmuladd`. -/
theorem ecrecover_mulmuladd (hrecovers : Recovers precompiles) {z e : Nat} {p : Point} (hp : p.OnCurve)
    (hpos : 0 < p.x.toNat) (hlt : p.x.toNat < N) (he : (e : ZMod N) ≠ 0) :
    precompiles.ecrecover (BitVec.ofNat 256 (mulmod z p.x.toNat N)) (p.y.toNat % 2 + 27) p.x
        (BitVec.ofNat 256 (mulmod e p.x.toNat N)) =
      address precompiles.keccak256 ((e : ZMod N) • p.toCurve - (z : ZMod N) • G.toCurve) := by
  have hx : (p.x.toNat : ZMod N) ≠ 0 := (cast_ne_zero_iff hlt).mpr hpos
  have hsmall : mulmod e p.x.toNat N < N := Nat.mod_lt _ prime_N.pos
  have hs : 0 < mulmod e p.x.toNat N := by
    rw [← cast_ne_zero_iff hsmall, mulmod, ZMod.natCast_mod, Nat.cast_mul]
    exact mul_ne_zero he hx
  have hword : (BitVec.ofNat 256 (mulmod e p.x.toNat N)).toNat = mulmod e p.x.toNat N :=
    ofNat_mod_toNat _
  rw [hrecovers.recovered hp hpos hlt (by rwa [hword]) (by rwa [hword])]
  congr 1
  rw [mulmod, mulmod, ofNat_mod_toNat, ofNat_mod_toNat, ZMod.natCast_mod, ZMod.natCast_mod, Nat.cast_mul,
    Nat.cast_mul, smul_sub, smul_smul, smul_smul, mul_comm (e : ZMod N), mul_comm (z : ZMod N),
    inv_mul_cancel_left₀ hx, inv_mul_cancel_left₀ hx]

/-- The multiple of `P` that is zero recovers nothing, nor does a coordinate outside the scalars. -/
theorem of_recovered (hrecovers : Recovers precompiles) {hash : B256} {v e : Nat} {p : Point}
    (h : precompiles.ecrecover hash v p.x (BitVec.ofNat 256 (mulmod e p.x.toNat N)) ≠ 0) :
    0 < p.x.toNat ∧ p.x.toNat < N ∧ (e : ZMod N) ≠ 0 := by
  have hbounds : 0 < p.x.toNat ∧ p.x.toNat < N ∧
      0 < (BitVec.ofNat 256 (mulmod e p.x.toNat N)).toNat ∧
        (BitVec.ofNat 256 (mulmod e p.x.toNat N)).toNat < N := by
    by_contra hnot
    exact h (hrecovers.failed hnot)
  refine ⟨hbounds.1, hbounds.2.1, ?_⟩
  intro hzero
  have hs : mulmod e p.x.toNat N = 0 := by
    rw [mulmod, ← Nat.dvd_iff_mod_eq_zero, ← ZMod.natCast_eq_zero_iff, Nat.cast_mul, hzero, zero_mul]
  rw [hs] at hbounds
  exact absurd hbounds.2.2.1 (by decide)

/-! ### The check of `mulmuladd` -/

/-- `z⋅G = r + e⋅p`, for points and a scalar that `ecrecover` can be asked about. -/
def Schnorr (z e : Nat) (p r : Point) : Prop :=
  p.OnCurve ∧ r.OnCurve ∧ 0 < p.x.toNat ∧ p.x.toNat < N ∧ (e : ZMod N) ≠ 0 ∧
    (z : ZMod N) • G.toCurve - (e : ZMod N) • p.toCurve = r.toCurve

/-- The check, as a comparison of addresses. -/
theorem mulmuladd_address (hrecovers : Recovers precompiles) {z e : Nat} {p r : Point} :
    mulmuladd.{0} precompiles z e p r = .ok ⟨⟩ ↔
      p.OnCurve ∧ r.OnCurve ∧ 0 < p.x.toNat ∧ p.x.toNat < N ∧ (e : ZMod N) ≠ 0 ∧
        address precompiles.keccak256 ((e : ZMod N) • p.toCurve - (z : ZMod N) • G.toCurve) ≠ 0 ∧
        address precompiles.keccak256 ((e : ZMod N) • p.toCurve - (z : ZMod N) • G.toCurve) =
          address precompiles.keccak256 (-r.toCurve) := by
  unfold mulmuladd
  constructor
  · intro h
    obtain ⟨u, hp, h⟩ := bind_eq_ok.mp h
    obtain ⟨u, hr, h⟩ := bind_eq_ok.mp h
    obtain ⟨u, hrecovered, h⟩ := bind_eq_ok.mp h
    have hp := requireNonZero_iff.mp (mapError_eq_ok.mp hp)
    have hr := requireNonZero_iff.mp (mapError_eq_ok.mp hr)
    have hne := of_decide_eq_true (require_eq_ok.mp hrecovered)
    have haddress := of_decide_eq_true (require_eq_ok.mp h)
    obtain ⟨hpos, hlt, he⟩ := of_recovered hrecovers hne
    rw [ecrecover_mulmuladd hrecovers hp hpos hlt he] at hne haddress
    exact ⟨hp, hr, hpos, hlt, he, hne, haddress.trans (address_neg hr).symm⟩
  · rintro ⟨hp, hr, hpos, hlt, he, hne, haddress⟩
    refine bind_eq_ok.mpr ⟨⟨⟩, mapError_eq_ok.mpr (requireNonZero_iff.mpr hp), ?_⟩
    refine bind_eq_ok.mpr ⟨⟨⟩, mapError_eq_ok.mpr (requireNonZero_iff.mpr hr), ?_⟩
    rw [ecrecover_mulmuladd hrecovers hp hpos hlt he]
    refine bind_eq_ok.mpr ⟨⟨⟩, require_eq_ok.mpr (decide_eq_true hne), ?_⟩
    exact require_eq_ok.mpr (decide_eq_true (haddress.trans (address_neg hr)))

/-- **`mulmuladd` checks `z⋅G - e⋅p = r`.** -/
theorem mulmuladd_iff (hrecovers : Recovers precompiles) {z e : Nat} {p r : Point}
    (hdistinct : Distinguishes precompiles.keccak256
      ((e : ZMod N) • p.toCurve - (z : ZMod N) • G.toCurve) (-r.toCurve)) :
    mulmuladd.{0} precompiles z e p r = .ok ⟨⟩ ↔ Schnorr z e p r := by
  have hequation : (e : ZMod N) • p.toCurve - (z : ZMod N) • G.toCurve = -r.toCurve ↔
      (z : ZMod N) • G.toCurve - (e : ZMod N) • p.toCurve = r.toCurve := by
    rw [← neg_sub, neg_inj]
  rw [mulmuladd_address hrecovers, Schnorr, ← hequation]
  constructor
  · rintro ⟨hp, hr, hpos, hlt, he, -, haddress⟩
    exact ⟨hp, hr, hpos, hlt, he, hdistinct (by simp) (by simp) haddress⟩
  · rintro ⟨hp, hr, hpos, hlt, he, heq⟩
    refine ⟨hp, hr, hpos, hlt, he, ?_, by rw [heq]⟩
    intro hzero
    have hinfinity : (e : ZMod N) • p.toCurve - (z : ZMod N) • G.toCurve = 0 :=
      hdistinct (by simp) (by simp) hzero
    rw [heq, neg_eq_zero] at hinfinity
    exact toCurve_ne_zero (onCurve_iff.mp hr) hinfinity

end Secp256k1

namespace FROST

open Secp256k1

variable {precompiles : Precompiles}

/-! ### The checks of FROST -/

/-- The compressed form of a point that is not zero. -/
def compressed (p : Point) : Bytes := BitVec.ofNat 8 (2 + p.y.toNat % 2) :: Bytes.word p.x

/-- The challenge of a signature, as a number. -/
def challengeOf (precompiles : Precompiles) (r y : Point) (message : B256) : Nat :=
  hashToField precompiles (compressed r ++ compressed y ++ Bytes.word message)
    (Bytes.ascii "FROST-secp256k1-SHA256-v1chal")

/-- The identifier of a participant, as a number. -/
def identifierOf (precompiles : Precompiles) (participant : Address) : Nat :=
  hashToField precompiles (Bytes.digits 20 participant.toNat)
    (Bytes.ascii "FROST-secp256k1-SHA256-v1id")

/-- The challenge of a proof of knowledge, as a number. -/
def keyGenChallengeOf (precompiles : Precompiles) (participant : Address) (phi r : Point) : Nat :=
  hashToField precompiles
    (Bytes.word (BitVec.ofNat 256 (identifierOf precompiles participant)) ++ compressed phi ++
      compressed r)
    (Bytes.ascii "FROST-secp256k1-SHA256-v1dkg")

theorem serialize_eq_ok {p : Point} {bytes : Bytes} :
    serialize p = .ok bytes ↔ p.OnCurve ∧ bytes = compressed p := by
  unfold serialize
  rw [bind_eq_ok]
  constructor
  · rintro ⟨u, hp, h⟩
    exact ⟨requireNonZero_iff.mp hp, (pure_eq_ok.mp h).symm⟩
  · rintro ⟨hp, rfl⟩
    exact ⟨⟨⟩, requireNonZero_iff.mpr hp, rfl⟩

theorem challenge_eq_ok {r y : Point} {message : B256} {c : Nat} :
    challenge precompiles r y message = .ok c ↔
      r.OnCurve ∧ y.OnCurve ∧ c = challengeOf precompiles r y message := by
  unfold challenge
  constructor
  · intro h
    obtain ⟨bytes, hbytes, h⟩ := bind_eq_ok.mp h
    obtain ⟨bytes', hbytes', h⟩ := bind_eq_ok.mp h
    obtain ⟨hr, rfl⟩ := serialize_eq_ok.mp (mapError_eq_ok.mp hbytes)
    obtain ⟨hy, rfl⟩ := serialize_eq_ok.mp (mapError_eq_ok.mp hbytes')
    exact ⟨hr, hy, (pure_eq_ok.mp h).symm⟩
  · rintro ⟨hr, hy, rfl⟩
    refine bind_eq_ok.mpr ⟨_, mapError_eq_ok.mpr (serialize_eq_ok.mpr ⟨hr, rfl⟩), ?_⟩
    exact bind_eq_ok.mpr ⟨_, mapError_eq_ok.mpr (serialize_eq_ok.mpr ⟨hy, rfl⟩), rfl⟩

theorem keyGenChallenge_eq_ok {participant : Address} {phi r : Point} {c : Nat} :
    keyGenChallenge precompiles participant phi r = .ok c ↔
      identifierOf precompiles participant ≠ 0 ∧ phi.OnCurve ∧ r.OnCurve ∧
        c = keyGenChallengeOf precompiles participant phi r := by
  unfold keyGenChallenge identifier
  constructor
  · intro h
    obtain ⟨id, hid, h⟩ := bind_eq_ok.mp h
    obtain ⟨u, hne, hid⟩ := bind_eq_ok.mp hid
    cases pure_eq_ok.mp hid
    obtain ⟨bytes, hbytes, h⟩ := bind_eq_ok.mp h
    obtain ⟨bytes', hbytes', h⟩ := bind_eq_ok.mp h
    obtain ⟨hphi, rfl⟩ := serialize_eq_ok.mp (mapError_eq_ok.mp hbytes)
    obtain ⟨hr, rfl⟩ := serialize_eq_ok.mp (mapError_eq_ok.mp hbytes')
    exact ⟨of_decide_eq_true (require_eq_ok.mp hne), hphi, hr, (pure_eq_ok.mp h).symm⟩
  · rintro ⟨hne, hphi, hr, rfl⟩
    refine bind_eq_ok.mpr ⟨_, bind_eq_ok.mpr ⟨⟨⟩, require_eq_ok.mpr (decide_eq_true hne), rfl⟩, ?_⟩
    refine bind_eq_ok.mpr ⟨_, mapError_eq_ok.mpr (serialize_eq_ok.mpr ⟨hphi, rfl⟩), ?_⟩
    exact bind_eq_ok.mpr ⟨_, mapError_eq_ok.mpr (serialize_eq_ok.mpr ⟨hr, rfl⟩), rfl⟩

/-- **A signature is checked against `z⋅G = r + c⋅y`.** -/
theorem verify_iff (hrecovers : Recovers precompiles) {y : Point} {signature : Signature}
    {message : B256}
    (hdistinct : Distinguishes precompiles.keccak256
      ((challengeOf precompiles signature.r y message : ZMod N) • y.toCurve -
        (signature.z.toNat : ZMod N) • G.toCurve) (-signature.r.toCurve)) :
    verify precompiles y signature message = .ok ⟨⟩ ↔
      signature.z.toNat < N ∧
        Schnorr signature.z.toNat (challengeOf precompiles signature.r y message) y signature.r := by
  rw [← mulmuladd_iff hrecovers hdistinct]
  unfold verify
  constructor
  · intro h
    obtain ⟨u, hz, h⟩ := bind_eq_ok.mp h
    obtain ⟨c, hc, h⟩ := bind_eq_ok.mp h
    obtain ⟨-, -, rfl⟩ := challenge_eq_ok.mp hc
    exact ⟨of_decide_eq_true (require_eq_ok.mp hz), h⟩
  · rintro ⟨hz, h⟩
    obtain ⟨hy, hr, -⟩ := (mulmuladd_iff hrecovers hdistinct).mp h
    refine bind_eq_ok.mpr ⟨⟨⟩, require_eq_ok.mpr (decide_eq_true hz), ?_⟩
    exact bind_eq_ok.mpr ⟨_, challenge_eq_ok.mpr ⟨hr, hy, rfl⟩, h⟩

/-- **A share is checked against `z⋅G = r + c⋅l⋅y`.** -/
theorem verifyShare_iff (hrecovers : Recovers precompiles) {group r y : Point} {share : SignatureShare}
    {message : B256}
    (hdistinct : Distinguishes precompiles.keccak256
      (((challengeOf precompiles r group message * share.l.toNat : ℕ) : ZMod N) • y.toCurve -
        (share.z.toNat : ZMod N) • G.toCurve) (-share.r.toCurve)) :
    verifyShare precompiles group r y share message = .ok ⟨⟩ ↔
      share.z.toNat < N ∧ r.OnCurve ∧ group.OnCurve ∧
        Schnorr share.z.toNat (challengeOf precompiles r group message * share.l.toNat) y share.r := by
  have hcast : ((mulmod (challengeOf precompiles r group message) share.l.toNat N : ℕ) : ZMod N) =
      ((challengeOf precompiles r group message * share.l.toNat : ℕ) : ZMod N) := by
    rw [mulmod, ZMod.natCast_mod]
  have hschnorr : Schnorr share.z.toNat
        (mulmod (challengeOf precompiles r group message) share.l.toNat N) y share.r ↔
      Schnorr share.z.toNat (challengeOf precompiles r group message * share.l.toNat) y share.r := by
    unfold Schnorr
    rw [hcast]
  rw [← hcast] at hdistinct
  rw [← hschnorr, ← mulmuladd_iff hrecovers hdistinct]
  unfold verifyShare
  constructor
  · intro h
    obtain ⟨u, hz, h⟩ := bind_eq_ok.mp h
    obtain ⟨c, hc, h⟩ := bind_eq_ok.mp h
    obtain ⟨hr, hgroup, rfl⟩ := challenge_eq_ok.mp hc
    exact ⟨of_decide_eq_true (require_eq_ok.mp hz), hr, hgroup, h⟩
  · rintro ⟨hz, hr, hgroup, h⟩
    refine bind_eq_ok.mpr ⟨⟨⟩, require_eq_ok.mpr (decide_eq_true hz), ?_⟩
    exact bind_eq_ok.mpr ⟨_, challenge_eq_ok.mpr ⟨hr, hgroup, rfl⟩, h⟩

/-- **A proof of knowledge is checked against `z⋅G = r + c⋅phi`.** -/
theorem verifyProofOfKnowledge_iff (hrecovers : Recovers precompiles) {participant : Address}
    {phi : Point} {proof : Signature}
    (hdistinct : Distinguishes precompiles.keccak256
      ((keyGenChallengeOf precompiles participant phi proof.r : ZMod N) • phi.toCurve -
        (proof.z.toNat : ZMod N) • G.toCurve) (-proof.r.toCurve)) :
    verifyProofOfKnowledge precompiles participant phi proof = .ok ⟨⟩ ↔
      proof.z.toNat < N ∧ identifierOf precompiles participant ≠ 0 ∧
        Schnorr proof.z.toNat (keyGenChallengeOf precompiles participant phi proof.r) phi proof.r := by
  rw [← mulmuladd_iff hrecovers hdistinct]
  unfold verifyProofOfKnowledge
  constructor
  · intro h
    obtain ⟨u, hz, h⟩ := bind_eq_ok.mp h
    obtain ⟨c, hc, h⟩ := bind_eq_ok.mp h
    obtain ⟨hid, -, -, rfl⟩ := keyGenChallenge_eq_ok.mp hc
    exact ⟨of_decide_eq_true (require_eq_ok.mp hz), hid, h⟩
  · rintro ⟨hz, hid, h⟩
    obtain ⟨hphi, hr, -⟩ := (mulmuladd_iff hrecovers hdistinct).mp h
    refine bind_eq_ok.mpr ⟨⟨⟩, require_eq_ok.mpr (decide_eq_true hz), ?_⟩
    exact bind_eq_ok.mpr ⟨_, keyGenChallenge_eq_ok.mpr ⟨hid, hphi, hr, rfl⟩, h⟩

end FROST

namespace Secp256k1

/-! ### An instance of the precompile -/

open Classical in
/-- The precompile, for a hash function. -/
noncomputable def ecrecover (keccak : Keccak) (hash : B256) (v : Nat) (r s : B256) : Address :=
  if h : (0 < r.toNat ∧ r.toNat < N ∧ 0 < s.toNat ∧ s.toNat < N) ∧
      ∃ k : Point, k.OnCurve ∧ k.x = r ∧ k.y.toNat % 2 + 27 = v then
    address keccak ((r.toNat : ZMod N)⁻¹ •
      ((s.toNat : ZMod N) • (Classical.choose h.2).toCurve - (hash.toNat : ZMod N) • G.toCurve))
  else 0

/-- A point is determined by its coordinate and the parity of the other one. -/
theorem eq_of_parity {p q : Point} (hp : p.OnCurve) (hq : q.OnCurve) (hx : p.x = q.x)
    (hparity : p.y.toNat % 2 = q.y.toNat % 2) : p = q := by
  obtain ⟨hpequation, -, hpy⟩ := hp
  obtain ⟨hqequation, -, hqy⟩ := hq
  have hsquare : (p.y.toNat : ZMod P) ^ 2 = (q.y.toNat : ZMod P) ^ 2 := by
    rw [hpequation, hqequation, hx]
  have hy : p.y = q.y := by
    rcases sq_eq_sq_iff_eq_or_eq_neg.mp hsquare with heq | hneg
    · exact toNat_injective hpy hqy heq
    · -- the coordinates of opposite points add up to the modulus, which is odd
      rw [eq_neg_iff_add_eq_zero, ← Nat.cast_add, ZMod.natCast_eq_zero_iff] at hneg
      obtain ⟨k, hk⟩ := hneg
      have hodd : P % 2 = 1 := by decide
      have hk2 : k < 2 := by
        by_contra hge
        have hle : P * 2 ≤ P * k := Nat.mul_le_mul_left P (Nat.not_lt.mp hge)
        omega
      interval_cases k
      · exact BitVec.eq_of_toNat_eq (by omega)
      · exact absurd hparity (by omega)
  cases p
  cases q
  exact congrArg₂ Point.mk hx hy

theorem recovers_ecrecover (keccak : Keccak) (sha256 : Bytes → B256) :
    Recovers ⟨keccak, sha256, ecrecover keccak⟩ where
  recovered := by
    intro hash s k hk hpos hlt hs hsmall
    have hexists : (0 < k.x.toNat ∧ k.x.toNat < N ∧ 0 < s.toNat ∧ s.toNat < N) ∧
        ∃ k' : Point, k'.OnCurve ∧ k'.x = k.x ∧ k'.y.toNat % 2 + 27 = k.y.toNat % 2 + 27 :=
      ⟨⟨hpos, hlt, hs, hsmall⟩, k, hk, rfl, rfl⟩
    obtain ⟨hcurve, hx, hparity⟩ := Classical.choose_spec hexists.2
    have hk' : Classical.choose hexists.2 = k := eq_of_parity hcurve hk hx (Nat.add_right_cancel hparity)
    simp only [ecrecover, dif_pos hexists, hk']
  failed := by
    intro hash r s v hnot
    exact dif_neg fun h => hnot h.1

end Secp256k1

namespace FROST

open Secp256k1

/--
**Every check of a signature is a check of Schnorr's equation.**

It accepts exactly the scalars and points that satisfy the equation and that `ecrecover` can be
asked about, provided that the addresses it compares belong to different points if they differ.
Whatever the addresses, only points on the curve with reduced coordinates are accepted.
-/
theorem checks_are_exact (precompiles : Precompiles) (hrecovers : Recovers precompiles) :
    (∀ (z e : Nat) (p r : Point),
      Distinguishes precompiles.keccak256
        ((e : ZMod N) • p.toCurve - (z : ZMod N) • G.toCurve) (-r.toCurve) →
      (mulmuladd.{0} precompiles z e p r = .ok ⟨⟩ ↔
        p.OnCurve ∧ r.OnCurve ∧ 0 < p.x.toNat ∧ p.x.toNat < N ∧ (e : ZMod N) ≠ 0 ∧
          (z : ZMod N) • G.toCurve - (e : ZMod N) • p.toCurve = r.toCurve)) ∧
    (∀ (z e : Nat) (p r : Point), mulmuladd.{0} precompiles z e p r = .ok ⟨⟩ →
      p.OnCurve ∧ r.OnCurve ∧ 0 < p.x.toNat ∧ p.x.toNat < N ∧ (e : ZMod N) ≠ 0) ∧
    (∀ (y : Point) (signature : Signature) (message : B256),
      let c := challengeOf precompiles signature.r y message
      Distinguishes precompiles.keccak256
        ((c : ZMod N) • y.toCurve - (signature.z.toNat : ZMod N) • G.toCurve) (-signature.r.toCurve) →
      (verify precompiles y signature message = .ok ⟨⟩ ↔
        signature.z.toNat < N ∧ y.OnCurve ∧ signature.r.OnCurve ∧ 0 < y.x.toNat ∧ y.x.toNat < N ∧
          (c : ZMod N) ≠ 0 ∧
          (signature.z.toNat : ZMod N) • G.toCurve = signature.r.toCurve + (c : ZMod N) • y.toCurve)) ∧
    (∀ (group r y : Point) (share : SignatureShare) (message : B256),
      let cl := challengeOf precompiles r group message * share.l.toNat
      Distinguishes precompiles.keccak256
        ((cl : ZMod N) • y.toCurve - (share.z.toNat : ZMod N) • G.toCurve) (-share.r.toCurve) →
      (verifyShare precompiles group r y share message = .ok ⟨⟩ ↔
        share.z.toNat < N ∧ r.OnCurve ∧ group.OnCurve ∧ y.OnCurve ∧ share.r.OnCurve ∧ 0 < y.x.toNat ∧
          y.x.toNat < N ∧ (cl : ZMod N) ≠ 0 ∧
          (share.z.toNat : ZMod N) • G.toCurve = share.r.toCurve + (cl : ZMod N) • y.toCurve)) ∧
    (∀ (participant : Address) (phi : Point) (proof : Signature),
      let c := keyGenChallengeOf precompiles participant phi proof.r
      Distinguishes precompiles.keccak256
        ((c : ZMod N) • phi.toCurve - (proof.z.toNat : ZMod N) • G.toCurve) (-proof.r.toCurve) →
      (verifyProofOfKnowledge precompiles participant phi proof = .ok ⟨⟩ ↔
        proof.z.toNat < N ∧ identifierOf precompiles participant ≠ 0 ∧ phi.OnCurve ∧ proof.r.OnCurve ∧
          0 < phi.x.toNat ∧ phi.x.toNat < N ∧ (c : ZMod N) ≠ 0 ∧
          (proof.z.toNat : ZMod N) • G.toCurve = proof.r.toCurve + (c : ZMod N) • phi.toCurve)) := by
  refine ⟨fun z e p r hdistinct => mulmuladd_iff hrecovers hdistinct, ?_, ?_, ?_, ?_⟩
  · intro z e p r h
    obtain ⟨hp, hr, hpos, hlt, he, -⟩ := (mulmuladd_address hrecovers).mp h
    exact ⟨hp, hr, hpos, hlt, he⟩
  · intro y signature message c hdistinct
    rw [verify_iff hrecovers hdistinct, Schnorr, sub_eq_iff_eq_add]
  · intro group r y share message cl hdistinct
    rw [verifyShare_iff hrecovers hdistinct, Schnorr, sub_eq_iff_eq_add]
  · intro participant phi proof c hdistinct
    rw [verifyProofOfKnowledge_iff hrecovers hdistinct, Schnorr, sub_eq_iff_eq_add]

/-- The precompiles, with the hash of the coordinates of `-G`. -/
noncomputable def generatorPrecompiles : Precompiles :=
  let keccak : Keccak := fun _ => 0xb8e8fc962bf5ccca6c6f73d280c0dbf239224071c59dd8970ab9d542e3414ab2
  ⟨keccak, fun _ => 0, ecrecover keccak⟩

/-- `2⋅G - 1⋅G = G`. -/
theorem generator_is_checked : mulmuladd.{0} generatorPrecompiles 2 1 G G = .ok ⟨⟩ := by
  have hcurve : G.OnCurve := onCurve_iff.mpr satisfiesCurveEquation_G
  have hequation : ((2 : ℕ) : ZMod N) • G.toCurve - ((1 : ℕ) : ZMod N) • G.toCurve = G.toCurve := by
    rw [natCast_smul, natCast_smul, two_nsmul, one_nsmul, add_sub_cancel_right]
  have hsame : ((1 : ℕ) : ZMod N) • G.toCurve - ((2 : ℕ) : ZMod N) • G.toCurve = -G.toCurve := by
    rw [← neg_sub, hequation]
  have hne : address generatorPrecompiles.keccak256 (-G.toCurve) ≠ 0 := by
    rw [address_neg hcurve]
    decide +kernel
  have hdistinct : Distinguishes generatorPrecompiles.keccak256
      (((1 : ℕ) : ZMod N) • G.toCurve - ((2 : ℕ) : ZMod N) • G.toCurve) (-G.toCurve) := by
    rw [hsame]
    exact distinguishes_self hne
  refine ((checks_are_exact generatorPrecompiles (recovers_ecrecover _ _)).1 2 1 G G hdistinct).mpr ?_
  exact ⟨hcurve, hcurve, by decide +kernel, by decide +kernel, by decide +kernel, hequation⟩

end FROST

end Safenet.Contracts
