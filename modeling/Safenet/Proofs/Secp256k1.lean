/-
The curve arithmetic of the contracts is the group law of secp256k1.

The field modulus and the order of the generator are prime by certificates.  The curve has as many
points as the generator has multiples (`card_curve`), so scalars modulo `N` act on every point.
`add_ok` says that adding two points never fails and is the addition of the group: sums do not
depend on the order in which the contract takes them.
-/
import Mathlib.Algebra.Module.ZMod
import Mathlib.Tactic.NormNum.Prime
import Mathlib.Tactic.ReduceModChar
import Safenet.Contracts.FROST
import Safenet.Lib.Curve
import Safenet.Lib.Primality

namespace Safenet.Contracts.Secp256k1

open Curve Fallible Primality

/-! ### The two primes -/

def smallPrimes : List ℕ :=
  [2, 3, 5, 7, 11, 17, 19, 29, 31, 41, 53, 59, 97, 109, 113, 149, 293, 461, 631, 797, 971, 1373, 1627,
    1871, 2011, 2621, 2657, 2731, 2861, 4051, 4423, 5323, 7723, 9349, 13441, 16699, 20113, 24809, 28181,
    41201, 96557]

def certificates : List Certificate :=
  [⟨85831, 3, [2, 3, 5, 2861]⟩,
    ⟨120233, 3, [2, 2, 2, 7, 19, 113]⟩,
    ⟨305873, 3, [2, 2, 2, 2, 7, 2731]⟩,
    ⟨1206781, 10, [2, 2, 3, 5, 20113]⟩,
    ⟨1627771, 3, [2, 3, 5, 29, 1871]⟩,
    ⟨4681609, 23, [2, 2, 2, 3, 97, 2011]⟩,
    ⟨7240687, 3, [2, 3, 1206781]⟩,
    ⟨13331831, 13, [2, 5, 971, 1373]⟩,
    ⟨44706919, 6, [2, 3, 797, 9349]⟩,
    ⟨107590001, 3, [2, 2, 2, 2, 5, 5, 5, 5, 7, 29, 53]⟩,
    ⟨545358713, 5, [2, 2, 2, 41, 59, 28181]⟩,
    ⟨297159362677, 2, [2, 2, 3, 3, 11, 461, 1627771]⟩,
    ⟨107361793816595537, 3, [2, 2, 2, 2, 16699, 85831, 4681609]⟩,
    ⟨173378833005251801, 6, [2, 2, 2, 5, 5, 2621, 24809, 13331831]⟩,
    ⟨174723607534414371449, 3, [2, 2, 2, 17, 59, 4051, 120233, 44706919]⟩,
    ⟨22149492674086928081353, 5, [2, 2, 2, 3, 5323, 173378833005251801]⟩,
    ⟨132896956044521568488119, 6, [2, 3, 22149492674086928081353]⟩,
    ⟨29047611873442575647497758179, 2, [2, 293, 305873, 545358713, 297159362677]⟩,
    ⟨341948486974166000522343609283189, 2, [2, 2, 3, 3, 3, 109, 29047611873442575647497758179]⟩,
    ⟨255515944373312847190720520512484175977, 3,
      [2, 2, 2, 7, 7, 11, 1627, 2657, 4423, 41201, 96557, 7240687, 107590001]⟩,
    ⟨205115282021455665897114700593932402728804164701536103180137503955397371, 10,
      [2, 3, 5, 29, 29, 31, 7723, 132896956044521568488119, 255515944373312847190720520512484175977]⟩,
    ⟨N, 7, [2, 2, 2, 2, 2, 2, 3, 149, 631, 107361793816595537, 174723607534414371449,
      341948486974166000522343609283189]⟩,
    ⟨P, 3, [2, 3, 7, 13441,
      205115282021455665897114700593932402728804164701536103180137503955397371]⟩]

theorem prime_of_smallPrimes : ∀ q ∈ smallPrimes, q.Prime := by
  simp only [smallPrimes, List.forall_mem_cons]
  norm_num

theorem prime_of_certificates : ∀ p ∈ certificates.map Certificate.p, p.Prime := by
  have hcheck : checkAll 256 smallPrimes certificates = true := by decide +kernel
  exact List.forall_mem_map.mpr (prime_of_checkAll certificates prime_of_smallPrimes hcheck)

theorem prime_P : P.Prime := prime_of_certificates P (by decide)

theorem prime_N : N.Prime := prime_of_certificates N (by decide)

instance : Fact P.Prime := ⟨prime_P⟩

instance : Fact N.Prime := ⟨prime_N⟩

/-! ### The group of the curve -/

/-- The points of `y² = x³ + 7`. -/
abbrev Curve : Type := (curve (B : ZMod P)).toAffine.Point

theorem two_ne_zero : (2 : ZMod P) ≠ 0 := by decide

theorem nonsingular_iff {x y : ZMod P} :
    (curve (B : ZMod P)).toAffine.Nonsingular x y ↔ y ^ 2 = x ^ 3 + B :=
  Curve.nonsingular_iff two_ne_zero (by decide) (by decide)

/-- `-7` is not a cube. -/
theorem no_root (x : ZMod P) : x ^ 3 + (B : ZMod P) ≠ 0 := by
  intro hroot
  have hcube : x ^ 3 = -7 := by
    have hB : (B : ZMod P) = 7 := rfl
    rw [hB] at hroot
    linear_combination hroot
  have hne : x ≠ 0 := by
    rintro rfl
    exact absurd hcube (by decide)
  have hpower : (-7 : ZMod P) ^ ((P - 1) / 3) = 1 := by
    rw [← hcube, ← pow_mul]
    exact ZMod.pow_card_sub_one_eq_one hne
  have hcast : (-7 : ZMod P) = (P - 7 : ℕ) := by decide
  have hvalue : powMod 256 (P - 7) ((P - 1) / 3) P ≠ 1 := by decide +kernel
  rw [hcast, pow_eq_one_iff (by decide) (show _ < 2 ^ 256 by decide)] at hpower
  exact hvalue hpower

/-- The base point. -/
def G : Point :=
  ⟨0x79be667ef9dcbbac55a06295ce870b07029bfcdb2dce28d959f2815b16f81798,
    0x483ada7726a3c4655da4fbfc0e1108a8fd17b448a68554199c47d08ffb10d4b8⟩

theorem satisfiesCurveEquation_iff {x y : ℕ} :
    satisfiesCurveEquation x y = true ↔
      (y : ZMod P) ^ 2 = (x : ZMod P) ^ 3 + B ∧ x < P ∧ y < P := by
  have hequation : mulmod y y P = addmod (mulmod x (mulmod x x P) P) B P ↔
      (y : ZMod P) ^ 2 = (x : ZMod P) ^ 3 + B := by
    rw [mulmod, addmod, ← ZMod.natCast_eq_natCast_iff']
    simp only [mulmod, Nat.cast_add, Nat.cast_mul, ZMod.natCast_mod]
    rw [pow_two, pow_succ', pow_two]
  simp only [satisfiesCurveEquation, Bool.and_eq_true, decide_eq_true_eq, hequation]

/-- The point is on the curve or zero. -/
def Point.Valid (p : Point) : Prop := p = zero ∨ satisfiesCurveEquation p.x.toNat p.y.toNat = true

open Classical in
/-- The element of the group that a point stands for. -/
noncomputable def Point.toCurve (p : Point) : Curve :=
  if h : (curve (B : ZMod P)).toAffine.Nonsingular (p.x.toNat : ZMod P) (p.y.toNat : ZMod P) then
    .some _ _ h
  else 0

@[simp] theorem toCurve_zero : zero.toCurve = 0 := by
  refine dif_neg fun h => ?_
  exact absurd (nonsingular_iff.mp h) (by decide)

theorem toCurve_eq_some {p : Point} (h : satisfiesCurveEquation p.x.toNat p.y.toNat = true) :
    ∃ hns, p.toCurve = .some (p.x.toNat : ZMod P) (p.y.toNat : ZMod P) hns :=
  ⟨nonsingular_iff.mpr (satisfiesCurveEquation_iff.mp h).1, dif_pos _⟩

theorem toCurve_ne_zero {p : Point} (h : satisfiesCurveEquation p.x.toNat p.y.toNat = true) :
    p.toCurve ≠ 0 := by
  obtain ⟨hns, heq⟩ := toCurve_eq_some h
  rw [heq]
  exact WeierstrassCurve.Affine.Point.some_ne_zero hns

theorem toNat_injective {x y : B256} (hx : x.toNat < P) (hy : y.toNat < P)
    (h : (x.toNat : ZMod P) = y.toNat) : x = y := by
  have hmod := (ZMod.natCast_eq_natCast_iff' _ _ _).mp h
  rw [Nat.mod_eq_of_lt hx, Nat.mod_eq_of_lt hy] at hmod
  exact BitVec.eq_of_toNat_eq hmod

/-- The coordinates of a point on the curve are determined. -/
theorem toCurve_injective {p q : Point} (hp : p.Valid) (hq : q.Valid) (h : p.toCurve = q.toCurve) :
    p = q := by
  rcases hp with rfl | hp
  · rcases hq with rfl | hq
    · rfl
    · exact absurd h.symm (by simpa using toCurve_ne_zero hq)
  · rcases hq with rfl | hq
    · exact absurd h (by simpa using toCurve_ne_zero hp)
    · obtain ⟨-, hpx, hpy⟩ := satisfiesCurveEquation_iff.mp hp
      obtain ⟨-, hqx, hqy⟩ := satisfiesCurveEquation_iff.mp hq
      obtain ⟨hnsp, hpcurve⟩ := toCurve_eq_some hp
      obtain ⟨hnsq, hqcurve⟩ := toCurve_eq_some hq
      rw [hpcurve, hqcurve] at h
      injection h with hx hy
      have hxeq := toNat_injective hpx hqx hx
      have hyeq := toNat_injective hpy hqy hy
      cases p
      cases q
      exact congrArg₂ Point.mk hxeq hyeq

/-- A point given by its coordinates in the field. -/
theorem point_toCurve {x y : ℕ} {a b : ZMod P} (hx : x < P) (hy : y < P) (hxa : (x : ZMod P) = a)
    (hyb : (y : ZMod P) = b) (hns : (curve (B : ZMod P)).toAffine.Nonsingular a b) :
    (point x y).Valid ∧ (point x y).toCurve = .some a b hns := by
  subst hxa hyb
  have hbound : P < 2 ^ 256 := by decide
  have hxnat : (point x y).x.toNat = x := by
    rw [point, BitVec.toNat_ofNat, Nat.mod_eq_of_lt (hx.trans hbound)]
  have hynat : (point x y).y.toNat = y := by
    rw [point, BitVec.toNat_ofNat, Nat.mod_eq_of_lt (hy.trans hbound)]
  have hcurve : satisfiesCurveEquation (point x y).x.toNat (point x y).y.toNat = true := by
    rw [hxnat, hynat]
    exact satisfiesCurveEquation_iff.mpr ⟨nonsingular_iff.mp hns, hx, hy⟩
  obtain ⟨hns', heq⟩ := toCurve_eq_some hcurve
  refine ⟨.inr hcurve, heq.trans ?_⟩
  simp only [hxnat, hynat]

/-! ### Addition -/

theorem cast_addmod (a b : ℕ) : (addmod a b P : ZMod P) = a + b := by
  rw [addmod, ZMod.natCast_mod, Nat.cast_add]

theorem cast_mulmod (a b : ℕ) : (mulmod a b P : ZMod P) = a * b := by
  rw [mulmod, ZMod.natCast_mod, Nat.cast_mul]

theorem cast_sub_self {a : ℕ} (h : a < P) : ((P - a : ℕ) : ZMod P) = -a := by
  rw [Nat.cast_sub h.le, ZMod.natCast_self, zero_sub]

theorem addmod_lt (a b : ℕ) : addmod a b P < P := Nat.mod_lt _ prime_P.pos

theorem modexp_eq_powMod (fuel : ℕ) : ∀ base exponent m : ℕ,
    modexp fuel base exponent m = powMod fuel base exponent m := by
  induction fuel with
  | zero =>
      intro base exponent m
      rfl
  | succ fuel ih =>
      intro base exponent m
      simp only [modexp, powMod, ih]

/-- Fermat's little theorem: a division by something that is not zero. -/
theorem divmod_ok {x y : ℕ} (hne : (y : ZMod P) ≠ 0) :
    ∃ l, divmod x y P = .ok l ∧ (l : ZMod P) = x / y := by
  have hy : y ≠ 0 := by
    rintro rfl
    exact hne Nat.cast_zero
  have hbound : P - 2 < 2 ^ 256 := by decide
  have hpred : P - 2 + 1 = P - 1 := by decide
  have hinv : (y : ZMod P) ^ (P - 2) = (y : ZMod P)⁻¹ := by
    refine eq_inv_of_mul_eq_one_left ?_
    rw [← pow_succ, hpred]
    exact ZMod.pow_card_sub_one_eq_one hne
  refine ⟨mulmod x (modexp 256 y (P - 2) P) P, ?_, ?_⟩
  · simp [divmod, require, hy]
  · rw [cast_mulmod, modexp_eq_powMod, powMod_eq 256 hbound, ZMod.natCast_mod, Nat.cast_pow, hinv,
      ← div_eq_mul_inv]

theorem unpack_ok {p : Point} (h : p.Valid) : unpack p = .ok (p.x.toNat, p.y.toNat) := by
  rcases h with rfl | h
  · rfl
  · simp [unpack, require, h]

/-- Two points that are not opposite, and the slope of the line through them. -/
theorem chord_toCurve {px py qx qy l : ℕ} (hpy : py < P)
    {hp : (curve (B : ZMod P)).toAffine.Nonsingular (px : ZMod P) py}
    {hq : (curve (B : ZMod P)).toAffine.Nonsingular (qx : ZMod P) qy}
    (hxy : ¬((px : ZMod P) = qx ∧ (py : ZMod P) = (curve (B : ZMod P)).toAffine.negY (qx : ZMod P) qy))
    (hl : (l : ZMod P) = (curve (B : ZMod P)).toAffine.slope (px : ZMod P) qx py qy) :
    (chord px py qx l).Valid ∧
      (chord px py qx l).toCurve = WeierstrassCurve.Affine.Point.some _ _ hp + .some _ _ hq := by
  have hns := WeierstrassCurve.Affine.nonsingular_add hp hq hxy
  rw [WeierstrassCurve.Affine.Point.add_some hxy]
  have hx : (addmod (mulmod l l P) (P - addmod px qx P) P : ZMod P) =
      (curve (B : ZMod P)).toAffine.addX (px : ZMod P) qx
        ((curve (B : ZMod P)).toAffine.slope (px : ZMod P) qx py qy) := by
    rw [cast_addmod, cast_mulmod, cast_sub_self (addmod_lt _ _), cast_addmod, addX_eq, ← hl]
    ring
  refine point_toCurve (addmod_lt _ _) (addmod_lt _ _) hx ?_ hns
  rw [cast_addmod, cast_mulmod, cast_addmod, cast_sub_self (addmod_lt _ _), cast_sub_self hpy, hx, addX_eq,
    addY_eq, ← hl]
  ring

/-- No point is its own inverse. -/
theorem y_ne_zero {x y : ℕ} (h : satisfiesCurveEquation x y = true) : (y : ZMod P) ≠ 0 := by
  intro hzero
  have hequation := (satisfiesCurveEquation_iff.mp h).1
  rw [hzero] at hequation
  exact no_root (x : ZMod P) (by rw [← hequation]; ring)

theorem not_zero {x y : ℕ} (h : satisfiesCurveEquation x y = true) : ¬(x = 0 ∧ y = 0) := by
  rintro ⟨rfl, rfl⟩
  exact absurd h (by decide)

/-- The sum of two points on the curve. -/
private theorem add_some {p q : Point} (hp : satisfiesCurveEquation p.x.toNat p.y.toNat = true)
    (hq : satisfiesCurveEquation q.x.toNat q.y.toNat = true) :
    ∃ r, add p q = .ok r ∧ r.Valid ∧ r.toCurve = p.toCurve + q.toCurve := by
  obtain ⟨hpequation, hpx, hpy⟩ := satisfiesCurveEquation_iff.mp hp
  obtain ⟨hqequation, hqx, hqy⟩ := satisfiesCurveEquation_iff.mp hq
  obtain ⟨hnsp, hpcurve⟩ := toCurve_eq_some hp
  obtain ⟨hnsq, hqcurve⟩ := toCurve_eq_some hq
  simp only [add, unpack_ok (.inr hp), unpack_ok (.inr hq), bind, Except.bind, if_neg (not_zero hp),
    if_neg (not_zero hq)]
  rw [hpcurve, hqcurve]
  by_cases hx : p.x.toNat = q.x.toNat
  · have hxcast : (p.x.toNat : ZMod P) = q.x.toNat := congrArg _ hx
    rw [if_neg (not_not.mpr hx)]
    by_cases hy : p.y.toNat = q.y.toNat
    · have hdouble : (addmod p.y.toNat p.y.toNat P : ZMod P) ≠ 0 := by
        rw [cast_addmod, ← two_mul]
        exact mul_ne_zero two_ne_zero (y_ne_zero hp)
      obtain ⟨l, hl, hslope⟩ := divmod_ok (x := mulmod 3 (mulmod p.x.toNat p.x.toNat P) P) hdouble
      have hneg : (p.y.toNat : ZMod P) ≠
          (curve (B : ZMod P)).toAffine.negY (q.x.toNat : ZMod P) q.y.toNat := by
        rw [negY_eq, ← hy, Ne, eq_neg_iff_add_eq_zero, ← cast_addmod]
        exact hdouble
      rw [if_pos hy, hl]
      refine ⟨_, rfl, chord_toCurve hpy (fun hxy => hneg hxy.2) ?_⟩
      rw [hslope, cast_mulmod, cast_mulmod, cast_addmod,
        WeierstrassCurve.Affine.slope_of_Y_ne hxcast hneg, negY_eq]
      simp only [curve, Nat.cast_ofNat]
      congr 1 <;> ring
    · rw [if_neg hy]
      have hopposite : (p.y.toNat : ZMod P) =
          (curve (B : ZMod P)).toAffine.negY (q.x.toNat : ZMod P) q.y.toNat := by
        rw [negY_eq]
        have hsquare : (p.y.toNat : ZMod P) ^ 2 = (q.y.toNat : ZMod P) ^ 2 := by
          rw [hpequation, hqequation, hxcast]
        refine (sq_eq_sq_iff_eq_or_eq_neg.mp hsquare).resolve_left fun heq => ?_
        exact hy (congrArg BitVec.toNat (toNat_injective hpy hqy heq))
      rw [WeierstrassCurve.Affine.Point.add_of_Y_eq hxcast hopposite]
      exact ⟨zero, rfl, .inl rfl, toCurve_zero⟩
  · have hne : (p.x.toNat : ZMod P) ≠ q.x.toNat := by
      intro heq
      exact hx (congrArg BitVec.toNat (toNat_injective hpx hqx heq))
    have hdifference : (addmod q.x.toNat (P - p.x.toNat) P : ZMod P) ≠ 0 := by
      rw [cast_addmod, cast_sub_self hpx, ← sub_eq_add_neg]
      exact sub_ne_zero.mpr hne.symm
    obtain ⟨l, hl, hslope⟩ := divmod_ok (x := addmod q.y.toNat (P - p.y.toNat) P) hdifference
    rw [if_pos hx, hl]
    refine ⟨_, rfl, chord_toCurve hpy (fun hxy => hne hxy.1) ?_⟩
    rw [hslope, cast_addmod, cast_addmod, cast_sub_self hpx, cast_sub_self hpy,
      WeierstrassCurve.Affine.slope_of_X_ne hne, ← neg_div_neg_eq]
    congr 1 <;> ring

theorem point_toNat (p : Point) : point p.x.toNat p.y.toNat = p := by
  rw [point, BitVec.ofNat_toNat, BitVec.ofNat_toNat, BitVec.setWidth_eq, BitVec.setWidth_eq]

theorem add_zero_left {q : Point} (hq : q.Valid) : add zero q = .ok q := by
  have hzero : unpack zero = .ok (0, 0) := rfl
  unfold add
  rw [hzero, unpack_ok hq]
  show Except.ok (point q.x.toNat q.y.toNat) = _
  rw [point_toNat]

private theorem add_zero_right {p : Point} (hp : satisfiesCurveEquation p.x.toNat p.y.toNat = true) :
    add p zero = .ok p := by
  have hzero : unpack zero = .ok (0, 0) := rfl
  unfold add
  rw [hzero, unpack_ok (.inr hp)]
  show (if p.x.toNat = 0 ∧ p.y.toNat = 0 then Except.ok (point 0 0)
    else Except.ok (point p.x.toNat p.y.toNat)) = _
  rw [if_neg (not_zero hp), point_toNat]

/-- **Adding two points never fails and is the group law.** -/
theorem add_ok {p q : Point} (hp : p.Valid) (hq : q.Valid) :
    ∃ r, add p q = .ok r ∧ r.Valid ∧ r.toCurve = p.toCurve + q.toCurve := by
  rcases hp with rfl | hp
  · exact ⟨q, add_zero_left hq, hq, by rw [toCurve_zero, zero_add]⟩
  · rcases hq with rfl | hq
    · exact ⟨p, add_zero_right hp, .inr hp, by rw [toCurve_zero, add_zero]⟩
    · exact add_some hp hq

theorem unpack_error {p : Point} (h : ¬p.Valid) : unpack p = .error .notOnCurve := by
  have hfalse : ((p.x = 0 && p.y = 0) || satisfiesCurveEquation p.x.toNat p.y.toNat) = false := by
    rw [Bool.or_eq_false_iff, Bool.and_eq_false_iff, decide_eq_false_iff_not, decide_eq_false_iff_not]
    refine ⟨?_, Bool.eq_false_iff.mpr fun hcurve => h (.inr hcurve)⟩
    by_cases hx : p.x = 0
    · refine .inr fun hy => h (.inl ?_)
      cases p
      exact congrArg₂ Point.mk hx hy
    · exact .inl hx
  rw [unpack, hfalse]
  rfl

/-- Anything but two points reverts. -/
theorem add_error {p q : Point} (h : ¬(p.Valid ∧ q.Valid)) : add p q = .error .notOnCurve := by
  unfold add
  by_cases hp : p.Valid
  · rw [unpack_ok hp, unpack_error fun hq => h ⟨hp, hq⟩]
    rfl
  · rw [unpack_error hp]
    rfl

theorem valid_of_add {p q r : Point} (h : add p q = .ok r) : p.Valid ∧ q.Valid := by
  by_contra hnot
  rw [add_error hnot] at h
  cases h

theorem toCurve_add {p q r : Point} (h : add p q = .ok r) : r.toCurve = p.toCurve + q.toCurve := by
  obtain ⟨hp, hq⟩ := valid_of_add h
  obtain ⟨r', hr', -, hsum⟩ := add_ok hp hq
  rw [h] at hr'
  rw [Except.ok.inj hr', hsum]

/-! ### Scalars -/

theorem ofNat_mod_toNat (a : Nat) : (BitVec.ofNat 256 (a % N)).toNat = a % N := by
  have hbound : N < 2 ^ 256 := by decide
  rw [BitVec.toNat_ofNat]
  exact Nat.mod_eq_of_lt ((Nat.mod_lt _ prime_N.pos).trans hbound)

theorem satisfiesCurveEquation_G : satisfiesCurveEquation G.x.toNat G.y.toNat = true := by
  decide

/-- The base point is the opposite of its `N - 1`st multiple. -/
theorem N_smul_G : N • G.toCurve = 0 := by
  obtain ⟨hns, heq⟩ := toCurve_eq_some satisfiesCurveEquation_G
  have hopposes : Jacobian.opposes P G.x.toNat G.y.toNat
      (Jacobian.multiple P B G.x.toNat G.y.toNat 255 (N - 1)) = true := by
    decide +kernel
  have hbits : (N - 1) / 2 ^ 255 = 1 := by decide
  have hsucc : N - 1 + 1 = N := by decide
  have hzero := Jacobian.succ_nsmul_eq_zero hns hbits hopposes
  rwa [hsucc, ← heq] at hzero

/-- **The curve has `N` points.** -/
theorem card_curve : Nat.card Curve = N := by
  refine order_of_generator two_ne_zero no_root prime_N (toCurve_ne_zero satisfiesCurveEquation_G)
    N_smul_G ?_
  rw [ZMod.card]
  decide

/-- Scalars modulo the order act on the points. -/
noncomputable instance : Module (ZMod N) Curve :=
  AddCommGroup.zmodModule fun p => by
    rw [← card_curve]
    exact card_nsmul_eq_zero'

theorem natCast_smul (n : ℕ) (p : Curve) : (n : ZMod N) • p = n • p := Nat.cast_smul_eq_nsmul _ n p

end Safenet.Contracts.Secp256k1
