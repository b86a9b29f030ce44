/-
Curves `y² = x³ + b` over a field, as Mathlib's elliptic curves.

`order_of_generator` finds the order of the whole group from one point: a point of prime order
`n` makes `n` divide it, at most two points share an `x`, and without a root of `x³ + b` there is
no point of order two.

Multiples of a point are computed on naturals in Jacobian coordinates (`multiple`), which need no
division, so that the order of a concrete point can be checked by evaluation.
-/
import Mathlib.AlgebraicGeometry.EllipticCurve.Affine.Point
import Mathlib.AlgebraicGeometry.EllipticCurve.Jacobian.Point
import Mathlib.FieldTheory.Finite.Basic
import Mathlib.GroupTheory.Perm.Cycle.Type
import Mathlib.Tactic.LinearCombination

namespace Safenet.Curve

open WeierstrassCurve

variable {F : Type} [Field F]

/-- The curve `y² = x³ + b`. -/
def curve (b : F) : WeierstrassCurve F := ⟨0, 0, 0, 0, b⟩

variable {b : F}

theorem equation_iff {x y : F} : (curve b).toAffine.Equation x y ↔ y ^ 2 = x ^ 3 + b := by
  rw [Affine.equation_iff]
  simp [curve]

/-- The discriminant is `-432 b²`. -/
theorem nonsingular_iff (h2 : (2 : F) ≠ 0) (h3 : (3 : F) ≠ 0) (hb : b ≠ 0) {x y : F} :
    (curve b).toAffine.Nonsingular x y ↔ y ^ 2 = x ^ 3 + b := by
  have hdiscriminant : (curve b).Δ = -(2 ^ 4 * 3 ^ 3 * b ^ 2) := by
    simp only [WeierstrassCurve.Δ, WeierstrassCurve.b₂, WeierstrassCurve.b₄, WeierstrassCurve.b₆,
      WeierstrassCurve.b₈, curve]
    ring
  have hne : (curve b).Δ ≠ 0 := by
    rw [hdiscriminant, neg_ne_zero]
    exact mul_ne_zero (mul_ne_zero (pow_ne_zero _ h2) (pow_ne_zero _ h3)) (pow_ne_zero _ hb)
  rw [← Affine.equation_iff_nonsingular_of_Δ_ne_zero hne, equation_iff]

@[simp] theorem negY_eq {x y : F} : (curve b).toAffine.negY x y = -y := by
  simp [Affine.negY, curve]

@[simp] theorem addX_eq {x₁ x₂ l : F} : (curve b).toAffine.addX x₁ x₂ l = l ^ 2 - x₁ - x₂ := by
  simp [Affine.addX, curve]

@[simp] theorem addY_eq {x₁ x₂ y₁ l : F} :
    (curve b).toAffine.addY x₁ x₂ y₁ l = (x₁ - (l ^ 2 - x₁ - x₂)) * l - y₁ := by
  rw [Affine.addY, Affine.negAddY, negY_eq, addX_eq]
  ring

/-! ### The order of the group -/

section Order

variable [Fintype F] [DecidableEq F]

/-- At most two points have the same `x`. -/
theorem card_le : Nat.card (curve b).toAffine.Point ≤ 2 * Fintype.card F + 1 := by
  classical
  have hfiber : ∀ x : F, (Finset.univ.filter fun xy : F × F =>
      (curve b).toAffine.Nonsingular xy.1 xy.2 ∧ xy.1 = x).card ≤ 2 := by
    intro x
    by_cases hsome : ∃ y, (curve b).toAffine.Nonsingular x y
    · obtain ⟨y, hy⟩ := hsome
      refine (Finset.card_le_card (t := {(x, y), (x, -y)}) fun xy hmem => ?_).trans Finset.card_le_two
      obtain ⟨-, hxy, rfl⟩ := Finset.mem_filter.mp hmem
      have hsquare : xy.2 ^ 2 = y ^ 2 :=
        (equation_iff.mp hxy.left).trans (equation_iff.mp hy.left).symm
      rcases sq_eq_sq_iff_eq_or_eq_neg.mp hsquare with heq | heq
      · rw [← heq]
        exact Finset.mem_insert_self _ _
      · rw [← heq]
        exact Finset.mem_insert_of_mem (Finset.mem_singleton_self _)
    · rw [Finset.filter_false_of_mem]
      · exact Nat.zero_le _
      · rintro xy - ⟨hxy, rfl⟩
        exact hsome ⟨_, hxy⟩
  have hpairs : (Finset.univ.filter fun xy : F × F => (curve b).toAffine.Nonsingular xy.1 xy.2).card ≤
      2 * Fintype.card F := by
    refine (Finset.card_le_mul_card_image_of_maps_to (f := Prod.fst) (t := Finset.univ)
      (fun _ _ => Finset.mem_univ _) 2 fun x _ => ?_).trans_eq (by rw [Finset.card_univ])
    rw [Finset.filter_filter]
    exact hfiber x
  have hequiv : Nat.card (curve b).toAffine.Point =
      Nat.card (Option {xy : F × F // (curve b).toAffine.Nonsingular xy.1 xy.2}) :=
    Nat.card_congr (Affine.nonsingularPointEquiv _)
  rw [hequiv, Finite.card_option, Nat.card_eq_fintype_card, Fintype.card_subtype]
  omega

instance : Finite (curve b).toAffine.Point :=
  .of_equiv (Option {xy : F × F // (curve b).toAffine.Nonsingular xy.1 xy.2})
    (Affine.nonsingularPointEquiv _).symm

/-- A point that is its own inverse has `y = 0`. -/
theorem odd_card (h2 : (2 : F) ≠ 0) (hroot : ∀ x : F, x ^ 3 + b ≠ 0) :
    ¬2 ∣ Nat.card (curve b).toAffine.Point := by
  intro hdvd
  obtain ⟨p, hp⟩ := exists_prime_addOrderOf_dvd_card' 2 hdvd
  have hdouble : p + p = 0 := by
    rw [← two_nsmul, ← hp]
    exact addOrderOf_nsmul_eq_zero p
  match p with
  | .zero =>
      have hone : addOrderOf (0 : (curve b).toAffine.Point) = 1 := addOrderOf_zero
      exact absurd (hone.symm.trans hp) (by decide)
  | .some x y h =>
      by_cases hy : y = (curve b).toAffine.negY x y
      · rw [negY_eq] at hy
        have hzero : y = 0 := by
          have hsum : 2 * y = 0 := by linear_combination hy
          exact (mul_eq_zero.mp hsum).resolve_left h2
        have hequation := equation_iff.mp h.left
        rw [hzero] at hequation
        exact hroot x (by rw [← hequation]; ring)
      · rw [Affine.Point.add_self_of_Y_ne hy] at hdouble
        exact absurd hdouble (Affine.Point.some_ne_zero _)

/-- **A point of large prime order generates everything.** -/
theorem order_of_generator (h2 : (2 : F) ≠ 0) (hroot : ∀ x : F, x ^ 3 + b ≠ 0) {n : ℕ}
    (hn : n.Prime) {g : (curve b).toAffine.Point} (hne : g ≠ 0) (hg : n • g = 0)
    (hlarge : 2 * Fintype.card F + 1 < 3 * n) : Nat.card (curve b).toAffine.Point = n := by
  have : Fact n.Prime := ⟨hn⟩
  have horder : addOrderOf g = n := addOrderOf_eq_prime hg hne
  obtain ⟨k, hk⟩ : n ∣ Nat.card (curve b).toAffine.Point := by
    rw [← horder]
    exact addOrderOf_dvd_natCard g
  have hcard := card_le (b := b)
  have hodd := odd_card h2 hroot
  have hpos : 0 < Nat.card (curve b).toAffine.Point := Nat.card_pos
  rw [hk] at hcard hodd hpos ⊢
  have hlt : k < 3 := by
    by_contra hge
    have hmul := Nat.mul_le_mul_left n (Nat.le_of_not_lt hge)
    omega
  interval_cases k
  · omega
  · exact Nat.mul_one n
  · exact absurd (Dvd.intro_left n rfl) hodd

end Order

/-! ### Multiples by evaluation -/

/-- Jacobian coordinates of a point, `x / z²` and `y / z³`. -/
structure Jacobian where
  x : ℕ
  y : ℕ
  z : ℕ
deriving DecidableEq

/-- `-a` modulo `m`. -/
def negMod (m a : ℕ) : ℕ := m - a % m

namespace Jacobian

/-- Twice a point. -/
def double (m : ℕ) (q : Jacobian) : Jacobian :=
  let x := (9 * q.x ^ 4 + negMod m (8 * q.x * q.y ^ 2)) % m
  let y := (3 * q.x ^ 2 * (4 * q.x * q.y ^ 2 + negMod m x) + negMod m (8 * q.y ^ 4)) % m
  ⟨x, y, 2 * q.y * q.z % m⟩

/-- The sum with an affine point that has another `x`. -/
def addAffine (m b gx gy : ℕ) (q : Jacobian) : Jacobian :=
  ⟨(q.x * gx ^ 2 * q.z ^ 2 + q.x ^ 2 * gx + 2 * b * q.z ^ 4 + negMod m (2 * q.y * gy * q.z)) % m,
    (q.y * gx ^ 3 * q.z ^ 3 + 3 * q.x ^ 2 * gx * gy * q.z ^ 2 + 2 * q.y ^ 2 * gy + 2 * b * gy * q.z ^ 6 +
      negMod m (2 * q.y * gy ^ 2 * q.z ^ 3 + 3 * q.x * q.y * gx ^ 2 * q.z + q.x ^ 3 * gy +
        2 * b * q.y * q.z ^ 3)) % m,
    (q.x + negMod m (gx * q.z ^ 2)) % m⟩

/-- The multiple of an affine point by a number with `fuel` bits after the first, nothing if two
summands have the same `x`. -/
def multiple (m b gx gy : ℕ) : ℕ → ℕ → Option Jacobian
  | 0, _ => some ⟨gx, gy, 1⟩
  | fuel + 1, n =>
      match multiple m b gx gy fuel (n / 2) with
      | none => none
      | some half =>
          let even := double m half
          if n % 2 = 0 then some even
          else if even.x = gx * even.z ^ 2 % m then none
          else some (addAffine m b gx gy even)

/-- The point is the opposite of an affine point. -/
def opposes (m gx gy : ℕ) : Option Jacobian → Bool
  | none => false
  | some q => q.z % m != 0 && (q.x % m == gx * q.z ^ 2 % m && (q.y + gy * q.z ^ 3) % m == 0)

/-- The coordinates as field elements. -/
def coordinates (m : ℕ) (q : Jacobian) : Fin 3 → ZMod m := ![q.x, q.y, q.z]

variable {m : ℕ} [Fact m.Prime]

@[simp] theorem cast_negMod (a : ℕ) : (negMod m a : ZMod m) = -a := by
  have hle : a % m ≤ m := (Nat.mod_lt a (NeZero.pos m)).le
  rw [negMod, Nat.cast_sub hle, ZMod.natCast_self, ZMod.natCast_mod, zero_sub]

theorem coordinates_double (b : ZMod m) (q : Jacobian) :
    (double m q).coordinates m = (curve b).toJacobian.dblXYZ (q.coordinates m) := by
  simp only [double, coordinates, WeierstrassCurve.Jacobian.dblXYZ, WeierstrassCurve.Jacobian.dblY,
    WeierstrassCurve.Jacobian.negDblY, WeierstrassCurve.Jacobian.dblX, WeierstrassCurve.Jacobian.dblZ,
    WeierstrassCurve.Jacobian.dblU_eq, WeierstrassCurve.Jacobian.negY_eq, curve]
  refine congrArg₂ Matrix.vecCons ?_ (congrArg₂ Matrix.vecCons ?_ (congrArg₂ Matrix.vecCons ?_ rfl))
  all_goals
    simp
    ring

theorem coordinates_addAffine (b gx gy : ℕ) (q : Jacobian) :
    (addAffine m b gx gy q).coordinates m =
      (curve (b : ZMod m)).toJacobian.addXYZ (q.coordinates m) ![gx, gy, 1] := by
  simp only [addAffine, coordinates, WeierstrassCurve.Jacobian.addXYZ, WeierstrassCurve.Jacobian.addY,
    WeierstrassCurve.Jacobian.negAddY, WeierstrassCurve.Jacobian.addX, WeierstrassCurve.Jacobian.addZ,
    WeierstrassCurve.Jacobian.negY_eq, curve]
  refine congrArg₂ Matrix.vecCons ?_ (congrArg₂ Matrix.vecCons ?_ (congrArg₂ Matrix.vecCons ?_ rfl))
  all_goals
    simp
    ring

open WeierstrassCurve.Jacobian (nonsingular_add nonsingular_some add_self add_of_not_equiv
  not_equiv_of_X_ne)
open WeierstrassCurve.Jacobian.Point (toAffine toAffine_add toAffine_some
  toAffine_of_Z_ne_zero)

/-- What the coordinates of a point stand for. -/
def Represents (b : ZMod m) (q : Jacobian) (p : (curve b).toAffine.Point) : Prop :=
  (curve b).toJacobian.Nonsingular (q.coordinates m) ∧
    toAffine (curve b).toJacobian (q.coordinates m) = p

theorem Represents.double {b : ZMod m} {q : Jacobian} {p : (curve b).toAffine.Point}
    (h : Represents b q p) : Represents b (q.double m) (p + p) := by
  obtain ⟨hns, haffine⟩ := h
  rw [Represents, coordinates_double b, ← add_self]
  refine ⟨nonsingular_add hns hns, ?_⟩
  rw [toAffine_add hns hns, haffine]

theorem Represents.addAffine {b gx gy : ℕ} {q : Jacobian} {p : (curve (b : ZMod m)).toAffine.Point}
    (h : Represents (b : ZMod m) q p) (hlt : q.x < m) (hne : q.x ≠ gx * q.z ^ 2 % m)
    (hg : (curve (b : ZMod m)).toAffine.Nonsingular (gx : ZMod m) gy) :
    Represents (b : ZMod m) (q.addAffine m b gx gy) (p + .some _ _ hg) := by
  obtain ⟨hns, haffine⟩ := h
  have hx : q.coordinates m 0 * ![(gx : ZMod m), gy, 1] 2 ^ 2 ≠
      ![(gx : ZMod m), gy, 1] 0 * q.coordinates m 2 ^ 2 := by
    intro heq
    refine hne ?_
    have hcast : (q.x : ZMod m) = (gx * q.z ^ 2 : ℕ) := by
      simpa [coordinates] using heq
    have hmod := (ZMod.natCast_eq_natCast_iff' _ _ _).mp hcast
    rwa [Nat.mod_eq_of_lt hlt] at hmod
  have hpoint := (nonsingular_some _ _).mpr hg
  rw [Represents, coordinates_addAffine, ← add_of_not_equiv (not_equiv_of_X_ne hx)]
  refine ⟨nonsingular_add hns hpoint, ?_⟩
  rw [toAffine_add hns hpoint, haffine, toAffine_some hpoint]

/-- **`multiple` computes multiples.** -/
theorem represents_multiple {b gx gy : ℕ}
    (hg : (curve (b : ZMod m)).toAffine.Nonsingular (gx : ZMod m) gy) (fuel : ℕ) :
    ∀ {n : ℕ} {q : Jacobian}, n / 2 ^ fuel = 1 → multiple m b gx gy fuel n = some q →
      Represents (b : ZMod m) q (n • .some _ _ hg) := by
  induction fuel with
  | zero =>
      rintro n q hn ⟨⟩
      have hpoint := (nonsingular_some _ _).mpr hg
      rw [pow_zero, Nat.div_one] at hn
      rw [Represents, coordinates, Nat.cast_one, hn, one_nsmul]
      exact ⟨hpoint, toAffine_some hpoint⟩
  | succ fuel ih =>
      intro n q hn h
      rw [pow_succ', ← Nat.div_div_eq_div_mul] at hn
      simp only [multiple] at h
      cases hhalf : multiple m b gx gy fuel (n / 2) with
      | none => simp [hhalf] at h
      | some half =>
          rw [hhalf] at h
          simp only at h
          have heven := (ih hn hhalf).double
          rw [← add_nsmul] at heven
          split at h
          · cases h
            rwa [show n = n / 2 + n / 2 by omega]
          · split at h
            · cases h
            · next hne =>
              cases h
              have hodd := heven.addAffine (Nat.mod_lt _ (NeZero.pos m)) hne hg
              rwa [← succ_nsmul, show n / 2 + n / 2 + 1 = n by omega] at hodd

/-- A point with `z ≠ 0` is the affine point with the same `x / z²` and `y / z³`. -/
theorem Represents.eq_some {b : ZMod m} {q : Jacobian} {p : (curve b).toAffine.Point}
    (h : Represents b q p) {x y : ZMod m} (hz : (q.z : ZMod m) ≠ 0) (hx : (q.x : ZMod m) = x * q.z ^ 2)
    (hy : (q.y : ZMod m) = y * q.z ^ 3) (hxy : (curve b).toAffine.Nonsingular x y) :
    p = .some x y hxy := by
  obtain ⟨hns, rfl⟩ := h
  have hne : q.coordinates m 2 ≠ 0 := hz
  have hxdiv : q.coordinates m 0 / q.coordinates m 2 ^ 2 = x := by
    rw [div_eq_iff (pow_ne_zero _ hne)]
    exact hx
  have hydiv : q.coordinates m 1 / q.coordinates m 2 ^ 3 = y := by
    rw [div_eq_iff (pow_ne_zero _ hne)]
    exact hy
  rw [toAffine_of_Z_ne_zero hns hne]
  simp only [hxdiv, hydiv]

/-- A point whose `n`th multiple is its opposite has an order that divides `n + 1`. -/
theorem succ_nsmul_eq_zero {b gx gy fuel n : ℕ}
    (hg : (curve (b : ZMod m)).toAffine.Nonsingular (gx : ZMod m) gy) (hn : n / 2 ^ fuel = 1)
    (h : opposes m gx gy (multiple m b gx gy fuel n) = true) :
    (n + 1) • Affine.Point.some _ _ hg = 0 := by
  cases hmultiple : multiple m b gx gy fuel n with
  | none =>
      rw [hmultiple] at h
      cases h
  | some q =>
      rw [hmultiple] at h
      simp only [opposes, Bool.and_eq_true, bne_iff_ne, beq_iff_eq] at h
      obtain ⟨hz, hx, hy⟩ := h
      have hzcast : (q.z : ZMod m) ≠ 0 := by
        rwa [Ne, ZMod.natCast_eq_zero_iff, Nat.dvd_iff_mod_eq_zero]
      have hxcast : (q.x : ZMod m) = gx * q.z ^ 2 := by
        have hcast := (ZMod.natCast_eq_natCast_iff' _ _ _).mpr hx
        rwa [Nat.cast_mul, Nat.cast_pow] at hcast
      have hycast : (q.y : ZMod m) = -gy * q.z ^ 3 := by
        have hcast := (ZMod.natCast_eq_zero_iff _ _).mpr (Nat.dvd_of_mod_eq_zero hy)
        rw [Nat.cast_add, Nat.cast_mul, Nat.cast_pow] at hcast
        linear_combination hcast
      have hopposite := (Affine.nonsingular_neg _ _).mpr hg
      rw [negY_eq] at hopposite
      have heq := (represents_multiple hg fuel hn hmultiple).eq_some hzcast hxcast hycast hopposite
      rw [succ_nsmul, heq, Affine.Point.add_of_Y_eq rfl]
      rw [negY_eq]

end Jacobian

end Safenet.Curve
