/-
Sharing an element of a module with a polynomial.

The coefficients are elements of the module, lowest first, and the points are scalars.  The weights of
Lagrange give the constant coefficient back from the values at as many points as there are coefficients:
on a power of the points they are what the interpolation of that power says at zero
(`sum_weight_mul_pow`), and an evaluation is a sum of powers (`evaluate_eq_sum`).
-/
import Mathlib.LinearAlgebra.Lagrange

namespace Safenet.Sharing

variable {F M ι : Type*} [Field F] [AddCommGroup M] [Module F M]

/-! ### Evaluation -/

/-- The polynomial with these coefficients at a point. -/
def evaluate (coefficients : List M) (x : F) : M :=
  coefficients.foldr (fun c sum => c + x • sum) 0

theorem evaluate_nil (x : F) : evaluate ([] : List M) x = 0 := rfl

theorem evaluate_cons (c : M) (coefficients : List M) (x : F) :
    evaluate (c :: coefficients) x = c + x • evaluate coefficients x := rfl

/-- Coefficient by coefficient. -/
theorem evaluate_eq_sum (coefficients : List M) (x : F) :
    evaluate coefficients x =
      ∑ k ∈ Finset.range coefficients.length, x ^ k • coefficients.getD k 0 := by
  induction coefficients with
  | nil => rfl
  | cons c coefficients ih =>
      rw [evaluate_cons, ih, List.length_cons, Finset.sum_range_succ', Finset.smul_sum, add_comm]
      refine congrArg₂ (· + ·) (Finset.sum_congr rfl fun k _ => ?_) ?_
      · rw [smul_smul, ← pow_succ', List.getD_cons_succ]
      · rw [pow_zero, one_smul, List.getD_cons_zero]

/-- A sum of polynomials, at a point. -/
theorem evaluate_sum {total : List M} {lists : List (List M)}
    (hlength : ∀ l ∈ lists, l.length = total.length)
    (h : ∀ k < total.length, total.getD k 0 = (lists.map fun l => l.getD k 0).sum) (x : F) :
    evaluate total x = (lists.map fun l => evaluate l x).sum := by
  have heach : lists.map (fun l => evaluate l x) =
      lists.map fun l => ∑ k ∈ Finset.range total.length, x ^ k • l.getD k 0 := by
    refine List.map_congr_left fun l hl => ?_
    rw [evaluate_eq_sum, hlength l hl]
  rw [heach, evaluate_eq_sum, Finset.sum_congr rfl fun k hk => by rw [h k (Finset.mem_range.mp hk)]]
  clear h heach hlength
  induction lists with
  | nil => simp
  | cons l lists ih =>
      simp only [List.map_cons, List.sum_cons, smul_add, Finset.sum_add_distrib, ih]

/-! ### Interpolation at zero -/

section Weight

variable [DecidableEq ι]

/-- What the value at one of the points counts for the value at zero. -/
def weight (s : Finset ι) (point : ι → F) (i : ι) : F :=
  ∏ j ∈ s.erase i, point j * (point j - point i)⁻¹

variable {s : Finset ι} {point : ι → F}

/-- The weights do not depend on the names of the points. -/
theorem weight_image {κ : Type*} [DecidableEq κ] {f : κ → ι} (hf : Function.Injective f) (names : Finset κ)
    (point : ι → F) (k : κ) : weight (names.image f) point (f k) = weight names (fun k => point (f k)) k := by
  rw [weight, ← Finset.image_erase hf, Finset.prod_image hf.injOn]
  rfl

theorem eval_basis_zero (i : ι) :
    (Lagrange.basis s point i).eval 0 = weight s point i := by
  rw [Lagrange.basis, Polynomial.eval_prod]
  refine Finset.prod_congr rfl fun j _ => ?_
  rw [Lagrange.basisDivisor, Polynomial.eval_mul, Polynomial.eval_C, Polynomial.eval_sub,
    Polynomial.eval_X, Polynomial.eval_C, zero_sub, mul_neg, ← neg_mul, ← inv_neg, neg_sub, mul_comm]

/-- The weights of the points are those of the interpolation at zero. -/
theorem sum_weight_mul_pow (hinjective : Set.InjOn point s) {k : ℕ} (hk : k < s.card) :
    ∑ i ∈ s, weight s point i * point i ^ k = 0 ^ k := by
  have hdegree : (Polynomial.X ^ k : Polynomial F).degree < s.card := by
    rw [Polynomial.degree_X_pow]
    exact_mod_cast hk
  have heval := congrArg (Polynomial.eval 0) (Lagrange.eq_interpolate hinjective hdegree)
  rw [Lagrange.interpolate_apply, Polynomial.eval_finsetSum, Polynomial.eval_pow,
    Polynomial.eval_X] at heval
  rw [heval]
  refine Finset.sum_congr rfl fun i _ => ?_
  rw [Polynomial.eval_mul, Polynomial.eval_C, Polynomial.eval_pow, Polynomial.eval_X, eval_basis_zero,
    mul_comm]

/-- **Values at enough points give the constant coefficient.** -/
theorem sum_weight_smul_evaluate (hinjective : Set.InjOn point s) {coefficients : List M}
    (hlength : coefficients.length ≤ s.card) :
    ∑ i ∈ s, weight s point i • evaluate coefficients (point i) = coefficients.headD 0 := by
  calc ∑ i ∈ s, weight s point i • evaluate coefficients (point i)
      = ∑ i ∈ s, ∑ k ∈ Finset.range coefficients.length,
          (weight s point i * point i ^ k) • coefficients.getD k 0 := by
        refine Finset.sum_congr rfl fun i _ => ?_
        rw [evaluate_eq_sum, Finset.smul_sum]
        exact Finset.sum_congr rfl fun k _ => smul_smul ..
    _ = ∑ k ∈ Finset.range coefficients.length, (0 : F) ^ k • coefficients.getD k 0 := by
        rw [Finset.sum_comm]
        refine Finset.sum_congr rfl fun k hk => ?_
        rw [← Finset.sum_smul,
          sum_weight_mul_pow hinjective (lt_of_lt_of_le (Finset.mem_range.mp hk) hlength)]
    _ = evaluate coefficients (0 : F) := (evaluate_eq_sum coefficients 0).symm
    _ = coefficients.headD 0 := by
        cases coefficients with
        | nil => rfl
        | cons c coefficients => rw [evaluate_cons, zero_smul, add_zero, List.headD_cons]

end Weight

end Safenet.Sharing
