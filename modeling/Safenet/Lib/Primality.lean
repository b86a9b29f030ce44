/-
Primality by certificates that a computation checks.

A certificate names an element whose order is the predecessor of the claimed prime, and the prime
factors of that predecessor, which earlier certificates vouch for.  `lucas_primality` is the reason
why it suffices; powers are taken by repeated squaring.
-/
import Mathlib.Algebra.BigOperators.Associated
import Mathlib.NumberTheory.LucasPrimality

namespace Safenet.Primality

/-- `base ^ exponent % m` by repeated squaring, for exponents of at most `fuel` bits. -/
def powMod (fuel base exponent m : ℕ) : ℕ :=
  match fuel with
  | 0 => 1 % m
  | fuel + 1 =>
      if exponent = 0 then 1 % m
      else
        let half := powMod fuel (base * base % m) (exponent / 2) m
        if exponent % 2 = 1 then base * half % m else half

theorem powMod_eq (fuel : ℕ) : ∀ {base exponent m : ℕ}, exponent < 2 ^ fuel →
    powMod fuel base exponent m = base ^ exponent % m := by
  induction fuel with
  | zero =>
      intro base exponent m h
      rw [pow_zero, Nat.lt_one_iff] at h
      rw [h, pow_zero, powMod]
  | succ fuel ih =>
      intro base exponent m h
      have hhalf : powMod fuel (base * base % m) (exponent / 2) m = base ^ (2 * (exponent / 2)) % m := by
        rw [ih (by omega), ← Nat.pow_mod, ← pow_two, ← pow_mul]
      simp only [powMod]
      rw [hhalf]
      split
      · next hzero => rw [hzero, pow_zero]
      · split
        · rw [Nat.mul_mod, Nat.mod_mod, ← Nat.mul_mod, ← pow_succ']
          congr 2
          omega
        · congr 2
          omega

theorem pow_eq_one_iff {fuel base exponent m : ℕ} (hm : 1 < m) (h : exponent < 2 ^ fuel) :
    (base : ZMod m) ^ exponent = 1 ↔ powMod fuel base exponent m = 1 := by
  rw [powMod_eq fuel h, ← Nat.cast_pow, ← Nat.cast_one, ZMod.natCast_eq_natCast_iff',
    Nat.mod_eq_of_lt hm]

/-- A number with an element whose order is its predecessor is prime. -/
theorem prime_of_factors {p : ℕ} (a : ZMod p) (factors : List ℕ) (hprime : ∀ q ∈ factors, q.Prime)
    (hprod : factors.prod = p - 1) (hone : a ^ (p - 1) = 1)
    (hne : ∀ q ∈ factors, a ^ ((p - 1) / q) ≠ 1) : p.Prime := by
  refine lucas_primality p a hone fun q hq hdvd => ?_
  rw [← hprod] at hdvd
  obtain ⟨r, hr, hqr⟩ := (Prime.dvd_prod_iff hq.prime).mp hdvd
  have heq : q = r := (Nat.prime_dvd_prime_iff_eq hq (hprime r hr)).mp hqr
  rw [heq]
  exact hne r hr

structure Certificate where
  /-- The claimed prime. -/
  p : ℕ
  root : ℕ
  /-- The prime factors of `p - 1`. -/
  factors : List ℕ

/-- The certificate is right if the numbers `known` are prime. -/
def Certificate.check (bits : ℕ) (known : List ℕ) (c : Certificate) : Bool :=
  1 < c.p && c.p < 2 ^ bits && c.factors.all (known.contains ·) && c.factors.prod = c.p - 1 &&
    powMod bits c.root (c.p - 1) c.p = 1 &&
    c.factors.all fun q => powMod bits c.root ((c.p - 1) / q) c.p ≠ 1

/-- Every certificate is right if the ones before it are. -/
def checkAll (bits : ℕ) (known : List ℕ) : List Certificate → Bool
  | [] => true
  | c :: rest => c.check bits known && checkAll bits (c.p :: known) rest

theorem Certificate.prime {bits : ℕ} {known : List ℕ} {c : Certificate}
    (hknown : ∀ q ∈ known, q.Prime) (h : c.check bits known = true) : c.p.Prime := by
  simp only [check, Bool.and_eq_true, decide_eq_true_eq, List.all_eq_true, List.contains_iff_mem] at h
  obtain ⟨⟨⟨⟨⟨hlt, hbits⟩, hfactors⟩, hprod⟩, hone⟩, hne⟩ := h
  have hpow : ∀ n ≤ c.p - 1, (c.root : ZMod c.p) ^ n = 1 ↔ powMod bits c.root n c.p = 1 := by
    intro n hn
    exact pow_eq_one_iff hlt (by omega)
  refine prime_of_factors (c.root : ZMod c.p) c.factors (fun q hq => hknown q (hfactors q hq)) hprod
    ((hpow _ le_rfl).mpr hone) fun q hq heq => ?_
  exact hne q hq ((hpow _ (Nat.div_le_self _ _)).mp heq)

/-- **What the certificates claim is prime.** -/
theorem prime_of_checkAll {bits : ℕ} (certificates : List Certificate) : ∀ {known : List ℕ},
    (∀ q ∈ known, q.Prime) → checkAll bits known certificates = true →
      ∀ c ∈ certificates, c.p.Prime := by
  induction certificates with
  | nil =>
      intro known _ _ c hc
      cases hc
  | cons c rest ih =>
      intro known hknown h
      rw [checkAll, Bool.and_eq_true] at h
      have hprime := Certificate.prime hknown h.1
      have hrest := ih (List.forall_mem_cons.mpr ⟨hprime, hknown⟩) h.2
      exact List.forall_mem_cons.mpr ⟨hprime, hrest⟩

end Safenet.Primality
