/-
The fees of a submission: the cap, the bump, and the text they are stored as.
-/
import Safenet.Core.Submissions
import Mathlib.Order.Bounds.Basic
import Mathlib.Tactic.Ring
import Mathlib.Tactic.Linarith

namespace Safenet.Core.Tx

/-! ### Fees -/

/-- Both fees are `u128` values. -/
def Fees.IsU128 (fees : Fees) : Prop := fees.maxFeePerGas < 2 ^ 128 ∧ fees.maxPriorityFeePerGas < 2 ^ 128

/-- The priority fee is part of the total. -/
def Fees.IsOrdered (fees : Fees) : Prop := fees.maxPriorityFeePerGas ≤ fees.maxFeePerGas

/-- Each fee is at most the other one. -/
def Fees.Le (fees fees' : Fees) : Prop :=
  fees.maxFeePerGas ≤ fees'.maxFeePerGas ∧ fees.maxPriorityFeePerGas ≤ fees'.maxPriorityFeePerGas

/-- A tenth above a fee, rounded up, or the largest fee there is. -/
def replacementFloor (previous : Nat) : Nat := min (divCeil (previous * 11) 10) (2 ^ 128 - 1)

/-- The fees are high enough to replace a submission. -/
def Fees.Replaces (fees previous : Fees) : Prop :=
  replacementFloor previous.maxFeePerGas ≤ fees.maxFeePerGas ∧
    replacementFloor previous.maxPriorityFeePerGas ≤ fees.maxPriorityFeePerGas

theorem bumpFee_eq (fresh previous : Nat) : bumpFee fresh previous = max fresh (replacementFloor previous) := by
  unfold bumpFee replacementFloor saturatingAdd128 divCeil
  omega

theorem le_replacementFloor {previous : Nat} (h : previous < 2 ^ 128) : previous ≤ replacementFloor previous := by
  unfold replacementFloor divCeil
  omega

theorem replacementFloor_mono {previous previous' : Nat} (h : previous ≤ previous') :
    replacementFloor previous ≤ replacementFloor previous' := by
  unfold replacementFloor divCeil
  omega

theorem replacementFloor_lt (previous : Nat) : replacementFloor previous < 2 ^ 128 := by
  unfold replacementFloor
  omega

theorem Fees.Replaces.le {fees previous : Fees} (h : fees.Replaces previous) (hprevious : previous.IsU128) :
    previous.Le fees :=
  ⟨(le_replacementFloor hprevious.1).trans h.1, (le_replacementFloor hprevious.2).trans h.2⟩

/-- A bump is not below the estimate. -/
theorem le_bump (fresh : Fees) (previous : Option Fees) : fresh.Le (bump fresh previous) := by
  cases previous with
  | none => exact ⟨Nat.le_refl _, Nat.le_refl _⟩
  | some previous => exact ⟨Nat.le_max_left _ _, Nat.le_max_left _ _⟩

/-- A bump replaces the previous submission. -/
theorem bump_replaces (fresh previous : Fees) : (bump fresh (some previous)).Replaces previous := by
  unfold Fees.Replaces bump
  dsimp only
  rw [bumpFee_eq, bumpFee_eq]
  exact ⟨Nat.le_max_right _ _, Nat.le_max_right _ _⟩

theorem bump_isU128 {fresh : Fees} (hfresh : fresh.IsU128) (previous : Option Fees) :
    (bump fresh previous).IsU128 := by
  cases previous with
  | none => exact hfresh
  | some previous =>
      unfold Fees.IsU128 bump
      dsimp only
      rw [bumpFee_eq, bumpFee_eq]
      exact ⟨max_lt hfresh.1 (replacementFloor_lt _), max_lt hfresh.2 (replacementFloor_lt _)⟩

theorem bump_isOrdered {fresh : Fees} {previous : Option Fees} (hfresh : fresh.IsOrdered)
    (hprevious : ∀ fees, previous = some fees → fees.IsOrdered) : (bump fresh previous).IsOrdered := by
  cases previous with
  | none => exact hfresh
  | some previous =>
      unfold Fees.IsOrdered bump
      dsimp only
      rw [bumpFee_eq, bumpFee_eq]
      exact max_le_max hfresh (replacementFloor_mono (hprevious previous rfl))

/-! ### The cap -/

/-- The part of the fees that is not the priority fee. -/
def Fees.base (fees : Fees) : Nat := fees.maxFeePerGas - fees.maxPriorityFeePerGas

/-- The largest priority fee that is within the cap. -/
theorem le_capped_iff {base scaled priority : Nat} (hscaled : scaled < 1000000) :
    priority ≤ base * scaled / (1000000 - scaled) ↔ priority * (1000000 - scaled) ≤ base * scaled :=
  Nat.le_div_iff_mul_le (by omega)

/-- The priority fees that a cap allows. -/
def withinCap (fees : Fees) (scaled : Nat) : Set Nat :=
  { priority | priority ≤ fees.maxPriorityFeePerGas ∧
    (priority : Int) * (1000000 - scaled) ≤ fees.base * scaled }

/-- **The cap leaves the base fee as it is, and lowers the priority fee no more than it has to.** -/
theorem capPriorityFee_exact {fees : Fees} {scaled : Nat} (hfees : fees.IsU128)
    (hproduct : fees.base * scaled < 2 ^ 128) :
    (capPriorityFee fees scaled).base = fees.base ∧
      IsGreatest (withinCap fees scaled) (capPriorityFee fees scaled).maxPriorityFeePerGas ∧
      fees.base + (capPriorityFee fees scaled).maxPriorityFeePerGas < 2 ^ 128 ∧
      saturatingMul128 fees.base scaled = fees.base * scaled := by
  have hsaturating : saturatingMul128 fees.base scaled = fees.base * scaled := by
    unfold saturatingMul128
    omega
  obtain ⟨hmax, hpriority⟩ := hfees
  by_cases hscaled : 1000000 ≤ scaled
  · have hsame : capPriorityFee fees scaled = fees := if_pos hscaled
    rw [hsame]
    refine ⟨rfl, ⟨⟨Nat.le_refl _, ?_⟩, fun priority hwithin => hwithin.1⟩, ?_, hsaturating⟩
    · have hnegative : (1000000 - scaled : Int) ≤ 0 := by omega
      calc (fees.maxPriorityFeePerGas : Int) * (1000000 - scaled) ≤ 0 :=
            mul_nonpos_of_nonneg_of_nonpos (Int.natCast_nonneg _) hnegative
        _ ≤ fees.base * scaled := by positivity
    · unfold Fees.base
      omega
  · have hlt : scaled < 1000000 := Nat.lt_of_not_le hscaled
    have hcapped : capPriorityFee fees scaled =
        ⟨fees.base + min fees.maxPriorityFeePerGas (fees.base * scaled / (1000000 - scaled)),
          min fees.maxPriorityFeePerGas (fees.base * scaled / (1000000 - scaled))⟩ := by
      rw [← hsaturating]
      exact if_neg hscaled
    have hcast : ∀ priority : Nat, (priority : Int) * (1000000 - scaled) ≤ fees.base * scaled ↔
        priority * (1000000 - scaled) ≤ fees.base * scaled := by
      intro priority
      have hsub : ((1000000 - scaled : Nat) : Int) = 1000000 - scaled := by omega
      rw [← hsub]
      exact_mod_cast Iff.rfl
    rw [hcapped]
    refine ⟨Nat.add_sub_cancel _ _, ⟨⟨Nat.min_le_left _ _, ?_⟩, fun priority hwithin => ?_⟩, ?_, hsaturating⟩
    · exact (hcast _).mpr ((le_capped_iff hlt).mp (Nat.min_le_right _ _))
    · exact Nat.le_min.mpr ⟨hwithin.1, (le_capped_iff hlt).mpr ((hcast priority).mp hwithin.2)⟩
    · -- where the priority fee is above the total, there is no base fee and nothing is allowed
      dsimp only
      have hmin : min fees.maxPriorityFeePerGas (fees.base * scaled / (1000000 - scaled)) ≤
          fees.maxPriorityFeePerGas := Nat.min_le_left _ _
      unfold Fees.base at *
      omega

theorem capPriorityFee_isU128 {fees : Fees} (hfees : fees.IsU128) (scaled : Nat) :
    (capPriorityFee fees scaled).IsU128 := by
  obtain ⟨hmax, hpriority⟩ := hfees
  unfold capPriorityFee Fees.IsU128
  split
  · exact ⟨hmax, hpriority⟩
  · dsimp only
    generalize saturatingMul128 _ scaled / _ = capped
    omega

theorem capPriorityFee_isOrdered {fees : Fees} (hfees : fees.IsOrdered) (scaled : Nat) :
    (capPriorityFee fees scaled).IsOrdered := by
  unfold capPriorityFee Fees.IsOrdered
  split
  · exact hfees
  · exact Nat.le_add_left _ _

/-! ### Stored fees -/

/-- What the digits of a QUANTITY say. -/
def hexValue (digits : List Nat) : Nat := digits.foldl (16 * · + ·) 0

/-- A QUANTITY without leading zeros is read as what its digits say. -/
def ReadsQuantity (parse : String → Option Nat) : Prop :=
  ∀ digits : List Nat, digits ≠ [] → (∀ digit ∈ digits, digit < 16) →
    (digits.head? = some 0 → digits = [0]) → hexValue digits < 2 ^ 128 →
      parse ("0x" ++ String.ofList (digits.map Nat.digitChar)) = some (hexValue digits)

theorem hexValue_concat (digits : List Nat) (digit : Nat) :
    hexValue (digits ++ [digit]) = 16 * hexValue digits + digit := by
  unfold hexValue
  rw [List.foldl_append]
  rfl

/-- The digits of a number, and what they say. -/
theorem exists_digits (n : Nat) : ∃ digits : List Nat, Nat.toDigits 16 n = digits.map Nat.digitChar ∧
    digits ≠ [] ∧ (∀ digit ∈ digits, digit < 16) ∧ (digits.head? = some 0 → digits = [0]) ∧
      hexValue digits = n := by
  induction n using Nat.strongRecOn with
  | ind n ih =>
      by_cases hsmall : n < 16
      · refine ⟨[n], Nat.toDigits_of_lt_base hsmall, List.cons_ne_nil _ _, by simpa using hsmall, ?_, ?_⟩
        · intro hzero
          rw [Option.some.inj hzero]
        · show 16 * 0 + n = n
          omega
      · obtain ⟨digits, hdigits, hne, hlt, hhead, hvalue⟩ := ih (n / 16) (by omega)
        refine ⟨digits ++ [n % 16], ?_, by simp, ?_, ?_, ?_⟩
        · rw [Nat.toDigits_of_base_le (by decide) (by omega), hdigits, List.map_append]
          rfl
        · intro digit hdigit
          rcases List.mem_append.mp hdigit with hold | hlast
          · exact hlt digit hold
          · rw [List.mem_singleton.mp hlast]
            exact Nat.mod_lt _ (by decide)
        · intro hzero
          rw [List.head?_append_of_ne_nil _ hne] at hzero
          have hnil := hhead hzero
          rw [hnil] at hvalue
          change 0 = n / 16 at hvalue
          omega
        · rw [hexValue_concat, hvalue]
          omega

/-- **A fee is read as it was written.** -/
theorem parse_quantity {parse : String → Option Nat} (hparse : ReadsQuantity parse) {n : Nat}
    (h : n < 2 ^ 128) : parse (quantity n) = some n := by
  obtain ⟨digits, hdigits, hne, hlt, hhead, hvalue⟩ := exists_digits n
  rw [quantity, hdigits, hparse digits hne hlt hhead (by rwa [hvalue]), hvalue]

/-- The fees of the last submission of a request. -/
def Request.fees (request : Request) : Option Fees := do
  return { maxFeePerGas := ← request.maxFeePerGas
           maxPriorityFeePerGas := ← request.maxPriorityFeePerGas }

/-- The request was never submitted, or with fees of some kind. -/
def Request.Holds (Q : Fees → Prop) (request : Request) : Prop :=
  request.maxFeePerGas = none ∧ request.maxPriorityFeePerGas = none ∨
    ∃ fees, Q fees ∧ request.maxFeePerGas = some fees.maxFeePerGas ∧
      request.maxPriorityFeePerGas = some fees.maxPriorityFeePerGas

theorem Request.Holds.fees {Q : Fees → Prop} {request : Request} (h : request.Holds Q) {fees : Fees}
    (hfees : request.fees = some fees) : Q fees := by
  unfold Request.fees at hfees
  rcases h with ⟨hnone, -⟩ | ⟨fees', hQ, hmax, hpriority⟩
  · rw [hnone] at hfees
    cases hfees
  · rw [hmax, hpriority] at hfees
    cases hfees
    exact hQ

/-- **A request is loaded as it was stored.** -/
theorem load_store {parse : String → Option Nat} (hparse : ReadsQuantity parse) {request : Request}
    (h : request.Holds Fees.IsU128) : request.store.load parse = some request := by
  obtain ⟨transaction, maxFeePerGas, maxPriorityFeePerGas⟩ := request
  rcases h with ⟨hmax, hpriority⟩ | ⟨fees, hfees, hmax, hpriority⟩
  · cases hmax
    cases hpriority
    rfl
  · cases hmax
    cases hpriority
    show (do
      let maxFeePerGas ← (parse (quantity fees.maxFeePerGas)).map some
      let maxPriorityFeePerGas ← (parse (quantity fees.maxPriorityFeePerGas)).map some
      return Request.mk transaction maxFeePerGas maxPriorityFeePerGas) = _
    rw [parse_quantity hparse hfees.1, parse_quantity hparse hfees.2]
    rfl

end Safenet.Core.Tx
