/-
Sums over a finite set of accounts.

A ledger is a function from accounts to amounts.  Its total moves by exactly what one
account was credited or debited.
-/
import Mathlib.Algebra.BigOperators.Group.Finset.Basic
import Mathlib.Algebra.Order.BigOperators.Group.Finset
import Mathlib.Data.Fintype.BigOperators

universe u

namespace Ledger

open Finset

variable {α : Type u} [DecidableEq α]

/-- Adds to one account. -/
def credit (ledger : α → Nat) (a : α) (amount : Nat) : α → Nat :=
  Function.update ledger a (ledger a + amount)

/-- Takes from one account. -/
def debit (ledger : α → Nat) (a : α) (amount : Nat) : α → Nat :=
  Function.update ledger a (ledger a - amount)

@[simp] theorem credit_self (ledger : α → Nat) (a : α) (amount : Nat) :
    credit ledger a amount a = ledger a + amount := Function.update_self ..

@[simp] theorem debit_self (ledger : α → Nat) (a : α) (amount : Nat) :
    debit ledger a amount a = ledger a - amount := Function.update_self ..

theorem credit_of_ne {ledger : α → Nat} {a b : α} {amount : Nat} (h : b ≠ a) :
    credit ledger a amount b = ledger b := Function.update_of_ne h ..

theorem debit_of_ne {ledger : α → Nat} {a b : α} {amount : Nat} (h : b ≠ a) :
    debit ledger a amount b = ledger b := Function.update_of_ne h ..

variable [Fintype α]

/-- Replacing the amount of one account. -/
theorem sum_update (ledger : α → Nat) (a : α) (v : Nat) :
    ∑ x, Function.update ledger a v x + ledger a = ∑ x, ledger x + v := by
  rw [Finset.sum_update_of_mem (mem_univ a), ← Finset.add_sum_erase univ ledger (mem_univ a),
    ← Finset.sdiff_singleton_eq_erase]
  omega

/-- Replacing the entry of one account in what a ledger is computed from. -/
theorem sum_map_update {γ : Type*} (f : γ → Nat) (entries : α → γ) (a : α) (entry : γ) :
    ∑ x, f (Function.update entries a entry x) + f (entries a) = ∑ x, f (entries x) + f entry := by
  have hupdate : (fun x => f (Function.update entries a entry x)) =
      Function.update (fun x => f (entries x)) a (f entry) := by
    funext x
    by_cases hx : x = a
    · rw [hx, Function.update_self, Function.update_self]
    · rw [Function.update_of_ne hx, Function.update_of_ne hx]
  have h := sum_update (fun x => f (entries x)) a (f entry)
  rw [← hupdate] at h
  exact h

theorem sum_credit (ledger : α → Nat) (a : α) (amount : Nat) :
    ∑ x, credit ledger a amount x = ∑ x, ledger x + amount := by
  have h := sum_update ledger a (ledger a + amount)
  unfold credit
  omega

theorem sum_debit {ledger : α → Nat} {a : α} {amount : Nat} (hle : amount ≤ ledger a) :
    ∑ x, debit ledger a amount x + amount = ∑ x, ledger x := by
  have h := sum_update ledger a (ledger a - amount)
  unfold debit
  omega

/-! ### Ledgers of pairs -/

universe v

variable {β : Type v} [DecidableEq β] [Fintype β]

/-- The amounts of pairs of accounts, with the totals of the rows, of the columns and of
everything. -/
structure Balanced (ledger : α → β → Nat) (rows : α → Nat) (columns : β → Nat) (total : Nat) :
    Prop where
  row : ∀ a, ∑ b, ledger a b = rows a
  column : ∀ b, ∑ a, ledger a b = columns b
  all : ∑ a, ∑ b, ledger a b = total

variable {ledger : α → β → Nat} {rows : α → Nat} {columns : β → Nat} {total : Nat}

omit [DecidableEq α] [DecidableEq β] in
theorem Balanced.sum_rows (h : Balanced ledger rows columns total) : ∑ a, rows a = total := by
  rw [← h.all]
  exact Finset.sum_congr rfl fun a _ => (h.row a).symm

theorem Balanced.credit (h : Balanced ledger rows columns total) (a : α) (b : β) (amount : Nat) :
    Balanced (Function.update ledger a (credit (ledger a) b amount)) (credit rows a amount)
      (Ledger.credit columns b amount) (total + amount) := by
  have hrow : ∀ x, ∑ y, Function.update ledger a (Ledger.credit (ledger a) b amount) x y =
      Ledger.credit rows a amount x := by
    intro x
    by_cases hx : x = a
    · subst hx
      rw [Function.update_self, sum_credit, h.row, credit_self]
    · rw [Function.update_of_ne hx, h.row, credit_of_ne hx]
  refine ⟨hrow, ?_, ?_⟩
  · intro y
    have hsum := sum_map_update (fun row : β → Nat => row y) ledger a
      (Ledger.credit (ledger a) b amount)
    rw [h.column] at hsum
    by_cases hy : y = b
    · subst hy
      rw [credit_self] at hsum ⊢
      omega
    · rw [credit_of_ne hy] at hsum ⊢
      omega
  · rw [Finset.sum_congr rfl fun x _ => hrow x, sum_credit, h.sum_rows]

theorem Balanced.debit (h : Balanced ledger rows columns total) {a : α} {b : β} {amount : Nat}
    (hle : amount ≤ ledger a b) :
    Balanced (Function.update ledger a (debit (ledger a) b amount)) (debit rows a amount)
      (Ledger.debit columns b amount) (total - amount) := by
  have hrow : ∀ x, ∑ y, Function.update ledger a (Ledger.debit (ledger a) b amount) x y =
      Ledger.debit rows a amount x := by
    intro x
    by_cases hx : x = a
    · subst hx
      have hsum := sum_debit hle
      rw [h.row] at hsum
      rw [Function.update_self, debit_self]
      omega
    · rw [Function.update_of_ne hx, h.row, debit_of_ne hx]
  have hrows : amount ≤ rows a := by
    rw [← h.row]
    exact hle.trans (Finset.single_le_sum (fun _ _ => Nat.zero_le _) (mem_univ b))
  refine ⟨hrow, ?_, ?_⟩
  · intro y
    have hsum := sum_map_update (fun row : β → Nat => row y) ledger a
      (Ledger.debit (ledger a) b amount)
    rw [h.column] at hsum
    by_cases hy : y = b
    · subst hy
      rw [debit_self] at hsum ⊢
      omega
    · rw [debit_of_ne hy] at hsum ⊢
      omega
  · have hsum := sum_debit hrows
    rw [h.sum_rows] at hsum
    rw [Finset.sum_congr rfl fun x _ => hrow x, ← hsum, Nat.add_sub_cancel]

end Ledger
