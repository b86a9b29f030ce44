/-
A standard ERC20 token, as the contracts use one through `IERC20` and `SafeERC20`.

There are no hooks, fees or rebasing: a call moves exactly the amount it names.  All
balances together are the total supply, a `uint256`, so that no credit overflows.
-/
import Safenet.Contracts.Evm
import Safenet.Lib.Ledger

namespace Safenet.Contracts.ERC20

open Fallible (require)

structure T where
  balances : Address → Nat
  /-- What an owner allows a spender to move. -/
  allowances : Address → Address → Nat

/-- Why a token call reverted. -/
inductive Error where
  | invalidSender
  | invalidReceiver
  | invalidApprover
  | invalidSpender
  | insufficientBalance
  | insufficientAllowance
deriving DecidableEq, Repr

def balanceOf (self : T) (account : Address) : Nat := self.balances account

/-- Moves tokens. -/
def move (self : T) (source recipient : Address) (value : Nat) : Except Error T := do
  require (source ≠ 0) .invalidSender
  require (recipient ≠ 0) .invalidReceiver
  require (value ≤ self.balances source) .insufficientBalance
  return { self with
    balances := Ledger.credit (Ledger.debit self.balances source value) recipient value }

/-- Takes from the allowance of a spender, unless it is unlimited. -/
def spendAllowance (self : T) (owner spender : Address) (value : Nat) : Except Error T := do
  let current := self.allowances owner spender
  if current = 2 ^ 256 - 1 then
    return self
  else do
    require (value ≤ current) .insufficientAllowance
    return { self with
      allowances := Function.update self.allowances owner
        (Function.update (self.allowances owner) spender (current - value)) }

def transfer (self : T) (sender recipient : Address) (value : Nat) : Except Error T :=
  move self sender recipient value

def transferFrom (self : T) (sender source recipient : Address) (value : Nat) :
    Except Error T := do
  let self ← spendAllowance self source sender value
  move self source recipient value

def approve (self : T) (sender spender : Address) (value : Nat) : Except Error T := do
  require (sender ≠ 0) .invalidApprover
  require (spender ≠ 0) .invalidSpender
  return { self with
    allowances := Function.update self.allowances sender
      (Function.update (self.allowances sender) spender value) }

/-- The calls anybody can make to the token. -/
inductive Call where
  | transfer (recipient : Address) (value : Nat)
  | transferFrom (source recipient : Address) (value : Nat)
  | approve (spender : Address) (value : Nat)
deriving DecidableEq, Repr

def call (self : T) (sender : Address) : Call → Except Error T
  | .transfer recipient value => transfer self sender recipient value
  | .transferFrom source recipient value => transferFrom self sender source recipient value
  | .approve spender value => approve self sender spender value

/-! ### What a call moves -/

variable {self self' : T} {sender source recipient owner spender account : Address} {value : Nat}

open Fallible (bind_eq_ok pure_eq_ok require_eq_ok)

/-- A move takes from one account what it gives to the other. -/
theorem move_ok (h : move self source recipient value = .ok self') :
    (∀ a, self'.balances a + (if a = source then value else 0) =
      self.balances a + (if a = recipient then value else 0)) ∧
    self'.allowances = self.allowances := by
  unfold move at h
  obtain ⟨_, -, h⟩ := bind_eq_ok.mp h
  obtain ⟨_, -, h⟩ := bind_eq_ok.mp h
  obtain ⟨_, hle, h⟩ := bind_eq_ok.mp h
  rw [require_eq_ok, decide_eq_true_eq] at hle
  have heq := pure_eq_ok.mp h
  subst heq
  refine ⟨fun a => ?_, rfl⟩
  dsimp only [Ledger.credit, Ledger.debit]
  by_cases hr : a = recipient
  · subst hr
    by_cases hs : a = source
    · subst hs
      simp only [Function.update_self, if_true]
      omega
    · simp [hs]
  · by_cases hs : a = source
    · subst hs
      rw [Function.update_of_ne hr, Function.update_self, if_pos rfl, if_neg hr]
      omega
    · simp [hr, hs]

/-- Spending needs an allowance, and leaves those of other owners alone. -/
theorem spendAllowance_ok (h : spendAllowance self owner spender value = .ok self') :
    self'.balances = self.balances ∧
      (self.allowances owner spender = 0 → value = 0 ∧ self'.allowances = self.allowances) ∧
      ∀ a, a ≠ owner → self'.allowances a = self.allowances a := by
  unfold spendAllowance at h
  dsimp only at h
  by_cases hmax : self.allowances owner spender = 2 ^ 256 - 1
  · rw [if_pos hmax] at h
    have heq := pure_eq_ok.mp h
    subst heq
    refine ⟨rfl, fun h0 => ?_, fun a _ => rfl⟩
    rw [h0] at hmax
    omega
  · rw [if_neg hmax] at h
    obtain ⟨_, hle, h⟩ := bind_eq_ok.mp h
    rw [require_eq_ok, decide_eq_true_eq] at hle
    have heq := pure_eq_ok.mp h
    subst heq
    refine ⟨rfl, fun h0 => ⟨by omega, ?_⟩, fun a ha => Function.update_of_ne ha ..⟩
    have hsame : self.allowances owner spender - value = self.allowances owner spender := by omega
    dsimp only
    rw [hsame, Function.update_eq_self, Function.update_eq_self]

/-- A transfer on behalf of the source. -/
theorem transferFrom_ok (h : transferFrom self sender source recipient value = .ok self') :
    (∀ a, self'.balances a + (if a = source then value else 0) =
      self.balances a + (if a = recipient then value else 0)) ∧
    (self.allowances source sender = 0 → value = 0 ∧ self'.allowances = self.allowances) ∧
    ∀ a, a ≠ source → self'.allowances a = self.allowances a := by
  unfold transferFrom at h
  obtain ⟨self₁, hspend, hmove⟩ := bind_eq_ok.mp h
  obtain ⟨hbalances, hzero, hother⟩ := spendAllowance_ok hspend
  obtain ⟨hmoved, hallowances⟩ := move_ok hmove
  rw [hbalances] at hmoved
  rw [hallowances]
  exact ⟨hmoved, hzero, hother⟩

/-- Nobody takes from an account that allows nobody to spend. -/
theorem call_guarded {c : Call} (h : call self sender c = .ok self') (hsender : sender ≠ account)
    (hnone : ∀ spender, self.allowances account spender = 0) :
    self.balances account ≤ self'.balances account ∧
      ∀ spender, self'.allowances account spender = 0 := by
  cases c with
  | transfer recipient value =>
      obtain ⟨hmoved, hallowances⟩ := move_ok h
      refine ⟨?_, fun spender => by rw [hallowances]; exact hnone spender⟩
      have hmoved := hmoved account
      rw [if_neg (Ne.symm hsender)] at hmoved
      omega
  | transferFrom source recipient value =>
      obtain ⟨hmoved, hzero, hother⟩ := transferFrom_ok h
      have hmoved := hmoved account
      by_cases hsource : account = source
      · subst hsource
        obtain ⟨hvalue, hallowances⟩ := hzero (hnone sender)
        refine ⟨?_, fun spender => by rw [hallowances]; exact hnone spender⟩
        rw [hvalue, if_pos rfl] at hmoved
        omega
      · refine ⟨?_, fun spender => by rw [hother account hsource]; exact hnone spender⟩
        rw [if_neg hsource] at hmoved
        omega
  | approve spender value =>
      change approve self sender spender value = .ok self' at h
      unfold approve at h
      obtain ⟨_, -, h⟩ := bind_eq_ok.mp h
      obtain ⟨_, -, h⟩ := bind_eq_ok.mp h
      have heq := pure_eq_ok.mp h
      subst heq
      refine ⟨Nat.le_refl _, fun s => ?_⟩
      dsimp only
      rw [Function.update_of_ne (Ne.symm hsender)]
      exact hnone s

end Safenet.Contracts.ERC20
