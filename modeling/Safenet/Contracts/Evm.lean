/-
What the contracts take from the EVM and from Solidity: the environment of a call,
hashing, and checked arithmetic.

A call either returns a new state with the events it emitted, or reverts.  `transact`
turns it into a step of a machine: a reverted call leaves the state as it was.
-/
import Safenet.Basic
import Safenet.Lib.Bytes
import Safenet.Lib.Fallible

namespace Safenet.Contracts

/-- The hash function of the EVM. -/
abbrev Keccak := Bytes → B256

/-- The environment of a call. -/
structure Env where
  /-- `msg.sender`. -/
  sender : Address
  /-- `block.timestamp`. -/
  timestamp : Nat
  /-- `block.number`. -/
  number : Nat
  /-- `block.chainid`. -/
  chainId : B256
deriving DecidableEq, Repr

/-- A word holding a narrower unsigned value. -/
def toWord {n : Nat} (v : BitVec n) : B256 := BitVec.ofNat 256 v.toNat

theorem toWord_injective {n : Nat} (hn : n ≤ 256) {v w : BitVec n}
    (h : toWord v = toWord w) : v = w := by
  have hval := congrArg BitVec.toNat h
  have hpow : 2 ^ n ≤ 2 ^ 256 := Nat.pow_le_pow_right (by omega) hn
  have hv := v.isLt
  have hw := w.isLt
  rw [toWord, toWord, BitVec.toNat_ofNat, BitVec.toNat_ofNat, Nat.mod_eq_of_lt (by omega),
    Nat.mod_eq_of_lt (by omega)] at hval
  exact BitVec.eq_of_toNat_eq hval

/-- `a + b` on `bits` bits, with the error of an overflow. -/
def checkedAdd {ε : Type} (bits a b : Nat) (error : ε) : Except ε Nat :=
  if a + b < 2 ^ bits then .ok (a + b) else .error error

/-- `a - b`, with the error of an underflow. -/
def checkedSub {ε : Type} (a b : Nat) (error : ε) : Except ε Nat :=
  if b ≤ a then .ok (a - b) else .error error

/-- `a * b` on `bits` bits, with the error of an overflow. -/
def checkedMul {ε : Type} (bits a b : Nat) (error : ε) : Except ε Nat :=
  if a * b < 2 ^ bits then .ok (a * b) else .error error

/-- `a / b`, with the error of a division by zero. -/
def checkedDiv {ε : Type} (a b : Nat) (error : ε) : Except ε Nat :=
  if b ≠ 0 then .ok (a / b) else .error error

/-- `a % b`, with the error of a division by zero. -/
def checkedMod {ε : Type} (a b : Nat) (error : ε) : Except ε Nat :=
  if b ≠ 0 then .ok (a % b) else .error error

/-- `SafeCast`: a value that fits into `bits` bits. -/
def toUint {ε : Type} (bits a : Nat) (error : ε) : Except ε Nat :=
  if a < 2 ^ bits then .ok a else .error error

theorem checkedAdd_ok {ε : Type} {bits a b c : Nat} {error : ε} :
    checkedAdd bits a b error = .ok c ↔ a + b < 2 ^ bits ∧ a + b = c := by
  rw [checkedAdd, Fallible.ite_eq_ok, Except.ok.injEq]

theorem checkedSub_ok {ε : Type} {a b c : Nat} {error : ε} :
    checkedSub a b error = .ok c ↔ b ≤ a ∧ a - b = c := by
  rw [checkedSub, Fallible.ite_eq_ok, Except.ok.injEq]

theorem toUint_ok {ε : Type} {bits a b : Nat} {error : ε} :
    toUint bits a error = .ok b ↔ a < 2 ^ bits ∧ a = b := by
  rw [toUint, Fallible.ite_eq_ok, Except.ok.injEq]

section Avoids

open Fallible (Avoids avoids_ok avoids_error)

variable {ε : Type} {bad : ε → Prop} {bits a b : Nat} {error : ε}

theorem toUint_avoids (h : ¬ bad error) : Avoids bad (toUint bits a error) := by
  by_cases hfits : a < 2 ^ bits
  · rw [toUint, if_pos hfits]
    exact avoids_ok
  · rw [toUint, if_neg hfits]
    exact avoids_error h

end Avoids

theorem checkedMul_ok {ε : Type} {bits a b c : Nat} {error : ε} :
    checkedMul bits a b error = .ok c ↔ a * b < 2 ^ bits ∧ a * b = c := by
  rw [checkedMul, Fallible.ite_eq_ok, Except.ok.injEq]

theorem checkedMod_ok {ε : Type} {a b c : Nat} {error : ε} :
    checkedMod a b error = .ok c ↔ b ≠ 0 ∧ a % b = c := by
  rw [checkedMod, Fallible.ite_eq_ok, Except.ok.injEq]

/-- A call as a step: a revert undoes everything. -/
def transact {σ ε ο : Type} (state : σ) (result : Except ε (σ × ο)) : σ × Except ε ο :=
  match result with
  | .ok (state', out) => (state', .ok out)
  | .error error => (state, .error error)

/-- A call that returned. -/
theorem transact_ok {σ ε ο : Type} {state : σ} {result : Except ε (σ × ο)} {out : ο}
    (h : (transact state result).2 = .ok out) :
    result = .ok ((transact state result).1, out) := by
  cases result with
  | error e => cases h
  | ok r =>
      obtain ⟨state', out'⟩ := r
      cases h
      rfl

/-- A call that reverted. -/
theorem transact_error {σ ε ο : Type} {state : σ} {result : Except ε (σ × ο)} {e : ε}
    (h : (transact state result).2 = .error e) : (transact state result).1 = state := by
  cases result with
  | error e => rfl
  | ok r => cases h

end Safenet.Contracts
