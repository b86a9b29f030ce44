/-
`contracts/src/Safenet7702Executor.sol`: the calls of a batch, one after the other.

What a call costs and whether it succeeds is decided by the EVM, and is an input here (`Outcome`), as is the
gas that is left when the loop begins.
-/
import Safenet.Contracts.Evm
import Safenet.Core.Bundle

namespace Safenet.Contracts.Safenet7702Executor

open Fallible (require)
open Core.Tx (Call)

/-- Why a batch reverted. -/
inductive Error where
  | onlySelf
  | insufficientGas (index : Nat)
  /-- An overflow in checked arithmetic. -/
  | arithmetic
  | outOfGas
deriving DecidableEq, Repr

/-- What a batch does. -/
inductive Effect where
  | called (call : Call)
  | callFailed (index : Nat) (result : Bytes)
deriving DecidableEq, Repr

/-- What happens between the check of a call and the next check. -/
structure Outcome where
  /-- The gas of the call and of the code around it. -/
  spent : Nat
  success : Bool
  result : Bytes
deriving DecidableEq, Repr

/-- `gasleft() * 63 / 64 >= call.gasLimit`. -/
def checkGas (index gasleft : Nat) (gasLimit : B256) : Except Error PUnit := do
  let product ← checkedMul 256 gasleft 63 .arithmetic
  require (gasLimit.toNat ≤ product / 64) (.insufficientGas index)

/-- The loop, from a call on. -/
def executeFrom (outcome : Nat → Outcome) : Nat → Nat → List Call → Except Error (List Effect)
  | _, _, [] => return []
  | index, gasleft, call :: calls => do
      checkGas index gasleft call.gasLimit
      let gasleft ← checkedSub gasleft (outcome index).spent .outOfGas
      let effects ← executeFrom outcome (index + 1) gasleft calls
      let failed := if (outcome index).success then [] else [.callFailed index (outcome index).result]
      return .called call :: failed ++ effects

def execute (sender self : Address) (outcome : Nat → Outcome) (gasleft : Nat) (calls : List Call) :
    Except Error (List Effect) := do
  require (sender = self) .onlySelf
  executeFrom outcome 0 gasleft calls

end Safenet.Contracts.Safenet7702Executor
