/-
Proposals and what a check vouches for, of `sentinel-engine/src/engine/proposal.rs` and
`sentinel-engine/src/engine/coverage.rs`.

A set of aspects is four flags.  The claims of two checks are combined call by call, and in a release
build nothing asserts that they are about equally many calls: `zip` stops at the shorter one.
-/
import Safenet.SentinelEngine.Calldata

namespace Safenet.SentinelEngine

open Contracts (Operation SafeTransaction.T)

/-! ### Aspects -/

/-- The parts of a call that a check can vouch for. -/
structure AspectSet where
  destination : Bool
  value : Bool
  data : Bool
  operation : Bool
deriving DecidableEq, Repr

namespace AspectSet

def empty : AspectSet := ⟨false, false, false, false⟩
def all : AspectSet := ⟨true, true, true, true⟩
def DESTINATION : AspectSet := ⟨true, false, false, false⟩
def VALUE : AspectSet := ⟨false, true, false, false⟩
def DATA : AspectSet := ⟨false, false, true, false⟩
def OPERATION : AspectSet := ⟨false, false, false, true⟩

def union (a b : AspectSet) : AspectSet :=
  ⟨a.destination || b.destination, a.value || b.value, a.data || b.data, a.operation || b.operation⟩

def difference (a b : AspectSet) : AspectSet :=
  ⟨a.destination && !b.destination, a.value && !b.value, a.data && !b.data, a.operation && !b.operation⟩

/-- Whether every aspect of the second set is in the first. -/
def contains (a b : AspectSet) : Bool :=
  (!b.destination || a.destination) && (!b.value || a.value) && (!b.data || a.data) &&
    (!b.operation || a.operation)

/-- The aspects that need a voucher: the value if the call sends any, and the calldata if there is some. -/
def requiredFor (call : MetaTransaction) : AspectSet :=
  let required := all
  let required :=
    if call.value = 0 ∨ call.operation = .delegateCall then required.difference VALUE else required
  if call.data = [] then required.difference DATA else required

end AspectSet

/-! ### Proposals -/

/-- A transaction and the calls it makes. -/
structure Proposal where
  transaction : SafeTransaction.T
  calls : List MetaTransaction
deriving DecidableEq, Repr

def MAX_BATCH_DEPTH : Nat := 4

/-- Why a transaction cannot be parsed. -/
structure ParseError where
  why : String
deriving DecidableEq, Repr

/-- Replaces a batch by its calls, in the order of their execution. -/
def flatten (abi : Abi) (safe : Address) (depthRemaining : Nat) (call : MetaTransaction) :
    Except ParseError (List MetaTransaction) :=
  match decodeMultiSendCall abi safe call with
  | none => .ok [call]
  | some (subCalls, allowsDelegateCalls) =>
      match depthRemaining with
      | 0 => .error ⟨"multisend batch nested deeper than the maximum recursion depth"⟩
      | depthRemaining + 1 => do
          let parts ← subCalls.mapM fun subCall =>
            -- such an entry reverts onchain, so it is not a batch of its own
            if subCall.operation = .delegateCall && !allowsDelegateCalls then .ok [subCall]
            else flatten abi safe depthRemaining subCall
          return parts.flatten

def parse (abi : Abi) (transaction : SafeTransaction.T) : Except ParseError Proposal := do
  let calls ← flatten abi transaction.safe MAX_BATCH_DEPTH (asMetaTransaction transaction)
  return ⟨transaction, calls⟩

/-! ### Coverage -/

/-- What a check vouches for: aspects of each call, and the refund of the transaction. -/
structure Coverage where
  calls : List AspectSet
  refund : Bool
deriving DecidableEq, Repr

namespace Coverage

def none (totalCalls : Nat) : Coverage := ⟨List.replicate totalCalls .empty, false⟩

/-- `Coverage::calls`: the same aspects of every call. -/
def uniform (totalCalls : Nat) (aspects : AspectSet) : Coverage :=
  ⟨List.replicate totalCalls aspects, false⟩

/-- `Coverage::refund`. -/
def refundOnly (totalCalls : Nat) : Coverage := ⟨List.replicate totalCalls .empty, true⟩

def union (a b : Coverage) : Coverage :=
  ⟨List.zipWith AspectSet.union a.calls b.calls, a.refund || b.refund⟩

def contains (a required : Coverage) : Bool :=
  (List.zipWith AspectSet.contains a.calls required.calls).all id && (!required.refund || a.refund)

def missing (a required : Coverage) : Coverage :=
  ⟨List.zipWith (fun have' req => AspectSet.difference req have') a.calls required.calls,
    required.refund && !a.refund⟩

def requiredFor (proposal : Proposal) : Coverage :=
  ⟨proposal.calls.map AspectSet.requiredFor, proposal.transaction.gasPrice ≠ 0⟩

end Coverage

/-- The same aspects of every call of the proposal. -/
def Proposal.checked (proposal : Proposal) (aspects : AspectSet) : Coverage :=
  .uniform proposal.calls.length aspects

/-- The refund of the proposal. -/
def Proposal.refundChecked (proposal : Proposal) : Coverage := .refundOnly proposal.calls.length

end Safenet.SentinelEngine
