/-
Transactions to submit, of `core/src/tx/types.rs`, `fees.rs` and `bundle.rs`.

Gas amounts are `u64` and fees `u128` values, kept as `Nat`; where the source saturates, so does the
model.  The percentage of `cap_priority_fee` is a floating point number in the source and only its
rounded value in millionths enters here.  `keccak256` is a parameter.
-/
import Safenet.Basic
import Safenet.Lib.Bytes

namespace Safenet.Core.Tx

/-- `u128::saturating_add`. -/
def saturatingAdd128 (a b : Nat) : Nat := min (a + b) (2 ^ 128 - 1)

/-- `u128::saturating_mul`. -/
def saturatingMul128 (a b : Nat) : Nat := min (a * b) (2 ^ 128 - 1)

/-- `div_ceil`. -/
def divCeil (a b : Nat) : Nat := (a + b - 1) / b

/-- A transaction to submit onchain. -/
structure Transaction where
  destination : Address
  value : B256
  data : Bytes
  gas : Nat
deriving DecidableEq, Repr

/-- `Transaction::default`, which does nothing. -/
def Transaction.default : Transaction := ⟨0, 0, [], 21000⟩

/-- An EIP-7702 delegation to authorize alongside a transaction; the zero address removes it. -/
structure Authorization where
  address : Address
deriving DecidableEq, Repr

section Hash

variable (keccak256 : Bytes → B256)

/-- The code hash of an account without code. -/
def keccakEmpty : B256 := keccak256 []

/-- The code hash of the account once the authorization is applied. -/
def Authorization.codeHash (authorization : Authorization) : B256 :=
  if authorization.address = 0 then keccakEmpty keccak256
  else keccak256 ([0xef, 0x01, 0x00] ++ Bytes.digits 20 authorization.address.toNat)

/-- The onchain state of the signer account. -/
structure AccountStatus where
  nonce : Nat
  codeHash : B256
deriving DecidableEq, Repr

/-- A zero hash, which some nodes answer with, is that of an account without code. -/
def AccountStatus.new (nonce : Nat) (codeHash : B256) : AccountStatus :=
  ⟨nonce, if codeHash = 0 then keccakEmpty keccak256 else codeHash⟩

def AccountStatus.isDelegated (account : AccountStatus) : Bool :=
  account.codeHash ≠ keccakEmpty keccak256

end Hash

/-! ### Fees -/

/-- `Eip1559Estimation`. -/
structure Fees where
  maxFeePerGas : Nat
  maxPriorityFeePerGas : Nat
deriving DecidableEq, Repr

/-- Caps the priority fee at so many millionths of the total. -/
def capPriorityFee (fees : Fees) (scaledPercent : Nat) : Fees :=
  if 1000000 ≤ scaledPercent then fees
  else
    let baseFee := fees.maxFeePerGas - fees.maxPriorityFeePerGas
    let capped := saturatingMul128 baseFee scaledPercent / (1000000 - scaledPercent)
    let maxPriorityFeePerGas := min fees.maxPriorityFeePerGas capped
    { maxFeePerGas := baseFee + maxPriorityFeePerGas, maxPriorityFeePerGas }

/-- At least a tenth above the previous fee. -/
def bumpFee (fresh previous : Nat) : Nat :=
  max fresh (saturatingAdd128 previous (divCeil previous 10))

/-- The estimate, raised above the fees of a previous submission. -/
def bump (fresh : Fees) (previous : Option Fees) : Fees :=
  match previous with
  | none => fresh
  | some previous =>
      { maxFeePerGas := bumpFee fresh.maxFeePerGas previous.maxFeePerGas
        maxPriorityFeePerGas := bumpFee fresh.maxPriorityFeePerGas previous.maxPriorityFeePerGas }

/-! ### Allocated transactions -/

/-- A transaction with a nonce, and the fees of its last submission. -/
structure AllocatedTransaction where
  nonce : Nat
  transaction : Transaction
  /-- Uses up the nonce after `nonce`. -/
  authorization : Option Authorization
  maxFeePerGas : Option Nat
  maxPriorityFeePerGas : Option Nat
deriving DecidableEq, Repr

/-- A transaction as it is signed. -/
structure UnsignedTransaction where
  chainId : Nat
  nonce : Nat
  gasLimit : Nat
  maxFeePerGas : Nat
  maxPriorityFeePerGas : Nat
  destination : Address
  value : B256
  input : Bytes
  authorization : Option Authorization
deriving DecidableEq, Repr

/-- The fees of the last submission, if there was one. -/
def AllocatedTransaction.fees (self : AllocatedTransaction) : Option Fees := do
  return { maxFeePerGas := ← self.maxFeePerGas, maxPriorityFeePerGas := ← self.maxPriorityFeePerGas }

def AllocatedTransaction.build (self : AllocatedTransaction) (chainId : Nat) (estimate : Fees) :
    UnsignedTransaction :=
  let fees := bump estimate self.fees
  { chainId
    nonce := self.nonce
    gasLimit := self.transaction.gas
    maxFeePerGas := fees.maxFeePerGas
    maxPriorityFeePerGas := fees.maxPriorityFeePerGas
    destination := self.transaction.destination
    value := self.transaction.value
    input := self.transaction.data
    authorization := self.authorization }

/-! ### Batches -/

/-- `ISafenet7702Executor.Call`. -/
structure Call where
  destination : Address
  value : B256
  gasLimit : B256
  data : Bytes
deriving DecidableEq, Repr

/-- The transaction as a call of a batch. -/
def Transaction.call (transaction : Transaction) : Call :=
  { destination := transaction.destination
    value := transaction.value
    gasLimit := BitVec.ofNat 256 transaction.gas
    data := transaction.data }

/-- The data, filled up to whole words. -/
def paddedData (data : Bytes) : Bytes :=
  data ++ List.replicate (divCeil data.length 32 * 32 - data.length) 0

/-- The ABI encoding of a call: the static fields, the offset of the data, and the data. -/
def Call.encode (call : Call) : Bytes :=
  [call.destination.setWidth 256, call.value, call.gasLimit, 0x80,
    BitVec.ofNat 256 call.data.length].flatMap Bytes.word ++ paddedData call.data

/-- Where the encoded calls begin. -/
def offsets : Nat → List Call → List Nat
  | _, [] => []
  | start, call :: calls => start :: offsets (start + call.encode.length) calls

/-- The calldata of `execute(calls)`. -/
def executeCall (calls : List Call) : Bytes :=
  [0x39, 0x8f, 0x36, 0x53] ++
    (0x20 :: BitVec.ofNat 256 calls.length ::
      (offsets (32 * calls.length) calls).map (BitVec.ofNat 256)).flatMap Bytes.word ++
    calls.flatMap Call.encode

def calldataGasPerByte : Nat := 16

def batchGas : Nat := 26000 + calldataGasPerByte * (4 + 32 + 32)

def callOverheadGas : Nat := 5000

def callValueGas : Nat := 34000

/-- What an authorization costs. -/
def perEmptyAccountCost : Nat := 25000

/-- The gas a transaction adds to a batch. -/
def callGas (transaction : Transaction) : Nat :=
  let dataLen := divCeil transaction.data.length 32 * 32
  let calldata := saturatingMul calldataGasPerByte (32 + 4 * 32 + 32 + dataLen)
  let value := if transaction.value = 0 then 0 else callValueGas
  saturatingAdd (saturatingAdd (saturatingAdd (saturatingAdd calldata transaction.gas)
    (divCeil transaction.gas 63)) callOverheadGas) value

/-- What a bundle holds. -/
inductive Bundler.Inner where
  | direct (transaction : Option Transaction)
  | batched (account : Address) (maxBatchGas : Nat) (calls : List Call) (gas : Nat) (full : Bool)
deriving DecidableEq, Repr

/-- Bundles queued transactions, in order, into the transaction sent at a nonce. -/
structure Bundler where
  inner : Bundler.Inner
  authorization : Option Authorization
deriving DecidableEq, Repr

namespace Bundler

def direct (authorization : Option Authorization) : Bundler := ⟨.direct none, authorization⟩

def batched (account : Address) (maxBatchGas : Nat) (authorization : Option Authorization) : Bundler :=
  ⟨.batched account maxBatchGas [] batchGas false, authorization⟩

/-- Adds a transaction, unless the bundle is full. -/
def push (bundler : Bundler) (transaction : Transaction) : Bundler × Bool :=
  match bundler.inner with
  | .direct none => ({ bundler with inner := .direct (some transaction) }, true)
  | .direct (some _) => (bundler, false)
  | .batched account maxBatchGas calls gas full =>
      let total := saturatingAdd gas (callGas transaction)
      if full || (!calls.isEmpty && maxBatchGas < total) then
        ({ bundler with inner := .batched account maxBatchGas calls gas true }, false)
      else
        ({ bundler with
            inner := .batched account maxBatchGas (calls ++ [transaction.call]) total full }, true)

/-- The transaction of the bundle, without the gas for its authorization. -/
def transaction (bundler : Bundler) : Option Transaction :=
  match bundler.inner with
  | .direct transaction => transaction
  | .batched account _ calls gas _ =>
      if calls.isEmpty then none
      else some { destination := account, value := 0, data := executeCall calls, gas }

/-- Finishes the bundle as the transaction with a nonce; none if it is empty. -/
def finish (bundler : Bundler) (nonce : Nat) : Option AllocatedTransaction := do
  let transaction ← bundler.transaction
  let gas := if bundler.authorization.isSome then saturatingAdd transaction.gas perEmptyAccountCost
    else transaction.gas
  return { nonce
           transaction := { transaction with gas }
           authorization := bundler.authorization
           maxFeePerGas := none
           maxPriorityFeePerGas := none }

end Bundler

end Safenet.Core.Tx
