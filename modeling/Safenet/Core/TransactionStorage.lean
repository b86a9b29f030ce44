/-
The storage of the transaction queue, of `core/src/tx/storage.rs`.

Each method of the source is one SQL transaction, which takes effect as a whole or not at all; a
`Statement` is a call of such a method.  Nonces and block numbers are stored as signed 64 bit integers,
so a value of 2 ^ 63 or more is refused.  Requests are stored as JSON, which is read back as it was
written.
-/
import Safenet.Core.Bundle
import Safenet.Lib.Fallible
import Safenet.Lib.Relation

namespace Safenet.Core.Tx

namespace Storage

inductive Error where
  /-- A database operation failed. -/
  | database
  | overflow
  | nonceNotFound (nonce : Nat)
deriving DecidableEq, Repr

/-- `i64::try_from`. -/
def toI64 (n : Nat) : Except Error Nat := if n < 2 ^ 63 then .ok n else .error .overflow

end Storage

open Storage (Error toI64)

/-- A submission of a transaction; without a block it was refused as underpriced. -/
structure Submission where
  block : Option Nat
  nonce : Nat
  fees : Fees
deriving DecidableEq, Repr

/-- The onchain status of the account. -/
structure Status where
  block : Nat
  nonce : Nat
deriving DecidableEq, Repr

/-- What is sent at a nonce, with the fees of its last submission. -/
structure Request where
  transaction : Transaction
  maxFeePerGas : Option Nat
  maxPriorityFeePerGas : Option Nat
deriving DecidableEq, Repr

/-- A row of `allocated_nonces`: a transaction, an authorization that the transaction at the nonce
before it carries, or both if a cancellation is sent in place of the authorization. -/
structure NonceRow where
  nonce : Nat
  request : Option Request
  delegate : Option Address
  submittedAt : Option Nat
  executedAt : Option Nat
  check : request.isSome ∨ delegate.isSome
deriving DecidableEq, Repr

/-- A row of `transactions`. -/
structure TransactionRow where
  id : Nat
  request : Transaction
  expiresAt : Option Nat
  nonce : Option Nat
deriving DecidableEq, Repr

/-- The two tables. -/
structure Storage where
  allocatedNonces : Relation NonceRow NonceRow.nonce
  transactions : Relation TransactionRow TransactionRow.id
deriving DecidableEq

namespace Storage

def empty : Storage := ⟨.empty, .empty⟩

/-! ### Queued transactions -/

/-- Inserts one queued transaction. -/
def enqueueOne (storage : Storage) (queued : Transaction × Option Nat) : Except Error Storage := do
  let expiresAt ← queued.2.mapM toI64
  return { storage with
    transactions := storage.transactions.insertNext 1
      (fun id => { id, request := queued.1, expiresAt, nonce := none }) fun _ => rfl }

/-- Stores transactions, each with the block it expires at. -/
def enqueue (storage : Storage) (transactions : List (Transaction × Option Nat)) :
    Except Error Storage :=
  transactions.foldlM enqueueOne storage

/-- The number of transactions that have a nonce and are not executed. -/
def countInFlight (storage : Storage) : Nat :=
  (storage.allocatedNonces.rows.filter fun row => row.request.isSome && row.executedAt.isNone).length

/-- Whether the transaction waits for a nonce at this block. -/
def isPending (block : Nat) (row : TransactionRow) : Bool :=
  row.nonce.isNone && row.expiresAt.all (block < ·)

/-- Pushes queued transactions until the bundle is full; `last` is the id of the last one taken. -/
def fill (bundler : Bundler) (last : Option Nat) : List TransactionRow → Bundler × Option Nat
  | [] => (bundler, last)
  | row :: rows =>
      match bundler.push row.request with
      | (bundler, true) => fill bundler (some row.id) rows
      | (bundler, false) => (bundler, last)

/-- A column value of a query; a sum that does not fit is no integer any more. -/
def column (n : Nat) : Except Error Nat := if n < 2 ^ 63 then .ok n else .error .database

/-- Inserts a row, unless its nonce is taken. -/
def insertNonce (nonces : Relation NonceRow NonceRow.nonce) (row : NonceRow) :
    Except Error (Relation NonceRow NonceRow.nonce) :=
  match nonces.insert row with
  | some nonces => .ok nonces
  | none => .error .database

/-- The row of a transaction that is not submitted yet. -/
def transactionRow (allocated : AllocatedTransaction) : NonceRow where
  nonce := allocated.nonce
  request := some ⟨allocated.transaction, none, none⟩
  delegate := none
  submittedAt := none
  executedAt := none
  check := .inl rfl

/-- The row of an authorization. -/
def delegateRow (nonce : Nat) (authorization : Authorization) : NonceRow where
  nonce
  request := none
  delegate := some authorization.address
  submittedAt := none
  executedAt := none
  check := .inr rfl

/-- Inserts the row of an authorization, if there is one, after that of its transaction. -/
def insertAuthorization (nonces : Relation NonceRow NonceRow.nonce) (nonce : Nat) :
    Option Authorization → Except Error (Relation NonceRow NonceRow.nonce)
  | none => .ok nonces
  | some authorization => do insertNonce nonces (delegateRow (← toI64 (nonce + 1)) authorization)

/-- Allocates the next free nonce to the oldest transactions that are queued and not expired. -/
def nextTransaction (storage : Storage) (status : Status) (bundler : Bundler) :
    Except Error (Option AllocatedTransaction × Storage) := do
  let block ← toI64 status.block
  match fill bundler none (storage.transactions.rows.filter (isPending block)) with
  | (_, none) => return (none, storage)
  | (bundler, some last) => do
      let accountNonce ← toI64 status.nonce
      let nonce ← column (max accountNonce (storage.allocatedNonces.nextKey 0))
      match bundler.finish nonce with
      | none => return (none, storage)
      | some allocated => do
          let nonces ← insertNonce storage.allocatedNonces (transactionRow allocated)
          let nonces ← insertAuthorization nonces nonce allocated.authorization
          return (some allocated,
            { allocatedNonces := nonces
              transactions := storage.transactions.updateWhere
                (fun row => isPending block row && row.id ≤ last)
                (fun row => { row with nonce := some nonce }) fun _ => rfl })

/-! ### Submissions -/

/-- Records the block and the fees of a submission. -/
def NonceRow.submit (row : NonceRow) (block : Option Nat) (fees : Fees) : NonceRow :=
  { row with
    submittedAt := block
    request := row.request.map fun request =>
      { request with maxFeePerGas := some fees.maxFeePerGas
                     maxPriorityFeePerGas := some fees.maxPriorityFeePerGas }
    check := by simpa using row.check }

def recordSubmission (storage : Storage) (submission : Submission) : Except Error Storage := do
  let block ← submission.block.mapM toI64
  let nonce ← toI64 submission.nonce
  let isSubmitted := fun (row : NonceRow) => row.nonce = nonce && row.request.isSome
  if storage.allocatedNonces.rows.any isSubmitted then
    return { storage with
      allocatedNonces := storage.allocatedNonces.updateWhere isSubmitted
        (NonceRow.submit · block submission.fees) fun _ => rfl }
  else throw (.nonceNotFound submission.nonce)

/-- The number of nonces that are not executed and transactions that wait for one. -/
def countOutstanding (storage : Storage) (block : Nat) : Except Error Nat := do
  let block ← toI64 block
  return (storage.allocatedNonces.rows.filter (·.executedAt.isNone)).length +
    (storage.transactions.rows.filter (isPending block)).length

/-- The authorization a transaction carries: the delegate at the nonce after it. -/
def authorizationOf (storage : Storage) (nonce : Nat) : Option Authorization :=
  (storage.allocatedNonces.rows.find? fun row => row.nonce = nonce + 1 && row.delegate.isSome).bind
    fun row => row.delegate.map Authorization.mk

/-- The transactions in flight that are to be submitted again. -/
def staleSubmissions (storage : Storage) (submittedBefore : Option Nat) :
    Except Error (List AllocatedTransaction) := do
  let submittedBefore ← submittedBefore.mapM toI64
  return storage.allocatedNonces.rows.filterMap fun row =>
    match row.request with
    | some request =>
        if row.executedAt.isNone &&
            row.submittedAt.all (fun submitted => submittedBefore.any (submitted ≤ ·)) then
          some { nonce := row.nonce
                 transaction := request.transaction
                 authorization := storage.authorizationOf row.nonce
                 maxFeePerGas := request.maxFeePerGas
                 maxPriorityFeePerGas := request.maxPriorityFeePerGas }
        else none
    | none => none

/-! ### Execution -/

/-- Marks every nonce the account has moved past. -/
def markExecuted (storage : Storage) (status : Status) : Except Error Storage := do
  let block ← toI64 status.block
  let nonce ← toI64 status.nonce
  return { storage with
    allocatedNonces := storage.allocatedNonces.updateWhere
      (fun row => row.nonce < nonce && row.executedAt.isNone)
      (fun row => { row with executedAt := some block }) fun _ => rfl }

/-- Puts a cancellation in place of an authorization. -/
def NonceRow.cancel (row : NonceRow) : NonceRow :=
  { row with request := some ⟨.default, none, none⟩, check := .inl rfl }

/-- If the account stands at an authorization, a cancellation is to be sent in its place. -/
def recoverAuthorizationGap (storage : Storage) (nonce : Nat) : Except Error (Bool × Storage) := do
  let nonce ← toI64 nonce
  let isGap := fun (row : NonceRow) =>
    row.nonce = nonce && row.delegate.isSome && row.request.isNone
  return (storage.allocatedNonces.rows.any isGap,
    { storage with
      allocatedNonces := storage.allocatedNonces.updateWhere isGap NonceRow.cancel fun _ => rfl })

/-- Deletes what was executed, or expired without a nonce, at or below the safe block. -/
def prune (storage : Storage) (safe : Nat) : Except Error Storage := do
  let safe ← toI64 safe
  let isExecuted := fun (row : NonceRow) => row.executedAt.any (· ≤ safe)
  let executed := (storage.allocatedNonces.rows.filter isExecuted).map NonceRow.nonce
  return { allocatedNonces := storage.allocatedNonces.deleteWhere isExecuted
           transactions := (storage.transactions.deleteWhere (·.nonce.any (· ∈ executed))).deleteWhere
             fun row => row.nonce.isNone && row.expiresAt.any (· ≤ safe) }

/-- Clears the marks of a block and those after it. -/
def unmarkExecuted (storage : Storage) (block : Nat) : Except Error Storage := do
  let block ← toI64 block
  return { storage with
    allocatedNonces := storage.allocatedNonces.updateWhere
      (fun row => row.executedAt.any (block ≤ ·))
      (fun row => { row with executedAt := none }) fun _ => rfl }

/-! ### Statements -/

inductive Statement where
  | enqueue (transactions : List (Transaction × Option Nat))
  | nextTransaction (status : Status) (bundler : Bundler)
  | recordSubmission (submission : Submission)
  | markExecuted (status : Status)
  | recoverAuthorizationGap (nonce : Nat)
  | prune (safe : Nat)
  | unmarkExecuted (block : Nat)
deriving DecidableEq, Repr

/-- What a statement answers. -/
inductive Reply where
  | done
  | allocated (transaction : Option AllocatedTransaction)
  | recovered (isRecovered : Bool)
deriving DecidableEq, Repr

def execute (storage : Storage) (statement : Statement) : Except Error (Storage × Reply) :=
  match statement with
  | .enqueue transactions => do return (← storage.enqueue transactions, .done)
  | .nextTransaction status bundler => do
      let (allocated, storage) ← storage.nextTransaction status bundler
      return (storage, .allocated allocated)
  | .recordSubmission submission => do return (← storage.recordSubmission submission, .done)
  | .markExecuted status => do return (← storage.markExecuted status, .done)
  | .recoverAuthorizationGap nonce => do
      let (isRecovered, storage) ← storage.recoverAuthorizationGap nonce
      return (storage, .recovered isRecovered)
  | .prune safe => do return (← storage.prune safe, .done)
  | .unmarkExecuted block => do return (← storage.unmarkExecuted block, .done)

/-- A statement that fails is rolled back. -/
def step (storage : Storage) (statement : Statement) : Storage × Except Error Reply :=
  match storage.execute statement with
  | .ok (storage, reply) => (storage, .ok reply)
  | .error error => (storage, .error error)

end Storage

end Safenet.Core.Tx
