/-
The transaction queue of `core/src/tx/mod.rs`.

What the node answers to the requests of a call is an input of the call (`Answers`), and so is the
moment at which the process stops, if it does: after so many statements.  A failed request lets the
queue go on; any other failure ends the process, as in `Driver::update`.  After that the queue starts
over with the stored tables and forgets everything else.

A call leaves a record of the statements it has executed.  Requests that only read the chain, the logs
and the metrics have no effect on the storage.
-/
import Safenet.Core.Index
import Safenet.Core.TransactionStorage

namespace Safenet.Core.Tx

/-! ### Configuration -/

/-- How queued transactions are submitted. -/
inductive SubmissionMode where
  | direct (maxInFlightTransactions : Nat)
  | batched (executor : Address) (maxBatchGas : Nat)
deriving DecidableEq, Repr

def SubmissionMode.maxInFlightTransactions : SubmissionMode → Nat
  | .direct maxInFlightTransactions => maxInFlightTransactions
  | .batched _ _ => 1

structure Config where
  mode : SubmissionMode
  blocksBeforeResubmit : Nat
  /-- In millionths. -/
  priorityFeeCap : Option Nat
deriving DecidableEq, Repr

/-- What the queue is set up with. -/
structure Setup where
  keccak256 : Bytes → B256
  chainId : Nat
  /-- The address of the signer. -/
  account : Address
  config : Config

inductive SendAnswer where
  | accepted
  | underpriced
  | failed
deriving DecidableEq, Repr

/-- What the node answers to the requests of one call, by how many came before. -/
structure Answers where
  /-- The nonce and the code hash of the signer at a block, or at the latest one. -/
  getProof : Nat → Option Nat → Option (Nat × B256)
  estimateFees : Nat → Option Fees
  sendRawTransaction : Nat → UnsignedTransaction → SendAnswer

/-- The circumstances of a call. -/
structure Env where
  setup : Setup
  answers : Answers
  /-- After how many statements the process stops. -/
  stopsAfter : Option Nat

/-- A queue of transactions to submit. -/
structure Queue where
  storage : Storage
  blockStatus : Option BlockStatus
  accountCache : Option AccountStatus
  feeCache : Option Fees
deriving DecidableEq

namespace Queue

/-- A queue over an empty database. -/
def new : Queue := ⟨.empty, none, none, none⟩

/-- The queue after a restart. -/
def restarted (queue : Queue) : Queue := ⟨queue.storage, none, none, none⟩

/-- Why a call ends early. -/
inductive Halt where
  | rpc
  | storage (error : Storage.Error)
  | signing
  /-- The process was stopped. -/
  | stopped
deriving DecidableEq, Repr

/-- The state of a call. -/
structure Frame where
  queue : Queue
  statements : List Storage.Statement
  requests : Nat

/-- A part of a call. -/
abbrev Task := ExceptT Halt (StateM Frame)

/-- Counts a request. -/
def request : Task Nat := do
  let frame ← get
  set { frame with requests := frame.requests + 1 }
  return frame.requests

/-- Executes a statement, unless the process stops before it. -/
def execute (env : Env) (statement : Storage.Statement) : Task Storage.Reply := do
  let frame ← get
  if env.stopsAfter = some frame.statements.length then throw .stopped
  let executed := frame.queue.storage.step statement
  set { frame with
    queue := { frame.queue with storage := executed.1 }
    statements := frame.statements ++ [statement] }
  match executed.2 with
  | .ok reply => return reply
  | .error error => throw (.storage error)

/-- The status of the signer account, cached until the block changes. -/
def account (env : Env) : Task AccountStatus := do
  match (← get).queue.accountCache with
  | some account => return account
  | none =>
      let index ← request
      let frame ← get
      match env.answers.getProof index (frame.queue.blockStatus.map BlockStatus.latest) with
      | none => throw .rpc
      | some (nonce, codeHash) =>
          let account := AccountStatus.new env.setup.keccak256 nonce codeHash
          set { frame with queue := { frame.queue with accountCache := some account } }
          return account

/-- The fee estimate, cached until the block changes. -/
def fees (env : Env) : Task Fees := do
  match (← get).queue.feeCache with
  | some fees => return fees
  | none =>
      let index ← request
      let frame ← get
      match env.answers.estimateFees index with
      | none => throw .rpc
      | some fees =>
          let fees := match env.setup.config.priorityFeeCap with
            | some cap => capPriorityFee fees cap
            | none => fees
          set { frame with queue := { frame.queue with feeCache := some fees } }
          return fees

/-- Whether the transaction can be signed. -/
def signs (transaction : UnsignedTransaction) : Bool :=
  transaction.chainId ≠ 0 && (transaction.authorization.isNone || transaction.nonce + 1 < 2 ^ 64)

/-- Signs and sends a transaction, and records the submission. -/
def submitTransaction (env : Env) (transaction : AllocatedTransaction) (block : Nat) : Task Unit := do
  let fees ← fees env
  let transaction := transaction.build env.setup.chainId fees
  let submission : Submission :=
    { block := some block
      nonce := transaction.nonce
      fees := ⟨transaction.maxFeePerGas, transaction.maxPriorityFeePerGas⟩ }
  if !signs transaction then throw .signing
  let index ← request
  match env.answers.sendRawTransaction index transaction with
  | .accepted => discard <| execute env (.recordSubmission submission)
  | .underpriced => discard <| execute env (.recordSubmission { submission with block := none })
  | .failed => return

/-- The authorization an account needs for a delegate. -/
def authorize (env : Env) (account : AccountStatus) (address : Address) : Option Authorization :=
  let wanted : Authorization := ⟨address⟩
  if account.codeHash ≠ wanted.codeHash env.setup.keccak256 then some wanted else none

/-- An empty bundle. -/
def bundler (env : Env) (account : AccountStatus) : Bundler :=
  match env.setup.config.mode with
  | .direct _ => .direct (authorize env account 0)
  | .batched executor maxBatchGas =>
      .batched env.setup.account maxBatchGas (authorize env account executor)

/-- Submits queued transactions while there is room for so many more. -/
def submitWhile (env : Env) (block : Nat) : Nat → Nat → Task Unit
  | 0, _ => return
  | room + 1, inFlight => do
      let account ← account env
      -- mempools accept one pending transaction from a delegated account
      if account.isDelegated env.setup.keccak256 && 0 < inFlight then return
      match ← execute env (.nextTransaction ⟨block, account.nonce⟩ (bundler env account)) with
      | .allocated (some transaction) => do
          submitTransaction env transaction block
          submitWhile env block room (inFlight + 1)
      | _ => return

def submitPending (env : Env) (block : Nat) : Task Unit := do
  let inFlight := (← get).queue.storage.countInFlight
  submitWhile env block (env.setup.config.mode.maxInFlightTransactions - inFlight) inFlight

/-- Reads the storage. -/
def read {α : Type} (query : Storage → Except Storage.Error α) : Task α := do
  match query (← get).queue.storage with
  | .ok result => return result
  | .error error => throw (.storage error)

/-- Submits again what was not executed for some blocks. -/
def resubmitStale (env : Env) (block : Nat) : Task Unit := do
  let resubmit := env.setup.config.blocksBeforeResubmit
  let submittedBefore := if resubmit ≤ block then some (block - resubmit) else none
  let stale ← read (·.staleSubmissions submittedBefore)
  stale.forM fun transaction => submitTransaction env transaction block

/-- Stores transactions, and submits what is queued if a block is known. -/
def queue (env : Env) (transactions : List (Transaction × Option Nat)) : Task Unit := do
  let _ ← execute env (.enqueue transactions)
  match (← get).queue.blockStatus with
  | some status => submitPending env status.latest
  | none => return

/-- From which block on marks are not to be trusted any more. -/
def unmarkFrom (previous : Option BlockStatus) (status : BlockStatus) : Option Nat :=
  match previous with
  | none => if status.safe + 1 < 2 ^ 64 then some (status.safe + 1) else none
  | some previous =>
      if status.latest < previous.latest then
        if status.latest + 1 < 2 ^ 64 then some (status.latest + 1) else none
      else none

/-- What is done for a new block while something is outstanding. -/
def advance (env : Env) (latest : Nat) : Task Unit := do
  let account ← account env
  let _ ← execute env (.markExecuted ⟨latest, account.nonce⟩)
  let _ ← execute env (.recoverAuthorizationGap account.nonce)
  resubmitStale env latest
  submitPending env latest

/-- Takes note of the status, and drops what was cached for another block. -/
def observe (previous : Option BlockStatus) (status : BlockStatus) : Task Unit := do
  let frame ← get
  let isNew := previous.all (·.latest ≠ status.latest)
  set { frame with
    queue := { frame.queue with
      blockStatus := some status
      accountCache := if isNew then none else frame.queue.accountCache
      feeCache := if isNew then none else frame.queue.feeCache } }

/-- Prunes the storage if the safe block has moved. -/
def pruneStorage (env : Env) (previous : Option BlockStatus) (status : BlockStatus) : Task Unit :=
  if previous.all (·.safe ≠ status.safe) then discard <| execute env (.prune status.safe)
  else return

/-- Clears the marks that are not to be trusted any more. -/
def unmarkReplaced (env : Env) (previous : Option BlockStatus) (status : BlockStatus) : Task Unit :=
  match unmarkFrom previous status with
  | some block => discard <| execute env (.unmarkExecuted block)
  | none => return

/-- Goes on if there is a new block and something is outstanding. -/
def advanceIfNew (env : Env) (previous : Option BlockStatus) (status : BlockStatus) : Task Unit :=
  if previous.all (·.latest < status.latest) then do
    if 0 < (← read (·.countOutstanding status.latest)) then advance env status.latest
  else return

/-- Updates the queue's view of the chain. -/
def updateBlockStatus (env : Env) (status : BlockStatus) : Task Unit := do
  let previous := (← get).queue.blockStatus
  if previous = some status then return
  observe previous status
  pruneStorage env previous status
  unmarkReplaced env previous status
  advanceIfNew env previous status

/-! ### Runs -/

inductive Operation where
  | queue (transactions : List (Transaction × Option Nat))
  | updateBlockStatus (status : BlockStatus)
deriving DecidableEq, Repr

inductive Input where
  | call (operation : Operation) (answers : Answers) (stopsAfter : Option Nat)
  | restart

/-- How a call ended, and what it has executed. -/
structure Output where
  result : Except Halt Unit
  statements : List Storage.Statement

def perform (env : Env) : Operation → Task Unit
  | .queue transactions => queue env transactions
  | .updateBlockStatus status => updateBlockStatus env status

/-- What is left of the queue after a call: only a failed request is survived. -/
def surviving (queue : Queue) : Except Halt Unit → Queue
  | .ok () | .error .rpc => queue
  | .error _ => queue.restarted

def step (setup : Setup) (queue : Queue) (input : Input) : Queue × Output :=
  match input with
  | .restart => (queue.restarted, ⟨.ok (), []⟩)
  | .call operation answers stopsAfter =>
      let (result, frame) := perform ⟨setup, answers, stopsAfter⟩ operation ⟨queue, [], 0⟩
      (surviving frame.queue result, ⟨result, frame.statements⟩)

end Queue

end Safenet.Core.Tx
