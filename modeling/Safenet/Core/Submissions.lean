/-
What the transaction queue sends, and how the fees of a submission are stored.

The calls here are those of `TransactionQueue`, with a log of the transactions that are sent to the node.
Without the log they are the same (`Proofs/Submissions`).  In the database the fees are QUANTITY texts,
which `record_submission` puts into the JSON of the request.
-/
import Safenet.Core.TransactionQueue
import Safenet.Lib.Program

namespace Safenet.Core.Tx

/-! ### Stored fees -/

/-- `format!("0x{:x}")`. -/
def quantity (n : Nat) : String := "0x" ++ String.ofList (Nat.toDigits 16 n)

/-- The JSON of a request. -/
structure StoredRequest where
  transaction : Transaction
  maxFeePerGas : Option String
  maxPriorityFeePerGas : Option String
deriving DecidableEq

/-- The request as JSON. -/
def Request.store (request : Request) : StoredRequest where
  transaction := request.transaction
  maxFeePerGas := request.maxFeePerGas.map quantity
  maxPriorityFeePerGas := request.maxPriorityFeePerGas.map quantity

/-- `json_set(request, '$.maxFeePerGas', ?, '$.maxPriorityFeePerGas', ?)`. -/
def StoredRequest.setFees (request : StoredRequest) (fees : Fees) : StoredRequest :=
  { request with
    maxFeePerGas := some (quantity fees.maxFeePerGas)
    maxPriorityFeePerGas := some (quantity fees.maxPriorityFeePerGas) }

/-- The request read from JSON; a QUANTITY is read by `parse`. -/
def StoredRequest.load (parse : String → Option Nat) (request : StoredRequest) : Option Request := do
  return { transaction := request.transaction
           maxFeePerGas := ← request.maxFeePerGas.mapM parse
           maxPriorityFeePerGas := ← request.maxPriorityFeePerGas.mapM parse }

namespace Queue

/-! ### Calls with a log -/

/-- A transaction that was sent. -/
structure Sent where
  /-- The state of the call when it was sent. -/
  frame : Frame
  transaction : UnsignedTransaction
  answer : SendAnswer

/-- The state of a call with its log. -/
structure Logged where
  frame : Frame
  sent : List Sent

/-- A part of a call that keeps a log. -/
abbrev LoggedTask := Program Halt Logged

namespace Logged

/-- A part of a call that sends nothing. -/
def lift {α : Type} (task : Task α) : LoggedTask α := fun (logged : Logged) =>
  let (result, frame) := (task logged.frame : Except Halt α × Frame)
  ((result, { logged with frame }) : Except Halt α × Logged)

def submitTransaction (env : Env) (transaction : AllocatedTransaction) (block : Nat) : LoggedTask Unit := do
  let fees ← lift (Queue.fees env)
  let transaction := transaction.build env.setup.chainId fees
  let submission : Submission :=
    { block := some block
      nonce := transaction.nonce
      fees := ⟨transaction.maxFeePerGas, transaction.maxPriorityFeePerGas⟩ }
  if !signs transaction then throw .signing
  let index ← lift request
  let answer := env.answers.sendRawTransaction index transaction
  let logged : Logged ← get
  set (Logged.mk logged.frame (logged.sent ++ [⟨logged.frame, transaction, answer⟩]))
  match answer with
  | .accepted => lift (discard <| execute env (.recordSubmission submission))
  | .underpriced => lift (discard <| execute env (.recordSubmission { submission with block := none }))
  | .failed => return

def submitWhile (env : Env) (block : Nat) : Nat → Nat → LoggedTask Unit
  | 0, _ => return
  | room + 1, inFlight => do
      let account ← lift (Queue.account env)
      if account.isDelegated env.setup.keccak256 && 0 < inFlight then return
      match ← lift (execute env (.nextTransaction ⟨block, account.nonce⟩ (bundler env account))) with
      | .allocated (some transaction) => do
          submitTransaction env transaction block
          submitWhile env block room (inFlight + 1)
      | _ => return

def submitPending (env : Env) (block : Nat) : LoggedTask Unit := do
  let inFlight := (← get).frame.queue.storage.countInFlight
  submitWhile env block (env.setup.config.mode.maxInFlightTransactions - inFlight) inFlight

def resubmitStale (env : Env) (block : Nat) : LoggedTask Unit := do
  let resubmit := env.setup.config.blocksBeforeResubmit
  let submittedBefore := if resubmit ≤ block then some (block - resubmit) else none
  let stale ← lift (read (·.staleSubmissions submittedBefore))
  stale.forM fun transaction => submitTransaction env transaction block

def queue (env : Env) (transactions : List (Transaction × Option Nat)) : LoggedTask Unit := do
  let _ ← lift (execute env (.enqueue transactions))
  match (← get).frame.queue.blockStatus with
  | some status => submitPending env status.latest
  | none => return

def advance (env : Env) (latest : Nat) : LoggedTask Unit := do
  let account ← lift (Queue.account env)
  let _ ← lift (execute env (.markExecuted ⟨latest, account.nonce⟩))
  let _ ← lift (execute env (.recoverAuthorizationGap account.nonce))
  resubmitStale env latest
  submitPending env latest

def advanceIfNew (env : Env) (previous : Option BlockStatus) (status : BlockStatus) : LoggedTask Unit :=
  if previous.all (·.latest < status.latest) then do
    if 0 < (← lift (read (·.countOutstanding status.latest))) then advance env status.latest
  else return

def updateBlockStatus (env : Env) (status : BlockStatus) : LoggedTask Unit := do
  let previous := (← get).frame.queue.blockStatus
  if previous = some status then return
  lift (observe previous status)
  lift (pruneStorage env previous status)
  lift (unmarkReplaced env previous status)
  advanceIfNew env previous status

def perform (env : Env) : Operation → LoggedTask Unit
  | .queue transactions => queue env transactions
  | .updateBlockStatus status => updateBlockStatus env status

end Logged

/-- How a call ended, and what it has executed and sent. -/
structure LoggedOutput where
  output : Output
  sent : List Sent

/-- A step of the queue, with a log. -/
def loggedStep (setup : Setup) (queue : Queue) (input : Input) : Queue × LoggedOutput :=
  match input with
  | .restart => (queue.restarted, ⟨⟨.ok (), []⟩, []⟩)
  | .call operation answers stopsAfter =>
      let (result, logged) := Logged.perform ⟨setup, answers, stopsAfter⟩ operation ⟨⟨queue, [], 0⟩, []⟩
      (surviving logged.frame.queue result, ⟨⟨result, logged.frame.statements⟩, logged.sent⟩)

end Queue

end Safenet.Core.Tx
