/-
The store of engine verdicts, `sentinel/src/verdicts.rs`, and the effect handler that is the only one
to use it, `sentinel/src/effect.rs`.

The store is not rolled back with the state.  A check reads it, asks the engine if there is no verdict
yet, and records the answer; other checks of the same request, and prunes, may come between.  A
statement on the database may fail before or after it takes effect (`Fault`).
-/
import Safenet.Lib.Fallible
import Safenet.Lib.Trace
import Safenet.Sentinel.Service

namespace Safenet.Sentinel

open Contracts (Keccak)
open Fallible (require)

/-! ### The store -/

/-- A row of `engine_verdicts`; an approving verdict has no rule. -/
structure VerdictRow where
  block : Nat
  rule : Option String
deriving DecidableEq, Repr

/-- The row of a verdict that is seen in another block. -/
def VerdictRow.seen (row : VerdictRow) (block : Nat) : VerdictRow :=
  { row with block := max row.block block }

/-- The rows by request id. -/
abbrev VerdictStore := Table B256 VerdictRow

/-- `verdicts::Error`. -/
inductive VerdictError where
  | database
  | invalidRule (rule : String)
  | overflow
deriving DecidableEq, Repr

namespace VerdictStore

/-- `i64::try_from`. -/
def storedBlock (block : Nat) : Except VerdictError Nat := do
  require (block < 2 ^ 63) .overflow
  return block

def decode : Option String → Except VerdictError CheckOutcome
  | none => .ok .approved
  | some rule =>
      match RuleId.parse rule with
      | some id => .ok (.denied id)
      | none => .error (.invalidRule rule)

/-- Returns the recorded verdict, which is then kept as long as one of this block. -/
def get (store : VerdictStore) (requestId : B256) (block : Nat) :
    VerdictStore × Except VerdictError (Option CheckOutcome) :=
  match storedBlock block with
  | .error error => (store, .error error)
  | .ok block =>
      match store.lookup requestId with
      | none => (store, .ok none)
      | some row => (store.insert requestId (VerdictRow.seen row block), (decode row.rule).map some)

/-- The column `rule` of a verdict. -/
def ruleOf : CheckOutcome → Option (Option String)
  | .approved => some none
  | .denied rule => some (some rule.toString)
  | .unknown => none

/-- Records a verdict unless there is one, and returns the recorded one. -/
def record (store : VerdictStore) (requestId : B256) (block : Nat) (outcome : CheckOutcome) :
    VerdictStore × Except VerdictError CheckOutcome :=
  match ruleOf outcome with
  | none => (store, .ok outcome)
  | some rule =>
      match storedBlock block with
      | .error error => (store, .error error)
      | .ok block =>
          let row := ((store.lookup requestId).map (VerdictRow.seen · block)).getD ⟨block, rule⟩
          (store.insert requestId row, decode row.rule)

/-- Removes the verdicts of proposals last seen below the safe block. -/
def prune (store : VerdictStore) (safeBlock : Nat) : VerdictStore × Except VerdictError Nat :=
  match storedBlock safeBlock with
  | .error error => (store, .error error)
  | .ok safeBlock =>
      let kept := store.filter fun _ row => !decide (row.block < safeBlock)
      (kept, .ok (store.rows.length - kept.rows.length))

end VerdictStore

/-! ### The handler -/

/-- When a statement on the database fails. -/
inductive Fault where
  | before
  | after
deriving DecidableEq, Repr

/-- The result of a statement on the database. -/
def Fault.result {α : Type} (fault : Option Fault) (store : VerdictStore)
    (result : VerdictStore × Except VerdictError α) : VerdictStore × Except VerdictError α :=
  match fault with
  | none => result
  | some .before => (store, .error .database)
  | some .after => (result.1, .error .database)

namespace Handler

/-- `engine_check` up to the request to the engine, or to its end if it makes none. -/
def readVerdict (verdicts : VerdictStore) (requestId : B256) (block : Nat) (fault : Option Fault) :
    VerdictStore × Option CheckOutcome :=
  let (verdicts, read) := Fault.result fault verdicts (VerdictStore.get verdicts requestId block)
  match read with
  | .ok (some outcome) => (verdicts, some outcome)
  | .ok none => (verdicts, none)
  | .error _ => (verdicts, some .unknown)

/-- `engine_check` from the answer of the engine on. -/
def recordVerdict (verdicts : VerdictStore) (requestId : B256) (block : Nat) (outcome : CheckOutcome)
    (fault : Option Fault) : VerdictStore × CheckOutcome :=
  let (verdicts, recorded) :=
    Fault.result fault verdicts (VerdictStore.record verdicts requestId block outcome)
  match recorded with
  | .ok outcome => (verdicts, outcome)
  | .error _ => (verdicts, .unknown)

def housekeeping (verdicts : VerdictStore) (safe : Nat) (fault : Option Fault) : VerdictStore :=
  (Fault.result fault verdicts (VerdictStore.prune verdicts safe)).1

end Handler

/-! ### Concurrent checks -/

/-- A check of a proposal seen in a block. -/
structure Check where
  requestId : B256
  block : Nat
deriving DecidableEq, Repr

/-- A sentinel with its checks. -/
structure System where
  verdicts : VerdictStore
  /-- The checks that wait for the engine. -/
  running : List Check
  /-- What the checks resumed with. -/
  resumed : List (B256 × CheckOutcome)
  state : State
  /-- Every state there has been. -/
  states : List State
deriving DecidableEq

namespace System

def start : System := ⟨.empty, [], [], .empty, [.empty]⟩

/-- What happens next. -/
inductive Input where
  | starts (check : Check) (fault : Option Fault)
  /-- The engine has answered. -/
  | records (check : Check) (outcome : CheckOutcome) (fault : Option Fault)
  | housekeeping (safe : Nat) (fault : Option Fault)
  | message (message : Message)
  | rollback (state : State)
  | restart (state : State)

/-- A message can resume only with what a check resumed with. -/
def delivers (system : System) : Message → Bool
  | .resume (.engineCheckResult requestId outcome) => (requestId, outcome) ∈ system.resumed
  | _ => true

variable (keccak256 : Keccak) (t : SentinelTransition)

/-- One step; what is out of order does nothing.  A check may start at any time, a resume is delivered
late, never or again, and the state goes back to any earlier one. -/
def step (system : System) : Input → System × List Command
  | .starts check fault =>
      let (verdicts, outcome) :=
        Handler.readVerdict system.verdicts check.requestId check.block fault
      match outcome with
      | some outcome =>
          ({ system with verdicts, resumed := (check.requestId, outcome) :: system.resumed }, [])
      | none => ({ system with verdicts, running := check :: system.running }, [])
  | .records check outcome fault =>
      if check ∈ system.running then
        let (verdicts, outcome) :=
          Handler.recordVerdict system.verdicts check.requestId check.block outcome fault
        ({ system with
            verdicts
            running := system.running.erase check
            resumed := (check.requestId, outcome) :: system.resumed }, [])
      else (system, [])
  | .housekeeping safe fault =>
      ({ system with verdicts := Handler.housekeeping system.verdicts safe fault }, [])
  | .message message =>
      if system.delivers message then
        let (state, commands) := t.applyTransition keccak256 system.state message
        ({ system with state, states := state :: system.states }, commands)
      else (system, [])
  | .rollback state =>
      if state ∈ system.states then ({ system with state }, []) else (system, [])
  | .restart state =>
      if state ∈ system.states then ({ system with state, running := [] }, [])
      else (system, [])

end System

end Safenet.Sentinel
