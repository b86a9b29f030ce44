/-
The reorg-aware state machine of `core/src/state/mod.rs`.

The machine is generic in the service: its state, its events, the resumes of its
effects, its actions and its effects.  The service itself is the
`StateTransition`, a total function.  The lock around the live state is modelled
by its content: `none` is the poisoned state in which a failed update leaves the
machine, since `handle_update` takes the content out and only puts it back on
success.
-/
import Safenet.Core.SnapshotStore

namespace Safenet.Core

open Fallible (require)

/-- An input that makes the service progress. -/
inductive Message (Event Resume : Type) where
  /-- The next block that actions can be included in. -/
  | newBlock (number : Nat)
  | event (log : EventLog Event)
  /-- The result of an effect. -/
  | resume (result : Resume)
deriving DecidableEq, Repr

/-- What a transition asks for. -/
inductive Command (Action Effect : Type) where
  /-- Something to execute onchain. -/
  | action (action : Action)
  /-- Something to perform and to resume from. -/
  | effect (effect : Effect)
deriving DecidableEq, Repr

/-- The transition function of a service.  It cannot fail. -/
structure StateTransition (S Event Resume Action Effect : Type) where
  applyTransition : S → Message Event Resume → S × List (Command Action Effect)

namespace StateMachine

/-- Why an update was refused. -/
inductive Error where
  | storage (error : SnapshotStore.Error)
  /-- The block number after the last one does not exist. -/
  | endOfChain
  /-- The update is out of order or has unexpected data. -/
  | badUpdate
  /-- A previous update failed. -/
  | poisoned
deriving DecidableEq, Repr

/-- Which update the machine expects next. -/
inductive Status where
  | initialized
  | blockPending (pending : Nat)
  | blockApplied (pending : Nat)
  | blockEvents (latest : Nat)
  | warpEvents (range : BlockRange)
deriving DecidableEq, Repr

/-- `number.checked_add(1)` on `u64`. -/
def nextBlock (number : Nat) : Except Error Nat :=
  if number + 1 < 2 ^ 64 then .ok (number + 1) else .error .endOfChain

/-- The range `first..=last`, refused when it is empty. -/
def blockRange (first last : Nat) : Except Error BlockRange :=
  if first ≤ last then .ok ⟨first, last⟩ else .error .badUpdate

/-- `sub` is a prefix of `range`. -/
def isNextInRange (range sub : BlockRange) : Bool :=
  range.start = sub.start && range.contains sub.last

end StateMachine

/-- The live state with its status, and the persisted snapshots. -/
structure StateMachine (S : Type) where
  inner : Option (S × StateMachine.Status)
  snapshots : SnapshotStore S

namespace StateMachine

variable {S Event Resume Action Effect : Type}

/-- Opens the machine on a database: it resumes from the latest snapshot if there is one. -/
def withInit (snapshots : SnapshotStore S) (init : S) : Except Error (StateMachine S) := do
  match snapshots.current with
  | some (latest, state) =>
      let pending ← nextBlock latest
      return { inner := some (state, .blockPending pending), snapshots }
  | none => return { inner := some (init, .initialized), snapshots }

/-- The bounds of the persisted snapshots. -/
def blockStatus (machine : StateMachine S) : Option BlockStatus := machine.snapshots.status

section Transition

variable (transition : StateTransition S Event Resume Action Effect)

/-- Applies one message and appends its commands. -/
def accumulateTransition (state : S) (commands : List (Command Action Effect))
    (message : Message Event Resume) : S × List (Command Action Effect) :=
  let (state, newCommands) := transition.applyTransition state message
  (state, commands ++ newCommands)

/-- The `while let` loop: applies the leading logs of `block` and leaves the others. -/
def applyLogs (block : Nat) : S → List (Command Action Effect) → List (EventLog Event) →
    S × List (Command Action Effect) × List (EventLog Event)
  | state, commands, [] => (state, commands, [])
  | state, commands, log :: logs =>
      if log.block.number = block then
        let (state, commands) := accumulateTransition transition state commands (.event log)
        applyLogs block state commands logs
      else (state, commands, log :: logs)

/-- The `for` loop over the blocks of a page of logs. -/
def applyBlocks (warping : Bool) : List Nat → S → List (Command Action Effect) →
    List (EventLog Event) → S × List (Command Action Effect)
  | [], state, commands, _ => (state, commands)
  | block :: blocks, state, commands, logs =>
      let (state, commands) :=
        if warping then accumulateTransition transition state commands (.newBlock block)
        else (state, commands)
      let (state, commands, logs) := applyLogs transition block state commands logs
      applyBlocks warping blocks state commands logs

/-- `(a.block.number, a.index) < (b.block.number, b.index)`. -/
def logBefore (a b : EventLog Event) : Bool :=
  a.block.number < b.block.number || (a.block.number = b.block.number && a.index < b.index)

/-- `logs.is_sorted_by(..)`: every log is before its successor. -/
def isSorted : List (EventLog Event) → Bool
  | a :: b :: logs => logBefore a b && isSorted (b :: logs)
  | _ => true

/-- The guard of the `Warp` arm. -/
def acceptsWarp (status : Status) (first : Nat) : Bool :=
  match status with
  | .initialized => true
  | .blockPending pending => pending = first
  | _ => false

/-- The guard of the `Uncle` arm. -/
def acceptsUncle (status : Status) (number : Nat) : Bool :=
  match status with
  | .blockPending pending => number < pending
  | .blockApplied pending => number < pending
  | .blockEvents latest => number ≤ latest
  | _ => false

/-- The guard of the `New` arm. -/
def acceptsNew (status : Status) (number : Nat) : Bool :=
  match status with
  | .initialized => true
  | .blockPending pending => pending = number
  | .blockApplied pending => pending = number
  | _ => false

/-- The guard of the `Logs` arm. -/
def acceptsLogs (status : Status) (blocks : BlockRange) : Bool :=
  match status with
  | .blockEvents latest => isNextInRange ⟨latest, latest⟩ blocks
  | .warpEvents range => isNextInRange range blocks
  | _ => false

/-- Whether the machine is inside a warp. -/
def isWarping : Status → Bool
  | .warpEvents _ => true
  | _ => false

/-- The status after a page of logs, before the pending block is applied. -/
def statusAfterLogs (status : Status) (blocks : BlockRange) : Except Error Status :=
  match status with
  | .warpEvents range =>
      if blocks.last < range.last then do
        let first ← nextBlock blocks.last
        let range ← blockRange first range.last
        return .warpEvents range
      else do
        let pending ← nextBlock blocks.last
        return .blockPending pending
  | _ => do
      let pending ← nextBlock blocks.last
      return .blockPending pending

/-- The `Logs` arm. -/
def handleLogs (snapshots : SnapshotStore S) (state : S) (status : Status)
    (update : EventUpdate Event) :
    Except Error (SnapshotStore S × S × Status × List (Command Action Effect)) := do
  require (isSorted update.logs &&
    !update.logs.any fun log => !update.blocks.contains log.block.number) .badUpdate
  let (state, commands) :=
    applyBlocks transition (isWarping status) update.blocks.blocks state [] update.logs
  let status ← statusAfterLogs status update.blocks
  let snapshots ← (snapshots.commit update.blocks.last state).mapError .storage
  -- The pending block is applied after the snapshot was committed, so a restart
  -- replays it when the block is observed.
  match status with
  | .blockPending pending =>
      let (state, commands) :=
        accumulateTransition transition state commands (.newBlock pending)
      return (snapshots, state, .blockApplied pending, commands)
  | status => return (snapshots, state, status, commands)

/-- The match over the update: the new store, state, status and the commands. -/
def applyUpdate (snapshots : SnapshotStore S) (state : S) (status : Status)
    (update : Update Event) :
    Except Error (SnapshotStore S × S × Status × List (Command Action Effect)) :=
  match update with
  | .block (.warp first last) =>
      if acceptsWarp status first then do
        let range ← blockRange first last
        return (snapshots, state, .warpEvents range, [])
      else .error .badUpdate
  | .block (.uncle number) =>
      if acceptsUncle status number then do
        let (snapshots, _, state) ← (snapshots.reorg number).mapError .storage
        return (snapshots, state, .blockPending number, [])
      else .error .badUpdate
  | .block (.new number _ _ _) =>
      if acceptsNew status number then
        -- The block's transition may have been applied with the previous logs.
        match status with
        | .blockApplied _ => return (snapshots, state, .blockEvents number, [])
        | _ =>
            let (state, commands) := transition.applyTransition state (.newBlock number)
            return (snapshots, state, .blockEvents number, commands)
      else .error .badUpdate
  | .logs update =>
      if acceptsLogs status update.blocks then handleLogs transition snapshots state status update
      else .error .badUpdate

/-- Handles an indexer update.  A refused update poisons the machine. -/
def handleUpdate (machine : StateMachine S) (update : Update Event) :
    StateMachine S × Except Error (List (Command Action Effect)) :=
  match machine.inner with
  | none => (machine, .error .poisoned)
  | some (state, status) =>
      match applyUpdate transition machine.snapshots state status update with
      | .error error => ({ machine with inner := none }, .error error)
      | .ok (snapshots, state, status, commands) =>
          ({ inner := some (state, status), snapshots }, .ok commands)

/-- Applies the result of an effect to the live state only. -/
def handleResume (machine : StateMachine S) (resume : Resume) :
    StateMachine S × Except Error (List (Command Action Effect)) :=
  match machine.inner with
  | none => (machine, .error .poisoned)
  | some (state, status) =>
      let (state, commands) := transition.applyTransition state (.resume resume)
      ({ machine with inner := some (state, status) }, .ok commands)

end Transition

/-- Prunes the snapshots older than `safe`. -/
def prune (machine : StateMachine S) (safe : Nat) : StateMachine S × Except Error Unit :=
  match machine.snapshots.prune safe with
  | .error error => (machine, .error (.storage error))
  | .ok snapshots => ({ machine with snapshots }, .ok ())

end StateMachine

end Safenet.Core
