/-
The watcher of `core/src/index/mod.rs`: the block watcher and the event watcher together.

A call of `next` is a future that its caller may drop whenever it waits (`Pause`); the driver does
so when an effect completes first.  Where a call is dropped, and what the node answers to its
requests, are inputs of the call.  The requests of a call about blocks are counted from its
beginning.
-/
import Safenet.Core.BlockWatcher
import Safenet.Core.EventWatcher

namespace Safenet.Core

/-- What a call waits for. -/
inductive Pause where
  | logs
  | headers
  | revalidation
  | block
deriving DecidableEq, Repr

namespace EventWatcher

/-- `is_resource_not_found`. -/
def Error.isResourceNotFound : Error → Bool
  | .rpc error => error.code = some (-32001)
  | _ => false

/-- Whether fetching the logs makes a request at all. -/
def requestsLogs (watcher : EventWatcher) : Fetch → Bool
  | .multipleQueries _ => !watcher.topics.isEmpty
  | _ => true

variable (keccak256 : Bytes → B256)

/-- Whether `next` waits there. -/
def waitsAt (watcher : EventWatcher) (answers : Answers) : Pause → Bool
  | .logs =>
      match watcher.step with
      | .warping _ _ pageSize none => 1 < pageSize.val || !watcher.topics.isEmpty
      | .block _ hash _ logsBloom retries =>
          watcher.requestsLogs (blockFetch watcher.config hash logsBloom retries)
      | _ => false
  | .headers =>
      match watcher.step with
      | .warping fromBlock toBlock pageSize fetched =>
          match watcher.currentPage keccak256 answers fromBlock toBlock pageSize fetched with
          | .ok page => !(missingTimestamps page.logs page.blockTimestamps).isEmpty
          | .error _ => false
      | _ => false
  | .revalidation | .block => false

end EventWatcher

/-- Watches the head of the chain and the logs. -/
structure Watcher where
  blocks : BlockWatcher
  events : EventWatcher
deriving DecidableEq

namespace Watcher

inductive Error where
  | blocks (error : BlockWatcher.Error)
  | events (error : EventWatcher.Error)
deriving DecidableEq, Repr

/-- The inputs of a call of `next`. -/
structure Call where
  answers : EventWatcher.Answers
  node : Node
  /-- How often the pending block is asked for until the call is dropped. -/
  attempts : Nat
  /-- Where the call is dropped if it waits there. -/
  dropped : Option Pause

/-- What comes of a call. -/
inductive Outcome (E : Type) where
  | update (update : Update E)
  | failed (error : Error)
  | dropped (pause : Pause)
  /-- The watcher is gone. -/
  | stopped
deriving DecidableEq, Repr

variable {E : Type} (events : Events E) (keccak256 : Bytes → B256)

/-- Creates a watcher of the logs of some contracts, from a watcher of the chain that has started. -/
def new (blocks : BlockWatcher) (config : EventWatcher.Config) (addresses : List Address) :
    Watcher where
  blocks
  events := EventWatcher.new events config addresses

/-- The watcher at the beginning of a call. -/
def counted (blocks : BlockWatcher) : BlockWatcher := { blocks with requests := 0 }

/-- Advances the head of the chain, once there are no logs left to fetch. -/
def nextBlock (watcher : Watcher) (call : Call) : Watcher × Outcome E :=
  match watcher.blocks.next call.node call.attempts with
  | (blocks, .error error) => ({ watcher with blocks }, .failed (.blocks error))
  | (blocks, .ok none) => ({ watcher with blocks }, .dropped .block)
  | (blocks, .ok (some update)) =>
      match watcher.events.onBlockUpdate update with
      | .error error => ({ watcher with blocks }, .failed (.events error))
      | .ok events => ({ blocks, events }, .update (.block update))

/-- The logs of a block are not available: checks that it is still canonical. -/
def recover (watcher : Watcher) (call : Call) (error : EventWatcher.Error) : Watcher × Outcome E :=
  if call.dropped = some .revalidation ∧ watcher.blocks.lastReported.isSome then
    (watcher, .dropped .revalidation)
  else
    match watcher.blocks.revalidateLastBlock call.node with
    | (blocks, .error error) => ({ watcher with blocks }, .failed (.blocks error))
    | (blocks, .ok none) => ({ watcher with blocks }, .failed (.events error))
    | (blocks, .ok (some invalidated)) =>
        match watcher.events.onBlockInvalidated invalidated.hash with
        | .error error => ({ watcher with blocks }, .failed (.events error))
        | .ok events => nextBlock { blocks, events } call

/-- The next update. -/
def next (watcher : Watcher) (call : Call) : Watcher × Outcome E :=
  let watcher := { watcher with blocks := counted watcher.blocks }
  match call.dropped.filter (watcher.events.waitsAt keccak256 call.answers) with
  | some pause => (watcher, .dropped pause)
  | none =>
      match watcher.events.next events keccak256 call.answers with
      | (events, .ok (some update)) => ({ watcher with events }, .update (.logs update))
      | (events, .ok none) => nextBlock { watcher with events } call
      | (events, .error error) =>
          if error.isResourceNotFound then recover { watcher with events } call error
          else ({ watcher with events }, .failed (.events error))

/-- A call of the watcher, if it is still there. -/
def step (watcher : Option Watcher) (call : Call) : Option Watcher × Outcome E :=
  match watcher with
  | none => (none, .stopped)
  | some watcher =>
      match next events keccak256 watcher call with
      | (_, .failed (.blocks .panicked)) => (none, .failed (.blocks .panicked))
      | (watcher, outcome) => (some watcher, outcome)

end Watcher

end Safenet.Core
