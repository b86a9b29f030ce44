/-
The block watcher of `core/src/index/blocks.rs`.

What the node answers is not under the watcher's control and may change between any two
requests.  A `Node` is therefore a function of the number of requests made so far; every
reorg, at any moment, is one.

Two loops of the source depend on the node and need not end: the scan of `initialize`, which
starts over when it sees a reorg, and the wait for a block in `next`.  Both are run for a given
number of rounds.  For `next` that is also what a caller does who stops waiting.

Sleeping has no effect on the state and is left out.  Block numbers and timestamps are `u64`
values, kept as `Nat`; a sum or product that does not fit panics, which is the end of the
watcher.
-/
import Safenet.Core.Index
import Safenet.Lib.Fallible
import Safenet.Lib.Loop

namespace Safenet.Core

/-- The fields of a block header the indexer needs. -/
structure BlockHeader where
  number : Nat
  hash : B256
  parentHash : B256
  timestamp : Nat
  logsBloom : Bloom
deriving DecidableEq, Repr

/-- The update that announces the block. -/
def BlockHeader.update (block : BlockHeader) : BlockUpdate :=
  .new block.number block.hash block.timestamp block.logsBloom

/-- How a block is asked for. -/
inductive BlockId where
  | latest
  | number (number : Nat)
deriving DecidableEq, Repr

/-- An answer of the node. -/
inductive Answer where
  | failed
  | missing
  | found (block : BlockHeader)
deriving DecidableEq, Repr

/-- The answer to the request that comes after so many others. -/
abbrev Node := Nat → BlockId → Answer

namespace BlockWatcher

inductive Error where
  /-- An RPC request failed. -/
  | rpc
  /-- Automatic timings are not supported for the connected chain. -/
  | unknownChainTimings (chainId : Nat)
  /-- A block at or below the chain head was missing. -/
  | missingBlock (id : BlockId)
  /-- A reorg replaced a block already assumed final. -/
  | exceededMaxReorgDepth (depth : Nat)
  /-- A value did not fit into 64 bits, or an expectation of the code failed. -/
  | panicked
deriving DecidableEq, Repr

/-- A value that fits into a `u64`. -/
def checked (n : Nat) : Except Error Nat := if n < 2 ^ 64 then .ok n else .error .panicked

/-! ### Configuration -/

/-- A timing, in milliseconds. -/
inductive Timing (α : Type) where
  | auto
  | millis (value : α)
deriving DecidableEq, Repr

def Timing.resolve {α : Type} (timing : Timing α) (chainId : Nat) (default : Option α) :
    Except Error α :=
  match timing, default with
  | .millis value, _ => .ok value
  | .auto, some value => .ok value
  | .auto, none => .error (.unknownChainTimings chainId)

/-- Timings resolved for a chain, in milliseconds. -/
structure Timings where
  blockTime : Nat
  blockPropagationDelay : Nat
  blockRetryDelays : List Nat
deriving DecidableEq, Repr

def Timings.forChain (chainId : Nat) : Option Timings :=
  if chainId = 100 then some ⟨5000, 500, [500, 500, 500, 1000, 250, 250]⟩
  else if chainId = 11155111 then some ⟨12000, 1000, [1000, 1000, 1000, 500, 500]⟩
  else none

structure Config where
  blockTime : Timing Nat
  blockPropagationDelay : Timing Nat
  blockRetryDelays : Timing (List Nat)
  /-- How many of the most recent blocks may still be replaced. -/
  maxReorgDepth : Nat
  /-- Where a fresh index begins. -/
  startBlock : Option Nat
deriving DecidableEq, Repr

def Config.timings (config : Config) (chainId : Nat) : Except Error Timings := do
  let timings := Timings.forChain chainId
  let blockTime ← config.blockTime.resolve chainId (timings.map Timings.blockTime)
  let blockPropagationDelay ←
    config.blockPropagationDelay.resolve chainId (timings.map Timings.blockPropagationDelay)
  let blockRetryDelays ←
    config.blockRetryDelays.resolve chainId (timings.map Timings.blockRetryDelays)
  return { blockTime, blockPropagationDelay, blockRetryDelays }

/-- The next block to fetch, and when it is expected. -/
structure PendingBlock where
  number : Nat
  timestampMs : Nat
deriving DecidableEq, Repr

/-- The highest block outside the reorg window. -/
structure SafeBlock where
  number : Nat
  hash : B256
deriving DecidableEq, Repr

/-- A block that is no longer canonical. -/
structure InvalidatedBlock where
  number : Nat
  hash : B256
deriving DecidableEq, Repr

end BlockWatcher

open BlockWatcher in
/-- Watches the head of the chain. -/
structure BlockWatcher where
  config : Config
  timings : Timings
  pending : PendingBlock
  safe : SafeBlock
  /-- The blocks after `safe`, oldest first. -/
  recent : List BlockHeader
  queue : List BlockUpdate
  /-- How many requests were made. -/
  requests : Nat
deriving DecidableEq, Repr

namespace BlockWatcher

/-! ### Asking the node -/

section Node

variable (node : Node)

def getBlock (requests : Nat) (id : BlockId) : Except Error (Option BlockHeader) :=
  match node requests id with
  | .failed => .error .rpc
  | .missing => .ok none
  | .found block => .ok (some block)

def requireBlock (requests : Nat) (id : BlockId) : Except Error BlockHeader := do
  match ← getBlock node requests id with
  | some block => return block
  | none => throw (.missingBlock id)

/-- `update_next_pending_block`. -/
def nextPendingBlock (timings : Timings) (number timestamp : Nat) : Except Error PendingBlock := do
  let number ← checked (number + 1)
  let timestampMs ← checked (timestamp * 1000)
  let timestampMs ← checked (timestampMs + timings.blockTime)
  return { number, timestampMs }

/-! ### Initialisation -/

/-- The state of the range scan. -/
structure Scan where
  number : Nat
  parentHash : Option B256
  /-- The latest block, while it is known to be canonical. -/
  canonicalLatest : Option BlockHeader
  recent : List BlockHeader
  requests : Nat
deriving DecidableEq, Repr

/-- The block the scan looks at next; the latest one is not fetched a second time. -/
def Scan.fetch (latestNumber : Nat) (scan : Scan) : Except Error (BlockHeader × Nat) :=
  match if scan.number = latestNumber then scan.canonicalLatest else none with
  | some block => return (block, scan.requests)
  | none => do
      let block ← requireBlock node scan.requests (.number scan.number)
      return (block, scan.requests + 1)

/-- One round of the scan of `safe..=latestNumber`. -/
def Scan.round (safe latestNumber : Nat) (scan : Scan) : Except Error Scan := do
  let (block, requests) ← scan.fetch node latestNumber
  if scan.parentHash.all (· = block.parentHash) then
    return { number := scan.number + 1
             parentHash := some block.hash
             canonicalLatest := if scan.number = latestNumber then none else scan.canonicalLatest
             recent := scan.recent ++ [block]
             requests }
  else
    -- a reorg in between: start over, and do not trust the latest block any more
    return { number := safe, parentHash := none, canonicalLatest := none, recent := [], requests }

/-- Whether the scan goes on. -/
def Scan.isRunning (latestNumber : Nat) (scan : Except Error Scan) : Bool :=
  match scan with
  | .ok scan => scan.number ≤ latestNumber
  | .error _ => false

/-- What is reported before the recent blocks: a synthetic reorg and a warp when resuming, a warp
when a start block is configured. -/
def initialUpdates (config : Config) (indexed : Option BlockStatus) (safe : Nat) :
    List BlockUpdate :=
  match indexed with
  | some indexed =>
      let uncle := indexed.safe + 1
      if uncle < 2 ^ 64 then
        (if uncle ≤ indexed.latest then [.uncle uncle] else []) ++
          (if uncle ≤ safe then [.warp uncle safe] else [])
      else []
  | none =>
      match config.startBlock with
      | some startBlock => if startBlock ≤ safe then [.warp startBlock safe] else []
      | none => []

/-- Whether a recent block is still to be reported. -/
def isUnprocessed (config : Config) (indexed : Option BlockStatus) (block : BlockHeader) : Bool :=
  match indexed with
  | some indexed => indexed.safe + 1 < 2 ^ 64 && indexed.safe + 1 ≤ block.number
  | none => config.startBlock.all fun startBlock => startBlock ≤ block.number

/-- `initialize`; nothing if the scan does not end within `fuel` rounds. -/
def start (config : Config) (timings : Timings) (indexed : Option BlockStatus) (fuel : Nat) :
    Option (Except Error BlockWatcher) :=
  match (do
    let latest ← requireBlock node 0 .latest
    let pending ← nextPendingBlock timings latest.number latest.timestamp
    return (latest, pending)) with
  | .error error => some (.error error)
  | .ok (latest, pending) => do
      let safe := latest.number - config.maxReorgDepth
      let scan ← Loop.iterate (Scan.isRunning latest.number)
        (fun scan => scan >>= Scan.round node safe latest.number) fuel
        (.ok { number := safe, parentHash := none, canonicalLatest := some latest, recent := [],
               requests := 1 })
      match scan with
      | .error error => some (.error error)
      | .ok scan =>
          match scan.recent with
          -- the scan always includes the safe block
          | [] => some (.error .panicked)
          | anchor :: recent => some (.ok
              { config, timings, pending
                safe := ⟨anchor.number, anchor.hash⟩
                recent
                queue := initialUpdates config indexed safe ++
                  (recent.filter (isUnprocessed config indexed)).map BlockHeader.update
                requests := scan.requests })

/-- Creates a watcher for the chain. -/
def new (config : Config) (chainId : Nat) (indexed : Option BlockStatus) (fuel : Nat) :
    Option (Except Error BlockWatcher) :=
  match config.timings chainId with
  | .error error => some (.error error)
  | .ok timings => start node config timings indexed fuel

/-- The watcher's view of the latest and the safe block. -/
def status (watcher : BlockWatcher) : BlockStatus :=
  { latest := watcher.pending.number - 1, safe := watcher.safe.number }

/-! ### Following the chain -/

/-- Waits for the pending block, for some attempts. -/
def poll : Nat → Nat → BlockWatcher → BlockWatcher × Except Error (Option BlockHeader)
  | 0, _, watcher => (watcher, .ok none)
  | attempts + 1, retryCount, watcher =>
      let asked := { watcher with requests := watcher.requests + 1 }
      match getBlock node watcher.requests (.number watcher.pending.number) with
      | .error error => (asked, .error error)
      | .ok (some block) => (asked, .ok (some block))
      | .ok none =>
          -- once the retry delays are exhausted, wait for the next slot
          if retryCount % (watcher.timings.blockRetryDelays.length + 1) <
              watcher.timings.blockRetryDelays.length then
            poll attempts (retryCount + 1) asked
          else
            match checked (watcher.pending.timestampMs + watcher.timings.blockTime) with
            | .error error => (asked, .error error)
            | .ok timestampMs =>
                poll attempts (retryCount + 1)
                  { asked with pending := { watcher.pending with timestampMs } }

/-- Removes the last block, to fetch its replacement. -/
def uncleLast (watcher : BlockWatcher) (last : BlockHeader) : BlockWatcher × Except Error BlockUpdate :=
  match checked (last.timestamp * 1000) with
  | .error error => (watcher, .error error)
  | .ok timestampMs =>
      ({ watcher with
          recent := watcher.recent.dropLast
          pending := { number := last.number, timestampMs } }, .ok (.uncle last.number))

/-- Records a new block; the oldest one of a full window becomes the safe block. -/
def record (watcher : BlockWatcher) (block : BlockHeader) : BlockWatcher × Except Error BlockUpdate :=
  match nextPendingBlock watcher.timings block.number block.timestamp with
  | .error error => (watcher, .error error)
  | .ok pending =>
      let recent := watcher.recent ++ [block]
      let watcher := { watcher with pending, recent }
      if watcher.config.maxReorgDepth < recent.length then
        match recent with
        | [] => (watcher, .ok block.update)
        | evicted :: rest =>
            ({ watcher with safe := ⟨evicted.number, evicted.hash⟩, recent := rest },
              .ok block.update)
      else (watcher, .ok block.update)

/-- Follows the chain by the block that was fetched. -/
def receive (watcher : BlockWatcher) (block : BlockHeader) :
    BlockWatcher × Except Error BlockUpdate :=
  match watcher.recent.getLast? with
  | some last =>
      if last.hash ≠ block.parentHash then uncleLast watcher last else record watcher block
  | none =>
      if watcher.safe.hash ≠ block.parentHash then
        (watcher, .error (.exceededMaxReorgDepth watcher.config.maxReorgDepth))
      else record watcher block

/-- The next update; none if there is no new block after some attempts. -/
def next (watcher : BlockWatcher) (attempts : Nat) :
    BlockWatcher × Except Error (Option BlockUpdate) :=
  match watcher.queue with
  | update :: queue => ({ watcher with queue }, .ok (some update))
  | [] =>
      match poll node attempts 0 watcher with
      | (watcher, .error error) => (watcher, .error error)
      | (watcher, .ok none) => (watcher, .ok none)
      | (watcher, .ok (some block)) =>
          let (watcher, result) := receive watcher block
          (watcher, result.map some)

/-- The index of the last element with a property, `Iterator::rposition`. -/
def rposition {α : Type} (p : α → Bool) : List α → Option Nat
  | [] => none
  | a :: l =>
      match rposition p l with
      | some i => some (i + 1)
      | none => if p a then some 0 else none

/-- The number of the first block that is queued and not reported yet; nothing if the queue does not
begin with a block. -/
def nextNumber (queue : List BlockUpdate) : Option (Option Nat) :=
  match queue with
  | .new number _ _ _ :: _ => some (some number)
  | _ :: _ => none
  | [] => some none

/-- The block that is looked at again: the last one before the first queued block. -/
def lastReported (watcher : BlockWatcher) : Option BlockHeader :=
  (nextNumber watcher.queue).bind fun number =>
    (rposition (fun block => number.all (block.number < ·)) watcher.recent).bind
      fun index => watcher.recent[index]?

/-- Checks that the last block reported is still canonical, and drops it if it is not. -/
def revalidateLastBlock (watcher : BlockWatcher) :
    BlockWatcher × Except Error (Option InvalidatedBlock) :=
  match nextNumber watcher.queue with
  | none => (watcher, .ok none)
  | some nextNumber =>
      match rposition (fun block => nextNumber.all (block.number < ·)) watcher.recent with
      | none => (watcher, .ok none)
      | some lastIndex =>
          match watcher.recent[lastIndex]? with
          | none => (watcher, .ok none)
          | some last =>
              let asked := { watcher with requests := watcher.requests + 1 }
              match getBlock node watcher.requests (.number last.number) with
              | .error error => (asked, .error error)
              | .ok current =>
                  if current.map BlockHeader.hash = some last.hash then (asked, .ok none)
                  else
                    match checked (last.timestamp * 1000) with
                    | .error error => (asked, .error error)
                    | .ok timestampMs =>
                        ({ asked with
                            recent := watcher.recent.take lastIndex
                            pending := { number := last.number, timestampMs }
                            queue := [.uncle last.number] },
                          .ok (some ⟨last.number, last.hash⟩))

/-! ### Runs -/

inductive Input where
  | next (attempts : Nat)
  | revalidateLastBlock
deriving DecidableEq, Repr

inductive Output where
  | update (update : BlockUpdate)
  | waiting
  | revalidated (invalidated : Option InvalidatedBlock)
  | failed (error : Error)
  /-- The watcher is gone. -/
  | stopped
deriving DecidableEq, Repr

/-- What a panic leaves of the watcher. -/
def surviving (watcher : BlockWatcher) : Error → Option BlockWatcher
  | .panicked => none
  | _ => some watcher

/-- A call of the watcher, if it is still there. -/
def step (watcher : Option BlockWatcher) (input : Input) : Option BlockWatcher × Output :=
  match watcher with
  | none => (none, .stopped)
  | some watcher =>
      match input with
      | .next attempts =>
          match next node watcher attempts with
          | (watcher, .ok (some update)) => (some watcher, .update update)
          | (watcher, .ok none) => (some watcher, .waiting)
          | (watcher, .error error) => (surviving watcher error, .failed error)
      | .revalidateLastBlock =>
          match revalidateLastBlock node watcher with
          | (watcher, .ok invalidated) => (some watcher, .revalidated invalidated)
          | (watcher, .error error) => (surviving watcher error, .failed error)

end Node

end BlockWatcher

end Safenet.Core
