/-
The event watcher of `core/src/index/events.rs`.

What the node answers to the requests of one call is an input of that call (`Answers`): any query
may fail, and queries that are made concurrently may fail in any order.  A request does not see the
state of the watcher, so a call is a function of the watcher and the answers.

Warnings, metrics and the record of having warned have no effect on the updates and are left out.
Block numbers, indices and timestamps are `u64` values, kept as `Nat`.
-/
import Safenet.Core.Index
import Safenet.Lib.Ascending
import Safenet.Lib.Bytes
import Safenet.Lib.Fallible
import Safenet.Lib.Table
import Mathlib.Data.Prod.Lex

namespace Safenet.Core

open Fallible (require)

/-- A log as the node serves it. -/
structure Log where
  address : Address
  topics : List B256
  data : Bytes
  blockHash : Option B256
  blockNumber : Option Nat
  blockTimestamp : Option Nat
  logIndex : Option Nat
deriving DecidableEq, Repr

def Log.topic0 (log : Log) : Option B256 := log.topics.head?

/-- A typed set of events that logs are decoded into. -/
structure Events (E : Type) where
  /-- The signature hashes of the events in the set. -/
  topics : List B256
  decodeLog : List B256 → Bytes → Option E

/-- What is generated for the events of one contract, as a variant of the event set. -/
structure EventInterface (E : Type) where
  selectors : List B256
  decodeRawLog : List B256 → Bytes → Option E

/-- `watcher_events!`: the topics of all contracts, and the first one that decodes. -/
def watcherEvents {E : Type} (interfaces : List (EventInterface E)) : Events E where
  topics := interfaces.flatMap EventInterface.selectors
  decodeLog topics data := interfaces.findSome? fun events => events.decodeRawLog topics data

/-! ### Bloom filters -/

namespace Bloom

/-- Sets the three bits of an address or a topic. -/
def accrue (keccak256 : Bytes → B256) (bloom : Bloom) (raw : Bytes) : Bloom :=
  let hash := Bytes.word (keccak256 raw)
  let bit := fun i => Bytes.value ((hash.drop i).take 2) % 2048
  [0, 2, 4].foldl (fun bloom i => bloom ||| BitVec.ofNat 2048 (2 ^ bit i)) bloom

/-- The filter of one log more. -/
def accrueLog (keccak256 : Bytes → B256) (bloom : Bloom) (log : Log) : Bloom :=
  (Bytes.digits 20 log.address.toNat :: log.topics.map Bytes.word).foldl (accrue keccak256) bloom

/-- The filter of some logs. -/
def computeLogsBloom (keccak256 : Bytes → B256) (logs : List Log) : Bloom :=
  logs.foldl (accrueLog keccak256) 0

end Bloom

namespace EventWatcher

/-- A number other than zero. -/
abbrev NonZero := { n : Nat // 0 < n }

structure Config where
  /-- How many blocks are queried at once in a warp. -/
  blockPageSize : NonZero
  /-- How often the logs of a new block are fetched with a single query. -/
  blockSingleQueryRetryCount : NonZero
  useClientFiltering : Bool
  maxLogsPerQuery : Option NonZero
  /-- Events whose queries may fail. -/
  fallibleEvents : List B256
deriving DecidableEq, Repr

def Config.default : Config where
  blockPageSize := ⟨100, by decide⟩
  blockSingleQueryRetryCount := ⟨3, by decide⟩
  useClientFiltering := false
  maxLogsPerQuery := none
  fallibleEvents := []

/-- A failed request, with the code of the error response if there was one. -/
structure TransportError where
  code : Option Int
deriving DecidableEq, Repr

inductive Error where
  | rpc (error : TransportError)
  | decodeLog (blockHash : B256) (logIndex : Nat)
  | tooManyLogs
  | incompleteLogs (blockHash : B256)
  | missingBlock (blockNumber : Nat)
  | unexpectedBlockUpdate
  | unexpectedBlockInvalidation
deriving DecidableEq, Repr

/-! ### Asking the node -/

/-- The blocks a query is about. -/
inductive BlockFilter where
  | hash (hash : B256)
  | range (first last : Nat)
deriving DecidableEq, Repr

/-- A query; without addresses or topics it asks for any. -/
structure Filter where
  blocks : BlockFilter
  addresses : List Address
  topics : List B256
deriving DecidableEq, Repr

inductive HeaderAnswer where
  | failed (error : TransportError)
  | missing
  | found (timestamp : Nat)
deriving DecidableEq, Repr

/-- What the node answers to the requests of one call. -/
structure Answers where
  /-- By the position of the query in the call. -/
  getLogs : Nat → Filter → Except TransportError (List Log)
  getBlock : Nat → HeaderAnswer
  /-- Which of the failing queries that are made together fails first. -/
  firstFailure : Nat

/-- How the logs of some blocks are fetched. -/
inductive Fetch where
  | singleQuery (blocks : BlockFilter)
  | multipleQueries (blocks : BlockFilter)
  | clientFiltered (blockHash : B256) (logsBloom : Bloom)
deriving DecidableEq, Repr

/-- A page of a warp whose logs are fetched, with the timestamps known so far. -/
structure FetchedPage where
  toBlock : Nat
  logs : List Log
  blockTimestamps : Table Nat Nat
deriving DecidableEq

inductive Step where
  | idle
  | warping (fromBlock toBlock : Nat) (pageSize : NonZero) (fetched : Option FetchedPage)
  | block (number : Nat) (hash : B256) (timestamp : Nat) (logsBloom : Bloom) (retries : Nat)
deriving DecidableEq

end EventWatcher

open EventWatcher in
/-- Watches for the logs of a set of events. -/
structure EventWatcher where
  config : Config
  addresses : List Address
  topics : List B256
  step : Step
deriving DecidableEq

namespace EventWatcher

variable {E : Type} (events : Events E) (keccak256 : Bytes → B256)

def new (config : Config) (addresses : List Address) : EventWatcher where
  config
  addresses
  topics := events.topics
  step := .idle

/-! ### Fetching logs -/

/-- Refuses as many logs as the node may have cut off at. -/
def checkLogsLimit (watcher : EventWatcher) (logs : List Log) : Except Error (List Log) := do
  require (watcher.config.maxLogsPerQuery.all (logs.length < ·.val)) .tooManyLogs
  return logs

/-- A query for logs of the watched addresses with one of the topics. -/
def query (watcher : EventWatcher) (answers : Answers) (position : Nat) (blocks : BlockFilter)
    (topics : List B256) : Except Error (List Log) := do
  let logs ← (answers.getLogs position ⟨blocks, watcher.addresses, topics⟩).mapError .rpc
  watcher.checkLogsLimit logs

/-- `try_join_all`: all results, or the failure that came first. -/
def tryJoinAll {ε α : Type} (firstFailure : Nat) (results : List (Except ε α)) :
    Except ε (List α) :=
  match results.mapM id with
  | .ok values => .ok values
  | .error error =>
      let failures := results.filterMap fun
        | .ok _ => none
        | .error error => some error
      .error (failures[firstFailure % failures.length]?.getD error)

/-- A query for one event, which may fail if the event is not critical. -/
def queryEvent (watcher : EventWatcher) (answers : Answers) (blocks : BlockFilter) (position : Nat)
    (topic : B256) : Except Error (List Log) :=
  match watcher.query answers position blocks [topic] with
  | .ok logs => .ok logs
  | .error error => if topic ∈ watcher.config.fallibleEvents then .ok [] else .error error

/-- Whether the client keeps the log. -/
def isWatched (watcher : EventWatcher) (log : Log) : Bool :=
  log.address ∈ watcher.addresses && log.topic0.any (· ∈ watcher.topics)

/-- The watched logs of some blocks, in no particular order. -/
def fetchLogs (watcher : EventWatcher) (answers : Answers) (fetch : Fetch) :
    Except Error (List Log) :=
  match fetch with
  | .singleQuery blocks => watcher.query answers 0 blocks watcher.topics
  | .multipleQueries blocks => do
      let pages ← tryJoinAll answers.firstFailure
        (watcher.topics.mapIdx (watcher.queryEvent answers blocks))
      return pages.flatten
  | .clientFiltered blockHash logsBloom => do
      let logs ← (answers.getLogs 0 ⟨.hash blockHash, [], []⟩).mapError .rpc
      require (Bloom.computeLogsBloom keccak256 logs = logsBloom) (.incompleteLogs blockHash)
      return logs.filter watcher.isWatched

/-- The blocks whose timestamps are needed and not known. -/
def missingTimestamps (logs : List Log) (blockTimestamps : Table Nat Nat) : List Nat :=
  let numbers := (logs.filter (·.blockTimestamp.isNone)).filterMap Log.blockNumber
  (numbers.filter fun number => (blockTimestamps.lookup number).isNone).toFinset.ascending

/-- Adds one answer to the timestamps, and keeps the first error. -/
def addTimestamp (answers : Answers) (acc : Table Nat Nat × Option Error) (number : Nat) :
    Table Nat Nat × Option Error :=
  match answers.getBlock number with
  | .found timestamp => (acc.1.insert number timestamp, acc.2)
  | .missing => (acc.1, acc.2.or (some (.missingBlock number)))
  | .failed error => (acc.1, acc.2.or (some (.rpc error)))

/-- Fetches the timestamps that are missing; those that were found are kept when others fail. -/
def fetchMissingBlockTimestamps (answers : Answers) (logs : List Log)
    (blockTimestamps : Table Nat Nat) : Table Nat Nat × Option Error :=
  (missingTimestamps logs blockTimestamps).foldl (addTimestamp answers) (blockTimestamps, none)

/-- The log with its position, if it has one and can be decoded. -/
def decode (blockTimestamps : Table Nat Nat) (log : Log) : Option (EventLog E) := do
  let data ← events.decodeLog log.topics log.data
  let number ← log.blockNumber
  let timestamp ← log.blockTimestamp.or (blockTimestamps.lookup number)
  let index ← log.logIndex
  return { block := ⟨number, timestamp⟩, index, address := log.address, data }

/-- The log with its position, or an error that names it. -/
def decodeOrError (blockTimestamps : Table Nat Nat) (log : Log) : Except Error (EventLog E) :=
  match decode events blockTimestamps log with
  | some event => .ok event
  | none => .error (.decodeLog (log.blockHash.getD (BitVec.allOnes 256))
      (log.logIndex.getD (2 ^ 64 - 1)))

/-- Where a log stands. -/
def position (log : EventLog E) : Nat ×ₗ Nat := toLex (log.block.number, log.index)

/-- The events in the order of their positions. -/
def decodeAndSort (logs : List Log) (blockTimestamps : Table Nat Nat) :
    Except Error (List (EventLog E)) := do
  let decoded ← logs.mapM (decodeOrError events blockTimestamps)
  return decoded.sortByKey position

/-! ### The step machine -/

/-- Half the page size, rounded up. -/
def NonZero.half (n : NonZero) : NonZero := ⟨(n.val + 1) / 2, by have := n.property; omega⟩

/-- Tries the page again with fewer blocks. -/
def narrowedWarp (fromBlock toBlock : Nat) (pageSize : NonZero) : Step :=
  .warping fromBlock toBlock (NonZero.half pageSize) none

/-- The logs of the page that begins at a block. -/
def fetchPage (watcher : EventWatcher) (answers : Answers) (fromBlock toBlock : Nat)
    (pageSize : NonZero) : Except Error FetchedPage := do
  let queryToBlock := min toBlock (saturatingAdd fromBlock (pageSize.val - 1))
  let blocks := BlockFilter.range fromBlock queryToBlock
  let logs ← watcher.fetchLogs keccak256 answers
    (if 1 < pageSize.val then .singleQuery blocks else .multipleQueries blocks)
  return { toBlock := queryToBlock, logs, blockTimestamps := .empty }

/-- Looks up the timestamps of a page and decodes it. -/
def finishPage (watcher : EventWatcher) (answers : Answers) (fromBlock toBlock : Nat)
    (pageSize : NonZero) (page : FetchedPage) : EventWatcher × Except Error (EventUpdate E) :=
  match fetchMissingBlockTimestamps answers page.logs page.blockTimestamps with
  | (blockTimestamps, some error) =>
      -- what was fetched is kept for the next attempt
      ({ watcher with
          step := .warping fromBlock toBlock pageSize (some { page with blockTimestamps }) },
        .error error)
  | (blockTimestamps, none) =>
      match decodeAndSort events page.logs blockTimestamps with
      | .error error =>
          ({ watcher with step := narrowedWarp fromBlock toBlock pageSize }, .error error)
      | .ok logs =>
          ({ watcher with
              step := if page.toBlock = toBlock then .idle
                else .warping (page.toBlock + 1) toBlock watcher.config.blockPageSize none },
            .ok ⟨⟨fromBlock, page.toBlock⟩, logs⟩)

/-- The page a call works on: the one that was kept, or a new one. -/
def currentPage (watcher : EventWatcher) (answers : Answers) (fromBlock toBlock : Nat)
    (pageSize : NonZero) (fetched : Option FetchedPage) : Except Error FetchedPage :=
  match fetched with
  | some page => .ok page
  | none => watcher.fetchPage keccak256 answers fromBlock toBlock pageSize

/-- One page of a warp. -/
def warp (watcher : EventWatcher) (answers : Answers) (fromBlock toBlock : Nat)
    (pageSize : NonZero) (fetched : Option FetchedPage) :
    EventWatcher × Except Error (EventUpdate E) :=
  match watcher.currentPage keccak256 answers fromBlock toBlock pageSize fetched with
  | .error error => ({ watcher with step := narrowedWarp fromBlock toBlock pageSize }, .error error)
  | .ok page => watcher.finishPage events answers fromBlock toBlock pageSize page

/-- How the logs of a new block are fetched after so many failures. -/
def blockFetch (config : Config) (hash : B256) (logsBloom : Bloom) (retries : Nat) : Fetch :=
  if retries < config.blockSingleQueryRetryCount.val then
    if config.useClientFiltering then .clientFiltered hash logsBloom else .singleQuery (.hash hash)
  else .multipleQueries (.hash hash)

/-- The logs of a new block. -/
def block (watcher : EventWatcher) (answers : Answers) (number : Nat) (hash : B256)
    (timestamp : Nat) (logsBloom : Bloom) (retries : Nat) :
    EventWatcher × Except Error (EventUpdate E) :=
  match (do
    let logs ← watcher.fetchLogs keccak256 answers
      (blockFetch watcher.config hash logsBloom retries)
    decodeAndSort events logs (Table.empty.insert number timestamp)) with
  | .ok logs => ({ watcher with step := .idle }, .ok ⟨⟨number, number⟩, logs⟩)
  | .error error =>
      ({ watcher with step := .block number hash timestamp logsBloom (retries + 1) }, .error error)

/-- Takes up the logs of the blocks of an update. -/
def onBlockUpdate (watcher : EventWatcher) (update : BlockUpdate) : Except Error EventWatcher := do
  require (watcher.step = .idle) .unexpectedBlockUpdate
  return { watcher with
    step := match update with
      | .warp first last => .warping first last watcher.config.blockPageSize none
      | .uncle _ => .idle
      | .new number hash timestamp logsBloom => .block number hash timestamp logsBloom 0 }

/-- Gives up the logs of a block that is no longer canonical. -/
def onBlockInvalidated (watcher : EventWatcher) (blockHash : B256) : Except Error EventWatcher :=
  match watcher.step with
  | .block _ hash _ _ _ =>
      if hash = blockHash then .ok { watcher with step := .idle }
      else .error .unexpectedBlockInvalidation
  | _ => .error .unexpectedBlockInvalidation

/-- The next page of logs; none once there is nothing left to fetch. -/
def next (watcher : EventWatcher) (answers : Answers) :
    EventWatcher × Except Error (Option (EventUpdate E)) :=
  match watcher.step with
  | .idle => (watcher, .ok none)
  | .warping fromBlock toBlock pageSize fetched =>
      let (watcher, result) :=
        watcher.warp events keccak256 answers fromBlock toBlock pageSize fetched
      (watcher, result.map some)
  | .block number hash timestamp logsBloom retries =>
      let (watcher, result) :=
        watcher.block events keccak256 answers number hash timestamp logsBloom retries
      (watcher, result.map some)

end EventWatcher

end Safenet.Core
