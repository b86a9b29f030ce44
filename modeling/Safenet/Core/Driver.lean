/-
The service driver of `core/src/driver.rs`: the watcher, the state machine, the effect tasks and the
transaction queue of a service together.

What the node answers, where a call of the watcher is dropped, when the effect tasks run and finish, and
where the process is stopped, are inputs.  Of a process that has stopped only the database is left: the
snapshots, the tables of the queue and what the effect handler keeps.  A process that is about to end
handles no more inputs, but its tasks may still run.
-/
import Safenet.Core.Effects
import Safenet.Core.StateMachine
import Safenet.Core.TransactionQueue
import Safenet.Core.Watcher

namespace Safenet.Core

/-! ### Opening the queue -/

namespace Tx.Queue

/-- What the node answers when the queue is opened. -/
structure OpeningAnswers where
  /-- The gas limit of the latest block, if there is one. -/
  getBlock : Option (Option Nat)
  getCodeAt : Option Bytes

inductive OpenError where
  | rpc
  | batchGasExceedsBlockGasLimit (maxBatchGas gasLimit : Nat)
  | executorWithoutCode (executor : Address)
deriving DecidableEq, Repr

/-- `TransactionQueue::new`. -/
def opened (config : Config) (answers : OpeningAnswers) (storage : Storage) : Except OpenError Queue :=
  let queue : Queue := ⟨storage, none, none, none⟩
  match config.mode with
  | .direct _ => .ok queue
  | .batched executor maxBatchGas =>
      match answers.getBlock with
      | none => .error .rpc
      | some gasLimit =>
          if gasLimit.getD 0 / 2 < maxBatchGas then
            .error (.batchGasExceedsBlockGasLimit maxBatchGas (gasLimit.getD 0))
          else
            match answers.getCodeAt with
            | none => .error .rpc
            | some code => if code = [] then .error (.executorWithoutCode executor) else .ok queue

end Tx.Queue

open Tx (Transaction)

/-! ### The parts of a service -/

/-- A service: its transitions, its effects and the transactions of its actions. -/
structure Service (S Event Action Effect Resume Handler Sampled : Type) where
  init : S
  transition : StateTransition S Event Resume Action Effect
  effects : EffectHandler Handler Effect Resume Sampled
  /-- The transaction of an action, with the block after which it is dropped. -/
  encodeAction : Action → Transaction × Option Nat

/-- What the driver is set up with. -/
structure DriverSetup (Event : Type) where
  events : Events Event
  addresses : List Address
  blocks : BlockWatcher.Config
  logs : EventWatcher.Config
  transactions : Tx.Setup

/-- What outlives the process. -/
structure Database (S Handler : Type) where
  snapshots : SnapshotStore S
  storage : Tx.Storage
  handler : Handler

structure Driver (S Effect Resume Handler : Type) where
  watcher : Watcher
  state : StateMachine S
  effects : EffectManager Handler Effect Resume
  transactions : Tx.Queue

namespace Driver

/-- What is handed to the state machine. -/
inductive Taken (Event Resume : Type) where
  | update (update : Update Event)
  | resume (resume : Resume)
deriving DecidableEq, Repr

/-- Why a process ends. -/
inductive Stop where
  /-- The watcher cannot go on. -/
  | watcher (error : Watcher.Error)
  | state (error : StateMachine.Error)
  | transactions (halt : Tx.Queue.Halt)
  /-- The process is stopped from outside. -/
  | shutdown
deriving DecidableEq, Repr

inductive OpenError where
  | state (error : StateMachine.Error)
  | index (error : BlockWatcher.Error)
  | transactions (error : Tx.Queue.OpenError)
deriving DecidableEq, Repr

/-- Where the process is stopped while an input is processed. -/
inductive Interruption where
  /-- After so many statements of the call that brings the queue up to date. -/
  | reconciling (statements : Nat)
  /-- Before the state machine handles the input. -/
  | handling
  /-- Before the snapshots are pruned. -/
  | pruning
  /-- After so many statements of the call that queues transactions. -/
  | queueing (statements : Nat)
deriving DecidableEq, Repr

/-- The circumstances in which an input is processed. -/
structure Circumstances (Sampled : Type) where
  reconcile : Tx.Answers
  queue : Tx.Answers
  /-- The effect tasks that run while transactions are queued, each with what it samples. -/
  tasks : List (Nat × Sampled)
  interrupted : Option Interruption

/-- What comes of an input. -/
structure Report (Event Action Effect Resume : Type) where
  taken : Taken Event Resume
  /-- What the state machine answers, if it gets to it. -/
  answer : Option (Except StateMachine.Error (List (Command Action Effect)))
  /-- What is executed on the tables of the queue. -/
  statements : List Tx.Storage.Statement
  /-- The effect tasks that have run, with their results. -/
  answered : List (Effect × Resume)
  stop : Option Stop

section Driver

variable {S Event Action Effect Resume Handler Sampled : Type}
variable (service : Service S Event Action Effect Resume Handler Sampled) (setup : DriverSetup Event)

/-- What is left of a driver once its process has stopped. -/
def database (driver : Driver S Effect Resume Handler) : Database S Handler :=
  ⟨driver.state.snapshots, driver.transactions.storage, driver.effects.handler⟩

/-- Opens the service on a database; nothing if the watcher does not start within `fuel` rounds. -/
def new (database : Database S Handler) (node : Node) (fuel : Nat)
    (answers : Tx.Queue.OpeningAnswers) : Option (Except OpenError (Driver S Effect Resume Handler)) :=
  match StateMachine.withInit database.snapshots service.init with
  | .error error => some (.error (.state error))
  | .ok state => do
      match ← BlockWatcher.new node setup.blocks setup.transactions.chainId state.blockStatus fuel with
      | .error error => return .error (.index error)
      | .ok blocks =>
          match Tx.Queue.opened setup.transactions.config answers database.storage with
          | .error error => return .error (.transactions error)
          | .ok transactions =>
              return .ok
                { watcher := Watcher.new setup.events blocks setup.logs setup.addresses
                  state
                  effects := EffectManager.new database.handler
                  transactions }

/-! ### Processing an input -/

/-- `lift_intermittent_error`: the error that ends the process, if the call has failed with one. -/
def liftIntermittentError : Except Tx.Queue.Halt Unit → Option Stop
  | .ok () => none
  | .error .rpc => none
  | .error halt => some (.transactions halt)

def Circumstances.reconcileStops (circumstances : Circumstances Sampled) : Option Nat :=
  match circumstances.interrupted with
  | some (.reconciling statements) => some statements
  | _ => none

def Circumstances.queueStops (circumstances : Circumstances Sampled) : Option Nat :=
  match circumstances.interrupted with
  | some (.queueing statements) => some statements
  | _ => none

/-- A call of the transaction queue. -/
def call (driver : Driver S Effect Resume Handler) (operation : Tx.Queue.Operation)
    (answers : Tx.Answers) (stopsAfter : Option Nat) :
    Driver S Effect Resume Handler × Tx.Queue.Output :=
  let called := Tx.Queue.step setup.transactions driver.transactions (.call operation answers stopsAfter)
  ({ driver with transactions := called.1 }, called.2)

/-- Brings the queue up to date with the watcher. -/
def reconcile (driver : Driver S Effect Resume Handler) (circumstances : Circumstances Sampled) :
    Driver S Effect Resume Handler × Tx.Queue.Output :=
  driver.call setup (.updateBlockStatus driver.watcher.blocks.status) circumstances.reconcile
    circumstances.reconcileStops

/-- The state machine handles an input. -/
def handle (driver : Driver S Effect Resume Handler) (taken : Taken Event Resume) :
    Driver S Effect Resume Handler × Except StateMachine.Error (List (Command Action Effect)) :=
  let handled := match taken with
    | .update update => driver.state.handleUpdate service.transition update
    | .resume resume => driver.state.handleResume service.transition resume
  ({ driver with state := handled.1 }, handled.2)

/-- Drops the snapshots that are not needed any more. -/
def prune (driver : Driver S Effect Resume Handler) :
    Driver S Effect Resume Handler × Option Stop :=
  match driver.state.prune driver.watcher.blocks.status.safe with
  | (state, .ok ()) => ({ driver with state }, none)
  | (state, .error error) => ({ driver with state }, some (.state error))

/-- The actions among the commands. -/
def actionsOf (commands : List (Command Action Effect)) : List Action :=
  commands.filterMap fun
    | .action action => some action
    | .effect _ => none

/-- The effects among the commands. -/
def effectsOf (commands : List (Command Action Effect)) : List Effect :=
  commands.filterMap fun
    | .action _ => none
    | .effect effect => some effect

/-- Spawns the effects, and queues the transactions of the actions. -/
def dispatch (driver : Driver S Effect Resume Handler) (commands : List (Command Action Effect))
    (circumstances : Circumstances Sampled) : Driver S Effect Resume Handler × Tx.Queue.Output :=
  let driver := { driver with effects := (effectsOf commands).foldl EffectManager.spawn driver.effects }
  let transactions := (actionsOf commands).map service.encodeAction
  if transactions.isEmpty then (driver, ⟨.ok (), []⟩)
  else driver.call setup (.queue transactions) circumstances.queue circumstances.queueStops

/-- Has the effect handler do its housekeeping, after a new block. -/
def housekeeping (driver : Driver S Effect Resume Handler) (taken : Taken Event Resume) :
    Driver S Effect Resume Handler :=
  match taken with
  | .update (.block (.new _ _ _ _)) =>
      { driver with effects := driver.effects.housekeeping service.effects driver.watcher.blocks.status }
  | _ => driver

/-- An effect task runs. -/
def perform (driver : Driver S Effect Resume Handler) (index : Nat) (sampled : Sampled) :
    Driver S Effect Resume Handler × Option (Effect × Resume) :=
  let performed := driver.effects.perform service.effects index sampled
  ({ driver with effects := performed.1 }, performed.2)

/-- Some effect tasks run. -/
def performAll (driver : Driver S Effect Resume Handler) : List (Nat × Sampled) →
    Driver S Effect Resume Handler × List (Effect × Resume)
  | [] => (driver, [])
  | (index, sampled) :: tasks =>
      let performed := driver.perform service index sampled
      let rest := performed.1.performAll tasks
      (rest.1, performed.2.toList ++ rest.2)

/-- What is done with the commands of the state machine. -/
def conclude (driver : Driver S Effect Resume Handler) (taken : Taken Event Resume)
    (commands : List (Command Action Effect)) (statements : List Tx.Storage.Statement)
    (circumstances : Circumstances Sampled) :
    Driver S Effect Resume Handler × Report Event Action Effect Resume :=
  let dispatched := driver.dispatch service setup commands circumstances
  let performed := dispatched.1.performAll service circumstances.tasks
  let report := ⟨taken, some (.ok commands), statements ++ dispatched.2.statements, performed.2,
    liftIntermittentError dispatched.2.result⟩
  match liftIntermittentError dispatched.2.result with
  | some _ => (performed.1, report)
  | none => (performed.1.housekeeping service taken, report)

/-- An update, once the queue is up to date. -/
def advance (driver : Driver S Effect Resume Handler) (update : Update Event)
    (statements : List Tx.Storage.Statement) (circumstances : Circumstances Sampled) :
    Driver S Effect Resume Handler × Report Event Action Effect Resume :=
  if circumstances.interrupted = some .handling then
    (driver, ⟨.update update, none, statements, [], some .shutdown⟩)
  else
    match driver.handle service (.update update) with
    | (driver, .error error) =>
        (driver, ⟨.update update, some (.error error), statements, [], some (.state error)⟩)
    | (driver, .ok commands) =>
        if circumstances.interrupted = some .pruning then
          (driver, ⟨.update update, some (.ok commands), statements, [], some .shutdown⟩)
        else
          match driver.prune with
          | (driver, some stop) =>
              (driver, ⟨.update update, some (.ok commands), statements, [], some stop⟩)
          | (driver, none) =>
              driver.conclude service setup (.update update) commands statements circumstances

/-- Processes an update or the result of an effect. -/
def update (driver : Driver S Effect Resume Handler) (taken : Taken Event Resume)
    (circumstances : Circumstances Sampled) :
    Driver S Effect Resume Handler × Report Event Action Effect Resume :=
  match taken with
  | .update update =>
      let reconciled := driver.reconcile setup circumstances
      match liftIntermittentError reconciled.2.result with
      | some stop => (reconciled.1, ⟨taken, none, reconciled.2.statements, [], some stop⟩)
      | none => reconciled.1.advance service setup update reconciled.2.statements circumstances
  | .resume _ =>
      if circumstances.interrupted = some .handling then
        (driver, ⟨taken, none, [], [], some .shutdown⟩)
      else
        match driver.handle service taken with
        | (driver, .error error) => (driver, ⟨taken, some (.error error), [], [], some (.state error)⟩)
        | (driver, .ok commands) => driver.conclude service setup taken commands [] circumstances

end Driver

/-! ### Runs -/

/-- A process of the service. -/
inductive Process (S Effect Resume Handler : Type) where
  | running (driver : Driver S Effect Resume Handler)
  /-- It handles no more inputs. -/
  | ending (driver : Driver S Effect Resume Handler)
  | stopped (database : Database S Handler)

/-- What happens to a service. -/
inductive Input (Action Sampled : Type) where
  /-- The process is started. -/
  | start (node : Node) (fuel : Nat) (answers : Tx.Queue.OpeningAnswers)
  /-- An action is queued from outside. -/
  | queueAction (action : Action) (answers : Tx.Answers) (stopsAfter : Option Nat)
  /-- A call of the watcher. -/
  | watch (call : Watcher.Call) (circumstances : Circumstances Sampled)
  /-- An effect task runs, with what it samples. -/
  | perform (index : Nat) (sampled : Sampled)
  | fail (index : Nat)
  /-- A finished task is taken. -/
  | resume (index : Nat) (circumstances : Circumstances Sampled)
  /-- The process stops. -/
  | stop

/-- What there is to see of it. -/
inductive Output (Event Action Effect Resume : Type) where
  | idle
  | started
  | refused (error : OpenError)
  | queued (statements : List Tx.Storage.Statement) (stop : Option Stop)
  /-- The watcher is called again. -/
  | waiting
  | lost (error : Watcher.Error)
  | answered (effect : Effect) (resume : Resume)
  | processed (report : Report Event Action Effect Resume)

section Step

variable {S Event Action Effect Resume Handler Sampled : Type}
variable (service : Service S Event Action Effect Resume Handler Sampled) (setup : DriverSetup Event)

/-- The process after an input that was the last one if there is a reason to stop. -/
def proceed (driver : Driver S Effect Resume Handler) : Option Stop → Process S Effect Resume Handler
  | none => .running driver
  | some _ => .ending driver

/-- The process after an input is processed. -/
def process (driver : Driver S Effect Resume Handler) (taken : Taken Event Resume)
    (circumstances : Circumstances Sampled) :
    Process S Effect Resume Handler × Output Event Action Effect Resume :=
  let processed := driver.update service setup taken circumstances
  (proceed processed.1 processed.2.stop, .processed processed.2)

/-- A call of the watcher: what it returns is processed, and most failures are tried again. -/
def watch (driver : Driver S Effect Resume Handler) (call : Watcher.Call)
    (circumstances : Circumstances Sampled) :
    Process S Effect Resume Handler × Output Event Action Effect Resume :=
  match driver.watcher.next setup.events setup.transactions.keccak256 call with
  | (watcher, .update update) =>
      process service setup { driver with watcher } (.update update) circumstances
  | (watcher, .failed (.blocks (.exceededMaxReorgDepth depth))) =>
      (.ending { driver with watcher }, .lost (.blocks (.exceededMaxReorgDepth depth)))
  | (watcher, .failed (.blocks .panicked)) =>
      (.ending { driver with watcher }, .lost (.blocks .panicked))
  | (watcher, _) => (.running { driver with watcher }, .waiting)

/-- What there is to see of an effect task. -/
def outcome : Option (Effect × Resume) → Output Event Action Effect Resume
  | some (effect, resume) => .answered effect resume
  | none => .idle

def step (state : Process S Effect Resume Handler) (input : Input Action Sampled) :
    Process S Effect Resume Handler × Output Event Action Effect Resume :=
  match state with
  | .running driver =>
      match input with
      | .start _ _ _ => (.running driver, .idle)
      | .queueAction action answers stopsAfter =>
          let called := driver.call setup (.queue [service.encodeAction action]) answers stopsAfter
          match called.2.result with
          | .ok () => (.running called.1, .queued called.2.statements none)
          | .error halt =>
              (.ending called.1, .queued called.2.statements (some (.transactions halt)))
      | .watch call circumstances => watch service setup driver call circumstances
      | .perform index sampled =>
          let performed := driver.perform service index sampled
          (.running performed.1, outcome performed.2)
      | .fail index => (.running { driver with effects := driver.effects.fail index }, .idle)
      | .resume index circumstances =>
          match driver.effects.next index with
          | some (resume, effects) =>
              process service setup { driver with effects } (.resume resume) circumstances
          | none => (.running driver, .idle)
      | .stop => (.stopped driver.database, .idle)
  | .ending driver =>
      match input with
      | .perform index sampled =>
          let performed := driver.perform service index sampled
          (.ending performed.1, outcome performed.2)
      | .stop => (.stopped driver.database, .idle)
      | _ => (.ending driver, .idle)
  | .stopped database =>
      match input with
      | .start node fuel answers =>
          match new service setup database node fuel answers with
          | some (.ok driver) => (.running driver, .started)
          | some (.error error) => (.stopped database, .refused error)
          | none => (.stopped database, .idle)
      | _ => (.stopped database, .idle)

end Step

/-- A database nothing was stored in. -/
def emptyDatabase {S Handler : Type} (handler : Handler) : Database S Handler :=
  ⟨SnapshotStore.empty, Tx.Storage.empty, handler⟩

end Driver

end Safenet.Core
