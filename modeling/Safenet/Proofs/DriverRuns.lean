/-
Runs of the service driver.

Whatever the node answers, wherever calls are dropped, whenever effects run and wherever the process is
stopped and started again, the state machine goes through a run of its own (`step_machine`).  So what holds
of every run of the machine holds of every run of the service.
-/
import Safenet.Proofs.Driver

namespace Safenet.Core.Driver

open StateMachine (withInit)

variable {S Event Action Effect Resume Handler Sampled : Type}

/-! ### The state machine of a service -/

/-- The call of the state machine that handles an input. -/
def Taken.call : Taken Event Resume → MachineCall Event Resume
  | .update upd => .chain (.update upd)
  | .resume result => .resume result

/-- What the state machine has accepted, with the commands. -/
def Report.accepted (report : Report Event Action Effect Resume) :
    List (Taken Event Resume × List (Command Action Effect)) :=
  match report.answer with
  | some (.ok commands) => [(report.taken, commands)]
  | _ => []

def Output.accepted :
    Output Event Action Effect Resume → List (Taken Event Resume × List (Command Action Effect))
  | .processed report => report.accepted
  | _ => []

/-- A step of the service. -/
abbrev DriverStep (S Event Action Effect Resume Handler Sampled : Type) :=
  Trace.Step (Process S Effect Resume Handler) (Input Action Sampled) (Output Event Action Effect Resume)

/-- What the state machine of a service has taken. -/
def takenBy (history : List (DriverStep S Event Action Effect Resume Handler Sampled)) :
    List (Taken Event Resume) :=
  (history.flatMap fun st => st.out.accepted).map Prod.fst

/-- The state machine of a process; of one that has stopped, only the snapshots are left. -/
def Process.machine : Process S Effect Resume Handler → StateMachine S
  | .running driver => driver.state
  | .ending driver => driver.state
  | .stopped database => { inner := none, snapshots := database.snapshots }

/-- The process holds the machine, or what is left of it. -/
def Holds : Process S Effect Resume Handler → StateMachine S → Prop
  | .running driver, machine => driver.state = machine
  | .ending driver, machine => driver.state = machine
  | .stopped database, machine => database.snapshots = machine.snapshots

variable {service : Service S Event Action Effect Resume Handler Sampled} {setup : DriverSetup Event}
variable {driver driver' : Driver S Effect Resume Handler} {taken : Taken Event Resume}
variable {circumstances : Circumstances Sampled} {report : Report Event Action Effect Resume}
variable {machine machine' : StateMachine S} {commands : List (Command Action Effect)}

/-! #### What leaves the state as it is -/

theorem Prepared.state {prepared : Driver S Effect Resume Handler} {statements : List Tx.Storage.Statement}
    (h : Prepared setup driver circumstances taken prepared statements) : prepared.state = driver.state := by
  cases h <;> rfl

/-- Tasks that run change the effects only. -/
theorem performAll_frame (service : Service S Event Action Effect Resume Handler Sampled)
    (tasks : List (Nat × Sampled)) : ∀ driver : Driver S Effect Resume Handler,
      (driver.performAll service tasks).1 =
        { driver with effects := (driver.performAll service tasks).1.effects } := by
  induction tasks with
  | nil => exact fun _ => rfl
  | cons task tasks ih => exact fun driver => ih (driver.perform service task.1 task.2).1

theorem dispatch_state (service : Service S Event Action Effect Resume Handler Sampled)
    (setup : DriverSetup Event) (driver : Driver S Effect Resume Handler)
    (commands : List (Command Action Effect)) (circumstances : Circumstances Sampled) :
    (driver.dispatch service setup commands circumstances).1.state = driver.state := by
  unfold dispatch
  dsimp only
  split <;> rfl

theorem housekeeping_frame (service : Service S Event Action Effect Resume Handler Sampled)
    (driver : Driver S Effect Resume Handler) (taken : Taken Event Resume) :
    driver.housekeeping service taken =
      { driver with effects := (driver.housekeeping service taken).effects } := by
  unfold housekeeping
  split <;> rfl

/-- After the commands are dispatched, only the effects change. -/
theorem conclude_frame (service : Service S Event Action Effect Resume Handler Sampled)
    (setup : DriverSetup Event) (driver : Driver S Effect Resume Handler) (taken : Taken Event Resume)
    (commands : List (Command Action Effect)) (statements : List Tx.Storage.Statement)
    (circumstances : Circumstances Sampled) :
    (driver.conclude service setup taken commands statements circumstances).1 =
      { (driver.dispatch service setup commands circumstances).1 with
        effects :=
          (driver.conclude service setup taken commands statements circumstances).1.effects } := by
  have hperformed := performAll_frame service circumstances.tasks
    (driver.dispatch service setup commands circumstances).1
  unfold conclude
  dsimp only
  split
  · exact hperformed
  · refine (housekeeping_frame service _ taken).trans ?_
    exact congrArg (fun performed : Driver S Effect Resume Handler =>
      { performed with
        effects := (((driver.dispatch service setup commands circumstances).1.performAll service
          circumstances.tasks).1.housekeeping service taken).effects }) hperformed

theorem conclude_state (service : Service S Event Action Effect Resume Handler Sampled)
    (setup : DriverSetup Event) (driver : Driver S Effect Resume Handler) (taken : Taken Event Resume)
    (commands : List (Command Action Effect)) (statements : List Tx.Storage.Statement)
    (circumstances : Circumstances Sampled) :
    (driver.conclude service setup taken commands statements circumstances).1.state = driver.state :=
  (congrArg Driver.state (conclude_frame ..)).trans
    (dispatch_state service setup driver commands circumstances)

theorem conclude_accepted (service : Service S Event Action Effect Resume Handler Sampled)
    (setup : DriverSetup Event) (driver : Driver S Effect Resume Handler) (taken : Taken Event Resume)
    (commands : List (Command Action Effect)) (statements : List Tx.Storage.Statement)
    (circumstances : Circumstances Sampled) :
    (driver.conclude service setup taken commands statements circumstances).2.accepted =
      [(taken, commands)] := by
  unfold conclude
  dsimp only
  split <;> rfl

/-! #### One step -/

section Machine

variable (service) in
/-- The calls of the machine that match what is done with it, and what they accept. -/
abbrev Matches {σ : Type} (R : σ → StateMachine S → Prop) (machine : StateMachine S) (after : σ)
    (accepted : List (Taken Event Resume × List (Command Action Effect))) : Prop :=
  Trace.Matched (callStep service.transition service.init) R acceptedBy machine after accepted

theorem callStep_call (machine : StateMachine S) (taken : Taken Event Resume) :
    callStep service.transition service.init machine taken.call = handled service machine taken := by
  cases taken <;> rfl

theorem acceptedBy_refused {error : StateMachine.Error}
    (h : handled service machine taken = (machine', .error error)) :
    acceptedBy (Trace.take (callStep service.transition service.init) machine taken.call) = [] := by
  have hout : (Trace.take (callStep service.transition service.init) machine taken.call).out =
      .error error := by
    rw [Trace.take_out, callStep_call, h]
  unfold acceptedBy
  rw [hout]
  cases taken <;> rfl

theorem acceptedBy_handled (h : handled service machine taken = (machine', .ok commands)) :
    acceptedBy (Trace.take (callStep service.transition service.init) machine taken.call) =
      [(taken, commands)] := by
  have hout : (Trace.take (callStep service.transition service.init) machine taken.call).out =
      .ok commands := by
    rw [Trace.take_out, callStep_call, h]
  unfold acceptedBy
  rw [hout]
  cases taken <;> rfl

section Matches

variable {σ : Type} {R : σ → StateMachine S → Prop} {after : σ}

theorem matches_refused {error : StateMachine.Error}
    (hhandled : handled service machine taken = (machine', .error error)) (h : R after machine') :
    Matches service R machine after [] := by
  rw [← acceptedBy_refused hhandled]
  refine .one _ ?_
  rw [callStep_call, hhandled]
  exact h

theorem matches_handled (hhandled : handled service machine taken = (machine', .ok commands))
    (h : Matches service R machine' after []) : Matches service R machine after [(taken, commands)] := by
  rw [← List.append_nil [(taken, commands)], ← acceptedBy_handled hhandled]
  refine .cons _ ?_
  rw [callStep_call, hhandled]
  exact h

theorem matches_pruned {pruned : StateMachine S} (hpruned : Pruned driver taken machine pruned)
    (h : R after pruned) : Matches service R machine after [] := by
  cases hpruned with
  | resume result => exact .none h
  | update upd hok => exact .one (MachineCall.chain (.prune driver.watcher.blocks.status.safe)) h

end Matches

/-- **An input is handled by calls of the machine.** -/
theorem update_machine (service : Service S Event Action Effect Resume Handler Sampled)
    (setup : DriverSetup Event) (driver : Driver S Effect Resume Handler) (taken : Taken Event Resume)
    (circumstances : Circumstances Sampled) :
    Matches service (fun (after : Driver S Effect Resume Handler) machine => after.state = machine)
      driver.state (driver.update service setup taken circumstances).1
      (driver.update service setup taken circumstances).2.accepted := by
  have hupdated := updated_update service setup driver taken circumstances
  generalize driver.update service setup taken circumstances = updated at hupdated ⊢
  obtain ⟨driver', report⟩ := updated
  dsimp only at hupdated ⊢
  cases hupdated with
  | unprepared upd stop hstop => exact .none rfl
  | unhandled hprepared => exact .none hprepared.state
  | refused hprepared hhandled =>
      rw [hprepared.state] at hhandled
      exact matches_refused hhandled rfl
  | unpruned stop hprepared hhandled hstop =>
      rw [hprepared.state] at hhandled
      exact matches_handled hhandled (.none rfl)
  | concluded hprepared hhandled hpruned =>
      rw [hprepared.state] at hhandled
      rw [conclude_accepted]
      exact matches_handled hhandled (matches_pruned hpruned (conclude_state ..))

theorem holds_proceed (driver : Driver S Effect Resume Handler) (stop : Option Stop) :
    Holds (proceed driver stop) driver.state := by
  cases stop <;> rfl

theorem process_machine (service : Service S Event Action Effect Resume Handler Sampled)
    (setup : DriverSetup Event) (driver : Driver S Effect Resume Handler) (taken : Taken Event Resume)
    (circumstances : Circumstances Sampled) :
    Matches service Holds driver.state (driver.process service setup taken circumstances).1
      (driver.process service setup taken circumstances).2.accepted := by
  refine (update_machine service setup driver taken circumstances).imp fun machine hstate => ?_
  rw [← hstate]
  exact holds_proceed ..

theorem watch_machine (service : Service S Event Action Effect Resume Handler Sampled)
    (setup : DriverSetup Event) (driver : Driver S Effect Resume Handler) (call : Watcher.Call)
    (circumstances : Circumstances Sampled) :
    Matches service Holds driver.state (driver.watch service setup call circumstances).1
      (driver.watch service setup call circumstances).2.accepted := by
  unfold watch
  split
  · exact process_machine service setup { driver with watcher := _ } _ circumstances
  · exact .none rfl
  · exact .none rfl
  · exact .none rfl

theorem outcome_accepted (performed : Option (Effect × Resume)) :
    (outcome performed : Output Event Action Effect Resume).accepted = [] := by
  cases performed <;> rfl

/-- What a driver is opened with. -/
theorem new_ok {database : Database S Handler} {node : Node} {fuel : Nat}
    {answers : Tx.Queue.OpeningAnswers}
    (hnew : new service setup database node fuel answers = some (.ok driver)) :
    withInit database.snapshots service.init = .ok driver.state ∧
      Tx.Queue.opened setup.transactions.config answers database.storage = .ok driver.transactions ∧
      driver.effects = EffectManager.new database.handler := by
  unfold new at hnew
  split at hnew
  · cases hnew
  · next state hstate =>
      obtain ⟨opened, -, hnew⟩ := Option.bind_eq_some_iff.mp hnew
      cases opened with
      | error error => cases hnew
      | ok blocks =>
          dsimp only at hnew
          split at hnew
          · cases hnew
          · next transactions hopened =>
              cases hnew
              exact ⟨hstate, hopened, rfl⟩

/-- **A step of the service is matched by calls of its state machine.** -/
theorem step_machine (process : Process S Effect Resume Handler) (machine : StateMachine S)
    (input : Input Action Sampled) (h : Holds process machine) :
    Matches service Holds machine (step service setup process input).1
      (step service setup process input).2.accepted := by
  cases process with
  | running driver =>
      obtain rfl : driver.state = machine := h
      cases input with
      | start node fuel answers => exact .none rfl
      | queueAction action answers stopsAfter =>
          dsimp only [step]
          split
          · exact .none rfl
          · exact .none rfl
      | watch call circumstances => exact watch_machine service setup driver call circumstances
      | perform index sampled =>
          dsimp only [step]
          rw [outcome_accepted]
          exact .none rfl
      | fail index => exact .none rfl
      | resume index circumstances =>
          dsimp only [step]
          split
          · next resume effects hnext =>
              exact process_machine service setup { driver with effects } (.resume resume) circumstances
          · exact .none rfl
      | stop => exact .none rfl
  | ending driver =>
      obtain rfl : driver.state = machine := h
      cases input with
      | perform index sampled =>
          dsimp only [step]
          rw [outcome_accepted]
          exact .none rfl
      | _ => exact .none rfl
  | stopped database =>
      cases input with
      | start node fuel answers =>
          dsimp only [step]
          split
          · next driver hnew =>
              obtain ⟨hstate, -, -⟩ := new_ok hnew
              have hsnapshots : database.snapshots = machine.snapshots := h
              rw [hsnapshots] at hstate
              refine .one (MachineCall.chain .restart) ?_
              show driver.state = (machineStep service.transition service.init machine .restart).1
              rw [machineStep_restart hstate]
          · exact .none h
          · exact .none h
      | _ => exact .none h

end Machine

theorem Holds.standsFor {process : Process S Effect Resume Handler} {taken : List (Taken Event Resume)}
    (hholds : Holds process machine)
    (h : StandsFor service.transition service.init taken machine) :
    StandsFor service.transition service.init taken process.machine := by
  cases process with
  | running driver =>
      obtain rfl : driver.state = machine := hholds
      exact h
  | ending driver =>
      obtain rfl : driver.state = machine := hholds
      exact h
  | stopped database =>
      have hsnapshots : database.snapshots = machine.snapshots := hholds
      refine ⟨h.numbers, fun n state hstate => ?_, fun _ _ hnone => by cases hnone⟩
      rw [show (Process.stopped database : Process S Effect Resume Handler).machine.snapshots =
        machine.snapshots from hsnapshots] at hstate
      exact h.snapshots n state hstate

theorem service_replays (service : Service S Event Action Effect Resume Handler Sampled)
    (setup : DriverSetup Event) (handler : Handler) (inputs : List (Input Action Sampled)) :
    StandsFor service.transition service.init
      (takenBy (Trace.trace (step service setup) (.stopped (emptyDatabase handler)) inputs))
      (Trace.final (step service setup) (.stopped (emptyDatabase handler)) inputs).machine := by
  have hstart : Holds (.stopped (emptyDatabase handler) : Process S Effect Resume Handler)
      (freshMachine service.init) := rfl
  have hmatched : Matches service Holds (freshMachine service.init)
      (Trace.final (step service setup) (.stopped (emptyDatabase handler)) inputs)
      ((Trace.trace (step service setup) (.stopped (emptyDatabase handler)) inputs).flatMap
        fun st => st.out.accepted) := by
    refine Trace.matched (E := fun _ => True) ?_ inputs hstart fun _ _ => trivial
    exact fun process machine input h _ => step_machine process machine input h
  obtain ⟨calls, hholds, hseen⟩ := hmatched
  have hruns : StandsFor service.transition service.init (takenIn (Trace.trace
      (callStep service.transition service.init) (freshMachine service.init) calls)) _ :=
    standsFor_run calls
  rw [takenIn, hseen] at hruns
  exact hholds.standsFor hruns

end Safenet.Core.Driver
