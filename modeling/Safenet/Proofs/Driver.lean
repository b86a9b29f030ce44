/-
What the driver does with an input.

`Updated` says once, with one constructor for each way through `update`, what becomes of the parts of the
driver and what is reported.  What is said of a part of the driver is read off it.
-/
import Safenet.Lib.Simulation
import Safenet.Proofs.MachineCalls
import Safenet.Proofs.TransactionQueue

namespace Safenet.Core.Driver

open StateMachine (handleUpdate handleResume withInit)

variable {S Event Action Effect Resume Handler Sampled : Type}
variable {service : Service S Event Action Effect Resume Handler Sampled} {setup : DriverSetup Event}
variable {driver driver' : Driver S Effect Resume Handler} {taken : Taken Event Resume}
variable {circumstances : Circumstances Sampled} {report : Report Event Action Effect Resume}

/-! ### One input -/

/-- What the state machine makes of an input. -/
def handled (service : Service S Event Action Effect Resume Handler Sampled) (machine : StateMachine S) :
    Taken Event Resume → StateMachine S × Except StateMachine.Error (List (Command Action Effect))
  | .update update => handleUpdate service.transition machine update
  | .resume resume => handleResume service.transition machine resume

/-- The queue is brought up to date before an update. -/
inductive Prepared (setup : DriverSetup Event) (driver : Driver S Effect Resume Handler)
    (circumstances : Circumstances Sampled) : Taken Event Resume → Driver S Effect Resume Handler →
    List Tx.Storage.Statement → Prop
  | resume (resume : Resume) : Prepared setup driver circumstances (.resume resume) driver []
  | update (update : Update Event)
      (h : liftIntermittentError (driver.reconcile setup circumstances).2.result = none) :
      Prepared setup driver circumstances (.update update) (driver.reconcile setup circumstances).1
        (driver.reconcile setup circumstances).2.statements

/-- The snapshots are pruned after an update. -/
inductive Pruned (driver : Driver S Effect Resume Handler) :
    Taken Event Resume → StateMachine S → StateMachine S → Prop
  | resume (resume : Resume) (machine : StateMachine S) : Pruned driver (.resume resume) machine machine
  | update (update : Update Event) (machine : StateMachine S)
      (h : (machine.prune driver.watcher.blocks.status.safe).2 = .ok ()) :
      Pruned driver (.update update) machine (machine.prune driver.watcher.blocks.status.safe).1

/-- The ways through `update`. -/
inductive Updated (service : Service S Event Action Effect Resume Handler Sampled)
    (setup : DriverSetup Event) (driver : Driver S Effect Resume Handler)
    (circumstances : Circumstances Sampled) : Taken Event Resume → Driver S Effect Resume Handler →
    Report Event Action Effect Resume → Prop
  | unprepared (update : Update Event) (stop : Stop)
      (h : liftIntermittentError (driver.reconcile setup circumstances).2.result = some stop) :
      Updated service setup driver circumstances (.update update) (driver.reconcile setup circumstances).1
        ⟨.update update, none, (driver.reconcile setup circumstances).2.statements, [], some stop⟩
  | unhandled {taken : Taken Event Resume} {prepared : Driver S Effect Resume Handler}
      {statements : List Tx.Storage.Statement}
      (hprepared : Prepared setup driver circumstances taken prepared statements) :
      Updated service setup driver circumstances taken prepared
        ⟨taken, none, statements, [], some .shutdown⟩
  | refused {taken : Taken Event Resume} {prepared : Driver S Effect Resume Handler}
      {statements : List Tx.Storage.Statement} {machine : StateMachine S} {error : StateMachine.Error}
      (hprepared : Prepared setup driver circumstances taken prepared statements)
      (hhandled : handled service prepared.state taken = (machine, .error error)) :
      Updated service setup driver circumstances taken { prepared with state := machine }
        ⟨taken, some (.error error), statements, [], some (.state error)⟩
  | unpruned {update : Update Event} {prepared : Driver S Effect Resume Handler}
      {statements : List Tx.Storage.Statement} {machine : StateMachine S}
      {commands : List (Command Action Effect)} (stop : Stop)
      (hprepared : Prepared setup driver circumstances (.update update) prepared statements)
      (hhandled : handled service prepared.state (.update update) = (machine, .ok commands))
      (hstop : ∀ error, stop = .state error →
        (machine.prune prepared.watcher.blocks.status.safe).2 = .error error) :
      Updated service setup driver circumstances (.update update) { prepared with state := machine }
        ⟨.update update, some (.ok commands), statements, [], some stop⟩
  | concluded {taken : Taken Event Resume} {prepared : Driver S Effect Resume Handler}
      {statements : List Tx.Storage.Statement} {machine pruned : StateMachine S}
      {commands : List (Command Action Effect)}
      (hprepared : Prepared setup driver circumstances taken prepared statements)
      (hhandled : handled service prepared.state taken = (machine, .ok commands))
      (hpruned : Pruned prepared taken machine pruned) :
      Updated service setup driver circumstances taken
        (conclude service setup { prepared with state := pruned } taken commands statements
          circumstances).1
        (conclude service setup { prepared with state := pruned } taken commands statements
          circumstances).2

/-- Pruning fails only before anything is written. -/
theorem prune_error {machine : StateMachine S} {safe : Nat} {error : StateMachine.Error}
    (h : (machine.prune safe).2 = .error error) : (machine.prune safe).1 = machine := by
  unfold StateMachine.prune at h ⊢
  split
  · rfl
  · next snapshots hprune =>
      rw [hprune] at h
      cases h

theorem handle_eq (driver : Driver S Effect Resume Handler) (taken : Taken Event Resume) :
    driver.handle service taken =
      ({ driver with state := (handled service driver.state taken).1 },
        (handled service driver.state taken).2) := by
  cases taken with
  | update upd => rfl
  | resume result => rfl

theorem updated_advance {upd : Update Event} {prepared : Driver S Effect Resume Handler}
    {statements : List Tx.Storage.Statement}
    (hprepared : Prepared setup driver circumstances (.update upd) prepared statements) :
    Updated service setup driver circumstances (.update upd)
      (prepared.advance service setup upd statements circumstances).1
      (prepared.advance service setup upd statements circumstances).2 := by
  unfold advance
  split
  · exact .unhandled hprepared
  · rw [handle_eq]
    rcases hhandled : handled service prepared.state (.update upd) with ⟨machine, error | commands⟩
    · exact .refused hprepared hhandled
    · dsimp only
      split
      · exact .unpruned .shutdown hprepared hhandled nofun
      · rcases hprune : machine.prune prepared.watcher.blocks.status.safe with ⟨pruned, error | ⟨⟩⟩
        · have hsame : pruned = machine := by
            have hfails : (machine.prune prepared.watcher.blocks.status.safe).2 = .error error := by rw [hprune]
            have hkept := prune_error hfails
            rwa [hprune] at hkept
          subst hsame
          have hprune' : Driver.prune { prepared with state := pruned } =
              ({ prepared with state := pruned }, some (.state error)) := by
            unfold Driver.prune
            simp only [hprune]
          rw [hprune']
          refine .unpruned (.state error) hprepared hhandled fun error' herror => ?_
          cases herror
          rw [hprune]
        · have hprune' : Driver.prune { prepared with state := machine } =
              ({ prepared with state := pruned }, none) := by
            unfold Driver.prune
            simp only [hprune]
          rw [hprune']
          have hpruned : Pruned prepared (.update upd) machine
              (machine.prune prepared.watcher.blocks.status.safe).1 := .update upd machine (by rw [hprune])
          rw [hprune] at hpruned
          exact .concluded hprepared hhandled hpruned

/-- **`update` is one of these ways.** -/
theorem updated_update (service : Service S Event Action Effect Resume Handler Sampled)
    (setup : DriverSetup Event) (driver : Driver S Effect Resume Handler) (taken : Taken Event Resume)
    (circumstances : Circumstances Sampled) :
    Updated service setup driver circumstances taken (driver.update service setup taken circumstances).1
      (driver.update service setup taken circumstances).2 := by
  cases taken with
  | resume result =>
      unfold update
      dsimp only
      split
      · exact .unhandled (.resume result)
      · rw [handle_eq]
        rcases hhandled : handled service driver.state (.resume result) with ⟨machine, error | commands⟩
        · exact .refused (.resume result) hhandled
        · exact .concluded (.resume result) hhandled (.resume result machine)
  | update upd =>
      unfold update
      dsimp only
      split
      · next stop hstop => exact .unprepared upd stop hstop
      · next hnone => exact updated_advance (.update upd hnone)

end Safenet.Core.Driver
