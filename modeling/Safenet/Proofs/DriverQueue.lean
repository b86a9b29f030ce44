/-
What the driver stores in its queue.

The transactions of what the state machine accepts are stored in one statement, while the input is
processed.  They are not stored again later on, whatever is restarted, and they are only missing if the
process came to its end with that input: then the snapshot may be there, and the transactions not.
-/
import Safenet.Proofs.DriverRuns

namespace Safenet.Core

open Tx (Transaction)

/-! ### Calls of the queue -/

namespace Tx.Queue

open Program

variable {env : Env} {start : Storage} {transactions : List (Transaction × Option Nat)}

theorem enqueuedBy_eq_nil {st : Storage.DbStep} (h : ∀ queued, st.input ≠ .enqueue queued) :
    Storage.enqueuedBy st = [] := by
  unfold Storage.enqueuedBy
  split
  · next queued reply hinput hreply => exact absurd hinput (h queued)
  · rfl

theorem enqueued_eq_nil {statements : List Storage.Statement}
    (h : ∀ statement ∈ statements, ∀ queued, statement ≠ .enqueue queued) (storage : Storage) :
    Storage.enqueued (Trace.trace Storage.step storage statements) = [] :=
  List.flatMap_eq_nil_iff.mpr fun st hst => enqueuedBy_eq_nil (h st.input (Trace.input_mem hst))

theorem enqueued_append (storage : Storage) (statements statements' : List Storage.Statement) :
    Storage.enqueued (Trace.trace Storage.step storage (statements ++ statements')) =
      Storage.enqueued (Trace.trace Storage.step storage statements) ++
        Storage.enqueued (Trace.trace Storage.step (Trace.final Storage.step storage statements)
          statements') := by
  rw [Trace.trace_append, Storage.enqueued, List.flatMap_append]
  rfl

/-- The transactions a call has stored so far. -/
structure Stored (start : Storage) (transactions : List (Transaction × Option Nat)) (frame : Frame) :
    Prop where
  storage : frame.queue.storage = Trace.final Storage.step start frame.statements
  enqueued : Storage.enqueued (Trace.trace Storage.step start frame.statements) = transactions

theorem Stored.record {frame : Frame} (h : Stored start transactions frame)
    (statement : Storage.Statement) :
    Stored start (transactions ++
      Storage.enqueuedBy (Trace.take Storage.step frame.queue.storage statement))
      (frame.record statement) := by
  refine ⟨?_, ?_⟩
  · rw [Frame.record_storage, Frame.record_statements, Trace.final_concat, ← h.storage]
  · rw [Frame.record_statements, enqueued_append, h.enqueued, ← h.storage]
    exact congrArg _ (List.append_nil _)

theorem respects_stored (env : Env) (start : Storage) (transactions : List (Transaction × Option Nat)) :
    Respects env (fun _ => True) (Stored start transactions) where
  quiet frame frame' hstatements hstorage _ _ h := by
    refine ⟨?_, ?_⟩
    · rw [hstorage, hstatements]
      exact h.storage
    · rw [hstatements]
      exact h.enqueued
  cached _ _ _ _ := trivial
  answered _ _ _ _ h _ := ⟨trivial, h.storage, h.enqueued⟩

theorem keeps_stored {statement : Storage.Statement} (hother : ∀ queued, statement ≠ .enqueue queued) :
    Keeps (Stored start transactions) (execute env statement) := by
  have hrecord : ∀ frame, Stored start transactions frame →
      Stored start transactions (frame.record statement) := by
    intro frame h
    have hnext := h.record statement
    rwa [enqueuedBy_eq_nil hother, List.append_nil] at hnext
  exact triple_execute (fun frame h _ => h) (fun frame reply h _ => hrecord frame h)
    fun frame error h _ => hrecord frame h

/-- The transactions are stored by the first statement, and nothing is if it fails. -/
theorem triple_queue_stored (env : Env) (start : Storage) (transactions : List (Transaction × Option Nat)) :
    Triple (Stored start []) (queue env transactions) (fun _ => Stored start transactions)
      fun halt frame => Stored start transactions frame ∨ Stored start [] frame ∧ halt ≠ .rpc := by
  refine triple_bind (Q := fun _ => Stored start transactions) ?_ fun _ => ?_
  · refine triple_execute (fun frame h _ => .inr ⟨h, nofun⟩) (fun frame reply h hreply => ?_)
      fun frame error h herror => .inr ⟨?_, nofun⟩
    · have hnext := h.record (.enqueue transactions)
      rw [Storage.enqueuedBy, Trace.take_out, hreply] at hnext
      exact hnext
    · have hnext := h.record (.enqueue transactions)
      rw [Storage.enqueuedBy, Trace.take_out, herror] at hnext
      exact hnext
  · refine triple_get_bind fun frame => ?_
    cases hstatus : frame.queue.blockStatus with
    | none => exact triple_pure fun s hs => hs.1
    | some status =>
        have hsubmit : Keeps (Stored start transactions) (submitPending env status.latest) :=
          keeps_submitPending (respects_stored env start transactions)
            (fun submission => keeps_stored nofun) fun account _ => keeps_stored nofun
        exact triple_weaken hsubmit (fun s hs => hs.1) (fun _ _ h => h) fun _ _ h => .inl h

/-- Nothing is stored only if the call fails for good. -/
theorem step_stored (setup : Setup) (before : Queue) (transactions : List (Transaction × Option Nat))
    (answers : Answers) (stopsAfter : Option Nat) :
    let called := step setup before (.call (.queue transactions) answers stopsAfter)
    let stored := Storage.enqueued (Trace.trace Storage.step before.storage called.2.statements)
    stored = transactions ∨ stored = [] ∧ ∃ halt, called.2.result = .error halt ∧ halt ≠ .rpc := by
  have h := triple_queue_stored ⟨setup, answers, stopsAfter⟩ before.storage transactions ⟨before, [], 0⟩
    ⟨rfl, rfl⟩
  intro called
  have hcalled : called.2 = ⟨(queue ⟨setup, answers, stopsAfter⟩ transactions ⟨before, [], 0⟩).1,
      (queue ⟨setup, answers, stopsAfter⟩ transactions ⟨before, [], 0⟩).2.statements⟩ := rfl
  rw [hcalled]
  rcases hrun : (queue ⟨setup, answers, stopsAfter⟩ transactions ⟨before, [], 0⟩ :
    Except Halt Unit × Frame) with ⟨halt | ⟨⟩, frame⟩
  · rw [hrun] at h
    rcases h with hstored | ⟨hstored, hhalt⟩
    · exact .inl hstored.enqueued
    · exact .inr ⟨hstored.enqueued, halt, rfl, hhalt⟩
  · rw [hrun] at h
    exact .inl h.enqueued

/-- Nothing is stored when the queue is brought up to date. -/
theorem step_stores_nothing (setup : Setup) (before : Queue) (status : BlockStatus) (answers : Answers)
    (stopsAfter : Option Nat) :
    Storage.enqueued (Trace.trace Storage.step before.storage
      (step setup before (.call (.updateBlockStatus status) answers stopsAfter)).2.statements) = [] := by
  refine enqueued_eq_nil (fun statement hstatement queued henqueue => ?_) _
  obtain ⟨operation, _, _, hinput, hallowed⟩ := (step_traced setup before _).2 statement hstatement
  cases hinput
  subst henqueue
  exact hallowed

theorem opened_storage {config : Config} {answers : OpeningAnswers} {storage : Storage} {opened : Queue}
    (h : Queue.opened config answers storage = .ok opened) : opened.storage = storage := by
  unfold Queue.opened at h
  dsimp only at h
  split at h
  · cases h
    rfl
  · split at h
    · cases h
    · split at h
      · cases h
      · split at h
        · cases h
        · split at h
          · cases h
          · cases h
            rfl

end Tx.Queue

/-! ### One input -/

namespace Driver

variable {S Event Action Effect Resume Handler Sampled : Type}
variable {service : Service S Event Action Effect Resume Handler Sampled} {setup : DriverSetup Event}
variable {driver driver' : Driver S Effect Resume Handler} {taken : Taken Event Resume}
variable {circumstances : Circumstances Sampled} {report : Report Event Action Effect Resume}

/-- The tables of the queue. -/
def Process.storage : Process S Effect Resume Handler → Tx.Storage
  | .running driver => driver.transactions.storage
  | .ending driver => driver.transactions.storage
  | .stopped database => database.storage

/-- What is executed on the tables. -/
def Output.statements : Output Event Action Effect Resume → List Tx.Storage.Statement
  | .queued statements _ => statements
  | .processed report => report.statements
  | _ => []

/-- Why the process is about to end. -/
def Output.stop : Output Event Action Effect Resume → Option Stop
  | .queued _ stop => stop
  | .processed report => report.stop
  | _ => none

/-- The transactions of what was accepted. -/
def transactionsOf (service : Service S Event Action Effect Resume Handler Sampled)
    (accepted : List (Taken Event Resume × List (Command Action Effect))) :
    List (Transaction × Option Nat) :=
  (accepted.flatMap fun entry => actionsOf entry.2).map service.encodeAction

/-- The transactions of what is accepted in a step, or queued from outside. -/
def offered (service : Service S Event Action Effect Resume Handler Sampled)
    (input : Input Action Sampled) (output : Output Event Action Effect Resume) :
    List (Transaction × Option Nat) :=
  match input, output with
  | .queueAction action _ _, .queued _ _ => [service.encodeAction action]
  | _, output => transactionsOf service output.accepted

/-- The statements change the tables, and store the transactions; or nothing, if the process ends. -/
structure Executed (before after : Tx.Storage) (statements : List Tx.Storage.Statement)
    (transactions : List (Transaction × Option Nat)) (stop : Option Stop) : Prop where
  storage : after = Trace.final Tx.Storage.step before statements
  isNew : ∀ statement ∈ statements, statement.IsNew
  stored : Tx.Storage.enqueued (Trace.trace Tx.Storage.step before statements) = transactions ∨
    Tx.Storage.enqueued (Trace.trace Tx.Storage.step before statements) = [] ∧ stop.isSome

namespace Executed

variable {before middle after : Tx.Storage} {statements statements' : List Tx.Storage.Statement}
variable {transactions : List (Transaction × Option Nat)} {stop : Option Stop}

theorem refl (storage : Tx.Storage) (stop : Option Stop) : Executed storage storage [] [] stop :=
  ⟨rfl, nofun, .inl rfl⟩

/-- Nothing is stored, and the process ends. -/
theorem stopped (h : Executed before after statements [] none) (stop : Stop) :
    Executed before after statements transactions (some stop) := by
  refine ⟨h.storage, h.isNew, .inr ⟨?_, rfl⟩⟩
  rcases h.stored with hnone | ⟨hnone, -⟩
  · exact hnone
  · exact hnone

theorem trans (h : Executed before middle statements [] none)
    (h' : Executed middle after statements' transactions stop) :
    Executed before after (statements ++ statements') transactions stop := by
  have hnone : Tx.Storage.enqueued (Trace.trace Tx.Storage.step before statements) = [] := by
    rcases h.stored with hnone | ⟨hnone, -⟩
    · exact hnone
    · exact hnone
  refine ⟨?_, fun statement hstatement => ?_, ?_⟩
  · rw [Trace.final_append, ← h.storage]
    exact h'.storage
  · rcases List.mem_append.mp hstatement with hmem | hmem
    · exact h.isNew statement hmem
    · exact h'.isNew statement hmem
  · rw [Tx.Queue.enqueued_append, hnone, ← h.storage]
    exact h'.stored

end Executed

theorem call_storage (setup : DriverSetup Event) (driver : Driver S Effect Resume Handler)
    (operation : Tx.Queue.Operation) (answers : Tx.Answers) (stopsAfter : Option Nat) :
    (driver.call setup operation answers stopsAfter).1.transactions.storage =
        Trace.final Tx.Storage.step driver.transactions.storage
          (driver.call setup operation answers stopsAfter).2.statements ∧
      ∀ statement ∈ (driver.call setup operation answers stopsAfter).2.statements, statement.IsNew := by
  obtain ⟨hstorage, hallowed⟩ := Tx.Queue.step_traced setup.transactions driver.transactions
    (.call operation answers stopsAfter)
  refine ⟨hstorage, fun statement hstatement => ?_⟩
  obtain ⟨_, _, _, -, h⟩ := hallowed statement hstatement
  exact h.isNew

/-- The call that queues transactions. -/
theorem queue_executed (setup : DriverSetup Event) (driver : Driver S Effect Resume Handler)
    (transactions : List (Transaction × Option Nat)) (answers : Tx.Answers) (stopsAfter : Option Nat)
    {stop : Option Stop}
    (hstop : ∀ halt, (driver.call setup (.queue transactions) answers stopsAfter).2.result = .error halt →
      halt ≠ .rpc → stop.isSome) :
    Executed driver.transactions.storage
      (driver.call setup (.queue transactions) answers stopsAfter).1.transactions.storage
      (driver.call setup (.queue transactions) answers stopsAfter).2.statements transactions stop := by
  obtain ⟨hstorage, hnew⟩ := call_storage setup driver (.queue transactions) answers stopsAfter
  refine ⟨hstorage, hnew, ?_⟩
  rcases Tx.Queue.step_stored setup.transactions driver.transactions transactions answers stopsAfter with
    hstored | ⟨hnone, halt, hhalt, hrpc⟩
  · exact .inl hstored
  · exact .inr ⟨hnone, hstop halt hhalt hrpc⟩

theorem reconcile_executed (setup : DriverSetup Event) (driver : Driver S Effect Resume Handler)
    (circumstances : Circumstances Sampled) :
    Executed driver.transactions.storage (driver.reconcile setup circumstances).1.transactions.storage
      (driver.reconcile setup circumstances).2.statements [] none := by
  obtain ⟨hstorage, hnew⟩ := call_storage setup driver
    (.updateBlockStatus driver.watcher.blocks.status) circumstances.reconcile circumstances.reconcileStops
  exact ⟨hstorage, hnew, .inl (Tx.Queue.step_stores_nothing ..)⟩

theorem Prepared.executed {prepared : Driver S Effect Resume Handler}
    {statements : List Tx.Storage.Statement}
    (h : Prepared setup driver circumstances taken prepared statements) :
    Executed driver.transactions.storage prepared.transactions.storage statements [] none := by
  cases h with
  | resume result => exact .refl ..
  | update upd hok => exact reconcile_executed setup driver circumstances

theorem liftIntermittentError_isSome {halt : Tx.Queue.Halt} (h : halt ≠ .rpc) :
    (liftIntermittentError (.error halt)).isSome := by
  unfold liftIntermittentError
  split
  · next hok => cases hok
  · next hrpc => cases hrpc; exact absurd rfl h
  · rfl

theorem dispatch_executed (service : Service S Event Action Effect Resume Handler Sampled)
    (setup : DriverSetup Event) (driver : Driver S Effect Resume Handler)
    (commands : List (Command Action Effect)) (circumstances : Circumstances Sampled) :
    Executed driver.transactions.storage
      (driver.dispatch service setup commands circumstances).1.transactions.storage
      (driver.dispatch service setup commands circumstances).2.statements
      ((actionsOf commands).map service.encodeAction)
      (liftIntermittentError (driver.dispatch service setup commands circumstances).2.result) := by
  unfold dispatch
  dsimp only
  split
  · next hempty =>
      rw [List.isEmpty_iff.mp hempty]
      exact .refl ..
  · refine queue_executed setup
      { driver with effects := (effectsOf commands).foldl EffectManager.spawn driver.effects } _ _ _
      fun halt hhalt hrpc => ?_
    rw [hhalt]
    exact liftIntermittentError_isSome hrpc

theorem transactionsOf_singleton (service : Service S Event Action Effect Resume Handler Sampled)
    (taken : Taken Event Resume) (commands : List (Command Action Effect)) :
    transactionsOf service [(taken, commands)] = (actionsOf commands).map service.encodeAction := by
  rw [transactionsOf, List.flatMap_singleton]

theorem conclude_executed (service : Service S Event Action Effect Resume Handler Sampled)
    (setup : DriverSetup Event) (driver : Driver S Effect Resume Handler) (taken : Taken Event Resume)
    (commands : List (Command Action Effect)) {statements : List Tx.Storage.Statement}
    (circumstances : Circumstances Sampled) {before : Tx.Storage}
    (h : Executed before driver.transactions.storage statements [] none) :
    Executed before
      (driver.conclude service setup taken commands statements circumstances).1.transactions.storage
      (driver.conclude service setup taken commands statements circumstances).2.statements
      (transactionsOf service
        (driver.conclude service setup taken commands statements circumstances).2.accepted)
      (driver.conclude service setup taken commands statements circumstances).2.stop := by
  have hdispatched := h.trans (dispatch_executed service setup driver commands circumstances)
  have htransactions := congrArg Driver.transactions
    (conclude_frame service setup driver taken commands statements circumstances)
  rw [conclude_accepted, transactionsOf_singleton, htransactions]
  unfold conclude
  dsimp only
  split
  · exact hdispatched
  · exact hdispatched

/-- **An input stores the transactions of what is accepted.** -/
theorem update_executed (service : Service S Event Action Effect Resume Handler Sampled)
    (setup : DriverSetup Event) (driver : Driver S Effect Resume Handler) (taken : Taken Event Resume)
    (circumstances : Circumstances Sampled) :
    Executed driver.transactions.storage
      (driver.update service setup taken circumstances).1.transactions.storage
      (driver.update service setup taken circumstances).2.statements
      (transactionsOf service (driver.update service setup taken circumstances).2.accepted)
      (driver.update service setup taken circumstances).2.stop := by
  have hupdated := updated_update service setup driver taken circumstances
  generalize driver.update service setup taken circumstances = updated at hupdated ⊢
  obtain ⟨driver', report⟩ := updated
  dsimp only at hupdated ⊢
  cases hupdated with
  | unprepared upd stop hstop => exact (reconcile_executed setup driver circumstances).stopped stop
  | unhandled hprepared => exact hprepared.executed.stopped _
  | refused hprepared hhandled => exact hprepared.executed.stopped _
  | unpruned stop hprepared hhandled hstop => exact hprepared.executed.stopped stop
  | concluded hprepared hhandled hpruned =>
      exact conclude_executed service setup _ _ _ circumstances hprepared.executed

/-! ### Runs -/

theorem process_executed (service : Service S Event Action Effect Resume Handler Sampled)
    (setup : DriverSetup Event) (driver : Driver S Effect Resume Handler) (taken : Taken Event Resume)
    (circumstances : Circumstances Sampled) :
    Executed driver.transactions.storage (driver.process service setup taken circumstances).1.storage
      (driver.process service setup taken circumstances).2.statements
      (transactionsOf service (driver.process service setup taken circumstances).2.accepted)
      (driver.process service setup taken circumstances).2.stop := by
  have hupdated := update_executed service setup driver taken circumstances
  have hstorage : (driver.process service setup taken circumstances).1.storage =
      (driver.update service setup taken circumstances).1.transactions.storage := by
    unfold process proceed
    dsimp only
    split <;> rfl
  rw [hstorage]
  exact hupdated

theorem watch_executed (service : Service S Event Action Effect Resume Handler Sampled)
    (setup : DriverSetup Event) (driver : Driver S Effect Resume Handler) (call : Watcher.Call)
    (circumstances : Circumstances Sampled) :
    Executed driver.transactions.storage (driver.watch service setup call circumstances).1.storage
      (driver.watch service setup call circumstances).2.statements
      (transactionsOf service (driver.watch service setup call circumstances).2.accepted)
      (driver.watch service setup call circumstances).2.stop := by
  unfold watch
  split
  · next watcher upd hnext =>
      exact process_executed service setup { driver with watcher } (.update upd) circumstances
  · exact .refl ..
  · exact .refl ..
  · exact .refl ..

theorem outcome_executed (storage : Tx.Storage) (performed : Option (Effect × Resume)) :
    Executed storage storage (outcome performed : Output Event Action Effect Resume).statements []
      (outcome performed : Output Event Action Effect Resume).stop := by
  cases performed <;> exact .refl ..

/-- **What a step does to the tables of the queue.** -/
theorem step_executed (service : Service S Event Action Effect Resume Handler Sampled)
    (setup : DriverSetup Event) (process : Process S Effect Resume Handler)
    (input : Input Action Sampled) :
    Executed process.storage (step service setup process input).1.storage
      (step service setup process input).2.statements
      (offered service input (step service setup process input).2)
      (step service setup process input).2.stop := by
  cases process with
  | running driver =>
      cases input with
      | start node fuel answers => exact .refl ..
      | queueAction action answers stopsAfter =>
          dsimp only [step]
          split
          · next hok =>
              refine queue_executed setup driver _ _ _ fun halt hhalt _ => ?_
              rw [hok] at hhalt
              cases hhalt
          · exact queue_executed setup driver _ _ _ fun _ _ _ => rfl
      | watch call circumstances => exact watch_executed service setup driver call circumstances
      | perform index sampled =>
          dsimp only [step, offered]
          rw [outcome_accepted]
          exact outcome_executed _ _
      | fail index => exact .refl ..
      | resume index circumstances =>
          dsimp only [step]
          split
          · next resume effects hnext =>
              exact process_executed service setup { driver with effects } (.resume resume) circumstances
          · exact .refl ..
      | stop => exact .refl ..
  | ending driver =>
      cases input with
      | perform index sampled =>
          dsimp only [step, offered]
          rw [outcome_accepted]
          exact outcome_executed _ _
      | _ => exact .refl ..
  | stopped database =>
      cases input with
      | start node fuel answers =>
          dsimp only [step]
          split
          · next driver hnew =>
              obtain ⟨-, hopened, -⟩ := new_ok hnew
              show Executed database.storage driver.transactions.storage [] [] none
              rw [Tx.Queue.opened_storage hopened]
              exact .refl ..
          · exact .refl ..
          · exact .refl ..
      | _ => exact .refl ..

/-- Everything a run executes on the tables. -/
def statementsOf (history : List (DriverStep S Event Action Effect Resume Handler Sampled)) :
    List Tx.Storage.Statement :=
  history.flatMap fun st => st.out.statements

/-- What a step stores: the transactions of what is accepted, or nothing, if the process ends. -/
def Stores (service : Service S Event Action Effect Resume Handler Sampled)
    (st : DriverStep S Event Action Effect Resume Handler Sampled)
    (stored : List (Transaction × Option Nat)) : Prop :=
  stored = offered service st.input st.out ∨ stored = [] ∧ st.out.stop.isSome

theorem run_executed (service : Service S Event Action Effect Resume Handler Sampled)
    (setup : DriverSetup Event) (inputs : List (Input Action Sampled)) :
    ∀ process : Process S Effect Resume Handler,
      let history := Trace.trace (step service setup) process inputs
      (Trace.final (step service setup) process inputs).storage =
          Trace.final Tx.Storage.step process.storage (statementsOf history) ∧
        (∀ statement ∈ statementsOf history, statement.IsNew) ∧
        ∃ stored, List.Forall₂ (Stores service) history stored ∧
          Tx.Storage.enqueued (Trace.trace Tx.Storage.step process.storage (statementsOf history)) =
            stored.flatten := by
  induction inputs with
  | nil => exact fun process => ⟨rfl, nofun, [], .nil, rfl⟩
  | cons input inputs ih =>
      intro process history
      have hfirst := step_executed service setup process input
      obtain ⟨hstorage, hnew, stored, hstores, henqueued⟩ := ih (step service setup process input).1
      refine ⟨?_, fun statement hstatement => ?_,
        Tx.Storage.enqueued (Trace.trace Tx.Storage.step process.storage
          (step service setup process input).2.statements) :: stored, .cons hfirst.stored hstores, ?_⟩
      · rw [Trace.final_cons, hstorage, hfirst.storage, ← Trace.final_append]
        rfl
      · rcases List.mem_append.mp hstatement with hmem | hmem
        · exact hfirst.isNew statement hmem
        · exact hnew statement hmem
      · show Tx.Storage.enqueued (Trace.trace Tx.Storage.step process.storage
          ((step service setup process input).2.statements ++ statementsOf _)) = _
        rw [Tx.Queue.enqueued_append, ← hfirst.storage, henqueued, List.flatten_cons]

/--
**Every action is stored once.**  Over every run on a fresh database: each step stores the transactions
of the actions accepted in it, or nothing, and then the process is about to end.  What was stored is in
the table or was removed, once; and it is removed only at a safe block, with its nonce if that is marked
as executed there or below, or without one if it has expired.
-/
theorem actions_are_stored_once (service : Service S Event Action Effect Resume Handler Sampled)
    (setup : DriverSetup Event) (handler : Handler) (inputs : List (Input Action Sampled)) :
    let history := Trace.trace (step service setup) (.stopped (emptyDatabase handler)) inputs
    let tables := Trace.trace Tx.Storage.step .empty (statementsOf history)
    let storage := (Trace.final (step service setup) (.stopped (emptyDatabase handler)) inputs).storage
    storage = Trace.final Tx.Storage.step .empty (statementsOf history) ∧
      (∃ stored, List.Forall₂ (Stores service) history stored ∧
        stored.flatten.Perm (storage.transactions.rows.map Tx.Storage.entry ++
          (Tx.Storage.removed tables).map Tx.Storage.entry)) ∧
      ∀ d ∈ tables, ∀ row ∈ Tx.Storage.removedBy d, ∃ safe, d.input = .prune safe ∧
        ((∃ nonceRow ∈ d.pre.allocatedNonces.rows, row.nonce = some nonceRow.nonce ∧
            ∃ block ∈ nonceRow.executedAt, block ≤ safe) ∨
          row.nonce = none ∧ ∃ block ∈ row.expiresAt, block ≤ safe) := by
  intro history tables storage
  obtain ⟨hstorage, hnew, stored, hstores, henqueued⟩ :=
    run_executed service setup inputs (.stopped (emptyDatabase handler))
  have hfinal : storage = Trace.final Tx.Storage.step .empty (statementsOf history) := hstorage
  refine ⟨hfinal, ⟨stored, hstores, ?_⟩, fun d hd row hrow => ?_⟩
  · have hconserved := Tx.Storage.run_conserved _ hnew Tx.Storage.consistent_empty
    rw [← henqueued]
    rw [← hfinal] at hconserved
    exact hconserved.symm
  · exact (Tx.Storage.run_sound _ hnew Tx.Storage.consistent_empty d hd).removed hrow

end Driver

end Safenet.Core
