/-
What becomes of the effects a service asks for.

Each is performed at most once for each time it is asked for, and its result resumes the state machine at
most once (`effects_run_once`).  A task that is lost, with its process or on its own, is not made up for:
the state machine has to ask again.
-/
import Safenet.Proofs.DriverRuns
import Mathlib.Algebra.Order.Group.Multiset
import Mathlib.Tactic.Abel

namespace Safenet.Core

/-! ### Tasks -/

namespace EffectManager

variable {Handler Effect Resume Sampled α : Type}

/-- The effects that are still to be performed. -/
def toPerform (tasks : List (EffectTask Effect Resume)) : List Effect :=
  tasks.filterMap fun
    | .running effect => some effect
    | .finished _ => none

/-- The results that are still to be taken. -/
def toTake (tasks : List (EffectTask Effect Resume)) : List Resume :=
  tasks.filterMap fun
    | .running _ => none
    | .finished resume => some resume

/-- What becomes of tasks while effects are asked for, performed, and their results taken. -/
structure Worked (effects : EffectHandler Handler Effect Resume Sampled)
    (before after : List (EffectTask Effect Resume)) (asked : List Effect)
    (answered : List (Effect × Resume)) (taken : List Resume) : Prop where
  performed : (toPerform after ++ answered.map Prod.fst).Subperm (toPerform before ++ asked)
  resumed : (toTake after ++ taken).Subperm (toTake before ++ answered.map Prod.snd)
  answers : ∀ entry ∈ answered, ∃ sampled kept,
    entry.2 = (effects.performEffect sampled kept entry.1).2

/-- What is left and what has gone comes of what there was and what was added. -/
theorem subperm_chain {before middle after added added' gone gone' : List α}
    (h : (middle ++ gone).Subperm (before ++ added)) (h' : (after ++ gone').Subperm (middle ++ added')) :
    (after ++ (gone ++ gone')).Subperm (before ++ (added ++ added')) := by
  rw [← Multiset.coe_le] at h h' ⊢
  simp only [← Multiset.coe_add] at h h' ⊢
  calc (after : Multiset α) + (gone + gone') = after + gone' + gone := by abel
    _ ≤ middle + added' + gone := add_le_add_left h' _
    _ = middle + gone + added' := by abel
    _ ≤ before + added + added' := add_le_add_left h _
    _ = before + (added + added') := by abel

namespace Worked

variable {effects : EffectHandler Handler Effect Resume Sampled}
variable {before middle after : List (EffectTask Effect Resume)} {asked asked' : List Effect}
variable {answered answered' : List (Effect × Resume)} {taken taken' : List Resume}

theorem trans (h : Worked effects before middle asked answered taken)
    (h' : Worked effects middle after asked' answered' taken') :
    Worked effects before after (asked ++ asked') (answered ++ answered') (taken ++ taken') := by
  refine ⟨?_, ?_, fun entry hentry => ?_⟩
  · rw [List.map_append]
    exact subperm_chain h.performed h'.performed
  · rw [List.map_append]
    exact subperm_chain h.resumed h'.resumed
  · rcases List.mem_append.mp hentry with hmem | hmem
    · exact h.answers entry hmem
    · exact h'.answers entry hmem

/-- Tasks are lost, and effects are asked for in vain. -/
theorem lost (h : after.Sublist before) (asked : List Effect) :
    Worked effects before after asked [] [] := by
  refine ⟨?_, ?_, nofun⟩
  · rw [List.map_nil, List.append_nil]
    exact ((h.filterMap _).trans (List.sublist_append_left _ asked)).subperm
  · rw [List.map_nil, List.append_nil, List.append_nil]
    exact (h.filterMap _).subperm

theorem refl (tasks : List (EffectTask Effect Resume)) : Worked effects tasks tasks [] [] [] :=
  lost (List.Sublist.refl tasks) []

/-- Some results are taken in vain. -/
theorem sublist (h : Worked effects before after asked answered taken) (htaken : taken'.Sublist taken) :
    Worked effects before after asked answered taken' :=
  ⟨h.performed, ((htaken.append_left _).subperm).trans h.resumed, h.answers⟩

end Worked

section Tasks

variable {effects : EffectHandler Handler Effect Resume Sampled}

theorem worked_spawn (manager : EffectManager Handler Effect Resume) (effect : Effect) :
    Worked effects manager.tasks (manager.spawn effect).tasks [effect] [] [] := by
  refine ⟨?_, ?_, nofun⟩
  · simp [spawn, toPerform, List.filterMap_append, List.Subperm.refl]
  · simp [spawn, toTake, List.filterMap_append, List.Subperm.refl]

theorem worked_spawnAll (spawned : List Effect) : ∀ manager : EffectManager Handler Effect Resume,
    Worked effects manager.tasks (spawned.foldl spawn manager).tasks spawned [] [] := by
  induction spawned with
  | nil => exact fun manager => .refl _
  | cons effect spawned ih =>
      exact fun manager => (worked_spawn manager effect).trans (ih (manager.spawn effect))

/-- The tasks before one, and those after it. -/
theorem tasks_split {tasks : List (EffectTask Effect Resume)} {index : Nat}
    {task : EffectTask Effect Resume} (h : tasks[index]? = some task) :
    ∃ earlier later, tasks = earlier ++ task :: later ∧
      (∀ task', tasks.set index task' = earlier ++ task' :: later) ∧
      tasks.eraseIdx index = earlier ++ later := by
  obtain ⟨hlt, htask⟩ := List.getElem?_eq_some_iff.mp h
  refine ⟨tasks.take index, tasks.drop (index + 1), ?_, fun task' => ?_, ?_⟩
  · rw [← htask, ← List.drop_eq_getElem_cons hlt, List.take_append_drop]
  · rw [List.set_eq_take_append_cons_drop, if_pos hlt]
  · exact List.eraseIdx_eq_take_drop_succ ..

theorem worked_perform (manager : EffectManager Handler Effect Resume) (index : Nat) (sampled : Sampled) :
    Worked effects manager.tasks (manager.perform effects index sampled).1.tasks []
      (manager.perform effects index sampled).2.toList [] := by
  unfold perform
  split
  · next effect htask =>
      obtain ⟨earlier, later, hbefore, hset, -⟩ := tasks_split htask
      refine ⟨?_, ?_, fun entry hentry => ?_⟩
      · dsimp only
        rw [hset, hbefore]
        simp only [toPerform, List.filterMap_append, List.filterMap_cons, Option.toList_some,
          List.map_cons, List.map_nil, List.append_nil, List.append_assoc]
        exact ((List.perm_append_singleton effect _).append_left _).subperm
      · dsimp only
        rw [hset, hbefore]
        simp only [toTake, List.filterMap_append, List.filterMap_cons, Option.toList_some,
          List.map_cons, List.map_nil, List.append_nil, List.append_assoc]
        exact ((List.perm_append_singleton _ _).symm.append_left _).subperm
      · rw [Option.toList_some, List.mem_singleton] at hentry
        rw [hentry]
        exact ⟨sampled, manager.handler, rfl⟩
  · exact .refl _

theorem worked_fail (manager : EffectManager Handler Effect Resume) (index : Nat) :
    Worked effects manager.tasks (manager.fail index).tasks [] [] [] :=
  .lost (List.eraseIdx_sublist ..) []

theorem worked_next {manager manager' : EffectManager Handler Effect Resume} {index : Nat}
    {result : Resume} (h : manager.next index = some (result, manager')) :
    Worked effects manager.tasks manager'.tasks [] [] [result] := by
  unfold next at h
  split at h
  · next resume htask =>
      cases h
      obtain ⟨earlier, later, hbefore, -, herase⟩ := tasks_split htask
      have hlost : Worked effects manager.tasks (manager.tasks.eraseIdx index) [] [] [] :=
        .lost (List.eraseIdx_sublist ..) []
      refine ⟨hlost.performed, ?_, nofun⟩
      dsimp only
      rw [herase, hbefore]
      simp only [toTake, List.filterMap_append, List.filterMap_cons, List.map_nil, List.append_nil,
        List.append_assoc]
      exact ((List.perm_append_singleton result _).append_left _).subperm
  · cases h

end Tasks

end EffectManager

/-! ### One input -/

namespace Driver

open EffectManager

variable {S Event Action Effect Resume Handler Sampled : Type}
variable {service : Service S Event Action Effect Resume Handler Sampled} {setup : DriverSetup Event}
variable {driver driver' : Driver S Effect Resume Handler} {taken : Taken Event Resume}
variable {circumstances : Circumstances Sampled} {report : Report Event Action Effect Resume}

/-- The tasks of a process. -/
def Process.tasks : Process S Effect Resume Handler → List (EffectTask Effect Resume)
  | .running driver => driver.effects.tasks
  | .ending driver => driver.effects.tasks
  | .stopped _ => []

/-- The effects the state machine asks for. -/
def Output.asked (output : Output Event Action Effect Resume) : List Effect :=
  output.accepted.flatMap fun entry => effectsOf entry.2

/-- The effects that are performed, with their results. -/
def Output.answers : Output Event Action Effect Resume → List (Effect × Resume)
  | .answered effect resume => [(effect, resume)]
  | .processed report => report.answered
  | _ => []

/-- The results that resume the state machine. -/
def Output.results (output : Output Event Action Effect Resume) : List Resume :=
  resultsOf (output.accepted.map Prod.fst)

/-- What a step does with the tasks. -/
abbrev Works (service : Service S Event Action Effect Resume Handler Sampled)
    (before after : List (EffectTask Effect Resume)) (output : Output Event Action Effect Resume) : Prop :=
  Worked service.effects before after output.asked output.answers output.results

theorem Prepared.effects {prepared : Driver S Effect Resume Handler}
    {statements : List Tx.Storage.Statement}
    (h : Prepared setup driver circumstances taken prepared statements) :
    prepared.effects = driver.effects := by
  cases h <;> rfl

theorem dispatch_effects (service : Service S Event Action Effect Resume Handler Sampled)
    (setup : DriverSetup Event) (driver : Driver S Effect Resume Handler)
    (commands : List (Command Action Effect)) (circumstances : Circumstances Sampled) :
    (driver.dispatch service setup commands circumstances).1.effects =
      (effectsOf commands).foldl EffectManager.spawn driver.effects := by
  unfold dispatch
  dsimp only
  split <;> rfl

theorem worked_performAll (service : Service S Event Action Effect Resume Handler Sampled)
    (tasks : List (Nat × Sampled)) : ∀ driver : Driver S Effect Resume Handler,
      Worked service.effects driver.effects.tasks (driver.performAll service tasks).1.effects.tasks []
        (driver.performAll service tasks).2 [] := by
  induction tasks with
  | nil => exact fun driver => .refl _
  | cons task tasks ih =>
      exact fun driver => (worked_perform driver.effects task.1 task.2).trans
        (ih (driver.perform service task.1 task.2).1)

theorem housekeeping_tasks (service : Service S Event Action Effect Resume Handler Sampled)
    (driver : Driver S Effect Resume Handler) (taken : Taken Event Resume) :
    (driver.housekeeping service taken).effects.tasks = driver.effects.tasks := by
  unfold housekeeping
  split <;> rfl

/-- What is spawned is what was asked for, and some of it is performed. -/
theorem worked_conclude (service : Service S Event Action Effect Resume Handler Sampled)
    (setup : DriverSetup Event) (driver : Driver S Effect Resume Handler) (taken : Taken Event Resume)
    (commands : List (Command Action Effect)) (statements : List Tx.Storage.Statement)
    (circumstances : Circumstances Sampled) :
    Worked service.effects driver.effects.tasks
      (driver.conclude service setup taken commands statements circumstances).1.effects.tasks
      (effectsOf commands)
      (driver.conclude service setup taken commands statements circumstances).2.answered [] := by
  have hspawned : Worked service.effects driver.effects.tasks
      (driver.dispatch service setup commands circumstances).1.effects.tasks (effectsOf commands) [] [] := by
    rw [dispatch_effects]
    exact worked_spawnAll (effectsOf commands) driver.effects
  have hworked := hspawned.trans (worked_performAll service circumstances.tasks
    (driver.dispatch service setup commands circumstances).1)
  rw [List.append_nil] at hworked
  unfold conclude
  dsimp only
  split
  · exact hworked
  · rw [housekeeping_tasks]
    exact hworked

/-- An input is handed to the state machine at most once. -/
theorem accepted_update (service : Service S Event Action Effect Resume Handler Sampled)
    (setup : DriverSetup Event) (driver : Driver S Effect Resume Handler) (taken : Taken Event Resume)
    (circumstances : Circumstances Sampled) :
    ((driver.update service setup taken circumstances).2.accepted.map Prod.fst).Sublist [taken] := by
  have hupdated := updated_update service setup driver taken circumstances
  generalize driver.update service setup taken circumstances = updated at hupdated ⊢
  obtain ⟨driver', report⟩ := updated
  dsimp only at hupdated ⊢
  cases hupdated with
  | unprepared upd stop hstop => exact List.nil_sublist _
  | unhandled hprepared => exact List.nil_sublist _
  | refused hprepared hhandled => exact List.nil_sublist _
  | unpruned stop hprepared hhandled hstop => exact List.Sublist.refl _
  | concluded hprepared hhandled hpruned =>
      rw [conclude_accepted]
      exact List.Sublist.refl _

/-- **What an input does with the tasks.** -/
theorem worked_update (service : Service S Event Action Effect Resume Handler Sampled)
    (setup : DriverSetup Event) (driver : Driver S Effect Resume Handler) (taken : Taken Event Resume)
    (circumstances : Circumstances Sampled) :
    Worked service.effects driver.effects.tasks
      (driver.update service setup taken circumstances).1.effects.tasks
      ((driver.update service setup taken circumstances).2.accepted.flatMap fun entry => effectsOf entry.2)
      (driver.update service setup taken circumstances).2.answered [] := by
  have hupdated := updated_update service setup driver taken circumstances
  generalize driver.update service setup taken circumstances = updated at hupdated ⊢
  obtain ⟨driver', report⟩ := updated
  dsimp only at hupdated ⊢
  cases hupdated with
  | unprepared upd stop hstop => exact .refl _
  | unhandled hprepared =>
      rw [hprepared.effects]
      exact .refl _
  | refused hprepared hhandled =>
      rw [hprepared.effects]
      exact .refl _
  | unpruned stop hprepared hhandled hstop =>
      rw [hprepared.effects]
      exact .lost (List.Sublist.refl _) _
  | concluded hprepared hhandled hpruned =>
      rename_i prepared statements machine pruned commands
      rw [conclude_accepted, List.flatMap_singleton, ← hprepared.effects]
      exact worked_conclude service setup { prepared with state := pruned } taken commands statements
        circumstances

theorem proceed_tasks (driver : Driver S Effect Resume Handler) (stop : Option Stop) :
    (proceed driver stop).tasks = driver.effects.tasks := by
  cases stop <;> rfl

/-- Processing an update or a result, which is the only one that can resume the state machine. -/
theorem works_process {before : List (EffectTask Effect Resume)}
    (service : Service S Event Action Effect Resume Handler Sampled) (setup : DriverSetup Event)
    (driver : Driver S Effect Resume Handler) (taken : Taken Event Resume)
    (circumstances : Circumstances Sampled)
    (h : Worked service.effects before driver.effects.tasks [] [] (resultsOf [taken])) :
    Works service before (driver.process service setup taken circumstances).1.tasks
      (driver.process service setup taken circumstances).2 := by
  have hresults : (driver.process service setup taken circumstances).2.results.Sublist
      (resultsOf [taken]) :=
    (accepted_update service setup driver taken circumstances).filterMap _
  have hworked := h.trans (worked_update service setup driver taken circumstances)
  rw [List.nil_append, List.nil_append, List.append_nil] at hworked
  have htasks : (driver.process service setup taken circumstances).1.tasks =
      (driver.update service setup taken circumstances).1.effects.tasks := proceed_tasks ..
  rw [htasks]
  exact hworked.sublist hresults

theorem works_watch (service : Service S Event Action Effect Resume Handler Sampled)
    (setup : DriverSetup Event) (driver : Driver S Effect Resume Handler) (call : Watcher.Call)
    (circumstances : Circumstances Sampled) :
    Works service driver.effects.tasks (driver.watch service setup call circumstances).1.tasks
      (driver.watch service setup call circumstances).2 := by
  unfold watch
  split
  · next watcher upd hnext =>
      exact works_process service setup { driver with watcher } (.update upd) circumstances (.refl _)
  · exact .refl _
  · exact .refl _
  · exact .refl _

theorem works_outcome {before after : List (EffectTask Effect Resume)}
    {performed : Option (Effect × Resume)}
    (h : Worked service.effects before after [] performed.toList []) :
    Works service before after (outcome performed) := by
  cases performed with
  | none => exact h
  | some entry => exact h

/-- **What a step does with the tasks.** -/
theorem works_step (service : Service S Event Action Effect Resume Handler Sampled)
    (setup : DriverSetup Event) (process : Process S Effect Resume Handler)
    (input : Input Action Sampled) :
    Works service process.tasks (step service setup process input).1.tasks
      (step service setup process input).2 := by
  cases process with
  | running driver =>
      cases input with
      | start node fuel answers => exact .refl _
      | queueAction action answers stopsAfter =>
          dsimp only [step]
          split
          · exact .refl _
          · exact .refl _
      | watch call circumstances => exact works_watch service setup driver call circumstances
      | perform index sampled => exact works_outcome (worked_perform driver.effects index sampled)
      | fail index => exact worked_fail driver.effects index
      | resume index circumstances =>
          dsimp only [step]
          split
          · next resume effects hnext =>
              exact works_process service setup { driver with effects } (.resume resume) circumstances
                (worked_next hnext)
          · exact .refl _
      | stop => exact .lost (List.nil_sublist _) []
  | ending driver =>
      cases input with
      | perform index sampled => exact works_outcome (worked_perform driver.effects index sampled)
      | stop => exact .lost (List.nil_sublist _) []
      | _ => exact .refl _
  | stopped database =>
      cases input with
      | start node fuel answers =>
          dsimp only [step]
          split
          · next driver hnew =>
              obtain ⟨-, -, heffects⟩ := new_ok hnew
              show Worked service.effects [] driver.effects.tasks [] [] []
              rw [heffects]
              exact .refl _
          · exact .refl _
          · exact .refl _
      | _ => exact .refl _

/-! ### Runs -/

/-- The effects a run has asked for. -/
def askedBy (history : List (DriverStep S Event Action Effect Resume Handler Sampled)) : List Effect :=
  history.flatMap fun st => st.out.asked

/-- The effects a run has performed, with their results. -/
def answeredBy (history : List (DriverStep S Event Action Effect Resume Handler Sampled)) :
    List (Effect × Resume) :=
  history.flatMap fun st => st.out.answers

theorem resultsOf_takenBy_cons (st : DriverStep S Event Action Effect Resume Handler Sampled)
    (history : List (DriverStep S Event Action Effect Resume Handler Sampled)) :
    resultsOf (takenBy (st :: history)) = st.out.results ++ resultsOf (takenBy history) := by
  rw [takenBy, List.flatMap_cons, List.map_append, resultsOf, List.filterMap_append]
  rfl

theorem worked_run (service : Service S Event Action Effect Resume Handler Sampled)
    (setup : DriverSetup Event) (inputs : List (Input Action Sampled)) :
    ∀ process : Process S Effect Resume Handler,
      let history := Trace.trace (step service setup) process inputs
      Worked service.effects process.tasks (Trace.final (step service setup) process inputs).tasks
        (askedBy history) (answeredBy history) (resultsOf (takenBy history)) := by
  induction inputs with
  | nil => exact fun process => .refl _
  | cons input inputs ih =>
      intro process history
      have hworked := (works_step service setup process input).trans
        (ih (step service setup process input).1)
      show Worked _ _ _ _ _ (resultsOf (takenBy (_ :: _)))
      rw [resultsOf_takenBy_cons]
      exact hworked

/--
**Effects run at most once.**  Over every run, restarts included: what is performed was asked for, at most
as often as it was; what resumes the state machine is the result of something performed, each at most
once; and each result is what the handler made of the effect.
-/
theorem effects_run_once (service : Service S Event Action Effect Resume Handler Sampled)
    (setup : DriverSetup Event) (handler : Handler) (inputs : List (Input Action Sampled)) :
    let history := Trace.trace (step service setup) (.stopped (emptyDatabase handler)) inputs
    ((answeredBy history).map Prod.fst).Subperm (askedBy history) ∧
      (resultsOf (takenBy history)).Subperm ((answeredBy history).map Prod.snd) ∧
      ∀ entry ∈ answeredBy history, ∃ sampled kept,
        entry.2 = (service.effects.performEffect sampled kept entry.1).2 := by
  intro history
  have hworked := worked_run service setup inputs (.stopped (emptyDatabase handler))
  refine ⟨?_, ?_, hworked.answers⟩
  · exact (List.sublist_append_right ..).subperm.trans hworked.performed
  · exact (List.sublist_append_right ..).subperm.trans hworked.resumed

end Driver

end Safenet.Core
