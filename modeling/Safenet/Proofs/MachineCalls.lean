/-
The state machine of a service with effects.

The result of an effect changes the live state at any moment, and is part of the next snapshot.  So the
machine is no replay of the canonical branch alone, but of the branch with results in between (`Stands`):
those that were handed in, each at most once and in their order, less what a reorg or a restart has taken
back with the state.

What the machine does with blocks does not depend on the state.  A second machine that only writes down
the messages of the chain therefore goes along with it (`Alike`), and that one is a replay of the branch
by `replays_run`.
-/
import Safenet.Core.Driver
import Safenet.Lib.Related
import Safenet.Proofs.Replay

namespace Safenet.Core

open StateMachine

variable {S S' Event Resume Action Effect : Type}

/-! ### What is accepted -/

namespace StateMachine

theorem isSorted_of_pairwise {logs : List (EventLog Event)}
    (h : logs.Pairwise fun a b => logBefore a b = true) : isSorted logs = true := by
  induction logs with
  | nil => rfl
  | cons a logs ih =>
      cases logs with
      | nil => rfl
      | cons b logs =>
          obtain ⟨ha, hrest⟩ := List.pairwise_cons.mp h
          simp only [isSorted, Bool.and_eq_true]
          exact ⟨ha b List.mem_cons_self, ih hrest⟩

variable {transition : StateTransition S Event Resume Action Effect} {store store' : SnapshotStore S}
  {state state' : S} {status status' : Status} {update : Update Event}
  {commands : List (Command Action Effect)}

/-- A page is handled if its logs are in order and inside of it, and the numbers fit. -/
theorem handleLogs_eq {page : EventUpdate Event} (hok : PageOK page)
    (hwidth : page.blocks.last < 2 ^ 63) {next : Status}
    (hnext : statusAfterLogs status page.blocks = .ok next) :
    handleLogs transition store state status page =
      (let run := runPage transition (isWarping status) state page
       let kept : SnapshotStore S := ⟨store.snapshots.insert page.blocks.last run.1⟩
       match next with
       | .blockPending pending =>
           .ok (kept, (transition.applyTransition run.1 (.newBlock pending)).1, .blockApplied pending,
             run.2 ++ (transition.applyTransition run.1 (.newBlock pending)).2)
       | next => .ok (kept, run.1, next, run.2)) := by
  have hguard : (isSorted page.logs &&
      !page.logs.any fun log => !page.blocks.contains log.block.number) = true := by
    rw [isSorted_of_pairwise hok.sorted, Bool.true_and, Bool.not_eq_true', List.any_eq_false]
    intro log hlog
    have hin := mem_blocks.mp (hok.inRange log hlog)
    simp [BlockRange.contains, hin.1, hin.2]
  have hrun : applyBlocks transition (isWarping status) page.blocks.blocks state [] page.logs =
      runPage transition (isWarping status) state page := by
    rw [applyBlocks_eq transition _ _ _ _ _ (blocks_sorted _) hok.sorted hok.inRange]
    simp [runPage]
  unfold handleLogs
  rw [hguard]
  simp only [Fallible.require, if_true, hrun, hnext, SnapshotStore.commit, SnapshotStore.toI64,
    if_pos hwidth]
  cases next with
  | initialized => rfl
  | blockPending pending => rfl
  | blockApplied pending => rfl
  | blockEvents latest => rfl
  | warpEvents range => rfl

theorem nextBlock_eq {n : Nat} (h : n < 2 ^ 63) : nextBlock n = .ok (n + 1) := by
  unfold nextBlock
  rw [if_pos (by omega)]

theorem blockRange_eq {first last : Nat} (h : first ≤ last) : blockRange first last = .ok ⟨first, last⟩ := by
  unfold blockRange
  rw [if_pos h]

theorem reorg_eq {number : Nat} (hpos : 0 < number) (hwidth : number < 2 ^ 63)
    (hparent : store.snapshots.lookup (number - 1) = some state) :
    store.reorg number = .ok (⟨store.snapshots.filter fun n _ => ¬ n ≥ number⟩, number - 1, state) := by
  have hkept : (store.snapshots.filter fun n _ => ¬ n ≥ number).lookup (number - 1) = some state :=
    Table.lookup_filter_eq_some.mpr ⟨hparent, by simp; omega⟩
  have hfits : SnapshotStore.toI64 number = .ok number := if_pos hwidth
  unfold SnapshotStore.reorg
  refine Fallible.bind_eq_ok.mpr ⟨⟨⟩, ?_, Fallible.bind_eq_ok.mpr ⟨number, hfits, ?_⟩⟩
  · exact Fallible.require_eq_ok.mpr (decide_eq_true (Nat.ne_of_gt hpos))
  · dsimp only
    rw [hkept]
    rfl

/-- **The ways through `handle_update` are taken.** -/
theorem Accepts.applyUpdate_eq
    (h : Accepts transition store state status update store' state' status' commands) :
    applyUpdate transition store state status update = .ok (store', state', status', commands) := by
  cases h with
  | warp haccepts hle =>
      unfold applyUpdate
      simp only [haccepts, if_true, blockRange, if_pos hle]
      rfl
  | uncle haccepts hpos hwidth hparent =>
      unfold applyUpdate
      simp only [haccepts, if_true, reorg_eq hpos hwidth hparent]
      rfl
  | newApplied =>
      unfold applyUpdate acceptsNew
      simp only [decide_true, if_true]
      rfl
  | newPending hstatus =>
      unfold applyUpdate acceptsNew
      rcases hstatus with rfl | rfl
      · simp only [if_true]
        rfl
      · simp only [decide_true, if_true]
        rfl
  | logsWarp hok hstart hne hlt hwidth =>
      rename_i range page
      have haccepts : acceptsLogs (.warpEvents range) page.blocks = true := by
        simp only [acceptsLogs, isNextInRange, BlockRange.contains, Bool.and_eq_true, decide_eq_true_eq]
        omega
      have hnext : statusAfterLogs (.warpEvents range) page.blocks =
          .ok (.warpEvents ⟨page.blocks.last + 1, range.last⟩) := by
        simp only [statusAfterLogs, if_pos hlt]
        refine Fallible.bind_eq_ok.mpr ⟨_, nextBlock_eq hwidth, ?_⟩
        exact Fallible.bind_eq_ok.mpr ⟨_, blockRange_eq (Nat.succ_le_of_lt hlt), rfl⟩
      unfold applyUpdate
      simp only [haccepts, if_true]
      rw [handleLogs_eq hok hwidth hnext]
      rfl
  | logsLast hok hstatus hne hwidth =>
      rename_i page
      unfold applyUpdate
      rcases hstatus with ⟨rfl, hone⟩ | rfl
      · have haccepts : acceptsLogs (.blockEvents page.blocks.start) page.blocks = true := by
          simp only [acceptsLogs, isNextInRange, BlockRange.contains, Bool.and_eq_true, decide_eq_true_eq]
          exact ⟨trivial, hne, hone.le⟩
        have hnext : statusAfterLogs (.blockEvents page.blocks.start) page.blocks =
            .ok (.blockPending (page.blocks.last + 1)) := by
          simp only [statusAfterLogs, nextBlock_eq hwidth]
          rfl
        simp only [haccepts, if_true]
        exact handleLogs_eq hok hwidth hnext
      · have haccepts : acceptsLogs (.warpEvents page.blocks) page.blocks = true := by
          simp only [acceptsLogs, isNextInRange, BlockRange.contains, Bool.and_eq_true, decide_eq_true_eq]
          exact ⟨trivial, hne, le_rfl⟩
        have hnext : statusAfterLogs (.warpEvents page.blocks) page.blocks =
            .ok (.blockPending (page.blocks.last + 1)) := by
          simp only [statusAfterLogs, lt_irrefl, if_false, nextBlock_eq hwidth]
          rfl
        simp only [haccepts, if_true]
        exact handleLogs_eq hok hwidth hnext

end StateMachine

/-! ### Two machines on the same chain -/

/-- Whether the message is one of the chain. -/
def Message.ofChain : Message Event Resume → Bool
  | .resume _ => false
  | _ => true

/-- The machines have the same status and snapshots of the same blocks, with related states. -/
structure Alike (R : S → S' → Prop) (machine : StateMachine S) (machine' : StateMachine S') : Prop where
  live : ∀ state status, machine.inner = some (state, status) →
    ∃ state', machine'.inner = some (state', status) ∧ R state state'
  snapshots : Table.Related R machine.snapshots.snapshots machine'.snapshots.snapshots

/-- The messages of the chain keep the states related. -/
def Follows (R : S → S' → Prop) (transition : StateTransition S Event Resume Action Effect)
    (transition' : StateTransition S' Event Resume Action Effect) : Prop :=
  ∀ s s' (message : Message Event Resume), message.ofChain = true → R s s' →
    R (transition.applyTransition s message).1 (transition'.applyTransition s' message).1

/-- The messages of a page are messages of the chain. -/
theorem pageMessages_ofChain {warping : Bool} {page : EventUpdate Event} :
    ∀ message ∈ (pageMessages warping page.blocks.blocks page.logs : List (Message Event Resume)),
      message.ofChain = true := by
  intro message hmessage
  obtain ⟨block, -, hmem⟩ := List.mem_flatMap.mp hmessage
  rcases List.mem_append.mp hmem with hnew | hlog
  · cases warping with
    | false => cases hnew
    | true =>
        rw [List.mem_singleton.mp hnew]
        rfl
  · obtain ⟨log, -, rfl⟩ := List.mem_map.mp hlog
    rfl

section Alike

variable {transition : StateTransition S Event Resume Action Effect}
  {transition' : StateTransition S' Event Resume Action Effect} {R : S → S' → Prop}
  {store store₁ : SnapshotStore S} {store' : SnapshotStore S'} {machine machine₁ : StateMachine S}
  {machine' : StateMachine S'} {state state₁ : S} {state' : S'} {status status₁ : Status}
  {commands : List (Command Action Effect)} {upd : Update Event}

theorem Follows.runMessages (h : Follows R transition transition')
    (messages : List (Message Event Resume)) : ∀ {s : S} {s' : S'},
      (∀ message ∈ messages, message.ofChain = true) → R s s' →
        R (runMessages transition s messages).1 (runMessages transition' s' messages).1 := by
  induction messages with
  | nil => exact fun _ hs => hs
  | cons message messages ih =>
      intro s s' hchain hs
      rw [runMessages_cons, runMessages_cons]
      exact ih (fun m hm => hchain m (List.mem_cons_of_mem _ hm))
        (h s s' message (hchain message List.mem_cons_self) hs)

theorem Follows.runPage (h : Follows R transition transition') (hstate : R state state') (warping : Bool)
    (page : EventUpdate Event) :
    R (runPage transition warping state page).1 (runPage transition' warping state' page).1 :=
  h.runMessages _ pageMessages_ofChain hstate

/-- What one machine accepts, the other does too. -/
theorem Accepts.alike (hfollows : Follows R transition transition')
    (h : Accepts transition store state status upd store₁ state₁ status₁ commands)
    (hstore : Table.Related R store.snapshots store'.snapshots) (hstate : R state state') :
    ∃ store₁' state₁' commands',
      Accepts transition' store' state' status upd store₁' state₁' status₁ commands' ∧
        Table.Related R store₁.snapshots store₁'.snapshots ∧ R state₁ state₁' := by
  cases h with
  | warp haccepts hle => exact ⟨store', state', [], .warp haccepts hle, hstore, hstate⟩
  | uncle haccepts hpos hwidth hparent =>
      obtain ⟨restored, hrestored, hrelated⟩ := hstore.lookup hparent
      exact ⟨_, restored, [], .uncle haccepts hpos hwidth hrestored,
        hstore.filter fun n => ¬ n ≥ _, hrelated⟩
  | newApplied => exact ⟨store', state', [], .newApplied, hstore, hstate⟩
  | newPending hstatus => exact ⟨store', _, _, .newPending hstatus, hstore, hfollows _ _ _ rfl hstate⟩
  | logsWarp hok hstart hne hlt hwidth =>
      rename_i range page
      have hpage := hfollows.runPage hstate true page
      exact ⟨_, _, _, .logsWarp hok hstart hne hlt hwidth, hstore.insert _ hpage, hpage⟩
  | logsLast hok hstatus hne hwidth =>
      rename_i page
      have hpage := hfollows.runPage hstate (isWarping status) page
      exact ⟨_, _, _, .logsLast hok hstatus hne hwidth, hstore.insert _ hpage,
        hfollows _ _ _ rfl hpage⟩

namespace Alike

theorem update (h : Alike R machine machine') (hfollows : Follows R transition transition')
    (hupdate : handleUpdate transition machine upd = (machine₁, .ok commands)) :
    ∃ machine₁' commands', handleUpdate transition' machine' upd = (machine₁', .ok commands') ∧
      Alike R machine₁ machine₁' := by
  unfold handleUpdate at hupdate
  split at hupdate
  · cases hupdate
  · next state status hinner =>
      split at hupdate
      · cases hupdate
      · next store₁ state₁ status₁ commands₁ happly =>
          cases hupdate
          obtain ⟨state', hinner', hstate⟩ := h.live _ _ hinner
          obtain ⟨store₁', state₁', commands', haccepts, hstore₁, hstate₁⟩ :=
            Accepts.alike hfollows (applyUpdate_ok happly) h.snapshots hstate
          refine ⟨⟨some (state₁', status₁), store₁'⟩, commands', ?_, ?_, hstore₁⟩
          · unfold handleUpdate
            rw [hinner']
            dsimp only
            rw [haccepts.applyUpdate_eq]
          · intro s st hs
            cases hs
            exact ⟨state₁', rfl, hstate₁⟩

theorem prune (h : Alike R machine machine') (safe : Nat) :
    Alike R (machine.prune safe).1 (machine'.prune safe).1 := by
  unfold StateMachine.prune SnapshotStore.prune
  cases hsafe : SnapshotStore.toI64 safe with
  | error error => exact h
  | ok number =>
      cases hlast : machine.snapshots.snapshots.last? with
      | none =>
          have hlast' := h.snapshots.last?_none hlast
          simp only [bind, Except.bind, hlast']
          exact h
      | some row =>
          obtain ⟨state', hlast', -⟩ := h.snapshots.last? (k := row.1) (v := row.2) hlast
          simp only [bind, Except.bind, hlast']
          exact ⟨h.live, h.snapshots.filter fun n => ¬ (n < number ∧ n < row.1)⟩

/-- Opened again, the machines go on from the same block. -/
theorem restart (h : Alike R machine machine') {init : S} {init' : S'} (hinit : R init init')
    (hopen : withInit machine.snapshots init = .ok machine₁) :
    ∃ machine₁', withInit machine'.snapshots init' = .ok machine₁' ∧ Alike R machine₁ machine₁' := by
  unfold withInit SnapshotStore.current at hopen ⊢
  cases hlast : machine.snapshots.snapshots.last? with
  | none =>
      have hlast' := h.snapshots.last?_none hlast
      simp only [hlast] at hopen
      rw [← Fallible.pure_eq_ok.mp hopen]
      simp only [hlast']
      refine ⟨_, rfl, fun s st hs => ?_, h.snapshots⟩
      cases hs
      exact ⟨init', rfl, hinit⟩
  | some row =>
      obtain ⟨state', hlast', hstate⟩ := h.snapshots.last? (k := row.1) (v := row.2) hlast
      simp only [hlast] at hopen
      obtain ⟨pending, hpending, hopen⟩ := Fallible.bind_eq_ok.mp hopen
      rw [← Fallible.pure_eq_ok.mp hopen]
      simp only [hlast']
      refine ⟨_, Fallible.bind_eq_ok.mpr ⟨pending, hpending, rfl⟩, fun s st hs => ?_, h.snapshots⟩
      cases hs
      exact ⟨state', rfl, hstate⟩

theorem mono {R' : S → S' → Prop} (h : Alike R machine machine') (hR : ∀ s s', R s s' → R' s s') :
    Alike R' machine machine' := by
  refine ⟨fun s st hs => ?_, h.snapshots.mono hR⟩
  obtain ⟨s', hs', hrelated⟩ := h.live s st hs
  exact ⟨s', hs', hR _ _ hrelated⟩

end Alike

end Alike

/-! ### Runs with effects -/

open Driver (Taken)

/-- A call of a machine with effects. -/
inductive MachineCall (Event Resume : Type) where
  | chain (input : MachineInput Event)
  | resume (resume : Resume)

section Calls

variable (transition : StateTransition S Event Resume Action Effect) (init : S)

def callStep (machine : StateMachine S) :
    MachineCall Event Resume → StateMachine S × Except Error (List (Command Action Effect))
  | .chain input => machineStep transition init machine input
  | .resume resume => handleResume transition machine resume

/-- A step of the machine. -/
abbrev MachineStep (S Event Resume Action Effect : Type) :=
  Trace.Step (StateMachine S) (MachineCall Event Resume) (Except Error (List (Command Action Effect)))

/-- What is accepted in a step, with the commands. -/
def acceptedBy (st : MachineStep S Event Resume Action Effect) :
    List (Taken Event Resume × List (Command Action Effect)) :=
  match st.input, st.out with
  | .chain (.update update), .ok commands => [(.update update, commands)]
  | .resume resume, .ok commands => [(.resume resume, commands)]
  | _, _ => []

/-- The branch that is canonical after what was taken. -/
def branchOf (taken : List (Taken Event Resume)) : Branch Event :=
  taken.foldl (fun branch next => match next with
    | .update update => branch.extend update
    | .resume _ => branch) []

/-- The results that were taken. -/
def resultsOf (taken : List (Taken Event Resume)) : List Resume :=
  taken.filterMap fun
    | .update _ => none
    | .resume resume => some resume

/-- The result a message carries. -/
def Message.result? : Message Event Resume → Option Resume
  | .resume result => some result
  | _ => none

/-- The state comes of the messages of the chain, with some of the results in between. -/
def Stands (results : List Resume) (state : S) (chain : List (Message Event Resume)) : Prop :=
  ∃ messages : List (Message Event Resume), messages.filter Message.ofChain = chain ∧
    (messages.filterMap Message.result?).Sublist results ∧
    state = (runMessages transition init messages).1

/-- The transition that only writes down the messages of the chain. -/
def recorder : StateTransition (List (Message Event Resume)) Event Resume Action Effect where
  applyTransition messages message := (messages ++ [message].filter Message.ofChain, [])

variable {transition init}

theorem Stands.start (results : List Resume) : Stands transition init results init [] :=
  ⟨[], rfl, List.nil_sublist _, rfl⟩

theorem Stands.mono {results results' : List Resume} {state : S} {chain : List (Message Event Resume)}
    (h : Stands transition init results state chain) (hle : results.Sublist results') :
    Stands transition init results' state chain := by
  obtain ⟨messages, hchain, hresults, hstate⟩ := h
  exact ⟨messages, hchain, hresults.trans hle, hstate⟩

/-- The state after one message more. -/
theorem Stands.message {results results' : List Resume} {state : S} {chain : List (Message Event Resume)}
    (h : Stands transition init results state chain) (message : Message Event Resume)
    (hresults' : results' = results ++ message.result?.toList) :
    Stands transition init results' (transition.applyTransition state message).1
      (chain ++ [message].filter Message.ofChain) := by
  obtain ⟨messages, hchain, hresults, rfl⟩ := h
  refine ⟨messages ++ [message], ?_, ?_, ?_⟩
  · rw [List.filter_append, hchain]
  · rw [hresults', List.filterMap_append]
    refine hresults.append ?_
    cases hresult : message.result? with
    | none => simp [hresult]
    | some result => simp [hresult]
  · rw [runMessages_append, runMessages_singleton]

theorem follows_stands (results : List Resume) :
    Follows (Stands transition init results) transition
      (recorder : StateTransition (List (Message Event Resume)) Event Resume Action Effect) := by
  intro s chain message hchain h
  refine h.message message ?_
  cases message with
  | newBlock number => exact (List.append_nil _).symm
  | event log => exact (List.append_nil _).symm
  | resume result => cases hchain

/-- What the recorder has written down for a branch. -/
theorem runMessages_recorder (messages : List (Message Event Resume)) :
    ∀ start : List (Message Event Resume), (runMessages
      (recorder : StateTransition (List (Message Event Resume)) Event Resume Action Effect) start
        messages).1 = start ++ messages.filter Message.ofChain := by
  induction messages with
  | nil => simp [runMessages]
  | cons message messages ih =>
      intro start
      rw [runMessages_cons, ih]
      simp only [recorder, List.append_assoc, ← List.filter_append, List.singleton_append]

theorem branchMessages_ofChain (branch : Branch Event) :
    (branchMessages branch : List (Message Event Resume)).filter Message.ofChain = branchMessages branch := by
  rw [List.filter_eq_self]
  intro message hmessage
  obtain ⟨entry, -, hmem⟩ := List.mem_flatMap.mp hmessage
  rcases List.mem_cons.mp hmem with rfl | hlog
  · rfl
  · obtain ⟨log, -, rfl⟩ := List.mem_map.mp hlog
    rfl

theorem replay_recorder (branch : Branch Event) :
    replay (recorder : StateTransition (List (Message Event Resume)) Event Resume Action Effect) []
      branch = branchMessages branch := by
  rw [replay, runMessages_recorder, branchMessages_ofChain, List.nil_append]

/-- What a run has taken. -/
def takenIn (history : List (MachineStep S Event Resume Action Effect)) : List (Taken Event Resume) :=
  (history.flatMap acceptedBy).map Prod.fst

theorem branchOf_concat (taken : List (Taken Event Resume)) (upd : Update Event) :
    branchOf (taken ++ [.update upd]) = (branchOf taken).extend upd := by
  rw [branchOf, List.foldl_append]
  rfl

theorem branchOf_resume (taken : List (Taken Event Resume)) (result : Resume) :
    branchOf (taken ++ [.resume result]) = branchOf taken := by
  rw [branchOf, List.foldl_append]
  rfl

/-- The machine goes along with a recorder of the same branch. -/
structure Recorded (transition : StateTransition S Event Resume Action Effect) (init : S)
    (taken : List (Taken Event Resume)) (machine : StateMachine S)
    (inputs : List (MachineInput Event)) : Prop where
  alike : Alike (Stands transition init (resultsOf taken)) machine
    (Trace.final (machineStep (recorder :
      StateTransition (List (Message Event Resume)) Event Resume Action Effect) []) (freshMachine [])
      inputs)
  branch : canonicalBranch (Trace.trace (machineStep (recorder :
      StateTransition (List (Message Event Resume)) Event Resume Action Effect) []) (freshMachine [])
      inputs) = branchOf taken

section Recorded

variable {taken : List (Taken Event Resume)} {machine machine₁ : StateMachine S}
  {inputs : List (MachineInput Event)}

theorem Recorded.lost {snapshots : SnapshotStore S} (h : Recorded transition init taken machine inputs)
    (hsnapshots : snapshots = machine.snapshots) :
    Recorded transition init taken { inner := none, snapshots } inputs := by
  subst hsnapshots
  refine ⟨⟨fun s st hnone => ?_, h.alike.snapshots⟩, h.branch⟩
  cases hnone

theorem Recorded.update (h : Recorded transition init taken machine inputs) {upd : Update Event}
    {commands : List (Command Action Effect)}
    (hupdate : handleUpdate transition machine upd = (machine₁, .ok commands)) :
    Recorded transition init (taken ++ [.update upd]) machine₁ (inputs ++ [.update upd]) := by
  obtain ⟨machine₁', commands', hupdate', halike⟩ := h.alike.update (follows_stands _) hupdate
  have hresults : resultsOf (taken ++ [.update upd]) = resultsOf taken := by
    simp [resultsOf, List.filterMap_append]
  refine ⟨?_, ?_⟩
  · rw [hresults, Trace.final_concat]
    show Alike _ _ (handleUpdate _ _ upd).1
    rw [hupdate']
    exact halike
  · rw [Trace.trace_concat, canonicalBranch, List.foldl_append]
    show Branch.observe (canonicalBranch _) ⟨_, .update upd, (handleUpdate _ _ upd).2, _⟩ = _
    rw [h.branch, hupdate', branchOf_concat]
    rfl

theorem Recorded.prune (h : Recorded transition init taken machine inputs) (safe : Nat) :
    Recorded transition init taken (machine.prune safe).1 (inputs ++ [.prune safe]) := by
  refine ⟨?_, ?_⟩
  · rw [Trace.final_concat]
    exact h.alike.prune safe
  · rw [Trace.trace_concat, canonicalBranch, List.foldl_append]
    exact h.branch

theorem machineStep_restart (hopen : withInit machine.snapshots init = .ok machine₁) :
    machineStep transition init machine .restart = (machine₁, .ok []) := by
  unfold machineStep
  simp only [hopen]

theorem Recorded.restart (h : Recorded transition init taken machine inputs)
    (hopen : withInit machine.snapshots init = .ok machine₁) :
    Recorded transition init taken machine₁ (inputs ++ [.restart]) := by
  obtain ⟨machine₁', hopen', halike⟩ := h.alike.restart (Stands.start _) hopen
  refine ⟨?_, ?_⟩
  · rw [Trace.final_concat]
    rw [machineStep_restart hopen']
    exact halike
  · rw [Trace.trace_concat, canonicalBranch, List.foldl_append]
    exact h.branch

theorem Recorded.resume (h : Recorded transition init taken machine inputs) {result : Resume}
    {commands : List (Command Action Effect)}
    (hresume : handleResume transition machine result = (machine₁, .ok commands)) :
    Recorded transition init (taken ++ [.resume result]) machine₁ inputs := by
  unfold handleResume at hresume
  split at hresume
  · cases hresume
  · next state status hinner =>
      cases hresume
      have hresults : resultsOf (taken ++ [.resume result]) = resultsOf taken ++ [result] := by
        simp [resultsOf, List.filterMap_append]
      refine ⟨⟨fun s st hs => ?_, ?_⟩, ?_⟩
      · cases hs
        obtain ⟨chain, hchain, hstands⟩ := h.alike.live _ _ hinner
        refine ⟨chain, hchain, ?_⟩
        have hnext := hstands.message (.resume result) hresults
        rwa [show [Message.resume result].filter Message.ofChain = ([] : List (Message Event Resume)) from rfl,
          List.append_nil] at hnext
      · exact h.alike.snapshots.mono fun _ _ hstands => hstands.mono (by simp [hresults])
      · rw [h.branch, branchOf_resume]

/-- **One call of a machine with effects.** -/
theorem Recorded.call {history : List (MachineStep S Event Resume Action Effect)}
    (h : Recorded transition init (takenIn history) machine inputs) (call : MachineCall Event Resume) :
    ∃ inputs', Recorded transition init
      (takenIn (history ++ [Trace.take (callStep transition init) machine call]))
      (callStep transition init machine call).1 inputs' := by
  have htaken : takenIn (history ++ [Trace.take (callStep transition init) machine call]) =
      takenIn history ++ (acceptedBy (Trace.take (callStep transition init) machine call)).map Prod.fst := by
    rw [takenIn, List.flatMap_append, List.map_append, List.flatMap_singleton]
    rfl
  rw [htaken]
  cases call with
  | resume result =>
      rcases hresume : handleResume transition machine result with ⟨machine₁, error | commands⟩
      · refine ⟨inputs, ?_⟩
        have hsame : machine₁ = machine := by
          unfold handleResume at hresume
          split at hresume
          · cases hresume
            rfl
          · cases hresume
        subst hsame
        simpa [acceptedBy, callStep, hresume] using h
      · refine ⟨inputs, ?_⟩
        simpa [acceptedBy, callStep, hresume] using h.resume hresume
  | chain input =>
      cases input with
      | prune safe => exact ⟨_, by simpa [acceptedBy, callStep, machineStep] using h.prune safe⟩
      | restart =>
          rcases hopen : withInit machine.snapshots init with error | machine₁
          · exact ⟨inputs, by simpa [acceptedBy, callStep, machineStep, hopen] using h.lost rfl⟩
          · exact ⟨inputs ++ [.restart],
              by simpa [acceptedBy, callStep, machineStep, hopen] using h.restart hopen⟩
      | update upd =>
          rcases hupdate : handleUpdate transition machine upd with ⟨machine₁, error | commands⟩
          · refine ⟨inputs, ?_⟩
            have hsnapshots : machine₁ = { machine with inner := none } := by
              unfold handleUpdate at hupdate
              split at hupdate
              · next hinner =>
                  cases hupdate
                  cases machine
                  cases hinner
                  rfl
              · split at hupdate
                · cases hupdate
                  rfl
                · cases hupdate
            subst hsnapshots
            simpa [acceptedBy, callStep, machineStep, hupdate] using h.lost rfl
          · refine ⟨inputs ++ [.update upd], ?_⟩
            simpa [acceptedBy, callStep, machineStep, hupdate] using h.update hupdate

end Recorded

/-- What a machine on a fresh database comes to: each snapshot, and the live state, stand for the branch. -/
structure StandsFor (transition : StateTransition S Event Resume Action Effect) (init : S)
    (taken : List (Taken Event Resume)) (machine : StateMachine S) : Prop where
  numbers : ∃ first, (branchOf taken).map Prod.fst = List.range' first (branchOf taken).length
  snapshots : ∀ n state, machine.snapshots.snapshots.lookup n = some state →
    n ∈ (branchOf taken).map Prod.fst ∧
      Stands transition init (resultsOf taken) state (branchMessages ((branchOf taken).upTo n))
  live : ∀ state status, machine.inner = some (state, status) →
    Stands transition init (resultsOf taken) state
      (branchMessages (branchOf taken) ++ (appliedBlock status).toList.map .newBlock)

theorem Recorded.standsFor {taken : List (Taken Event Resume)} {machine : StateMachine S}
    {inputs : List (MachineInput Event)} (h : Recorded transition init taken machine inputs) :
    StandsFor transition init taken machine := by
  obtain ⟨first, hreplays⟩ := replays_run
    (recorder : StateTransition (List (Message Event Resume)) Event Resume Action Effect) [] inputs
  rw [h.branch] at hreplays
  refine ⟨⟨first, hreplays.numbers⟩, fun n state hstate => ?_, fun state status hinner => ?_⟩
  · obtain ⟨chain, hchain, hstands⟩ := h.alike.snapshots.lookup hstate
    obtain ⟨hge, hlt, heq⟩ := hreplays.snapshots n chain hchain
    rw [replay_recorder] at heq
    rw [← heq]
    refine ⟨?_, hstands⟩
    rw [hreplays.numbers, List.mem_range'_1]
    exact ⟨hge, hlt⟩
  · obtain ⟨chain, hchain, hstands⟩ := h.alike.live state status hinner
    have hlive := hreplays.live chain status hchain
    have heq : chain = branchMessages (branchOf taken) ++ (appliedBlock status).toList.map .newBlock := by
      cases status with
      | initialized =>
          obtain ⟨hnil, rfl⟩ := hlive
          rw [hnil]
          rfl
      | blockPending pending => exact (hlive.2.2.trans (replay_recorder _)).trans (List.append_nil _).symm
      | warpEvents range => exact (hlive.2.trans (replay_recorder _)).trans (List.append_nil _).symm
      | blockApplied pending =>
          refine hlive.2.2.trans ?_
          rw [replay_recorder]
          rfl
      | blockEvents latest =>
          refine hlive.2.trans ?_
          rw [replay_recorder]
          rfl
    rw [← heq]
    exact hstands

/-- **A machine with effects stands for the canonical branch, with results in between.** -/
theorem standsFor_run (calls : List (MachineCall Event Resume)) :
    StandsFor transition init (takenIn (Trace.trace (callStep transition init) (freshMachine init) calls))
      (Trace.final (callStep transition init) (freshMachine init) calls) := by
  have hfresh : ∃ inputs, Recorded transition init
      (takenIn ([] : List (MachineStep S Event Resume Action Effect))) (freshMachine init) inputs := by
    refine ⟨[], ⟨fun s st hs => ?_, fun _ => .none⟩, rfl⟩
    cases hs
    exact ⟨[], rfl, Stands.start _⟩
  have hstep : ∀ (history : List (MachineStep S Event Resume Action Effect)) machine call,
      (∃ inputs, Recorded transition init (takenIn history) machine inputs) → True →
      ∃ inputs, Recorded transition init
        (takenIn (history ++ [Trace.take (callStep transition init) machine call]))
        (callStep transition init machine call).1 inputs := by
    rintro history machine call ⟨inputs, h⟩ -
    exact h.call call
  obtain ⟨inputs, h⟩ := Trace.history_invariant hfresh hstep calls fun _ _ => trivial
  exact h.standsFor

end Calls

end Safenet.Core
