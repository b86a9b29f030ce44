/-
The state machine is a replay of the canonical branch.

The specification keeps no status, no snapshots and no pages: a `Branch` is the list
of blocks whose logs were handled and not uncled since, and `replay` folds, for each
of them, its `NewBlock` and then its events.  The machine reaches the same states by
a longer way, applying the pending block early, committing one snapshot per page,
restoring one on a reorg and the last one on a restart.

`Replays` is the invariant, and it survives an update (`Replays.update`), a prune and
a restart.  The induction over runs is `Trace.history_invariant`.
-/
import Safenet.Lib.Trace
import Safenet.Proofs.StateMachine

namespace Safenet.Core

open StateMachine

variable {S Event Resume Action Effect : Type}

/-! ### The canonical branch -/

/-- The handled blocks of the canonical branch, each with its logs. -/
abbrev Branch (Event : Type) := List (Nat × List (EventLog Event))

/-- The blocks of a page with their logs. -/
def pageBranch (page : EventUpdate Event) : Branch Event :=
  page.blocks.blocks.map fun block => (block, logsOf page.logs block)

/-- What one update says about the canonical branch, whatever the machine does with it. -/
def Branch.extend (branch : Branch Event) : Update Event → Branch Event
  | .logs page => branch ++ pageBranch page
  | .block (.uncle number) => branch.filter fun entry => entry.1 < number
  | .block _ => branch

/-- The branch up to and including a block. -/
def Branch.upTo (branch : Branch Event) (number : Nat) : Branch Event :=
  branch.filter fun entry => entry.1 ≤ number

/-- The messages of one block: `NewBlock`, then its events in order. -/
def blockMessages (entry : Nat × List (EventLog Event)) : List (Message Event Resume) :=
  .newBlock entry.1 :: entry.2.map .event

/-- Every message of a branch. -/
def branchMessages (branch : Branch Event) : List (Message Event Resume) :=
  branch.flatMap blockMessages

/-- The state a branch stands for. -/
def replay (transition : StateTransition S Event Resume Action Effect) (init : S)
    (branch : Branch Event) : S :=
  (runMessages transition init (branchMessages branch)).1

theorem replay_append (transition : StateTransition S Event Resume Action Effect) (init : S)
    (branch branch' : Branch Event) :
    replay transition init (branch ++ branch') =
      (runMessages transition (replay transition init branch) (branchMessages branch')).1 := by
  simp [replay, branchMessages, runMessages_append]

/-! ### Runs of the machine -/

/-- What can happen to a state machine without effects. -/
inductive MachineInput (Event : Type) where
  | update (update : Update Event)
  | prune (safe : Nat)
  /-- The service stops at any point and is opened again on its database. -/
  | restart

/-- One step of the machine.  A refused call leaves what `StateMachine` says it leaves. -/
def machineStep (transition : StateTransition S Event Resume Action Effect) (init : S)
    (machine : StateMachine S) :
    MachineInput Event → StateMachine S × Except Error (List (Command Action Effect))
  | .update update => handleUpdate transition machine update
  | .prune safe => ((machine.prune safe).1, (machine.prune safe).2.map fun _ => [])
  | .restart =>
      match withInit machine.snapshots init with
      | .ok machine => (machine, .ok [])
      | .error error => ({ machine with inner := none }, .error error)

/-- The machine on a database without snapshots. -/
def freshMachine (init : S) : StateMachine S :=
  { inner := some (init, .initialized), snapshots := SnapshotStore.empty }

/-- The step of a run, seen as a change of the canonical branch: only accepted updates count. -/
def Branch.observe (branch : Branch Event)
    (step : Trace.Step (StateMachine S) (MachineInput Event)
      (Except Error (List (Command Action Effect)))) : Branch Event :=
  match step.input, step.out with
  | .update update, .ok _ => branch.extend update
  | _, _ => branch

/-- The canonical branch after a run. -/
def canonicalBranch (steps : List (Trace.Step (StateMachine S) (MachineInput Event)
    (Except Error (List (Command Action Effect))))) : Branch Event :=
  steps.foldl Branch.observe []

/-! ### The invariant -/

/-- The live state, for each status of the machine. -/
def LiveOK (transition : StateTransition S Event Resume Action Effect) (init : S)
    (first : Nat) (branch : Branch Event) (state : S) : Status → Prop
  | .initialized => branch = [] ∧ state = init
  | .blockPending pending =>
      branch ≠ [] ∧ pending = first + branch.length ∧ state = replay transition init branch
  | .blockApplied pending =>
      branch ≠ [] ∧ pending = first + branch.length ∧
        state = (transition.applyTransition (replay transition init branch) (.newBlock pending)).1
  | .blockEvents latest =>
      latest = first + branch.length ∧
        state = (transition.applyTransition (replay transition init branch) (.newBlock latest)).1
  | .warpEvents range =>
      range.start = first + branch.length ∧ state = replay transition init branch

/-- The machine stands for the branch, which starts at block `first`. -/
structure Replays (transition : StateTransition S Event Resume Action Effect) (init : S)
    (first : Nat) (branch : Branch Event) (machine : StateMachine S) : Prop where
  /-- The branch has no gaps. -/
  numbers : branch.map Prod.fst = List.range' first branch.length
  /-- The logs of a block are its own, in index order. -/
  logs : ∀ entry ∈ branch, (∀ log ∈ entry.2, log.block.number = entry.1) ∧
    entry.2.Pairwise fun a b => a.index < b.index
  /-- A snapshot is the replay of the branch up to its block. -/
  snapshots : ∀ n state, machine.snapshots.snapshots.lookup n = some state →
    first ≤ n ∧ n < first + branch.length ∧ state = replay transition init (branch.upTo n)
  /-- The last block of the branch has a snapshot. -/
  tip : branch ≠ [] →
    machine.snapshots.snapshots.lookup (first + branch.length - 1) ≠ none
  live : ∀ state status, machine.inner = some (state, status) →
    LiveOK transition init first branch state status

/-! ### Cutting and extending a branch -/

private theorem range'_filter_lt (n k : Nat) : ∀ a : Nat,
    ((List.range' a k).filter fun m => decide (m < n)) = List.range' a (min k (n - a)) := by
  induction k with
  | zero => intro a; simp
  | succ k ih =>
      intro a
      rw [List.range'_succ, List.filter_cons]
      by_cases h : a < n
      · have hmin : min (k + 1) (n - a) = min k (n - (a + 1)) + 1 := by omega
        simp only [h, decide_true, if_true, ih, hmin, List.range'_succ]
      · have hmin : min (k + 1) (n - a) = 0 := by omega
        have hmin' : min k (n - (a + 1)) = 0 := by omega
        simp [h, ih, hmin, hmin']

/-- Cutting a branch without gaps leaves one. -/
private theorem numbers_cut {first : Nat} {branch : Branch Event}
    (h : branch.map Prod.fst = List.range' first branch.length) (number : Nat) :
    ((branch.filter fun entry => entry.1 < number).map Prod.fst =
      List.range' first (min branch.length (number - first))) ∧
    (branch.filter fun entry => entry.1 < number).length = min branch.length (number - first) := by
  have hmap : (branch.filter fun entry => entry.1 < number).map Prod.fst =
      List.range' first (min branch.length (number - first)) := by
    rw [← range'_filter_lt, ← h, List.filter_map]
    rfl
  refine ⟨hmap, ?_⟩
  have hlen := congrArg List.length hmap
  simpa using hlen

/-- Where the blocks of a branch without gaps lie. -/
private theorem mem_bounds {first : Nat} {branch : Branch Event}
    (h : branch.map Prod.fst = List.range' first branch.length)
    {entry : Nat × List (EventLog Event)} (he : entry ∈ branch) :
    first ≤ entry.1 ∧ entry.1 < first + branch.length := by
  have hm : entry.1 ∈ branch.map Prod.fst := List.mem_map_of_mem he
  rw [h, List.mem_range'_1] at hm
  exact hm

private theorem upTo_cut {branch : Branch Event} {n number : Nat} (h : n < number) :
    Branch.upTo (branch.filter fun entry => entry.1 < number) n = branch.upTo n := by
  unfold Branch.upTo
  rw [List.filter_filter]
  refine List.filter_congr fun entry _ => ?_
  by_cases he : entry.1 ≤ n
  · have hlt : entry.1 < number := by omega
    simp [he, hlt]
  · simp [he]

private theorem upTo_self {branch : Branch Event} {n : Nat} (h : ∀ entry ∈ branch, entry.1 ≤ n) :
    branch.upTo n = branch := by
  unfold Branch.upTo
  rw [List.filter_eq_self]
  intro entry he
  simpa using h entry he

private theorem upTo_append {branch page : Branch Event} {n : Nat}
    (h : ∀ entry ∈ page, n < entry.1) : Branch.upTo (branch ++ page) n = branch.upTo n := by
  unfold Branch.upTo
  have hnil : (page.filter fun entry => entry.1 ≤ n) = [] := by
    rw [List.filter_eq_nil_iff]
    intro entry he
    simpa using h entry he
  rw [List.filter_append, hnil, List.append_nil]

private theorem pageBranch_numbers (page : EventUpdate Event) :
    (pageBranch page).map Prod.fst = page.blocks.blocks := by
  simp [pageBranch, Function.comp_def]

private theorem pageBranch_length (page : EventUpdate Event) :
    (pageBranch page).length = page.blocks.last + 1 - page.blocks.start := by
  simp [pageBranch, BlockRange.blocks]

/-- The logs of a block of a good page are its own, in index order. -/
private theorem pageBranch_logs {page : EventUpdate Event} (hok : PageOK page) :
    ∀ entry ∈ pageBranch page, (∀ log ∈ entry.2, log.block.number = entry.1) ∧
      entry.2.Pairwise fun a b => a.index < b.index := by
  intro entry he
  obtain ⟨block, -, rfl⟩ := List.mem_map.mp he
  have hblock : ∀ log ∈ logsOf page.logs block, log.block.number = block := by
    intro log hlog
    simpa using (List.mem_filter.mp hlog).2
  refine ⟨hblock, ?_⟩
  have hs : (logsOf page.logs block).Pairwise fun a b => logBefore a b = true := hok.sorted.filter _
  refine List.Pairwise.imp_of_mem ?_ hs
  intro a b ha hb hab
  have ha' := hblock a ha
  have hb' := hblock b hb
  simp only [logBefore, Bool.or_eq_true, decide_eq_true_eq, Bool.and_eq_true] at hab
  omega

/-- A warped page runs the messages of its blocks. -/
private theorem runPage_warp (transition : StateTransition S Event Resume Action Effect) (init : S)
    (branch : Branch Event) (page : EventUpdate Event) :
    (runPage transition true (replay transition init branch) page).1 =
      replay transition init (branch ++ pageBranch page) := by
  have hmsgs : (pageMessages true page.blocks.blocks page.logs : List (Message Event Resume)) =
      branchMessages (pageBranch page) := by
    simp [pageMessages, branchMessages, pageBranch, List.flatMap_map, blockMessages]
  rw [replay_append, runPage, hmsgs]

/-- A live page finishes the block whose `NewBlock` was applied before. -/
private theorem runPage_live (transition : StateTransition S Event Resume Action Effect) (init : S)
    (branch : Branch Event) {page : EventUpdate Event} (hone : page.blocks.last = page.blocks.start) :
    (runPage transition false (transition.applyTransition (replay transition init branch)
        (.newBlock page.blocks.start)).1 page).1 =
      replay transition init (branch ++ pageBranch page) := by
  have hblocks : page.blocks.blocks = [page.blocks.start] := by
    simp [BlockRange.blocks, hone]
  simp [replay_append, runPage, pageMessages, branchMessages, pageBranch, hblocks, blockMessages,
    runMessages_cons]

/-! ### One step -/

section Step

variable {transition : StateTransition S Event Resume Action Effect} {init : S}
variable {first : Nat} {branch : Branch Event} {machine : StateMachine S}

namespace Replays

/-- A page of logs, after which the live state is still to be chosen. -/
private theorem commit (h : Replays transition init first branch machine)
    {page : EventUpdate Event} (hok : PageOK page)
    (hstart : page.blocks.start = first + branch.length)
    (hne : page.blocks.start ≤ page.blocks.last) {state : S}
    (hstate : state = replay transition init (branch ++ pageBranch page))
    {inner : Option (S × Status)}
    (hlive : ∀ s status, inner = some (s, status) →
      LiveOK transition init first (branch ++ pageBranch page) s status) :
    Replays transition init first (branch ++ pageBranch page)
      { inner, snapshots := ⟨machine.snapshots.snapshots.insert page.blocks.last state⟩ } := by
  have hlen : (branch ++ pageBranch page).length =
      branch.length + (page.blocks.last + 1 - page.blocks.start) := by
    rw [List.length_append, pageBranch_length]
  have hpage : ∀ entry ∈ pageBranch page,
      page.blocks.start ≤ entry.1 ∧ entry.1 ≤ page.blocks.last := by
    intro entry he
    rw [← mem_blocks, ← pageBranch_numbers]
    exact List.mem_map_of_mem he
  refine ⟨?_, ?_, ?_, ?_, hlive⟩
  · rw [List.map_append, h.numbers, pageBranch_numbers, BlockRange.blocks, hstart, hlen, hstart]
    exact List.range'_append_1
  · intro entry he
    rcases List.mem_append.mp he with he | he
    · exact h.logs entry he
    · exact pageBranch_logs hok entry he
  · intro n s hl
    rw [Table.lookup_insert] at hl
    split at hl
    · rename_i hn
      cases hl
      refine ⟨by omega, by omega, ?_⟩
      rw [hstate, upTo_self]
      intro entry he
      rcases List.mem_append.mp he with he | he
      · have := mem_bounds h.numbers he
        omega
      · have := hpage entry he
        omega
    · obtain ⟨hge, hlt, hs⟩ := h.snapshots n s hl
      refine ⟨hge, by omega, ?_⟩
      rw [hs, upTo_append]
      intro entry he
      have := hpage entry he
      omega
  · intro _
    have htip : first + (branch ++ pageBranch page).length - 1 = page.blocks.last := by omega
    rw [htip, Table.lookup_insert_self]
    exact Option.some_ne_none _

/-- A rollback to a block whose snapshot exists. -/
private theorem rollback (h : Replays transition init first branch machine) {number : Nat}
    (hpos : 0 < number) {restored : S}
    (hparent : machine.snapshots.snapshots.lookup (number - 1) = some restored) :
    Replays transition init first (branch.filter fun entry => entry.1 < number)
      { inner := some (restored, .blockPending number)
        snapshots := ⟨machine.snapshots.snapshots.filter fun n _ => ¬ n ≥ number⟩ } := by
  obtain ⟨hnums, hlen⟩ := numbers_cut h.numbers number
  obtain ⟨hge, hlt, hrestored⟩ := h.snapshots _ _ hparent
  have hupTo : branch.upTo (number - 1) = branch.filter fun entry => entry.1 < number := by
    refine List.filter_congr fun entry _ => ?_
    simp only [decide_eq_decide]
    omega
  refine ⟨by rw [hnums, hlen], ?_, ?_, ?_, ?_⟩
  · intro entry he
    exact h.logs entry (List.mem_of_mem_filter he)
  · intro n s hl
    obtain ⟨hl, hn⟩ := Table.lookup_filter_eq_some.mp hl
    obtain ⟨hge', hlt', hs⟩ := h.snapshots n s hl
    have hn : n < number := by simpa using hn
    exact ⟨hge', by omega, by rw [hs, upTo_cut hn]⟩
  · intro _
    have htip : first + (branch.filter fun entry => entry.1 < number).length - 1 = number - 1 := by
      omega
    have hl : (machine.snapshots.snapshots.filter fun n _ => ¬ n ≥ number).lookup (number - 1) =
        some restored := Table.lookup_filter_eq_some.mpr ⟨hparent, by simp; omega⟩
    rw [htip, hl]
    exact Option.some_ne_none _
  · intro s status hinner
    cases hinner
    refine ⟨?_, by omega, by rw [hrestored, hupTo]⟩
    intro hnil
    rw [hnil, List.length_nil] at hlen
    omega

/-- Nothing but the live state changes. -/
private theorem relive (h : Replays transition init first branch machine)
    {inner : Option (S × Status)} (hlive : ∀ s status, inner = some (s, status) →
      LiveOK transition init first branch s status) :
    Replays transition init first branch { machine with inner } :=
  ⟨h.numbers, h.logs, h.snapshots, h.tip, hlive⟩

/-- Before the first page of logs there is nothing that fixes where the branch starts. -/
private theorem restart_at (h : Replays transition init first [] machine) {first' : Nat}
    {inner : Option (S × Status)} (hlive : ∀ s status, inner = some (s, status) →
      LiveOK transition init first' ([] : Branch Event) s status) :
    Replays transition init first' [] { machine with inner } := by
  refine ⟨rfl, h.logs, ?_, fun hne => absurd rfl hne, hlive⟩
  intro n s hl
  have hb := h.snapshots n s hl
  simp only [List.length_nil] at hb
  omega

/-- **An accepted update keeps the machine a replay of the branch it extends.** -/
theorem update (h : Replays transition init first branch machine) {state state' : S}
    {status status' : Status} {store' : SnapshotStore S} {update : Update Event}
    {commands : List (Command Action Effect)} (hinner : machine.inner = some (state, status))
    (ha : Accepts transition machine.snapshots state status update store' state' status' commands) :
    ∃ first', Replays transition init first' (branch.extend update)
      { inner := some (state', status'), snapshots := store' } := by
  have hlive := h.live state status hinner
  cases ha with
  | @warp _ start last haccepts hle =>
      cases status with
      | initialized =>
          obtain ⟨rfl, rfl⟩ := hlive
          refine ⟨start, h.restart_at ?_⟩
          rintro s status ⟨⟩
          exact ⟨rfl, rfl⟩
      | blockPending pending =>
          obtain rfl : pending = start := by simpa [acceptsWarp] using haccepts
          refine ⟨first, h.relive ?_⟩
          rintro s status ⟨⟩
          exact ⟨hlive.2.1, hlive.2.2⟩
      | blockApplied pending => cases haccepts
      | blockEvents latest => cases haccepts
      | warpEvents range => cases haccepts
  | uncle _ hpos _ hparent => exact ⟨first, h.rollback hpos hparent⟩
  | newApplied =>
      refine ⟨first, h.relive ?_⟩
      rintro s status ⟨⟩
      exact ⟨hlive.2.1, hlive.2.2⟩
  | @newPending _ number _ _ _ hstatus =>
      rcases hstatus with rfl | rfl
      · obtain ⟨rfl, rfl⟩ := hlive
        refine ⟨number, h.restart_at ?_⟩
        rintro s status ⟨⟩
        exact ⟨rfl, rfl⟩
      · obtain ⟨-, hnext, rfl⟩ := hlive
        refine ⟨first, h.relive ?_⟩
        rintro s status ⟨⟩
        exact ⟨hnext, rfl⟩
  | @logsWarp range page hok hstart hne hlt _ =>
      obtain ⟨hnext, rfl⟩ := hlive
      have hrun := runPage_warp transition init branch page
      refine ⟨first, h.commit hok (by omega) hne hrun ?_⟩
      rintro s status ⟨⟩
      refine ⟨?_, hrun⟩
      rw [List.length_append, pageBranch_length]
      show page.blocks.last + 1 = _
      omega
  | @logsLast _ page hok hstatus hne _ =>
      -- both ways in have run the branch up to the page, so they agree from here on
      have hrun : page.blocks.start = first + branch.length ∧
          (runPage transition (isWarping status) state page).1 =
            replay transition init (branch ++ pageBranch page) := by
        rcases hstatus with ⟨rfl, hone⟩ | rfl
        · obtain ⟨hnext, rfl⟩ := hlive
          exact ⟨hnext, runPage_live transition init branch hone⟩
        · obtain ⟨hnext, rfl⟩ := hlive
          exact ⟨hnext, runPage_warp transition init branch page⟩
      refine ⟨first, h.commit hok hrun.1 hne hrun.2 ?_⟩
      rintro s status ⟨⟩
      have hlen : (branch ++ pageBranch page).length =
          branch.length + (page.blocks.last + 1 - page.blocks.start) := by
        rw [List.length_append, pageBranch_length]
      refine ⟨?_, by omega, by rw [hrun.2]⟩
      intro hnil
      rw [hnil, List.length_nil] at hlen
      omega

/-- Pruning removes snapshots, and never the last one. -/
theorem prune (h : Replays transition init first branch machine) (safe : Nat) :
    Replays transition init first branch (machine.prune safe).1 := by
  unfold StateMachine.prune
  split
  · exact h
  · rename_i store hprune
    unfold SnapshotStore.prune at hprune
    obtain ⟨n, -, hprune⟩ := Fallible.bind_eq_ok.mp hprune
    rcases hlast : machine.snapshots.snapshots.last? with _ | ⟨latest, s⟩
    · simp only [hlast] at hprune
      rw [← Fallible.pure_eq_ok.mp hprune]
      exact h
    · simp only [hlast] at hprune
      rw [← Fallible.pure_eq_ok.mp hprune]
      refine ⟨h.numbers, h.logs, ?_, ?_, h.live⟩
      · intro m t hl
        exact h.snapshots m t (Table.lookup_filter_eq_some.mp hl).1
      · intro hne
        obtain ⟨t, ht⟩ := Option.ne_none_iff_exists'.mp (h.tip hne)
        have hle := (h.snapshots latest s (Table.lookup_of_last? hlast)).2.1
        rw [Table.lookup_filter_eq_some.mpr ⟨ht, by simp; omega⟩]
        exact Option.some_ne_none _

/-- Opening the machine again restores the last block of the branch. -/
theorem restart (h : Replays transition init first branch machine) {machine' : StateMachine S}
    (hopen : withInit machine.snapshots init = .ok machine') :
    Replays transition init first branch machine' := by
  unfold withInit SnapshotStore.current at hopen
  rcases hlast : machine.snapshots.snapshots.last? with _ | ⟨latest, s⟩
  · simp only [hlast] at hopen
    rw [← Fallible.pure_eq_ok.mp hopen]
    have hnil : branch = [] := by
      by_contra hne
      exact h.tip hne (Table.last?_eq_none.mp hlast _)
    refine h.relive ?_
    rintro s status ⟨⟩
    exact ⟨hnil, rfl⟩
  · simp only [hlast] at hopen
    obtain ⟨n, hn, hopen⟩ := Fallible.bind_eq_ok.mp hopen
    rw [← Fallible.pure_eq_ok.mp hopen, nextBlock_ok hn]
    obtain ⟨hge, hlt, hs⟩ := h.snapshots latest s (Table.lookup_of_last? hlast)
    have hne : branch ≠ [] := by
      rintro rfl
      simp only [List.length_nil] at hlt
      omega
    obtain ⟨t, ht⟩ := Option.ne_none_iff_exists'.mp (h.tip hne)
    have hle := Table.le_last? hlast ht
    refine h.relive ?_
    rintro s' status ⟨⟩
    refine ⟨hne, by omega, ?_⟩
    rw [hs, upTo_self]
    intro entry he
    have := mem_bounds h.numbers he
    omega

/-- **One step of the machine, whatever it is.** -/
theorem step (h : Replays transition init first branch machine) (input : MachineInput Event) :
    ∃ first', Replays transition init first'
      (branch.observe (Trace.take (machineStep transition init) machine input))
      (machineStep transition init machine input).1 := by
  have hpoison : Replays transition init first branch { machine with inner := none } :=
    h.relive fun _ _ hnone => nomatch hnone
  cases input with
  | prune safe => exact ⟨first, h.prune safe⟩
  | restart =>
      rcases hopen : withInit machine.snapshots init with error | machine'
      · exact ⟨first, by simpa [machineStep, hopen, Branch.observe] using hpoison⟩
      · exact ⟨first, by simpa [machineStep, hopen, Branch.observe] using h.restart hopen⟩
  | update upd =>
      rcases hinner : machine.inner with _ | ⟨state, status⟩
      · refine ⟨first, ?_⟩
        simpa [machineStep, handleUpdate, hinner, Branch.observe] using h
      · rcases hu : applyUpdate transition machine.snapshots state status upd with
          error | ⟨store', state', status', commands⟩
        · refine ⟨first, ?_⟩
          simpa [machineStep, handleUpdate, hinner, hu, Branch.observe] using hpoison
        · obtain ⟨first', h'⟩ := h.update hinner (applyUpdate_ok hu)
          refine ⟨first', ?_⟩
          simpa [machineStep, handleUpdate, hinner, hu, Branch.observe] using h'

end Replays

end Step

/-! ### Every run -/

/-- Every run leaves the machine a replay of its canonical branch. -/
theorem replays_run (transition : StateTransition S Event Resume Action Effect) (init : S)
    (inputs : List (MachineInput Event)) :
    ∃ first, Replays transition init first
      (canonicalBranch (Trace.trace (machineStep transition init) (freshMachine init) inputs))
      (Trace.final (machineStep transition init) (freshMachine init) inputs) := by
  have hfresh : ∃ first, Replays transition init first ([] : Branch Event) (freshMachine init) := by
    refine ⟨0, rfl, ?_, ?_, fun hne => absurd rfl hne, ?_⟩
    · intro entry he
      cases he
    · intro n s hl
      cases hl
    · rintro s status ⟨⟩
      exact ⟨rfl, rfl⟩
  have hstep : ∀ (steps : List (Trace.Step (StateMachine S) (MachineInput Event)
      (Except Error (List (Command Action Effect))))) machine input,
      (∃ first, Replays transition init first (canonicalBranch steps) machine) → True →
      ∃ first, Replays transition init first
        (canonicalBranch (steps ++ [Trace.take (machineStep transition init) machine input]))
        (machineStep transition init machine input).1 := by
    rintro steps machine input ⟨first, h⟩ -
    rw [canonicalBranch, List.foldl_append]
    exact h.step input
  exact Trace.history_invariant hfresh hstep inputs fun _ _ => trivial

/-- The `NewBlock` that was applied ahead of the block's logs. -/
def appliedBlock : Status → Option Nat
  | .blockApplied pending => some pending
  | .blockEvents latest => some latest
  | _ => none

/--
**The state machine equals the replay of the canonical branch.**  After any run of
updates, prunes and restarts: the branch has no gaps, the logs of each of its blocks
are in index order, every stored snapshot is the replay of the branch up to its
block, and the live state is the replay of the whole branch, followed by the
`NewBlock` of the next block if that was applied already.  Two runs that agree on the
branch up to a block agree on its snapshot, however they got there.
-/
theorem state_machine_replays_canonical_branch
    (transition : StateTransition S Event Resume Action Effect) (init : S)
    (inputs : List (MachineInput Event)) :
    let run := Trace.trace (machineStep transition init) (freshMachine init)
    let machine := Trace.final (machineStep transition init) (freshMachine init)
    let branch := canonicalBranch (run inputs)
    (∃ first, branch.map Prod.fst = List.range' first branch.length) ∧
    (∀ entry ∈ branch, (∀ log ∈ entry.2, log.block.number = entry.1) ∧
      entry.2.Pairwise fun a b => a.index < b.index) ∧
    (∀ n state, (machine inputs).snapshots.snapshots.lookup n = some state →
      n ∈ branch.map Prod.fst ∧ state = replay transition init (branch.upTo n)) ∧
    (∀ state status, (machine inputs).inner = some (state, status) →
      state = (runMessages transition init
        (branchMessages branch ++ (appliedBlock status).toList.map .newBlock)).1 ∧
      ∀ n ∈ appliedBlock status, ∀ last ∈ (branch.map Prod.fst).getLast?, n = last + 1) ∧
    (∀ inputs' n state state', (machine inputs).snapshots.snapshots.lookup n = some state →
      (machine inputs').snapshots.snapshots.lookup n = some state' →
      branch.upTo n = (canonicalBranch (run inputs')).upTo n → state = state') := by
  intro run machine branch
  obtain ⟨first, h⟩ : ∃ first, Replays transition init first branch (machine inputs) :=
    replays_run transition init inputs
  refine ⟨⟨first, h.numbers⟩, h.logs, ?_, ?_, ?_⟩
  · intro n state hl
    obtain ⟨hge, hlt, hs⟩ := h.snapshots n state hl
    refine ⟨?_, hs⟩
    rw [h.numbers, List.mem_range'_1]
    exact ⟨hge, hlt⟩
  · intro state status hinner
    have hlive := h.live state status hinner
    have hlast : ∀ last ∈ (branch.map Prod.fst).getLast?, first + branch.length = last + 1 := by
      intro last hmem
      rw [h.numbers, List.getLast?_range'] at hmem
      split at hmem
      · cases hmem
      · rename_i hne
        cases hmem
        omega
    have happlied : ∀ n, (runMessages transition init (branchMessages branch ++ [.newBlock n])).1 =
        (transition.applyTransition (replay transition init branch) (.newBlock n)).1 := by
      intro n
      rw [runMessages_append, runMessages_singleton]
      rfl
    cases status with
    | initialized =>
        obtain ⟨hnil, rfl⟩ := hlive
        refine ⟨?_, fun n hn => nomatch hn⟩
        show state = (runMessages transition state (branchMessages branch ++ [])).1
        rw [show branch = [] from hnil]
        rfl
    | blockPending pending =>
        obtain ⟨-, -, rfl⟩ := hlive
        refine ⟨?_, fun n hn => nomatch hn⟩
        show _ = (runMessages transition init (branchMessages branch ++ [])).1
        rw [List.append_nil]
        rfl
    | warpEvents range =>
        obtain ⟨-, rfl⟩ := hlive
        refine ⟨?_, fun n hn => nomatch hn⟩
        show _ = (runMessages transition init (branchMessages branch ++ [])).1
        rw [List.append_nil]
        rfl
    | blockApplied pending =>
        obtain ⟨-, hnext, rfl⟩ := hlive
        refine ⟨(happlied pending).symm, ?_⟩
        rintro n ⟨⟩ last hmem
        exact hnext.trans (hlast last hmem)
    | blockEvents latest =>
        obtain ⟨hnext, rfl⟩ := hlive
        refine ⟨(happlied latest).symm, ?_⟩
        rintro n ⟨⟩ last hmem
        exact hnext.trans (hlast last hmem)
  · intro inputs' n state state' hl hl' hagree
    obtain ⟨first', h'⟩ := replays_run transition init inputs'
    rw [(h.snapshots n state hl).2.2, (h'.snapshots n state' hl').2.2]
    exact congrArg (replay transition init) hagree

end Safenet.Core
