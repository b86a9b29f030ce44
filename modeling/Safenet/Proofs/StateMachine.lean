/-
What an update does to the state machine.

`runMessages` is the transition function along a list of messages.  The loops of
`handle_update` are shown to run exactly the messages of their page
(`applyBlocks_eq`), and `Accepts` then says once, with one constructor for each way
through the function, what an accepted update does to the store, the state and the
status.  No proof after this file unfolds the handlers again.
-/
import Safenet.Core.StateMachine

namespace Safenet.Core

open Fallible

variable {S Event Resume Action Effect : Type}

/-! ### Running a list of messages -/

/-- The state and the commands after a list of messages. -/
def runMessages (transition : StateTransition S Event Resume Action Effect) :
    S → List (Message Event Resume) → S × List (Command Action Effect)
  | state, [] => (state, [])
  | state, message :: messages =>
      let step := transition.applyTransition state message
      let rest := runMessages transition step.1 messages
      (rest.1, step.2 ++ rest.2)

section RunMessages

variable (transition : StateTransition S Event Resume Action Effect)

@[simp] theorem runMessages_nil (state : S) : runMessages transition state [] = (state, []) := rfl

theorem runMessages_cons (state : S) (m : Message Event Resume) (ms : List (Message Event Resume)) :
    runMessages transition state (m :: ms) =
      ((runMessages transition (transition.applyTransition state m).1 ms).1,
        (transition.applyTransition state m).2 ++
          (runMessages transition (transition.applyTransition state m).1 ms).2) := rfl

theorem runMessages_singleton (state : S) (m : Message Event Resume) :
    runMessages transition state [m] = transition.applyTransition state m := by
  simp [runMessages]

theorem runMessages_append (ms : List (Message Event Resume)) :
    ∀ (state : S) (ms' : List (Message Event Resume)),
      runMessages transition state (ms ++ ms') =
        ((runMessages transition (runMessages transition state ms).1 ms').1,
          (runMessages transition state ms).2 ++
            (runMessages transition (runMessages transition state ms).1 ms').2) := by
  induction ms with
  | nil => intro state ms'; simp
  | cons m ms ih =>
      intro state ms'
      rw [List.cons_append, runMessages_cons, ih, runMessages_cons]
      simp [List.append_assoc]

end RunMessages

/-! ### A page of logs

The loop over a page consumes the logs from the front.  On a sorted page that lies in
its range this hands every block exactly its own logs.
-/

/-- The logs of one block in a page. -/
def logsOf (logs : List (EventLog Event)) (block : Nat) : List (EventLog Event) :=
  logs.filter fun log => log.block.number = block

/-- The messages a page of logs applies: the `NewBlock`s only while warping. -/
def pageMessages (warping : Bool) (blocks : List Nat) (logs : List (EventLog Event)) :
    List (Message Event Resume) :=
  blocks.flatMap fun block =>
    (if warping then [Message.newBlock block] else []) ++ (logsOf logs block).map .event

namespace StateMachine

theorem applyLogs_eq (transition : StateTransition S Event Resume Action Effect) (block : Nat)
    (logs : List (EventLog Event)) : ∀ (state : S) (commands : List (Command Action Effect)),
      applyLogs transition block state commands logs =
        let taken := (logs.takeWhile fun log => log.block.number = block).map .event
        ((runMessages transition state taken).1,
          commands ++ (runMessages transition state taken).2,
          logs.dropWhile fun log => log.block.number = block) := by
  induction logs with
  | nil => intro state commands; simp [applyLogs]
  | cons log logs ih =>
      intro state commands
      by_cases h : log.block.number = block
      · simp [applyLogs, h, ih, accumulateTransition, runMessages_cons]
      · simp [applyLogs, h]

/-- A log that is not before any log of the list. -/
private theorem logBefore_block_le {a b : EventLog Event} (h : logBefore a b = true) :
    a.block.number ≤ b.block.number := by
  simp only [logBefore, Bool.or_eq_true, decide_eq_true_eq, Bool.and_eq_true] at h
  omega

private theorem logBefore_trans {a b c : EventLog Event} (hab : logBefore a b = true)
    (hbc : logBefore b c = true) : logBefore a c = true := by
  simp only [logBefore, Bool.or_eq_true, decide_eq_true_eq, Bool.and_eq_true] at *
  omega

/-- Comparing neighbours is enough: the order is transitive. -/
theorem isSorted_pairwise {logs : List (EventLog Event)} (h : isSorted logs = true) :
    logs.Pairwise fun a b => logBefore a b = true := by
  induction logs with
  | nil => exact List.Pairwise.nil
  | cons a logs ih =>
      cases logs with
      | nil => simp
      | cons b logs =>
          simp only [isSorted, Bool.and_eq_true] at h
          have hrest := ih h.2
          refine List.pairwise_cons.mpr ⟨fun c hc => ?_, hrest⟩
          rcases List.mem_cons.mp hc with rfl | hc
          · exact h.1
          · exact logBefore_trans h.1 ((List.pairwise_cons.mp hrest).1 c hc)

/-- On a sorted list without earlier blocks, the leading logs of a block are all of them. -/
private theorem takeWhile_eq_logsOf {logs : List (EventLog Event)} {block : Nat}
    (hs : logs.Pairwise fun a b => logBefore a b = true)
    (hge : ∀ log ∈ logs, block ≤ log.block.number) :
    (logs.takeWhile fun log => log.block.number = block) = logsOf logs block ∧
      (logs.dropWhile fun log => log.block.number = block) =
        logs.filter fun log => block < log.block.number := by
  induction logs with
  | nil => simp [logsOf]
  | cons log logs ih =>
      obtain ⟨hlog, hs⟩ := List.pairwise_cons.mp hs
      obtain ⟨ih₁, ih₂⟩ := ih hs fun x hx => hge x (List.mem_cons_of_mem _ hx)
      have hb := hge log List.mem_cons_self
      by_cases h : log.block.number = block
      · have hlt : ¬ block < log.block.number := by omega
        simp only [logsOf] at ih₁
        simp [logsOf, h, ih₁, ih₂]
      · have hlater : ∀ x ∈ log :: logs, block < x.block.number := by
          intro x hx
          rcases List.mem_cons.mp hx with rfl | hx
          · omega
          · have := logBefore_block_le (hlog x hx)
            omega
        constructor
        · rw [List.takeWhile_cons_of_neg (by simpa using h), logsOf, eq_comm,
            List.filter_eq_nil_iff]
          intro x hx
          have := hlater x hx
          simp only [decide_eq_true_eq]
          omega
        · rw [List.dropWhile_cons_of_neg (by simpa using h), eq_comm, List.filter_eq_self]
          intro x hx
          simpa using hlater x hx

/-- Dropping logs of other blocks changes nothing for the blocks that are left. -/
private theorem pageMessages_filter (warping : Bool) {blocks : List Nat}
    (logs : List (EventLog Event)) {block : Nat} (hlt : ∀ b ∈ blocks, block < b) :
    (pageMessages warping blocks (logs.filter fun log => block < log.block.number) :
      List (Message Event Resume)) = pageMessages warping blocks logs := by
  unfold pageMessages
  rw [List.flatMap_def, List.flatMap_def]
  congr 1
  refine List.map_congr_left fun b hb => ?_
  have hlogs : logsOf (logs.filter fun log => block < log.block.number) b = logsOf logs b := by
    unfold logsOf
    rw [List.filter_filter]
    refine List.filter_congr fun log _ => ?_
    have := hlt b hb
    by_cases h : log.block.number = b
    · simp [h, this]
    · simp [h]
  rw [hlogs]

/-- **The loop over a page applies exactly the page's messages.** -/
theorem applyBlocks_eq (transition : StateTransition S Event Resume Action Effect)
    (warping : Bool) (blocks : List Nat) :
    ∀ (state : S) (commands : List (Command Action Effect)) (logs : List (EventLog Event)),
      blocks.Pairwise (· < ·) → (logs.Pairwise fun a b => logBefore a b = true) →
      (∀ log ∈ logs, log.block.number ∈ blocks) →
      applyBlocks transition warping blocks state commands logs =
        ((runMessages transition state (pageMessages warping blocks logs)).1,
          commands ++ (runMessages transition state (pageMessages warping blocks logs)).2) := by
  induction blocks with
  | nil => intro state commands logs _ _ _; simp [applyBlocks, pageMessages]
  | cons block blocks ih =>
      intro state commands logs hb hs hin
      obtain ⟨hlt, hb⟩ := List.pairwise_cons.mp hb
      have hge : ∀ log ∈ logs, block ≤ log.block.number := by
        intro log hlog
        rcases List.mem_cons.mp (hin log hlog) with h | h
        · exact h.ge
        · exact (hlt _ h).le
      obtain ⟨htake, hdrop⟩ := takeWhile_eq_logsOf hs hge
      have hrest : ∀ log ∈ logs.filter fun log => block < log.block.number,
          log.block.number ∈ blocks := by
        intro log hlog
        obtain ⟨hmem, hgt⟩ := List.mem_filter.mp hlog
        rcases List.mem_cons.mp (hin log hmem) with h | h
        · simp [h] at hgt
        · exact h
      have hcons : (pageMessages warping (block :: blocks) logs : List (Message Event Resume)) =
          (if warping then [Message.newBlock block] else []) ++
            ((logsOf logs block).map .event ++ pageMessages warping blocks logs) := by
        simp [pageMessages]
      rw [hcons]
      simp only [applyBlocks, applyLogs_eq, htake, hdrop]
      rw [ih _ _ _ hb (hs.filter _) hrest, pageMessages_filter warping logs hlt]
      cases warping
      · simp [runMessages_append, List.append_assoc]
      · simp [runMessages_append, runMessages_cons, accumulateTransition, List.append_assoc]

/-! ### What an accepted update does -/

/-- A page whose logs are strictly ordered and lie in its range. -/
structure PageOK (page : EventUpdate Event) : Prop where
  sorted : page.logs.Pairwise fun a b => logBefore a b = true
  inRange : ∀ log ∈ page.logs, log.block.number ∈ page.blocks.blocks

/-- The state and the commands after the messages of a page. -/
def runPage (transition : StateTransition S Event Resume Action Effect) (warping : Bool)
    (state : S) (page : EventUpdate Event) : S × List (Command Action Effect) :=
  runMessages transition state (pageMessages warping page.blocks.blocks page.logs)

/--
An accepted update, with the store, the state, the status and the commands it leads
to.  One constructor for each way through `handle_update`.
-/
inductive Accepts (transition : StateTransition S Event Resume Action Effect)
    (store : SnapshotStore S) (state : S) : Status → Update Event →
    SnapshotStore S → S → Status → List (Command Action Effect) → Prop
  | warp {status : Status} {first last : Nat} (haccepts : acceptsWarp status first = true)
      (hle : first ≤ last) :
      Accepts transition store state status (.block (.warp first last))
        store state (.warpEvents ⟨first, last⟩) []
  | uncle {status : Status} {number : Nat} {restored : S}
      (haccepts : acceptsUncle status number = true) (hpos : 0 < number)
      (hwidth : number < 2 ^ 63) (hparent : store.snapshots.lookup (number - 1) = some restored) :
      Accepts transition store state status (.block (.uncle number))
        ⟨store.snapshots.filter fun n _ => ¬ n ≥ number⟩ restored (.blockPending number) []
  | newApplied {number : Nat} {hash : B256} {timestamp : Nat} {bloom : Bloom} :
      Accepts transition store state (.blockApplied number)
        (.block (.new number hash timestamp bloom)) store state (.blockEvents number) []
  | newPending {status : Status} {number : Nat} {hash : B256} {timestamp : Nat} {bloom : Bloom}
      (hstatus : status = .initialized ∨ status = .blockPending number) :
      Accepts transition store state status (.block (.new number hash timestamp bloom))
        store (transition.applyTransition state (.newBlock number)).1 (.blockEvents number)
        (transition.applyTransition state (.newBlock number)).2
  | logsWarp {range : BlockRange} {page : EventUpdate Event} (hok : PageOK page)
      (hstart : range.start = page.blocks.start) (hne : page.blocks.start ≤ page.blocks.last)
      (hlt : page.blocks.last < range.last) (hwidth : page.blocks.last < 2 ^ 63) :
      Accepts transition store state (.warpEvents range) (.logs page)
        ⟨store.snapshots.insert page.blocks.last (runPage transition true state page).1⟩
        (runPage transition true state page).1
        (.warpEvents ⟨page.blocks.last + 1, range.last⟩) (runPage transition true state page).2
  | logsLast {status : Status} {page : EventUpdate Event} (hok : PageOK page)
      (hstatus : status = .blockEvents page.blocks.start ∧ page.blocks.last = page.blocks.start ∨
        status = .warpEvents page.blocks)
      (hne : page.blocks.start ≤ page.blocks.last) (hwidth : page.blocks.last < 2 ^ 63) :
      Accepts transition store state status (.logs page)
        ⟨store.snapshots.insert page.blocks.last (runPage transition (isWarping status) state page).1⟩
        (transition.applyTransition (runPage transition (isWarping status) state page).1
          (.newBlock (page.blocks.last + 1))).1
        (.blockApplied (page.blocks.last + 1))
        ((runPage transition (isWarping status) state page).2 ++
          (transition.applyTransition (runPage transition (isWarping status) state page).1
            (.newBlock (page.blocks.last + 1))).2)

theorem toI64_ok {n m : Nat} (h : SnapshotStore.toI64 n = .ok m) : n < 2 ^ 63 ∧ n = m := by
  simpa only [SnapshotStore.toI64, ite_eq_ok, Except.ok.injEq] using h

theorem commit_ok {store store' : SnapshotStore S} {number : Nat} {state : S}
    (h : store.commit number state = .ok store') :
    number < 2 ^ 63 ∧ store' = ⟨store.snapshots.insert number state⟩ := by
  unfold SnapshotStore.commit at h
  obtain ⟨n, hn, h⟩ := bind_eq_ok.mp h
  obtain ⟨hw, rfl⟩ := toI64_ok hn
  exact ⟨hw, (pure_eq_ok.mp h).symm⟩

theorem reorg_ok {store store' : SnapshotStore S} {uncle parent : Nat} {state : S}
    (h : store.reorg uncle = .ok (store', parent, state)) :
    0 < uncle ∧ uncle < 2 ^ 63 ∧ store.snapshots.lookup (uncle - 1) = some state ∧
      store' = ⟨store.snapshots.filter fun n _ => ¬ n ≥ uncle⟩ := by
  unfold SnapshotStore.reorg at h
  obtain ⟨_, hpos, h⟩ := bind_eq_ok.mp h
  obtain ⟨n, hn, h⟩ := bind_eq_ok.mp h
  obtain ⟨hw, rfl⟩ := toI64_ok hn
  have hpos : uncle ≠ 0 := by simpa using require_eq_ok.mp hpos
  dsimp only at h
  split at h
  · exact (throw_eq_ok.mp h).elim
  · rename_i restored hl
    obtain ⟨hl, -⟩ := Table.lookup_filter_eq_some.mp hl
    have heq := pure_eq_ok.mp h
    simp only [Prod.mk.injEq] at heq
    obtain ⟨rfl, -, rfl⟩ := heq
    exact ⟨by omega, hw, hl, rfl⟩

theorem nextBlock_ok {n m : Nat} (h : nextBlock n = .ok m) : m = n + 1 := by
  simp only [nextBlock, ite_eq_ok, Except.ok.injEq] at h
  exact h.2.symm

theorem blockRange_ok {first last : Nat} {range : BlockRange}
    (h : blockRange first last = .ok range) : first ≤ last ∧ range = ⟨first, last⟩ := by
  simp only [blockRange, ite_eq_ok, Except.ok.injEq] at h
  exact ⟨h.1, h.2.symm⟩

/-- The status after a page: still warping, or waiting for the block after the page. -/
theorem statusAfterLogs_ok {status status' : Status} {blocks : BlockRange}
    (h : statusAfterLogs status blocks = .ok status') :
    (∃ range, status = .warpEvents range ∧ blocks.last < range.last ∧
      status' = .warpEvents ⟨blocks.last + 1, range.last⟩) ∨
    ((∀ range, status = .warpEvents range → ¬ blocks.last < range.last) ∧
      status' = .blockPending (blocks.last + 1)) := by
  have hpending : ∀ x : Except Error Status,
      x = (do let pending ← nextBlock blocks.last; return .blockPending pending) → x = .ok status' →
      status' = .blockPending (blocks.last + 1) := by
    rintro _ rfl h
    obtain ⟨n, hn, h⟩ := bind_eq_ok.mp h
    rw [← pure_eq_ok.mp h, nextBlock_ok hn]
  cases status with
  | warpEvents range =>
      simp only [statusAfterLogs] at h
      split at h
      · rename_i hlt
        obtain ⟨n, hn, h⟩ := bind_eq_ok.mp h
        obtain ⟨r, hr, h⟩ := bind_eq_ok.mp h
        obtain ⟨-, rfl⟩ := blockRange_ok hr
        rw [nextBlock_ok hn] at h
        exact Or.inl ⟨range, rfl, hlt, (pure_eq_ok.mp h).symm⟩
      · rename_i hlt
        refine Or.inr ⟨?_, hpending _ rfl h⟩
        rintro _ ⟨⟩
        exact hlt
  | initialized => exact Or.inr ⟨by rintro _ ⟨⟩, hpending _ rfl h⟩
  | blockPending n => exact Or.inr ⟨by rintro _ ⟨⟩, hpending _ rfl h⟩
  | blockApplied n => exact Or.inr ⟨by rintro _ ⟨⟩, hpending _ rfl h⟩
  | blockEvents n => exact Or.inr ⟨by rintro _ ⟨⟩, hpending _ rfl h⟩

/-- The blocks of a range are its numbers in increasing order. -/
theorem mem_blocks {range : BlockRange} {n : Nat} :
    n ∈ range.blocks ↔ range.start ≤ n ∧ n ≤ range.last := by
  simp only [BlockRange.blocks, List.mem_range'_1]
  omega

theorem blocks_sorted (range : BlockRange) : range.blocks.Pairwise (· < ·) :=
  List.pairwise_lt_range'

theorem handleLogs_ok {transition : StateTransition S Event Resume Action Effect}
    {store store' : SnapshotStore S} {state state' : S} {status status' : Status}
    {page : EventUpdate Event} {commands : List (Command Action Effect)}
    (haccepts : acceptsLogs status page.blocks = true)
    (h : handleLogs transition store state status page = .ok (store', state', status', commands)) :
    Accepts transition store state status (.logs page) store' state' status' commands := by
  unfold handleLogs at h
  obtain ⟨_, hguard, h⟩ := bind_eq_ok.mp h
  obtain ⟨hsorted, hin⟩ : isSorted page.logs = true ∧
      ∀ log ∈ page.logs, log.block.number ∈ page.blocks.blocks := by
    simpa [BlockRange.contains, mem_blocks] using require_eq_ok.mp hguard
  have hok : PageOK page := ⟨isSorted_pairwise hsorted, hin⟩
  have hrun : applyBlocks transition (isWarping status) page.blocks.blocks state [] page.logs =
      runPage transition (isWarping status) state page := by
    rw [applyBlocks_eq transition _ _ _ _ _ (blocks_sorted _) hok.sorted hin]
    simp [runPage]
  simp only [hrun] at h
  obtain ⟨next, hnext, h⟩ := bind_eq_ok.mp h
  obtain ⟨store₁, hstore, h⟩ := bind_eq_ok.mp h
  obtain ⟨hwidth, rfl⟩ := commit_ok (mapError_eq_ok.mp hstore)
  rcases statusAfterLogs_ok hnext with ⟨range, rfl, hlt, rfl⟩ | ⟨hlast, rfl⟩
  · have heq := pure_eq_ok.mp h
    simp only [Prod.mk.injEq] at heq
    obtain ⟨rfl, rfl, rfl, rfl⟩ := heq
    simp only [acceptsLogs, isNextInRange, BlockRange.contains, Bool.and_eq_true,
      decide_eq_true_eq] at haccepts
    exact .logsWarp hok haccepts.1 (by omega) hlt hwidth
  · have heq := pure_eq_ok.mp h
    simp only [accumulateTransition, Prod.mk.injEq] at heq
    obtain ⟨rfl, rfl, rfl, rfl⟩ := heq
    cases status with
    | blockEvents latest =>
        simp only [acceptsLogs, isNextInRange, BlockRange.contains, Bool.and_eq_true,
          decide_eq_true_eq] at haccepts
        exact .logsLast hok (Or.inl ⟨by rw [haccepts.1], by omega⟩) (by omega) hwidth
    | warpEvents range =>
        simp only [acceptsLogs, isNextInRange, BlockRange.contains, Bool.and_eq_true,
          decide_eq_true_eq] at haccepts
        have hend := hlast range rfl
        have hrange : range = page.blocks := by
          cases range; cases hp : page.blocks
          simp only [hp] at haccepts hend
          simp only [BlockRange.mk.injEq]
          omega
        exact .logsLast hok (Or.inr (by rw [hrange])) (by omega) hwidth
    | initialized => cases haccepts
    | blockPending n => cases haccepts
    | blockApplied n => cases haccepts

/-- **Every accepted update is one of the ways through `handle_update`.** -/
theorem applyUpdate_ok {transition : StateTransition S Event Resume Action Effect}
    {store store' : SnapshotStore S} {state state' : S} {status status' : Status}
    {update : Update Event} {commands : List (Command Action Effect)}
    (h : applyUpdate transition store state status update =
      .ok (store', state', status', commands)) :
    Accepts transition store state status update store' state' status' commands := by
  cases update with
  | logs page =>
      simp only [applyUpdate, ite_eq_ok] at h
      exact handleLogs_ok h.1 h.2
  | block update =>
      cases update with
      | warp first last =>
          simp only [applyUpdate, ite_eq_ok] at h
          obtain ⟨haccepts, h⟩ := h
          obtain ⟨range, hrange, h⟩ := bind_eq_ok.mp h
          obtain ⟨hle, rfl⟩ := blockRange_ok hrange
          have heq := pure_eq_ok.mp h
          simp only [Prod.mk.injEq] at heq
          obtain ⟨rfl, rfl, rfl, rfl⟩ := heq
          exact .warp haccepts hle
      | uncle number =>
          simp only [applyUpdate, ite_eq_ok] at h
          obtain ⟨haccepts, h⟩ := h
          obtain ⟨⟨store₁, parent, restored⟩, hreorg, h⟩ := bind_eq_ok.mp h
          obtain ⟨hpos, hwidth, hparent, rfl⟩ := reorg_ok (mapError_eq_ok.mp hreorg)
          have heq := pure_eq_ok.mp h
          simp only [Prod.mk.injEq] at heq
          obtain ⟨rfl, rfl, rfl, rfl⟩ := heq
          exact .uncle haccepts hpos hwidth hparent
      | new number hash timestamp bloom =>
          simp only [applyUpdate, ite_eq_ok] at h
          obtain ⟨haccepts, h⟩ := h
          cases status with
          | initialized =>
              obtain ⟨rfl, rfl, rfl, rfl⟩ := by simpa only [Prod.mk.injEq] using pure_eq_ok.mp h
              exact .newPending (Or.inl rfl)
          | blockPending pending =>
              obtain rfl : pending = number := by simpa [acceptsNew] using haccepts
              obtain ⟨rfl, rfl, rfl, rfl⟩ := by simpa only [Prod.mk.injEq] using pure_eq_ok.mp h
              exact .newPending (Or.inr rfl)
          | blockApplied pending =>
              obtain rfl : pending = number := by simpa [acceptsNew] using haccepts
              obtain ⟨rfl, rfl, rfl, rfl⟩ := by simpa only [Prod.mk.injEq] using pure_eq_ok.mp h
              exact .newApplied
          | blockEvents latest => cases haccepts
          | warpEvents range => cases haccepts

end StateMachine

end Safenet.Core
