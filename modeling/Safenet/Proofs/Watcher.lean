/-
What a call of the watcher that is dropped leaves behind.

A call changes the watcher only at the end, with two exceptions.  Waiting for a block moves the time
at which it is expected; that time decides nothing but how long the next call sleeps, so a watcher
that expects the block earlier does the same (`early`).  And a log query that failed has already been
counted when the watcher then looks at the block again.  A call that is dropped there has the effect
of one that failed there (`Call.failing`), and no other dropped call has an effect (`Earlier`).

That the two watchers agree on the block in progress is an invariant (`InStep`): the blocks of the
window that are not queued any more end with the block whose logs are fetched.
-/
import Safenet.Core.Watcher
import Safenet.Proofs.Boundary

namespace Safenet.Core

namespace BlockWatcher

/-! ### The expected time -/

/-- The watcher, had it expected the pending block at this time. -/
abbrev early (watcher : BlockWatcher) (timestampMs : Nat) : BlockWatcher :=
  { watcher with pending := { watcher.pending with timestampMs } }

section Node

variable {node : Node} {watcher watcher' : BlockWatcher} {timestampMs : Nat}

/-- Waiting only moves the expected time, and later. -/
theorem poll_early (attempts : Nat) : ∀ {retryCount timestampMs : Nat} {watcher watcher' : BlockWatcher}
    {result : Except Error (Option BlockHeader)},
      poll node attempts retryCount watcher = (watcher', result) → result ≠ .error .panicked →
        timestampMs ≤ watcher.pending.timestampMs →
          ∃ t ≤ watcher'.pending.timestampMs,
            poll node attempts retryCount (watcher.early timestampMs) = (watcher'.early t, result) := by
  induction attempts with
  | zero =>
      intro retryCount timestampMs watcher watcher' result h _ hle
      cases h
      exact ⟨timestampMs, hle, rfl⟩
  | succ attempts ih =>
      intro retryCount timestampMs watcher watcher' result h hresult hle
      unfold poll at h ⊢
      dsimp only [early] at h ⊢
      cases hget : getBlock node watcher.requests (.number watcher.pending.number) with
      | error error =>
          rw [hget] at h
          cases h
          exact ⟨timestampMs, hle, rfl⟩
      | ok answer =>
          rw [hget] at h
          cases answer with
          | some block =>
              cases h
              exact ⟨timestampMs, hle, rfl⟩
          | none =>
              dsimp only at h ⊢
              split at h
              · next hretry =>
                  obtain ⟨t, ht, hearly⟩ := ih h hresult hle
                  exact ⟨t, ht, (if_pos hretry).trans hearly⟩
              · next hretry =>
                  cases hsum : checked (watcher.pending.timestampMs + watcher.timings.blockTime) with
                  | error error =>
                      rw [hsum] at h
                      cases h
                      exact absurd (congrArg Except.error (checked_error hsum)) hresult
                  | ok sum =>
                      rw [hsum] at h
                      -- what fits for the later time fits for the earlier one
                      have heq := checked_ok hsum
                      have hearlier : checked (timestampMs + watcher.timings.blockTime) =
                          .ok (timestampMs + watcher.timings.blockTime) :=
                        checked_of_le (by omega) hsum
                      have hle' : timestampMs + watcher.timings.blockTime ≤ sum := by omega
                      obtain ⟨t, ht, hearly⟩ := ih h hresult hle'
                      refine ⟨t, ht, (if_neg hretry).trans ?_⟩
                      rw [hearlier]
                      exact hearly

/-- A call that is dropped while it waits leaves everything but the expected time. -/
theorem poll_none (attempts : Nat) : ∀ {retryCount : Nat} {watcher watcher' : BlockWatcher},
    poll node attempts retryCount watcher = (watcher', .ok none) →
      ∃ t ≥ watcher.pending.timestampMs,
        watcher' = { watcher.early t with requests := watcher'.requests } := by
  induction attempts with
  | zero =>
      intro retryCount watcher watcher' h
      cases h
      exact ⟨_, Nat.le_refl _, rfl⟩
  | succ attempts ih =>
      intro retryCount watcher watcher' h
      unfold poll at h
      dsimp only at h
      split at h
      · cases h
      · cases h
      · split at h
        · obtain ⟨t, hle, hpost⟩ := ih h
          exact ⟨t, hle, hpost⟩
        · split at h
          · cases h
          · next sum hsum =>
              obtain ⟨t, hle, hpost⟩ := ih h
              have heq := checked_ok hsum
              refine ⟨t, ?_, hpost⟩
              have hle : sum ≤ t := hle
              show watcher.pending.timestampMs ≤ t
              omega

theorem record_early (watcher : BlockWatcher) (block : BlockHeader) (timestampMs : Nat)
    (hle : timestampMs ≤ watcher.pending.timestampMs) :
    ∃ t ≤ (record watcher block).1.pending.timestampMs,
      record (watcher.early timestampMs) block =
        ((record watcher block).1.early t, (record watcher block).2) := by
  unfold record
  dsimp only [early]
  split
  · exact ⟨timestampMs, hle, rfl⟩
  · next pending _ =>
      -- the expected time is set anew
      refine ⟨pending.timestampMs, ?_, ?_⟩
      · split
        · split <;> exact Nat.le_refl _
        · exact Nat.le_refl _
      · split
        · split <;> rfl
        · rfl

theorem receive_early (watcher : BlockWatcher) (block : BlockHeader) (timestampMs : Nat)
    (hle : timestampMs ≤ watcher.pending.timestampMs) :
    ∃ t ≤ (receive watcher block).1.pending.timestampMs,
      receive (watcher.early timestampMs) block =
        ((receive watcher block).1.early t, (receive watcher block).2) := by
  unfold receive
  dsimp only [early]
  split
  · next last _ =>
      by_cases hparent : last.hash ≠ block.parentHash
      · rw [if_pos hparent, if_pos hparent]
        unfold uncleLast
        dsimp only
        split
        · exact ⟨timestampMs, hle, rfl⟩
        · exact ⟨_, Nat.le_refl _, rfl⟩
      · rw [if_neg hparent, if_neg hparent]
        exact record_early watcher block timestampMs hle
  · by_cases hparent : watcher.safe.hash ≠ block.parentHash
    · rw [if_pos hparent, if_pos hparent]
      exact ⟨timestampMs, hle, rfl⟩
    · rw [if_neg hparent, if_neg hparent]
      exact record_early watcher block timestampMs hle

/-- **The next update does not depend on the expected time.** -/
theorem next_early {attempts : Nat} {result : Except Error (Option BlockUpdate)}
    (h : next node watcher attempts = (watcher', result)) (hresult : result ≠ .error .panicked)
    (hle : timestampMs ≤ watcher.pending.timestampMs) :
    ∃ t ≤ watcher'.pending.timestampMs,
      next node (watcher.early timestampMs) attempts = (watcher'.early t, result) := by
  unfold next at h ⊢
  dsimp only [early] at h ⊢
  cases hqueue : watcher.queue with
  | cons update queue =>
      rw [hqueue] at h
      cases h
      exact ⟨timestampMs, hle, rfl⟩
  | nil =>
      rw [hqueue] at h
      dsimp only at h ⊢
      rcases hpoll : poll node attempts 0 watcher with ⟨polled, found⟩
      rw [hpoll] at h
      have hfound : found ≠ .error .panicked := by
        rintro rfl
        cases h
        exact hresult rfl
      obtain ⟨t, ht, hearly⟩ := poll_early attempts hpoll hfound hle
      unfold early at hearly
      rw [hqueue] at hearly
      rw [hearly]
      cases found with
      | error error =>
          cases h
          exact ⟨t, ht, rfl⟩
      | ok found =>
          cases found with
          | none =>
              cases h
              exact ⟨t, ht, rfl⟩
          | some block =>
              cases h
              obtain ⟨t', ht', hreceive⟩ := receive_early polled block t ht
              refine ⟨t', ht', ?_⟩
              dsimp only
              unfold early at hreceive
              rw [hreceive]

/-- Whether the last block is dropped does not depend on the expected time. -/
theorem revalidate_early {result : Except Error (Option InvalidatedBlock)}
    (h : revalidateLastBlock node watcher = (watcher', result))
    (hle : timestampMs ≤ watcher.pending.timestampMs) :
    ∃ t ≤ watcher'.pending.timestampMs,
      revalidateLastBlock node (watcher.early timestampMs) = (watcher'.early t, result) := by
  unfold revalidateLastBlock at h ⊢
  dsimp only [early] at h ⊢
  split at h
  · cases h
    exact ⟨timestampMs, hle, rfl⟩
  · split at h
    · cases h
      exact ⟨timestampMs, hle, rfl⟩
    · split at h
      · cases h
        exact ⟨timestampMs, hle, rfl⟩
      · split at h
        · cases h
          exact ⟨timestampMs, hle, rfl⟩
        · split at h
          · next hsame =>
              cases h
              exact ⟨timestampMs, hle, if_pos hsame⟩
          · next hsame =>
              split at h
              · cases h
                exact ⟨timestampMs, hle, if_neg hsame⟩
              · cases h
                exact ⟨_, Nat.le_refl _, if_neg hsame⟩

end Node

end BlockWatcher

namespace EventWatcher

open Fallible

variable {E : Type} {events : Events E} {keccak256 : Bytes → B256} {answers : Answers}
  {watcher watcher' : EventWatcher} {result : Except Error (Option (EventUpdate E))}

/-! ### A call of the event watcher -/

/-- The update whose logs are fetched; of a warp, what is left of it. -/
def Step.target : Step → Option BlockUpdate
  | .idle => none
  | .warping fromBlock toBlock _ _ => some (.warp fromBlock toBlock)
  | .block number hash timestamp logsBloom _ => some (.new number hash timestamp logsBloom)

theorem next_idle (hstep : watcher.step = .idle) :
    watcher.next events keccak256 answers = (watcher, .ok none) := by
  unfold next
  rw [hstep]

/-- A page of a warp is tried again, or followed by the next one. -/
theorem next_warping {fromBlock toBlock : Nat} {pageSize : NonZero} {fetched : Option FetchedPage}
    (hstep : watcher.step = .warping fromBlock toBlock pageSize fetched)
    (h : watcher.next events keccak256 answers = (watcher', result)) :
    (∃ error pageSize' fetched', result = .error error ∧
        watcher' = { watcher with step := .warping fromBlock toBlock pageSize' fetched' }) ∨
      ∃ last logs, result = .ok (some ⟨⟨fromBlock, last⟩, logs⟩) ∧
        watcher' = { watcher with
          step := if last = toBlock then .idle
            else .warping (last + 1) toBlock watcher.config.blockPageSize none } := by
  unfold next at h
  rw [hstep] at h
  dsimp only at h
  unfold warp at h
  split at h
  · cases h
    exact .inl ⟨_, _, _, rfl, rfl⟩
  · unfold finishPage at h
    split at h
    · cases h
      exact .inl ⟨_, _, _, rfl, rfl⟩
    · split at h
      · cases h
        exact .inl ⟨_, _, _, rfl, rfl⟩
      · cases h
        exact .inr ⟨_, _, rfl, rfl⟩

/-- A block is done, or tried once more. -/
theorem next_block {number : Nat} {hash : B256} {timestamp : Nat} {logsBloom : Bloom} {retries : Nat}
    (hstep : watcher.step = .block number hash timestamp logsBloom retries)
    (h : watcher.next events keccak256 answers = (watcher', result)) :
    (∃ error, result = .error error ∧ watcher' =
        { watcher with step := .block number hash timestamp logsBloom (retries + 1) }) ∨
      ∃ logs, result = .ok (some ⟨⟨number, number⟩, logs⟩) ∧ watcher' = { watcher with step := .idle } := by
  unfold next at h
  rw [hstep] at h
  dsimp only at h
  unfold block at h
  split at h
  · cases h
    exact .inr ⟨_, rfl, rfl⟩
  · cases h
    exact .inl ⟨_, rfl, rfl⟩

/-- An error that says that the two watchers disagree. -/
def Error.isUnexpected : Error → Prop
  | .unexpectedBlockUpdate | .unexpectedBlockInvalidation => True
  | _ => False

private theorem query_expected (position : Nat) (blocks : BlockFilter) (topics : List B256) :
    Avoids Error.isUnexpected (watcher.query answers position blocks topics) := by
  apply avoids_bind (avoids_mapError fun error => id)
  intro logs _
  apply avoids_bind (avoids_require id)
  intro _ _
  exact avoids_ok

private theorem queryEvent_expected (blocks : BlockFilter) (position : Nat) (topic : B256) :
    Avoids Error.isUnexpected (watcher.queryEvent answers blocks position topic) := by
  unfold queryEvent
  split
  · exact avoids_ok
  · next error herror =>
      split
      · exact avoids_ok
      · exact avoids_error (query_expected _ _ _ error herror)

/-- The failure that comes first is one of the failures. -/
theorem tryJoinAll_avoids {ε α : Type} {bad : ε → Prop} {firstFailure : Nat}
    {results : List (Except ε α)} (h : ∀ x ∈ results, Avoids bad x) :
    Avoids bad (tryJoinAll firstFailure results) := by
  unfold tryJoinAll
  split
  · exact avoids_ok
  · next error herror =>
      intro first hfirst
      rcases Option.getD_eq_iff.mp (Except.error.inj hfirst) with hfirst | ⟨-, rfl⟩
      · obtain ⟨x, hx, hsome⟩ := List.mem_filterMap.mp (List.mem_of_getElem? hfirst)
        cases x with
        | ok a => cases hsome
        | error e =>
            cases hsome
            exact h _ hx first rfl
      · exact avoids_mapM results h error herror

private theorem fetchLogs_expected (fetch : Fetch) :
    Avoids Error.isUnexpected (watcher.fetchLogs keccak256 answers fetch) := by
  cases fetch with
  | singleQuery blocks => exact query_expected _ _ _
  | multipleQueries blocks =>
      apply avoids_bind
      · apply tryJoinAll_avoids
        intro x hx
        obtain ⟨i, hi, rfl⟩ := List.mem_mapIdx.mp hx
        exact queryEvent_expected _ _ _
      · intro pages _
        exact avoids_ok
  | clientFiltered blockHash logsBloom =>
      apply avoids_bind (avoids_mapError fun error => id)
      intro logs _
      apply avoids_bind (avoids_require id)
      intro _ _
      exact avoids_ok

private theorem decodeAndSort_expected (logs : List Log) (blockTimestamps : Table Nat Nat) :
    Avoids Error.isUnexpected (decodeAndSort events logs blockTimestamps) := by
  apply avoids_bind
  · apply avoids_mapM
    intro log _
    unfold decodeOrError
    split
    · exact avoids_ok
    · exact avoids_error id
  · intro decoded _
    exact avoids_ok

private theorem addTimestamps_expected (numbers : List Nat) :
    ∀ acc : Table Nat Nat × Option Error, (∀ error ∈ acc.2, ¬ error.isUnexpected) →
      ∀ error ∈ (numbers.foldl (addTimestamp answers) acc).2, ¬ error.isUnexpected := by
  induction numbers with
  | nil => intro acc hacc; exact hacc
  | cons number numbers ih =>
      intro acc hacc
      apply ih
      intro error herror
      unfold addTimestamp at herror
      split at herror
      · exact hacc error herror
      · rcases Option.or_eq_some_iff.mp herror with hold | ⟨-, hnew⟩
        · exact hacc error hold
        · cases hnew
          exact id
      · rcases Option.or_eq_some_iff.mp herror with hold | ⟨-, hnew⟩
        · exact hacc error hold
        · cases hnew
          exact id

/-- **Fetching logs does not fail with such an error.** -/
theorem next_expected {error : Error}
    (h : watcher.next events keccak256 answers = (watcher', .error error)) : ¬ error.isUnexpected := by
  unfold next at h
  cases hstep : watcher.step with
  | idle =>
      rw [hstep] at h
      cases h
  | warping fromBlock toBlock pageSize fetched =>
      rw [hstep] at h
      dsimp only at h
      unfold warp at h
      split at h
      · next pageError hpage =>
          cases h
          unfold currentPage at hpage
          split at hpage
          · cases hpage
          · have havoids : Avoids Error.isUnexpected
                (watcher.fetchPage keccak256 answers fromBlock toBlock pageSize) :=
              avoids_bind (fetchLogs_expected _) fun logs _ => avoids_ok
            exact havoids _ hpage
      · unfold finishPage at h
        split at h
        · next hmissing =>
            cases h
            apply addTimestamps_expected (missingTimestamps _ _) (_, none) (by simp)
            exact congrArg Prod.snd hmissing
        · split at h
          · next decodeError hdecode =>
              cases h
              exact decodeAndSort_expected _ _ _ hdecode
          · cases h
  | block number hash timestamp logsBloom retries =>
      rw [hstep] at h
      dsimp only at h
      unfold block at h
      split at h
      · cases h
      · next blockError hblock =>
          cases h
          have havoids : Avoids Error.isUnexpected (do
              let logs ← watcher.fetchLogs keccak256 answers
                (blockFetch watcher.config hash logsBloom retries)
              decodeAndSort events logs (Table.empty.insert number timestamp)) :=
            avoids_bind (fetchLogs_expected _) fun logs _ => decodeAndSort_expected logs _
          exact havoids _ hblock

end EventWatcher

namespace Watcher

open BlockWatcher (early)

variable {E : Type} {events : Events E} {keccak256 : Bytes → B256} {call : Call}
  {prior watcher watcher' : Watcher} {outcome : Outcome E}

/-! ### Dropped calls -/

/-- The first watcher expects the pending block earlier, and is the same otherwise. -/
structure Earlier (prior watcher : Watcher) : Prop where
  events : prior.events = watcher.events
  blocks : ∃ t ≤ watcher.blocks.pending.timestampMs,
    counted prior.blocks = (counted watcher.blocks).early t

theorem Earlier.refl (watcher : Watcher) : Earlier watcher watcher :=
  ⟨rfl, _, Nat.le_refl _, rfl⟩

theorem Earlier.trans {first second third : Watcher} (h : Earlier first second)
    (h' : Earlier second third) : Earlier first third := by
  obtain ⟨t, hle, hblocks⟩ := h.blocks
  obtain ⟨t', hle', hblocks'⟩ := h'.blocks
  have htime : second.blocks.pending.timestampMs = t' :=
    congrArg (fun blocks => blocks.pending.timestampMs) hblocks'
  refine ⟨h.events.trans h'.events, t, by omega, ?_⟩
  rw [hblocks, hblocks']

/-- The blocks and the updates are the same. -/
theorem Earlier.sameBlocks (h : Earlier prior watcher) :
    BlockWatcher.SameBlocks prior.blocks watcher.blocks := by
  obtain ⟨t, -, hblocks⟩ := h.blocks
  exact ⟨(congrArg BlockWatcher.config hblocks).symm, (congrArg BlockWatcher.safe hblocks).symm,
    (congrArg BlockWatcher.recent hblocks).symm, (congrArg BlockWatcher.queue hblocks).symm,
    (congrArg (fun blocks => blocks.pending.number) hblocks).symm⟩

/-- The same within a call, where the requests are counted. -/
def Later (prior watcher : Watcher) : Prop :=
  prior.events = watcher.events ∧
    ∃ t ≤ watcher.blocks.pending.timestampMs, prior.blocks = watcher.blocks.early t

theorem Later.toEarlier (h : Later prior watcher) : Earlier prior watcher := by
  obtain ⟨hevents, t, hle, hblocks⟩ := h
  refine ⟨hevents, t, hle, ?_⟩
  rw [hblocks]
  rfl

theorem nextBlock_later (h : Later prior watcher)
    (hcall : nextBlock watcher call = (watcher', outcome))
    (hpanic : outcome ≠ .failed (.blocks .panicked)) :
    ∃ prior', nextBlock prior call = (prior', outcome) ∧ Later prior' watcher' := by
  obtain ⟨hevents, t, hle, hblocks⟩ := h
  unfold nextBlock at hcall ⊢
  rw [hevents, hblocks]
  rcases hnext : watcher.blocks.next call.node call.attempts with ⟨blocks', result⟩
  rw [hnext] at hcall
  have hresult : result ≠ .error .panicked := by
    rintro rfl
    cases hcall
    exact hpanic rfl
  obtain ⟨t', hle', hearly⟩ := BlockWatcher.next_early hnext hresult hle
  rw [hearly]
  cases result with
  | error error =>
      cases hcall
      exact ⟨_, rfl, rfl, t', hle', rfl⟩
  | ok update =>
      cases update with
      | none =>
          cases hcall
          exact ⟨_, rfl, rfl, t', hle', rfl⟩
      | some update =>
          dsimp only at hcall ⊢
          cases hupdate : watcher.events.onBlockUpdate update with
          | error error =>
              rw [hupdate] at hcall
              cases hcall
              exact ⟨_, rfl, rfl, t', hle', rfl⟩
          | ok events' =>
              rw [hupdate] at hcall
              cases hcall
              exact ⟨_, rfl, rfl, t', hle', rfl⟩

theorem recover_later {error : EventWatcher.Error} (h : Later prior watcher)
    (hcall : recover watcher call error = (watcher', outcome))
    (hpanic : outcome ≠ .failed (.blocks .panicked)) :
    ∃ prior', recover prior call error = (prior', outcome) ∧ Later prior' watcher' := by
  obtain ⟨hevents, t, hle, hblocks⟩ := h
  have hlast : prior.blocks.lastReported = watcher.blocks.lastReported := by rw [hblocks]; rfl
  unfold recover at hcall ⊢
  rw [hlast]
  split at hcall
  · next hdropped =>
      rw [if_pos hdropped]
      cases hcall
      exact ⟨_, rfl, hevents, t, hle, hblocks⟩
  · next hdropped =>
      rw [if_neg hdropped]
      rcases hvalid : watcher.blocks.revalidateLastBlock call.node with ⟨blocks', result⟩
      obtain ⟨t', hle', hearly⟩ := BlockWatcher.revalidate_early hvalid hle
      rw [hblocks, hearly]
      rw [hvalid] at hcall
      cases result with
      | error error =>
          cases hcall
          exact ⟨_, rfl, hevents, t', hle', rfl⟩
      | ok invalidated =>
          cases invalidated with
          | none =>
              cases hcall
              exact ⟨_, rfl, hevents, t', hle', rfl⟩
          | some invalidated =>
              dsimp only at hcall ⊢
              rw [hevents]
              cases hevent : watcher.events.onBlockInvalidated invalidated.hash with
              | error error =>
                  rw [hevent] at hcall
                  cases hcall
                  exact ⟨_, rfl, rfl, t', hle', rfl⟩
              | ok events' =>
                  rw [hevent] at hcall
                  have hlater : Later ⟨blocks'.early t', events'⟩ ⟨blocks', events'⟩ :=
                    ⟨rfl, t', hle', rfl⟩
                  exact nextBlock_later hlater hcall hpanic

/-- **A watcher that expects the pending block earlier does the same.** -/
theorem next_earlier (h : Earlier prior watcher)
    (hcall : next events keccak256 watcher call = (watcher', outcome))
    (hpanic : outcome ≠ .failed (.blocks .panicked)) :
    ∃ prior', next events keccak256 prior call = (prior', outcome) ∧
      Earlier prior' watcher' := by
  obtain ⟨hevents, t, hle, hblocks⟩ := h
  unfold next at hcall ⊢
  dsimp only at hcall ⊢
  rw [hevents]
  split at hcall
  · cases hcall
    exact ⟨_, rfl, Later.toEarlier ⟨rfl, t, hle, hblocks⟩⟩
  · rcases hlogs : watcher.events.next events keccak256 call.answers with ⟨events', result⟩
    rw [hlogs] at hcall
    have hlater : Later ⟨counted prior.blocks, events'⟩ ⟨counted watcher.blocks, events'⟩ :=
      ⟨rfl, t, hle, hblocks⟩
    cases result with
    | ok update =>
        cases update with
        | some update =>
            cases hcall
            exact ⟨_, rfl, hlater.toEarlier⟩
        | none =>
            obtain ⟨prior', hnext, hlater'⟩ := nextBlock_later hlater hcall hpanic
            exact ⟨prior', hnext, hlater'.toEarlier⟩
    | error error =>
        dsimp only at hcall ⊢
        split at hcall
        · next hmissing =>
            rw [if_pos hmissing]
            obtain ⟨prior', hnext, hlater'⟩ := recover_later hlater hcall hpanic
            exact ⟨prior', hnext, hlater'.toEarlier⟩
        · next hmissing =>
            rw [if_neg hmissing]
            cases hcall
            exact ⟨_, rfl, hlater.toEarlier⟩

/-- A call that is dropped while it waits for a block has changed nothing. -/
theorem nextBlock_dropped {pause : Pause}
    (hcall : nextBlock (E := E) watcher call = (watcher', .dropped pause)) :
    pause = .block ∧ watcher.blocks.queue = [] ∧ Earlier watcher watcher' := by
  unfold nextBlock at hcall
  split at hcall
  · cases hcall
  · next blocks hnext =>
      cases hcall
      unfold BlockWatcher.next at hnext
      split at hnext
      · cases hnext
      · next hqueue =>
          split at hnext
          · cases hnext
          · next polled hpoll =>
              cases hnext
              obtain ⟨t, hle, hpost⟩ := BlockWatcher.poll_none _ hpoll
              have htime := congrArg (fun blocks => blocks.pending.timestampMs) hpost
              refine ⟨rfl, hqueue, rfl, watcher.blocks.pending.timestampMs, ?_, ?_⟩
              · show watcher.blocks.pending.timestampMs ≤ blocks.pending.timestampMs
                rw [show blocks.pending.timestampMs = t from htime]
                exact hle
              · show counted watcher.blocks = (counted blocks).early _
                rw [hpost]
                rfl
          · next hreceive =>
              simp only [Prod.mk.injEq] at hnext
              obtain ⟨-, hmap⟩ := hnext
              rw [Except.map.eq_def] at hmap
              split at hmap
              · cases hmap
              · cases hmap
  · split at hcall
    · cases hcall
    · cases hcall

/-- The call, with every request about blocks failing and no one dropping it. -/
def Call.failing (call : Call) : Call :=
  { call with dropped := none, node := fun _ _ => .failed }

/-- If there is a block to look at, the failure of the request is the failure of the call. -/
theorem revalidate_failing {blocks : BlockWatcher} {last : BlockHeader}
    (hlast : blocks.lastReported = some last) :
    blocks.revalidateLastBlock (fun _ _ => .failed) =
      ({ blocks with requests := blocks.requests + 1 }, .error .rpc) := by
  unfold BlockWatcher.lastReported at hlast
  obtain ⟨number, hnumber, hlast⟩ := Option.bind_eq_some_iff.mp hlast
  obtain ⟨index, hindex, hlast⟩ := Option.bind_eq_some_iff.mp hlast
  unfold BlockWatcher.revalidateLastBlock
  rw [hnumber]
  dsimp only
  rw [hindex]
  dsimp only
  rw [hlast]
  rfl

/-- **What a dropped call can have done:** nothing, or it has counted a log query that failed and
was about to look at the last block again. -/
theorem next_dropped {pause : Pause}
    (hcall : next events keccak256 watcher call = (watcher', .dropped pause)) :
    (pause ≠ .revalidation ∧ Earlier watcher watcher') ∨
      pause = .revalidation ∧ watcher'.blocks = counted watcher.blocks ∧
        (∃ last, watcher.blocks.lastReported = some last) ∧
        (∃ error, watcher.events.next events keccak256 call.answers =
          (watcher'.events, .error error)) ∧
        ∃ failed, next events keccak256 watcher call.failing = (failed, .failed (.blocks .rpc)) ∧
          Earlier failed watcher' := by
  have hcounted : Earlier watcher { watcher with blocks := counted watcher.blocks } :=
    ⟨rfl, _, Nat.le_refl _, rfl⟩
  unfold next at hcall
  dsimp only at hcall
  split at hcall
  · next paused hpaused =>
      cases hcall
      obtain ⟨hdropped, hwaits⟩ := Option.filter_eq_some_iff.mp hpaused
      refine .inl ⟨?_, hcounted⟩
      rintro rfl
      cases hwaits
  · next hpaused =>
      rcases hlogs : watcher.events.next events keccak256 call.answers with ⟨events', result⟩
      rw [hlogs] at hcall
      cases result with
      | ok update =>
          cases update with
          | some update => cases hcall
          | none =>
              obtain ⟨rfl, -, hearlier⟩ := nextBlock_dropped hcall
              have hsame : events' = watcher.events := by
                cases hstep : watcher.events.step with
                | idle =>
                    rw [EventWatcher.next_idle hstep] at hlogs
                    cases hlogs
                    rfl
                | warping fromBlock toBlock pageSize fetched =>
                    rcases EventWatcher.next_warping hstep hlogs with ⟨_, _, _, hresult, -⟩ |
                      ⟨_, _, hresult, -⟩ <;> cases hresult
                | block number hash timestamp logsBloom retries =>
                    rcases EventWatcher.next_block hstep hlogs with ⟨_, hresult, -⟩ |
                      ⟨_, hresult, -⟩ <;> cases hresult
              rw [hsame] at hearlier
              exact .inl ⟨nofun, hcounted.trans hearlier⟩
      | error error =>
          dsimp only at hcall
          split at hcall
          · next hmissing =>
              unfold recover at hcall
              dsimp only at hcall
              split at hcall
              · next hdropped =>
                  cases hcall
                  obtain ⟨last, hlast⟩ := Option.isSome_iff_exists.mp hdropped.2
                  refine .inr ⟨rfl, rfl, ⟨last, hlast⟩, ⟨error, rfl⟩,
                    ⟨{ counted watcher.blocks with requests := 1 }, events'⟩, ?_, ?_⟩
                  · unfold next
                    dsimp only [Call.failing]
                    rw [Option.filter_none, hlogs]
                    dsimp only
                    rw [if_pos hmissing]
                    unfold recover
                    rw [if_neg (by simp)]
                    dsimp only
                    rw [revalidate_failing hlast]
                    rfl
                  · exact ⟨rfl, _, Nat.le_refl _, rfl⟩
              · rcases hvalid : (counted watcher.blocks).revalidateLastBlock call.node with
                  ⟨blocks', result⟩
                rw [hvalid] at hcall
                cases result with
                | error error => cases hcall
                | ok invalidated =>
                    cases invalidated with
                    | none => cases hcall
                    | some invalidated =>
                        dsimp only at hcall
                        split at hcall
                        · cases hcall
                        · -- an update is queued then, and there is no waiting
                          obtain ⟨-, hqueue, -⟩ := nextBlock_dropped hcall
                          rcases BlockWatcher.revalidate_cases hvalid with ⟨-, -, hnone⟩ |
                            ⟨init, last, rest, number, -, -, -, -, -, ⟨-, hother⟩ | ⟨⟨t, rfl⟩, -, -⟩⟩
                          · cases hnone
                          · rcases hother with hother | hother | hother <;> cases hother
                          · cases hqueue
          · cases hcall

/-! ### The block in progress -/

/-- What is queued ahead of the blocks of the window: blocks to take back, then at most one warp, up
to the first block of the window. -/
inductive Preamble (done : List BlockHeader) : List BlockUpdate → Prop
  | nil : Preamble done []
  | uncle (number : Nat) {updates : List BlockUpdate} (h : Preamble done updates) :
      Preamble done (.uncle number :: updates)
  | warp (first last : Nat) (h : done = []) : Preamble done [.warp first last]

/-- The end of the window is queued; `done` is the beginning. -/
structure Behind (blocks : BlockWatcher) (preamble : List BlockUpdate) (done rest : List BlockHeader) :
    Prop where
  recent : blocks.recent = done ++ rest
  queue : blocks.queue = preamble ++ rest.map BlockHeader.update
  preamble : Preamble done preamble

/-- Logs are fetched for what comes right before the queued blocks. -/
def Agrees (preamble : List BlockUpdate) (done : List BlockHeader) : EventWatcher.Step → Prop
  | .idle => True
  | .warping _ _ _ _ => preamble = [] ∧ done = []
  | .block _ hash _ _ _ => preamble = [] ∧ ∀ last ∈ done.getLast?, last.hash = hash

/-- The two watchers agree on the block in progress. -/
structure InStep (config : BlockWatcher.Config) (watcher : Watcher) : Prop where
  window : BlockWatcher.Window config watcher.blocks
  agrees : ∃ preamble done rest, Behind watcher.blocks preamble done rest ∧
    Agrees preamble done watcher.events.step

section InStep

variable {config : BlockWatcher.Config} {blocks blocks' : BlockWatcher} {events' : EventWatcher}
  {preamble : List BlockUpdate} {done rest : List BlockHeader} {node : Node}

open BlockWatcher (SameBlocks Window Moves Numbered)

theorem Behind.same (h : Behind blocks preamble done rest) (hsame : SameBlocks blocks blocks') :
    Behind blocks' preamble done rest :=
  ⟨hsame.recent.trans h.recent, hsame.queue.trans h.queue, h.preamble⟩

theorem InStep.same (h : InStep config watcher) (hsame : SameBlocks watcher.blocks blocks') :
    InStep config { watcher with blocks := blocks' } := by
  obtain ⟨preamble, done, rest, hbehind, hagrees⟩ := h.agrees
  have hmoves : Moves (fun _ _ => .failed) watcher.blocks blocks' none := .idle hsame
  exact ⟨h.window.moves hmoves, preamble, done, rest, hbehind.same hsame, hagrees⟩

/-- The block that would be looked at again is the last one that is not queued. -/
theorem Behind.lastReported (h : Behind blocks [] done rest) (hwindow : Window config blocks)
    {last : BlockHeader} (hlast : blocks.lastReported = some last) : done.getLast? = some last := by
  unfold BlockWatcher.lastReported at hlast
  obtain ⟨number, hnumber, hlast⟩ := Option.bind_eq_some_iff.mp hlast
  obtain ⟨index, hindex, hlast⟩ := Option.bind_eq_some_iff.mp hlast
  obtain ⟨init, found, after, hrecent, hlength, hfound, hafter⟩ := BlockWatcher.rposition_some _ hindex
  have hget : blocks.recent[index]? = some found := by
    rw [hrecent, ← hlength]
    simp
  rw [hget] at hlast
  cases hlast
  rw [h.queue, List.nil_append] at hnumber
  rw [BlockWatcher.done_eq hwindow.linked h.recent hrecent hnumber hfound hafter,
    List.getLast?_concat]

/-- Only the block whose logs are fetched is looked at again. -/
theorem InStep.lastReported (h : InStep config watcher) (hstep : watcher.events.step ≠ .idle)
    {last : BlockHeader} (hlast : watcher.blocks.lastReported = some last) :
    ∃ number timestamp logsBloom retries,
      watcher.events.step = .block number last.hash timestamp logsBloom retries := by
  obtain ⟨preamble, done, rest, hbehind, hagrees⟩ := h.agrees
  cases hfetch : watcher.events.step with
  | idle => exact absurd hfetch hstep
  | warping fromBlock toBlock pageSize fetched =>
      rw [hfetch] at hagrees
      obtain ⟨rfl, rfl⟩ := hagrees
      cases hbehind.lastReported h.window hlast
  | block number hash timestamp logsBloom retries =>
      rw [hfetch] at hagrees
      obtain ⟨rfl, hhash⟩ := hagrees
      rw [hhash last (hbehind.lastReported h.window hlast)]
      exact ⟨_, _, _, _, rfl⟩

/-- A reported update is the one whose logs are fetched next. -/
theorem Behind.moves {update : BlockUpdate} {events : EventWatcher}
    (h : Behind blocks preamble done rest) (hmoves : Moves node blocks blocks' (some update))
    (hevents : events.onBlockUpdate update = .ok events') :
    ∃ preamble' done' rest', Behind blocks' preamble' done' rest' ∧
      Agrees preamble' done' events'.step := by
  obtain ⟨-, -, hevents⟩ := Fallible.bind_eq_ok.mp hevents
  cases Fallible.pure_eq_ok.mp hevents
  cases hmoves with
  | dequeue _ queue hqueue hpost =>
      rw [hpost]
      have hsplit := h.queue
      rw [hqueue] at hsplit
      cases h.preamble with
      | nil =>
          cases rest with
          | nil => cases hsplit
          | cons block rest =>
              rw [List.nil_append, List.map_cons, List.cons.injEq] at hsplit
              obtain ⟨rfl, rfl⟩ := hsplit
              refine ⟨[], done ++ [block], rest, ⟨?_, rfl, .nil⟩, rfl, ?_⟩
              · show blocks.recent = _
                rw [h.recent, List.append_assoc]
                rfl
              · rw [List.getLast?_concat]
                intro last hlast
                cases hlast
                rfl
      | uncle number hrest =>
          rw [List.cons_append, List.cons.injEq] at hsplit
          obtain ⟨rfl, rfl⟩ := hsplit
          exact ⟨_, done, rest, ⟨h.recent, rfl, hrest⟩, trivial⟩
      | warp first last hdone =>
          rw [List.cons_append, List.cons.injEq] at hsplit
          obtain ⟨rfl, rfl⟩ := hsplit
          exact ⟨[], done, rest, ⟨h.recent, rfl, .nil⟩, rfl, hdone⟩
  | uncle init last hqueue hrecent hconfig hsafe hrecent' hqueue' hpending =>
      exact ⟨[], init, [], ⟨by rw [hrecent', List.append_nil], hqueue', .nil⟩, trivial⟩
  | new block hqueue hnumber hanswered hparent hconfig hwindow hqueue' hpending =>
      refine ⟨[], blocks'.recent, [], ⟨(List.append_nil _).symm, hqueue', .nil⟩, rfl, ?_⟩
      intro last hlast
      rcases hwindow with ⟨hrecent, -, -⟩ | ⟨evicted, hrecent, -⟩
      · rw [← hrecent, List.getLast?_concat] at hlast
        cases hlast
        rfl
      · -- the block is evicted itself if the window has no room for it
        have hall : (evicted :: blocks'.recent).getLast? = some last := by
          rw [List.getLast?_cons, hlast]
          rfl
        rw [← hrecent, List.getLast?_concat] at hall
        cases hall
        rfl

/-- A call of the block watcher that does not panic is one of its steps. -/
theorem step_of_next {attempts : Nat} {result : Except BlockWatcher.Error (Option BlockUpdate)}
    (h : blocks.next node attempts = (blocks', result)) (hresult : result ≠ .error .panicked) :
    ∃ output, BlockWatcher.step node (some blocks) (.next attempts) = (some blocks', output) ∧
      output.reported = result.toOption.join := by
  unfold BlockWatcher.step
  dsimp only
  rw [h]
  cases result with
  | ok update =>
      cases update with
      | none => exact ⟨_, rfl, rfl⟩
      | some update => exact ⟨_, rfl, rfl⟩
  | error error =>
      refine ⟨.failed error, ?_, rfl⟩
      cases error with
      | panicked => exact absurd rfl hresult
      | rpc => rfl
      | unknownChainTimings chainId => rfl
      | missingBlock id => rfl
      | exceededMaxReorgDepth depth => rfl

/-- What is being fetched after an outcome: the block or warp reported last, until its logs are
complete or it is taken back. -/
def advance (target : Option BlockUpdate) : Outcome E → Option BlockUpdate
  | .update (.block (.uncle _)) => none
  | .update (.block update) => some update
  | .update (.logs page) =>
      match target with
      | some (.warp _ last) =>
          if page.blocks.last = last then none else some (.warp (page.blocks.last + 1) last)
      | _ => none
  | _ => target

/-- Whether one watcher refused what the other told it. -/
def Outcome.isUnexpected : Outcome E → Prop
  | .failed (.events error) => error.isUnexpected
  | _ => False

/-- A call keeps the watchers in step, and what is fetched follows from what it returned. -/
structure StepsTo (config : BlockWatcher.Config) (target : Option BlockUpdate) (watcher' : Watcher)
    (outcome : Outcome E) : Prop where
  inStep : InStep config watcher'
  target_eq : watcher'.events.step.target = advance target outcome
  expected : ¬ outcome.isUnexpected

theorem nextBlock_inStep (h : InStep config watcher) (hstep : watcher.events.step = .idle)
    (hnode : Numbered call.node) (hcall : nextBlock watcher call = (watcher', outcome))
    (hpanic : outcome ≠ .failed (.blocks .panicked)) : StepsTo config none watcher' outcome := by
  have hidle : watcher.events.step.target = none := by rw [hstep]; rfl
  unfold nextBlock at hcall
  rcases hnext : watcher.blocks.next call.node call.attempts with ⟨blocks', result⟩
  rw [hnext] at hcall
  have hresult : result ≠ .error .panicked := by
    rintro rfl
    cases hcall
    exact hpanic rfl
  obtain ⟨output, houtput, hreported⟩ := step_of_next hnext hresult
  cases result with
  | error error =>
      cases hcall
      exact ⟨h.same (BlockWatcher.next_quiet hnode houtput hreported), hidle, id⟩
  | ok reported =>
      cases reported with
      | none =>
          cases hcall
          exact ⟨h.same (BlockWatcher.next_quiet hnode houtput hreported), hidle, id⟩
      | some update =>
          have hmoves := BlockWatcher.step_moves hnode houtput
          rw [hreported] at hmoves
          have hmoves : Moves call.node watcher.blocks blocks' (some update) := hmoves
          dsimp only at hcall
          cases hupdate : watcher.events.onBlockUpdate update with
          | error error =>
              unfold EventWatcher.onBlockUpdate at hupdate
              rw [hstep] at hupdate
              cases hupdate
          | ok events' =>
              rw [hupdate] at hcall
              cases hcall
              obtain ⟨preamble, done, rest, hbehind, -⟩ := h.agrees
              refine ⟨⟨h.window.moves hmoves, hbehind.moves hmoves hupdate⟩, ?_, id⟩
              obtain ⟨-, -, hevents⟩ := Fallible.bind_eq_ok.mp hupdate
              cases Fallible.pure_eq_ok.mp hevents
              cases update with
              | warp first last => rfl
              | uncle number => rfl
              | new number hash timestamp logsBloom => rfl

theorem recover_inStep {error : EventWatcher.Error} (h : InStep config watcher)
    (hstep : watcher.events.step ≠ .idle) (hnode : Numbered call.node) (herror : ¬ error.isUnexpected)
    (hcall : recover watcher call error = (watcher', outcome))
    (hpanic : outcome ≠ .failed (.blocks .panicked)) :
    StepsTo config watcher.events.step.target watcher' outcome := by
  unfold recover at hcall
  split at hcall
  · cases hcall
    exact ⟨h, rfl, id⟩
  · rcases hvalid : watcher.blocks.revalidateLastBlock call.node with ⟨blocks', result⟩
    rw [hvalid] at hcall
    rcases BlockWatcher.revalidate_cases hvalid with ⟨-, rfl, rfl⟩ |
      ⟨init, last, rest, number, hnumber, hrecent, hfound, hrest, hlast, ⟨rfl, hresult⟩ | ⟨⟨t, rfl⟩, rfl, -⟩⟩
    · cases hcall
      exact ⟨h, rfl, herror⟩
    · have hsame : InStep config
          { watcher with blocks := { watcher.blocks with requests := watcher.blocks.requests + 1 } } :=
        h.same ⟨rfl, rfl, rfl, rfl, rfl⟩
      rcases hresult with rfl | rfl | rfl
      · cases hcall
        exact ⟨hsame, rfl, herror⟩
      · cases hcall
        exact ⟨hsame, rfl, id⟩
      · cases hcall
        exact absurd rfl hpanic
    · -- it is the block in progress that was replaced
      obtain ⟨number', timestamp, logsBloom, retries, hblock⟩ := h.lastReported hstep hlast
      have hinvalidated : watcher.events.onBlockInvalidated last.hash =
          .ok { watcher.events with step := .idle } := by
        unfold EventWatcher.onBlockInvalidated
        rw [hblock]
        exact if_pos rfl
      dsimp only at hcall
      rw [hinvalidated] at hcall
      have hmoves : Moves call.node watcher.blocks
          { watcher.blocks with
              requests := watcher.blocks.requests + 1
              recent := init
              pending := ⟨last.number, t⟩
              queue := [.uncle last.number] } none :=
        .invalidated init rest last number hnumber hrecent hfound hrest rfl rfl rfl rfl rfl
      have hinStep : InStep config
          ⟨{ watcher.blocks with
              requests := watcher.blocks.requests + 1
              recent := init
              pending := ⟨last.number, t⟩
              queue := [.uncle last.number] }, { watcher.events with step := .idle }⟩ :=
        ⟨h.window.moves hmoves, [.uncle last.number], init, [],
          ⟨(List.append_nil _).symm, rfl, .uncle _ .nil⟩, trivial⟩
      obtain ⟨hinStep', htarget, hexpected⟩ := nextBlock_inStep hinStep rfl hnode hcall hpanic
      refine ⟨hinStep', ?_, hexpected⟩
      -- the queue holds nothing but the block to take back
      cases hcall
      rfl

/-- Fetching logs has failed, and what is fetched stays the same. -/
theorem failed_inStep {error : EventWatcher.Error} (h : InStep config watcher)
    (hstep : watcher.events.step ≠ .idle) (hnode : Numbered call.node) (herror : ¬ error.isUnexpected)
    (hcall : (if error.isResourceNotFound then recover watcher call error
      else (watcher, .failed (.events error))) = (watcher', outcome))
    (hpanic : outcome ≠ .failed (.blocks .panicked)) :
    StepsTo config watcher.events.step.target watcher' outcome := by
  split at hcall
  · exact recover_inStep h hstep hnode herror hcall hpanic
  · cases hcall
    exact ⟨h, rfl, herror⟩

/-- **A call keeps the watchers in step.** -/
theorem next_inStep (h : InStep config watcher) (hnode : Numbered call.node)
    (hcall : next events keccak256 watcher call = (watcher', outcome))
    (hpanic : outcome ≠ .failed (.blocks .panicked)) :
    StepsTo config watcher.events.step.target watcher' outcome := by
  have hcounted : InStep config { watcher with blocks := counted watcher.blocks } :=
    h.same ⟨rfl, rfl, rfl, rfl, rfl⟩
  unfold next at hcall
  dsimp only at hcall
  split at hcall
  · cases hcall
    exact ⟨hcounted, rfl, id⟩
  · rcases hlogs : watcher.events.next events keccak256 call.answers with ⟨events', result⟩
    rw [hlogs] at hcall
    obtain ⟨preamble, done, rest, hbehind, hagrees⟩ := hcounted.agrees
    cases hstep : watcher.events.step with
    | idle =>
        rw [EventWatcher.next_idle hstep] at hlogs
        cases hlogs
        exact nextBlock_inStep hcounted hstep hnode hcall hpanic
    | warping fromBlock toBlock pageSize fetched =>
        have hagrees : Agrees preamble done (.warping fromBlock toBlock pageSize fetched) := hstep ▸ hagrees
        rcases EventWatcher.next_warping hstep hlogs with ⟨error, pageSize', fetched', rfl, rfl⟩ |
          ⟨last, logs, rfl, rfl⟩
        · have hinStep : InStep config ⟨counted watcher.blocks,
              { watcher.events with step := .warping fromBlock toBlock pageSize' fetched' }⟩ :=
            ⟨hcounted.window, preamble, done, rest, hbehind, hagrees⟩
          exact failed_inStep hinStep nofun hnode (EventWatcher.next_expected hlogs) hcall hpanic
        · cases hcall
          refine ⟨⟨hcounted.window, preamble, done, rest, hbehind, ?_⟩, ?_, id⟩
          · show Agrees preamble done (if last = toBlock then _ else _)
            split
            · trivial
            · exact hagrees
          · show (if last = toBlock then EventWatcher.Step.idle else _).target =
              if last = toBlock then none else _
            split
            · rfl
            · rfl
    | block number hash timestamp logsBloom retries =>
        have hagrees : Agrees preamble done (.block number hash timestamp logsBloom retries) :=
          hstep ▸ hagrees
        rcases EventWatcher.next_block hstep hlogs with ⟨error, rfl, rfl⟩ | ⟨logs, rfl, rfl⟩
        · have hinStep : InStep config ⟨counted watcher.blocks,
              { watcher.events with step := .block number hash timestamp logsBloom (retries + 1) }⟩ :=
            ⟨hcounted.window, preamble, done, rest, hbehind, hagrees⟩
          exact failed_inStep hinStep nofun hnode (EventWatcher.next_expected hlogs) hcall hpanic
        · cases hcall
          exact ⟨⟨hcounted.window, preamble, done, rest, hbehind, trivial⟩, rfl, id⟩

/-! ### The start -/

/-- At the start the end of the window is queued, after a warp only if it is all of the window. -/
theorem behind_start {timings : BlockWatcher.Timings} {indexed : Option BlockStatus} {fuel : Nat}
    (hnode : Numbered node) (h : BlockWatcher.start node config timings indexed fuel = some (.ok blocks)) :
    Window config blocks ∧ ∃ preamble done rest, Behind blocks preamble done rest := by
  obtain ⟨hwindow, -, -, hqueue⟩ := BlockWatcher.start_ok hnode h
  refine ⟨hwindow, ?_⟩
  cases hboundary : BlockWatcher.boundaryOf config indexed with
  | none =>
      cases indexed with
      | some indexed => cases hboundary
      | none =>
          have hstart : config.startBlock = none := hboundary
          have hall : blocks.recent.filter (BlockWatcher.isUnprocessed config none) = blocks.recent := by
            rw [List.filter_eq_self]
            intro block _
            simp [BlockWatcher.isUnprocessed, hstart]
          rw [BlockWatcher.initialUpdates, hstart, hall] at hqueue
          exact ⟨[], [], blocks.recent, rfl, hqueue, .nil⟩
  | some boundary =>
      by_cases hfits : indexed.isSome → boundary < 2 ^ 64
      · obtain ⟨uncles, huncles, hsplit⟩ := BlockWatcher.start_queue hboundary hfits
          blocks.safe.number blocks.recent
        rw [hsplit, ← List.append_assoc] at hqueue
        have hsuffix : ∃ done, blocks.recent =
            done ++ blocks.recent.filter fun block => boundary ≤ block.number :=
          hwindow.linked.filter_suffix
        obtain ⟨done, hdone⟩ := hsuffix
        refine ⟨_, done, _, hdone, hqueue, ?_⟩
        have hwarp : Preamble done
            (if boundary ≤ blocks.safe.number then [.warp boundary blocks.safe.number] else []) := by
          split
          · next hle =>
              rw [hwindow.linked.filter_all (Nat.le_succ_of_le hle)] at hdone
              exact .warp _ _ (List.self_eq_append_left.mp hdone)
          · exact .nil
        rcases huncles with rfl | rfl
        · exact hwarp
        · exact .uncle _ hwarp
      · -- the index ends with the last block there can be
        cases indexed with
        | none => exact absurd (fun hsome => absurd hsome Bool.false_ne_true) hfits
        | some indexed =>
            have hsafe : indexed.safe + 1 = boundary := Option.some.inj hboundary
            have hover : ¬ boundary < 2 ^ 64 := fun hlt => hfits fun _ => hlt
            have hnone : blocks.recent.filter (BlockWatcher.isUnprocessed config (some indexed)) = [] := by
              rw [List.filter_eq_nil_iff]
              intro block _
              rw [BlockWatcher.isUnprocessed, hsafe, decide_eq_false hover]
              exact Bool.false_ne_true
            rw [BlockWatcher.initialUpdates, hsafe, if_neg hover, hnone] at hqueue
            exact ⟨[], blocks.recent, [], (List.append_nil _).symm, hqueue, .nil⟩

/-- **The watchers start in step.** -/
theorem inStep_new {chainId : Nat} {indexed : Option BlockStatus} {fuel : Nat}
    (hnode : Numbered node)
    (h : BlockWatcher.new node config chainId indexed fuel = some (.ok blocks))
    (eventConfig : EventWatcher.Config) (addresses : List Address) :
    InStep config (new events blocks eventConfig addresses) := by
  unfold BlockWatcher.new at h
  split at h
  · cases h
  · obtain ⟨hwindow, preamble, done, rest, hbehind⟩ := behind_start hnode h
    exact ⟨hwindow, preamble, done, rest, hbehind, trivial⟩

/-! ### Every run -/

/-- What a call that was dropped leaves of the watcher: everything, but the retries of a block whose
logs were not found are counted. -/
structure Kept (pause : Pause) (watcher watcher' : Watcher) : Prop where
  blocks : SameBlocks watcher.blocks watcher'.blocks
  events : pause ≠ .revalidation → watcher'.events = watcher.events
  retried : pause = .revalidation → ∃ number hash timestamp logsBloom retries,
    watcher.events.step = .block number hash timestamp logsBloom retries ∧
      watcher'.events =
        { watcher.events with step := .block number hash timestamp logsBloom (retries + 1) }

/-- **A dropped call leaves the watcher as it was**, up to the retries. -/
theorem InStep.kept (h : InStep config watcher) {pause : Pause}
    (hcall : next events keccak256 watcher call = (watcher', .dropped pause)) :
    Kept pause watcher watcher' := by
  rcases next_dropped hcall with ⟨hpause, hearlier⟩ |
    ⟨hpause, hblocks, ⟨last, hlast⟩, ⟨error, hlogs⟩, -⟩
  · exact ⟨hearlier.sameBlocks, fun _ => hearlier.events.symm, fun heq => absurd heq hpause⟩
  · refine ⟨by rw [hblocks]; exact ⟨rfl, rfl, rfl, rfl, rfl⟩, fun hne => absurd hpause hne, fun _ => ?_⟩
    have hstep : watcher.events.step ≠ .idle := by
      intro hidle
      rw [EventWatcher.next_idle hidle] at hlogs
      cases (Prod.mk.inj hlogs).2
    obtain ⟨number, timestamp, logsBloom, retries, hblock⟩ := h.lastReported hstep hlast
    rcases EventWatcher.next_block hblock hlogs with ⟨_, -, hevents⟩ | ⟨_, hok, -⟩
    · exact ⟨_, _, _, _, _, hblock, hevents⟩
    · cases hok

/-- A call of a run. -/
abbrev CallStep (E : Type) := Trace.Step (Option Watcher) Call (Outcome E)

/-- The update an outcome carries. -/
def Outcome.returned : Outcome E → Option (Update E)
  | .update report => some report
  | _ => none

/-- The updates a run has returned. -/
def updatesOf (history : List (CallStep E)) : List (Update E) :=
  history.filterMap fun st => st.out.returned

/-- The calls of a run without those that were dropped.  A call that was dropped while it looked at
the last block again counts as one that failed there. -/
def undropped (history : List (CallStep E)) : List Call :=
  history.filterMap fun st =>
    match st.out with
    | .dropped .revalidation => some st.input.failing
    | .dropped _ => none
    | _ => some st.input

/-- The last block or warp returned whose logs are not complete, unless it was taken back. -/
def inProgress (history : List (CallStep E)) : Option BlockUpdate :=
  history.foldl (fun target st => advance target st.out) none

theorem step_eq (hcall : next events keccak256 watcher call = (watcher', outcome))
    (hpanic : outcome ≠ .failed (.blocks .panicked)) :
    step events keccak256 (some watcher) call = (some watcher', outcome) := by
  unfold step
  dsimp only
  rw [hcall]
  split
  · next heq =>
      cases heq
      exact absurd rfl hpanic
  · next heq =>
      cases heq
      rfl

/-- A watcher that is gone does not come back. -/
theorem final_none (calls : List Call) :
    Trace.final (step events keccak256) none calls = none := by
  induction calls with
  | nil => rfl
  | cons call calls ih => exact ih

/-- The first call of a run that ends well. -/
theorem final_cons_some {calls : List Call} {last : Watcher}
    (h : Trace.final (step events keccak256) (some watcher) (call :: calls) = some last) :
    ∃ watcher' outcome, next events keccak256 watcher call = (watcher', outcome) ∧
      outcome ≠ .failed (.blocks .panicked) ∧
      step events keccak256 (some watcher) call = (some watcher', outcome) ∧
      Trace.final (step events keccak256) (some watcher') calls = some last := by
  rcases hcall : next events keccak256 watcher call with ⟨watcher', outcome⟩
  rw [Trace.final_cons] at h
  by_cases hpanic : outcome = .failed (.blocks .panicked)
  · have hgone : (step events keccak256 (some watcher) call).1 = none := by
      unfold step
      dsimp only
      rw [hcall, hpanic]
    rw [hgone, final_none] at h
    cases h
  · have hstep := step_eq hcall hpanic
    rw [hstep] at h
    exact ⟨watcher', outcome, rfl, hpanic, hstep, h⟩

/-- **Dropped calls do not show in the updates.** -/
theorem updatesOf_undropped (calls : List Call) : ∀ {prior watcher last : Watcher},
    Earlier prior watcher →
      Trace.final (step events keccak256) (some watcher) calls = some last →
        updatesOf (Trace.trace (step events keccak256) (some prior)
            (undropped (Trace.trace (step events keccak256) (some watcher) calls))) =
          updatesOf (Trace.trace (step events keccak256) (some watcher) calls) := by
  induction calls with
  | nil => intro prior watcher last _ _; rfl
  | cons call calls ih =>
      intro prior watcher last hearlier hlast
      obtain ⟨watcher', outcome, hcall, hpanic, hstep, hrest⟩ := final_cons_some hlast
      rw [Trace.trace_cons]
      have hpost : Trace.take (step events keccak256) (some watcher) call =
          ⟨some watcher, call, outcome, some watcher'⟩ := by
        unfold Trace.take
        rw [hstep]
      have hstate : (step events keccak256 (some watcher) call).1 = some watcher' := by rw [hstep]
      rw [hpost, hstate]
      -- a call that stays in the run does the same there
      have hkept : ∀ call' outcome' watcher'', next events keccak256 watcher call' = (watcher'', outcome') →
          outcome' ≠ .failed (.blocks .panicked) → Earlier watcher'' watcher' →
          outcome'.returned = outcome.returned →
          updatesOf (Trace.trace (step events keccak256) (some prior)
            (call' :: undropped (Trace.trace (step events keccak256) (some watcher') calls))) =
          updatesOf (⟨some watcher, call, outcome, some watcher'⟩ ::
            Trace.trace (step events keccak256) (some watcher') calls) := by
        intro call' outcome' watcher'' hcall' hpanic' hearlier' hreturned
        obtain ⟨prior', hprior, hearlier''⟩ := next_earlier hearlier hcall' hpanic'
        have hsame := ih (hearlier''.trans hearlier') hrest
        rw [Trace.trace_cons, Trace.take, step_eq hprior hpanic']
        unfold updatesOf at hsame ⊢
        rw [List.filterMap_cons, List.filterMap_cons, hreturned, hsame]
      cases outcome with
      | update update => exact hkept call _ _ hcall hpanic (.refl _) rfl
      | failed error => exact hkept call _ _ hcall hpanic (.refl _) rfl
      | stopped => exact hkept call _ _ hcall hpanic (.refl _) rfl
      | dropped pause =>
          rcases next_dropped hcall with ⟨hpause, hlater⟩ | ⟨rfl, -, -, -, failed, hfailed, hlater⟩
          · have hleft : undropped ((⟨some watcher, call, .dropped pause, some watcher'⟩ : CallStep E) ::
                Trace.trace (step events keccak256) (some watcher') calls) =
                  undropped (Trace.trace (step events keccak256) (some watcher') calls) := by
              cases pause with
              | revalidation => exact absurd rfl hpause
              | logs => rfl
              | headers => rfl
              | block => rfl
            rw [hleft]
            refine (ih (hearlier.trans hlater) hrest).trans ?_
            rfl
          · exact hkept call.failing _ failed hfailed (by simp) hlater rfl

/-- **Every call of a run keeps the watchers in step.** -/
theorem run_inStep (calls : List Call) (hnodes : ∀ call ∈ calls, Numbered call.node) :
    ∀ {watcher last : Watcher}, InStep config watcher →
      Trace.final (step events keccak256) (some watcher) calls = some last →
        (∀ st ∈ Trace.trace (step events keccak256) (some watcher) calls, ¬ st.out.isUnexpected ∧
          ∀ pause, st.out = .dropped pause →
            ∃ pre post, st.pre = some pre ∧ st.post = some post ∧ Kept pause pre post) ∧
        last.events.step.target =
          (Trace.trace (step events keccak256) (some watcher) calls).foldl
            (fun target st => advance target st.out) watcher.events.step.target := by
  induction calls with
  | nil =>
      intro watcher last _ hlast
      cases hlast
      exact ⟨by simp, rfl⟩
  | cons call calls ih =>
      intro watcher last hinStep hlast
      obtain ⟨watcher', outcome, hcall, hpanic, hstep, hrest⟩ := final_cons_some hlast
      obtain ⟨hinStep', htarget, hexpected⟩ :=
        next_inStep hinStep (hnodes call (List.mem_cons_self ..)) hcall hpanic
      obtain ⟨hsteps, hlastTarget⟩ := ih (fun call' hmem => hnodes call' (List.mem_cons_of_mem _ hmem))
        hinStep' hrest
      rw [Trace.trace_cons, Trace.take, hstep]
      constructor
      · intro st hst
        rcases List.mem_cons.mp hst with rfl | hst
        · refine ⟨hexpected, fun pause hdropped => ⟨watcher, watcher', rfl, rfl, ?_⟩⟩
          have hdropped : outcome = .dropped pause := hdropped
          rw [hdropped] at hcall
          exact hinStep.kept hcall
        · exact hsteps st hst
      · rw [List.foldl_cons, hlastTarget, htarget]

end InStep

/--
**Calls may be dropped anywhere.**  A dropped call leaves the queue, the window, the safe block, the
pending number and the event watcher as they were, except that the retries of a new block whose logs
were not found are counted.  The updates of a run are those of the run without the dropped calls,
where a call that was dropped while it looked at such a block again counts as failed there.  Logs are
fetched for exactly the last block or warp that was returned and is neither complete nor taken back,
and neither watcher refuses what the other one tells it.
-/
theorem dropped_calls_leave_no_trace (events : Events E) (keccak256 : Bytes → B256) (node : Node)
    (hnode : BlockWatcher.Numbered node) (config : BlockWatcher.Config) (chainId : Nat)
    (indexed : Option BlockStatus) (fuel : Nat) (blocks : BlockWatcher)
    (hblocks : BlockWatcher.new node config chainId indexed fuel = some (.ok blocks))
    (eventConfig : EventWatcher.Config) (addresses : List Address) (calls : List Call)
    (hnodes : ∀ call ∈ calls, BlockWatcher.Numbered call.node) (last : Watcher)
    (hlast : Trace.final (step events keccak256) (some (new events blocks eventConfig addresses)) calls =
      some last) :
    let started := some (new events blocks eventConfig addresses)
    let history := Trace.trace (step events keccak256) started calls
    (∀ st ∈ history, ∀ pause, st.out = .dropped pause →
      ∃ pre post, st.pre = some pre ∧ st.post = some post ∧ Kept pause pre post) ∧
    updatesOf history = updatesOf (Trace.trace (step events keccak256) started (undropped history)) ∧
    last.events.step.target = inProgress history ∧
    ∀ st ∈ history, st.out ≠ .failed (.events .unexpectedBlockUpdate) ∧
      st.out ≠ .failed (.events .unexpectedBlockInvalidation) := by
  intro started history
  have hinStep : InStep config (new events blocks eventConfig addresses) :=
    inStep_new hnode hblocks eventConfig addresses
  obtain ⟨hsteps, htarget⟩ := run_inStep calls hnodes hinStep hlast
  refine ⟨fun st hst => (hsteps st hst).2, (updatesOf_undropped calls (.refl _) hlast).symm, htarget, ?_⟩
  intro st hst
  have hexpected := (hsteps st hst).1
  constructor
  · intro hout
    rw [hout] at hexpected
    exact hexpected trivial
  · intro hout
    rw [hout] at hexpected
    exact hexpected trivial

/-! ### A query that fails before the call is dropped

The node serves block 2, has lost it for the one query of the second call, and answers queries for
one event only afterwards.
-/

private def twoEvents : Events Unit where
  topics := [1, 2]
  decodeLog _ _ := none

private def singleQueryOnce : EventWatcher.Config :=
  { EventWatcher.Config.default with blockSingleQueryRetryCount := ⟨1, Nat.one_pos⟩ }

private def notFound : EventWatcher.Answers where
  getLogs _ _ := .error ⟨some (-32001)⟩
  getBlock _ := .missing
  firstFailure := 0

private def oneEventAtATime : EventWatcher.Answers where
  getLogs _ filter := if filter.topics.length = 1 then .ok [] else .error ⟨none⟩
  getBlock _ := .missing
  firstFailure := 0

private def atBlockTwo : Watcher :=
  new twoEvents (BlockWatcher.startedAt 2 [.new 2 0xA2 2 0]) singleQueryOnce [0xC0]

private def blockCall : Call := ⟨notFound, BlockWatcher.forkNode 4, 1, none⟩

private def droppedCall : Call := ⟨notFound, BlockWatcher.forkNode 4, 1, some .revalidation⟩

private def logsCall : Call := ⟨oneEventAtATime, BlockWatcher.forkNode 4, 1, none⟩

/-- **A call that was dropped does show.**  It has counted the query that failed, so that the next call
asks for one event at a time and finds the logs; without the dropped call it does not. -/
theorem dropped_call_is_counted :
    let history := Trace.trace (step twoEvents (fun _ => 0)) (some atBlockTwo)
      [blockCall, droppedCall, logsCall]
    BlockWatcher.new (BlockWatcher.forkNode 4) (BlockWatcher.startingAt 2) 100 none 4 =
        some (.ok atBlockTwo.blocks) ∧
      (∃ st ∈ history, st.out = .dropped .revalidation ∧
        st.pre.map (·.events.step) = some (.block 2 0xA2 2 0 0) ∧
        st.post.map (·.events.step) = some (.block 2 0xA2 2 0 1)) ∧
      updatesOf history = [.block (.new 2 0xA2 2 0), .logs ⟨⟨2, 2⟩, []⟩] ∧
      updatesOf (Trace.trace (step twoEvents (fun _ => 0)) (some atBlockTwo) [blockCall, logsCall]) =
        [.block (.new 2 0xA2 2 0)] := by
  decide +kernel

private theorem forkCalls_numbered :
    ∀ call ∈ [blockCall, droppedCall, logsCall], BlockWatcher.Numbered call.node := by
  intro call hcall
  simp only [List.mem_cons, List.not_mem_nil, or_false] at hcall
  rcases hcall with rfl | rfl | rfl <;> exact BlockWatcher.forkNode_numbered 4

/-- The run of the three calls is the one in which the second call has failed. -/
theorem dropped_call_has_failed :
    let history := Trace.trace (step twoEvents (fun _ => 0)) (some atBlockTwo)
      [blockCall, droppedCall, logsCall]
    (∃ st ∈ history, st.out = .dropped .revalidation) ∧
      updatesOf history = updatesOf (Trace.trace (step twoEvents (fun _ => 0)) (some atBlockTwo)
        (undropped history)) ∧
      (undropped history).map Call.attempts = [1, 1, 1] ∧ inProgress history = none := by
  have hlast : (Trace.final (step twoEvents (fun _ => 0)) (some atBlockTwo)
      [blockCall, droppedCall, logsCall]).isSome := by decide +kernel
  obtain ⟨last, hlast⟩ := Option.isSome_iff_exists.mp hlast
  obtain ⟨-, hupdates, -, -⟩ := dropped_calls_leave_no_trace twoEvents (fun _ => 0)
    (BlockWatcher.forkNode 4) (BlockWatcher.forkNode_numbered 4) (BlockWatcher.startingAt 2) 100 none 4
    (BlockWatcher.startedAt 2 [.new 2 0xA2 2 0]) (by decide +kernel) singleQueryOnce [0xC0]
    [blockCall, droppedCall, logsCall] forkCalls_numbered last hlast
  exact ⟨by decide +kernel, hupdates, by decide +kernel, by decide +kernel⟩

end Watcher

end Safenet.Core
