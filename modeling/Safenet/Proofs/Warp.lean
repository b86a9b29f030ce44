/-
Paging through a warp.

The node may fail any query, cut one off at the limit and fail any header request, but what it does
serve of the range of a warp is of one chain (`Truthful`).  A page that is fetched is then the logs
of its blocks, also when it is kept for another attempt (`PageOf`), and the pages delivered so far
are consecutive and end where the watcher stands (`Paging`).
-/
import Safenet.Proofs.EventWatcher

namespace Safenet.Core.EventWatcher

open Fallible

variable {E : Type} {events : Events E} {keccak256 : Bytes → B256}

/-! ### The chain -/

/-- The logs of a chain and the timestamps of its blocks. -/
structure Chain where
  logs : List Log
  timestamp : Nat → Nat
  distinct : (logs.map place).Nodup
  timed : ∀ log ∈ logs, ∀ number ∈ log.blockNumber, ∀ t ∈ log.blockTimestamp,
    t = timestamp number

/-- The logs of a range of blocks. -/
def Chain.between (chain : Chain) (blocks : BlockRange) : List Log :=
  chain.logs.filter fun log => log.blockNumber.any blocks.contains

/-- What the node serves is of the chain, or cut off at the limit. -/
structure Truthful (watcher : EventWatcher) (chain : Chain) (answers : Answers) : Prop where
  logs : ∀ position first last topics served,
    answers.getLogs position ⟨.range first last, watcher.addresses, topics⟩ = .ok served →
      (∃ max ∈ watcher.config.maxLogsPerQuery, max.val ≤ served.length) ∨
        served.Perm ((chain.between ⟨first, last⟩).filter (watcher.asks topics))
  headers : ∀ number timestamp, answers.getBlock number = .found timestamp →
    timestamp = chain.timestamp number

variable {watcher watcher' : EventWatcher} {chain : Chain} {answers : Answers}

/-- The logs a warp is to deliver of some blocks. -/
def due (watcher : EventWatcher) (chain : Chain) (blocks : BlockRange) : List Log :=
  (chain.between blocks).filter (watcher.asks watcher.topics)

theorem query_truthful (h : Truthful watcher chain answers) {position first last : Nat}
    {topics : List B256} {served : List Log}
    (hquery : watcher.query answers position (.range first last) topics = .ok served) :
    served.Perm ((chain.between ⟨first, last⟩).filter (watcher.asks topics)) := by
  obtain ⟨logs, hlogs, hquery⟩ := bind_eq_ok.mp hquery
  obtain ⟨_, hlimit, hquery⟩ := bind_eq_ok.mp hquery
  cases pure_eq_ok.mp hquery
  have hlimit := require_eq_ok.mp hlimit
  rcases h.logs position first last topics served (mapError_eq_ok.mp hlogs) with
    ⟨max, hmax, hle⟩ | hperm
  · rw [Option.mem_def.mp hmax] at hlimit
    have hlt : served.length < max.val := by simpa using hlimit
    omega
  · exact hperm

/-- Every log the node selects in the range has a topic that is listed once. -/
def ListedOnce (watcher : EventWatcher) (chain : Chain) (blocks : BlockRange) : Prop :=
  ∀ log ∈ watcher.due chain blocks,
    ∃ topic, log.topic0 = some topic ∧ watcher.topics.count topic = 1

theorem selections_of_listedOnce {blocks : BlockRange} (h : ListedOnce watcher chain blocks)
    {log : Log} (hlog : log ∈ chain.between blocks)
    (hasks : watcher.asks watcher.topics log = true) : watcher.selections log = 1 := by
  obtain ⟨topic, htopic, hcount⟩ := h log (List.mem_filter.mpr ⟨hlog, hasks⟩)
  unfold asks Filter.accepts at hasks
  rw [Bool.and_eq_true] at hasks
  unfold selections
  rw [if_pos hasks.1, htopic]
  exact hcount

theorem mem_between {blocks : BlockRange} {log : Log} :
    log ∈ chain.between blocks ↔ log ∈ chain.logs ∧
      ∃ number, log.blockNumber = some number ∧ blocks.start ≤ number ∧ number ≤ blocks.last := by
  unfold Chain.between
  rw [List.mem_filter]
  refine and_congr_right fun _ => ?_
  cases log.blockNumber with
  | none => simp
  | some number => simp [BlockRange.contains]

theorem mem_due {blocks : BlockRange} {log : Log} :
    log ∈ watcher.due chain blocks ↔
      log ∈ chain.between blocks ∧ watcher.asks watcher.topics log = true :=
  List.mem_filter

theorem ListedOnce.mono {first first' last last' : Nat}
    (h : ListedOnce watcher chain ⟨first, last⟩) (hfirst : first ≤ first') (hlast : last' ≤ last) :
    ListedOnce watcher chain ⟨first', last'⟩ := by
  intro log hlog
  obtain ⟨hlog, hasks⟩ := mem_due.mp hlog
  obtain ⟨hchain, number, hnumber, hstart, hend⟩ := mem_between.mp hlog
  refine h log (mem_due.mpr ⟨mem_between.mpr ⟨hchain, number, hnumber, ?_, ?_⟩, hasks⟩)
  · exact Nat.le_trans hfirst hstart
  · exact Nat.le_trans hend hlast

/-- Without events that may fail, no query is dropped. -/
theorem queryEvent_ok (hfallible : watcher.config.fallibleEvents = []) {blocks : BlockFilter}
    {position : Nat} {topic : B256} {served : List Log}
    (h : watcher.queryEvent answers blocks position topic = .ok served) :
    watcher.query answers position blocks [topic] = .ok served := by
  unfold queryEvent at h
  split at h
  · next hquery =>
      cases h
      exact hquery
  · rw [hfallible, if_neg List.not_mem_nil] at h
    cases h

/-! ### A page -/

/-- The page is the logs of its blocks, with timestamps of the chain. -/
structure PageOf (watcher : EventWatcher) (chain : Chain) (fromBlock : Nat) (page : FetchedPage) :
    Prop where
  nonempty : fromBlock ≤ page.toBlock
  logs : page.logs.Perm (watcher.due chain ⟨fromBlock, page.toBlock⟩)
  timestamps : ∀ number timestamp, page.blockTimestamps.lookup number = some timestamp →
    timestamp = chain.timestamp number

theorem fetchPage_ok (htruthful : Truthful watcher chain answers)
    (hfallible : watcher.config.fallibleEvents = []) {fromBlock toBlock : Nat}
    (hrange : fromBlock ≤ toBlock) (hfits : toBlock < 2 ^ 64) {pageSize : NonZero}
    (honce : ListedOnce watcher chain ⟨fromBlock, toBlock⟩) {page : FetchedPage}
    (h : watcher.fetchPage keccak256 answers fromBlock toBlock pageSize = .ok page) :
    PageOf watcher chain fromBlock page ∧ page.toBlock ≤ toBlock := by
  obtain ⟨logs, hfetch, h⟩ := bind_eq_ok.mp h
  cases pure_eq_ok.mp h
  have hto : fromBlock ≤ min toBlock (saturatingAdd fromBlock (pageSize.val - 1)) := by
    unfold saturatingAdd
    omega
  refine ⟨⟨hto, ?_, ?_⟩, Nat.min_le_left _ _⟩
  · show logs.Perm (watcher.due chain ⟨fromBlock, _⟩)
    by_cases hsize : 1 < pageSize.val
    · rw [if_pos hsize] at hfetch
      exact query_truthful htruthful hfetch
    · rw [if_neg hsize] at hfetch
      have hperm := fetchLogs_multiple (fun position topic _ served hserved =>
        query_truthful htruthful (queryEvent_ok hfallible hserved)) hfetch
      exact hperm.trans (askedEach_perm fun log hlog hasks =>
        selections_of_listedOnce (honce.mono (Nat.le_refl _) (Nat.min_le_left _ _)) hlog hasks)
  · intro number timestamp hlookup
    rw [Table.lookup_empty] at hlookup
    cases hlookup

/-! ### Timestamps -/

/-- One answer more: a timestamp of the chain is added, or the error is kept. -/
private theorem addTimestamp_ok
    (hheaders : ∀ number timestamp, answers.getBlock number = .found timestamp →
      timestamp = chain.timestamp number)
    (acc : Table Nat Nat × Option Error) (number : Nat) :
    (∀ other, (addTimestamp answers acc number).1.lookup other = acc.1.lookup other ∨
      (addTimestamp answers acc number).1.lookup other = some (chain.timestamp other)) ∧
    ((addTimestamp answers acc number).2 = none →
      acc.2 = none ∧ ((addTimestamp answers acc number).1.lookup number).isSome) := by
  unfold addTimestamp
  split
  · next timestamp hfound =>
      refine ⟨fun other => ?_, fun hnone => ⟨hnone, by simp⟩⟩
      dsimp only
      rw [Table.lookup_insert]
      split
      · next heq =>
          rw [heq, hheaders number timestamp hfound]
          exact .inr rfl
      · exact .inl rfl
  · refine ⟨fun other => .inl rfl, fun hnone => ?_⟩
    simp at hnone
  · refine ⟨fun other => .inl rfl, fun hnone => ?_⟩
    simp at hnone

private theorem addTimestamp_fold
    (hheaders : ∀ number timestamp, answers.getBlock number = .found timestamp →
      timestamp = chain.timestamp number) (numbers : List Nat) :
    ∀ acc : Table Nat Nat × Option Error,
      (∀ number, (numbers.foldl (addTimestamp answers) acc).1.lookup number = acc.1.lookup number ∨
        (numbers.foldl (addTimestamp answers) acc).1.lookup number =
          some (chain.timestamp number)) ∧
      ((numbers.foldl (addTimestamp answers) acc).2 = none → acc.2 = none ∧
        ∀ number ∈ numbers,
          ((numbers.foldl (addTimestamp answers) acc).1.lookup number).isSome) := by
  induction numbers with
  | nil =>
      intro acc
      exact ⟨fun _ => .inl rfl, fun hnone => ⟨hnone, nofun⟩⟩
  | cons first numbers ih =>
      intro acc
      obtain ⟨hlookup, hfirst⟩ := addTimestamp_ok hheaders acc first
      obtain ⟨hlookup', hrest⟩ := ih (addTimestamp answers acc first)
      rw [List.foldl_cons]
      refine ⟨fun number => ?_, fun hnone => ?_⟩
      · rcases hlookup' number with heq | heq
        · rw [heq]
          exact hlookup number
        · exact .inr heq
      · obtain ⟨hnone', hsome⟩ := hrest hnone
        obtain ⟨hacc, hfound⟩ := hfirst hnone'
        refine ⟨hacc, fun number hnumber => ?_⟩
        rcases List.mem_cons.mp hnumber with rfl | hnumber
        · rcases hlookup' number with heq | heq
          · rw [heq]
            exact hfound
          · rw [heq]
            rfl
        · exact hsome number hnumber

/-- **Timestamps that are found are of the chain, and none that is known is lost.** -/
theorem fetchMissingBlockTimestamps_ok
    (hheaders : ∀ number timestamp, answers.getBlock number = .found timestamp →
      timestamp = chain.timestamp number)
    {logs : List Log} {known known' : Table Nat Nat} {error : Option Error}
    (hknown : ∀ number timestamp, known.lookup number = some timestamp →
      timestamp = chain.timestamp number)
    (h : fetchMissingBlockTimestamps answers logs known = (known', error)) :
    (∀ number timestamp, known'.lookup number = some timestamp →
      timestamp = chain.timestamp number) ∧
    (∀ number timestamp, known.lookup number = some timestamp →
      known'.lookup number = some timestamp) ∧
    (error = none → ∀ number ∈ missingTimestamps logs known, (known'.lookup number).isSome) := by
  obtain ⟨hlookup, hfound⟩ := addTimestamp_fold hheaders (missingTimestamps logs known) (known, none)
  unfold fetchMissingBlockTimestamps at h
  rw [h] at hlookup hfound
  refine ⟨fun number timestamp hsome => ?_, fun number timestamp hsome => ?_,
    fun hnone => (hfound hnone).2⟩
  · rcases hlookup number with heq | heq
    · exact hknown number timestamp (heq ▸ hsome)
    · rw [heq] at hsome
      exact (Option.some.inj hsome).symm
  · rcases hlookup number with heq | heq
    · rw [heq]
      exact hsome
    · rw [heq, hknown number timestamp hsome]

/-! ### A page is delivered -/

/-- The event is the log, with the timestamp of its block. -/
structure Reads (events : Events E) (chain : Chain) (log : Log) (event : EventLog E) : Prop where
  data : events.decodeLog log.topics log.data = some event.data
  number : log.blockNumber = some event.block.number
  timestamp : event.block.timestamp = chain.timestamp event.block.number
  index : log.logIndex = some event.index
  address : event.address = log.address

/-- The update is the watched logs of its blocks, each once, in the order of their positions. -/
structure Delivers (events : Events E) (watcher : EventWatcher) (chain : Chain)
    (update : EventUpdate E) : Prop where
  sorted : update.logs.Pairwise fun a b => position a < position b
  complete : ∀ log ∈ watcher.due chain update.blocks,
    ∃ event ∈ update.logs, Reads events chain log event
  sound : ∀ event ∈ update.logs,
    ∃ log ∈ watcher.due chain update.blocks, Reads events chain log event

theorem reads_decode {log : Log} (hlog : log ∈ chain.logs) {blockTimestamps : Table Nat Nat}
    (htimestamps : ∀ number timestamp, blockTimestamps.lookup number = some timestamp →
      timestamp = chain.timestamp number)
    {event : EventLog E} (h : decode events blockTimestamps log = some event) :
    Reads events chain log event := by
  unfold decode at h
  simp only [Option.bind_eq_bind, Option.bind_eq_some_iff, Option.pure_def, Option.some.injEq] at h
  obtain ⟨data, hdata, number, hnumber, timestamp, htimestamp, index, hindex, rfl⟩ := h
  refine ⟨hdata, hnumber, ?_, hindex, rfl⟩
  rcases Option.or_eq_some_iff.mp htimestamp with hown | ⟨-, hlookup⟩
  · exact chain.timed log hlog number hnumber timestamp hown
  · exact htimestamps number timestamp hlookup

/-- **A page that is decoded is delivered in full.** -/
theorem delivers_decoded {fromBlock : Nat} {page : FetchedPage}
    (hpage : PageOf watcher chain fromBlock page) {blockTimestamps : Table Nat Nat}
    (htimestamps : ∀ number timestamp, blockTimestamps.lookup number = some timestamp →
      timestamp = chain.timestamp number)
    (hdecodable : Decodable events blockTimestamps page.logs) :
    Delivers events watcher chain
      ⟨⟨fromBlock, page.toBlock⟩, decoded events blockTimestamps page.logs⟩ := by
  have hchain : ∀ log ∈ page.logs, log ∈ chain.logs := fun log hlog =>
    (mem_between.mp (mem_due.mp (hpage.logs.mem_iff.mp hlog)).1).1
  have hnodup : (page.logs.map place).Nodup := by
    have hdue : ((watcher.due chain ⟨fromBlock, page.toBlock⟩).map place).Nodup :=
      chain.distinct.sublist ((List.filter_sublist.trans List.filter_sublist).map place)
    exact (hpage.logs.map place).nodup_iff.mpr hdue
  refine ⟨List.sortByKey_strict (positions_nodup hnodup), fun log hlog => ?_, fun event hevent => ?_⟩
  · have hmem := hpage.logs.mem_iff.mpr hlog
    obtain ⟨event, hevent⟩ := Option.isSome_iff_exists.mp (hdecodable log hmem)
    exact ⟨event, List.mem_sortByKey.mpr (List.mem_filterMap.mpr ⟨log, hmem, hevent⟩),
      reads_decode (hchain log hmem) htimestamps hevent⟩
  · obtain ⟨log, hlog, hdecode⟩ := List.mem_filterMap.mp (List.mem_sortByKey.mp hevent)
    exact ⟨log, hpage.logs.mem_iff.mp hlog, reads_decode (hchain log hlog) htimestamps hdecode⟩

/-! ### One call -/

/-- A page that was kept is still there, with at least the timestamps it had. -/
def Kept (page : FetchedPage) (fetched : Option FetchedPage) : Prop :=
  ∃ page', fetched = some page' ∧ page'.toBlock = page.toBlock ∧ page'.logs = page.logs ∧
    ∀ number timestamp, page.blockTimestamps.lookup number = some timestamp →
      page'.blockTimestamps.lookup number = some timestamp

/-- What a call in the middle of a warp does to the step, with what it returns. -/
inductive Pages (events : Events E) (base : EventWatcher) (chain : Chain) (fromBlock toBlock : Nat)
    (fetched : Option FetchedPage) : Step → Except Error (Option (EventUpdate E)) → Prop
  /-- A page is delivered, and the next one begins after it. -/
  | delivered (update : EventUpdate E) (hstart : update.blocks.start = fromBlock)
      (hnonempty : fromBlock ≤ update.blocks.last) (hlast : update.blocks.last ≤ toBlock)
      (hdelivers : Delivers events base chain update) :
      Pages events base chain fromBlock toBlock fetched
        (if update.blocks.last = toBlock then .idle
          else .warping (update.blocks.last + 1) toBlock base.config.blockPageSize none)
        (.ok (some update))
  /-- The call fails, and the warp stands where it was. -/
  | failed (error : Error) (pageSize : NonZero) (fetched' : Option FetchedPage)
      (hpage : ∀ page ∈ fetched', PageOf base chain fromBlock page ∧ page.toBlock ≤ toBlock)
      (hkept : ∀ page ∈ fetched, Kept page fetched' ∨
        fetched' = none ∧ ∃ blockHash logIndex, error = .decodeLog blockHash logIndex) :
      Pages events base chain fromBlock toBlock fetched
        (.warping fromBlock toBlock pageSize fetched') (.error error)

private theorem decodeAndSort_error {logs : List Log} {blockTimestamps : Table Nat Nat}
    {error : Error} (h : decodeAndSort events logs blockTimestamps = .error error) :
    ∃ blockHash logIndex, error = .decodeLog blockHash logIndex := by
  unfold decodeAndSort at h
  cases hmap : logs.mapM (decodeOrError events blockTimestamps) with
  | ok values =>
      rw [hmap] at h
      cases h
  | error error' =>
      rw [hmap] at h
      cases h
      induction logs with
      | nil => cases hmap
      | cons log logs ih =>
          rw [List.mapM_cons] at hmap
          cases hlog : decodeOrError events blockTimestamps log with
          | error error' =>
              rw [hlog] at hmap
              cases hmap
              unfold decodeOrError at hlog
              split at hlog
              · cases hlog
              · cases hlog
                exact ⟨_, _, rfl⟩
          | ok event =>
              rw [hlog] at hmap
              cases hrest : logs.mapM (decodeOrError events blockTimestamps) with
              | ok values =>
                  rw [hrest] at hmap
                  cases hmap
              | error error' =>
                  rw [hrest] at hmap
                  cases hmap
                  exact ih hrest

variable (events keccak256) in
/-- **Every call in the middle of a warp delivers the next page or stays.** -/
theorem next_pages (base : EventWatcher) (htruthful : Truthful base chain answers)
    (hfallible : base.config.fallibleEvents = []) {fromBlock toBlock : Nat}
    (hrange : fromBlock ≤ toBlock) (hfits : toBlock < 2 ^ 64)
    (honce : ListedOnce base chain ⟨fromBlock, toBlock⟩) (pageSize : NonZero)
    {fetched : Option FetchedPage}
    (hpage : ∀ page ∈ fetched, PageOf base chain fromBlock page ∧ page.toBlock ≤ toBlock) :
    ∃ step, (next events keccak256 { base with step := .warping fromBlock toBlock pageSize fetched }
        answers).1 = { base with step } ∧
      Pages events base chain fromBlock toBlock fetched step
        (next events keccak256 { base with step := .warping fromBlock toBlock pageSize fetched }
          answers).2 := by
  unfold next
  dsimp only
  unfold warp
  cases hcurrent : currentPage keccak256
      { base with step := .warping fromBlock toBlock pageSize fetched } answers fromBlock toBlock
      pageSize fetched with
  | error error =>
      refine ⟨_, rfl, .failed error _ none nofun fun page hfetched => ?_⟩
      rw [Option.mem_def.mp hfetched] at hcurrent
      cases hcurrent
  | ok page =>
      have hof : PageOf base chain fromBlock page ∧ page.toBlock ≤ toBlock := by
        cases hfetched : fetched with
        | none =>
            rw [hfetched] at hcurrent
            exact fetchPage_ok htruthful hfallible hrange hfits honce hcurrent
        | some page' =>
            rw [hfetched] at hcurrent
            cases hcurrent
            exact hpage page hfetched
      have hcached : ∀ page' ∈ fetched, page' = page := by
        intro page' hfetched
        rw [Option.mem_def.mp hfetched] at hcurrent
        exact Except.ok.inj hcurrent
      dsimp only
      unfold finishPage
      rcases hmissing : fetchMissingBlockTimestamps answers page.logs page.blockTimestamps with
        ⟨blockTimestamps, error⟩
      obtain ⟨htimestamps, hgrow, -⟩ :=
        fetchMissingBlockTimestamps_ok htruthful.headers hof.1.timestamps hmissing
      cases error with
      | some error =>
          refine ⟨_, rfl, .failed error _ (some { page with blockTimestamps }) ?_ ?_⟩
          · intro page' hpage'
            cases hpage'
            exact ⟨⟨hof.1.nonempty, hof.1.logs, htimestamps⟩, hof.2⟩
          · intro page' hfetched
            rw [hcached page' hfetched]
            exact .inl ⟨_, rfl, rfl, rfl, hgrow⟩
      | none =>
          dsimp only
          cases hdecode : decodeAndSort events page.logs blockTimestamps with
          | error error =>
              refine ⟨_, rfl, .failed error _ none nofun fun _ _ => .inr ⟨rfl, ?_⟩⟩
              exact decodeAndSort_error hdecode
          | ok logs =>
              obtain ⟨hdecodable, rfl⟩ := decodeAndSort_eq_ok.mp hdecode
              exact ⟨_, rfl, .delivered _ rfl hof.1.nonempty hof.2
                (delivers_decoded hof.1 htimestamps hdecodable)⟩

/-! ### Every run -/

/-- A call in a run. -/
abbrev FetchStep (E : Type) :=
  Trace.Step EventWatcher Answers (Except Error (Option (EventUpdate E)))

/-- The update a call returned. -/
def updateOf : Except Error (Option (EventUpdate E)) → Option (EventUpdate E)
  | .ok update => update
  | .error _ => none

/-- The updates of a run. -/
def updatesOf (history : List (FetchStep E)) : List (EventUpdate E) :=
  history.filterMap fun st => updateOf st.out

/-- Updates whose ranges follow one another without a gap, up to a block. -/
inductive Consecutive (first : Nat) : List (EventUpdate E) → Nat → Prop
  | nil : Consecutive first [] first
  | concat {updates : List (EventUpdate E)} {upTo : Nat} {update : EventUpdate E}
      (h : Consecutive first updates upTo) (hstart : update.blocks.start = upTo)
      (hnonempty : upTo ≤ update.blocks.last) :
      Consecutive first (updates ++ [update]) (update.blocks.last + 1)

/-- Where a warp stands after it has delivered all blocks below one. -/
inductive Stands (base : EventWatcher) (chain : Chain) (first last upTo : Nat) :
    EventWatcher → Prop
  | done (hupTo : upTo = last + 1) : Stands base chain first last upTo { base with step := .idle }
  | warping (pageSize : NonZero) (fetched : Option FetchedPage) (hfirst : first ≤ upTo)
      (hlast : upTo ≤ last)
      (hpage : ∀ page ∈ fetched, PageOf base chain upTo page ∧ page.toBlock ≤ last) :
      Stands base chain first last upTo
        { base with step := .warping upTo last pageSize fetched }

theorem Stands.step_eq {base : EventWatcher} {first last upTo : Nat}
    (h : Stands base chain first last upTo watcher) :
    watcher.step = .idle ∧ upTo = last + 1 ∨
      ∃ pageSize fetched, watcher.step = .warping upTo last pageSize fetched ∧ upTo ≤ last ∧
        1 ≤ pageSize.val ∧
        ∀ page ∈ fetched, PageOf base chain upTo page ∧ page.toBlock ≤ last := by
  cases h with
  | done hupTo => exact .inl ⟨rfl, hupTo⟩
  | warping pageSize fetched hfirst hlast hpage =>
      exact .inr ⟨pageSize, fetched, rfl, hlast, pageSize.property, hpage⟩

/-- The updates of the run so far, and where the warp stands. -/
def Paging (events : Events E) (base : EventWatcher) (chain : Chain) (first last : Nat)
    (history : List (FetchStep E)) (watcher : EventWatcher) : Prop :=
  ∃ upTo, Consecutive first (updatesOf history) upTo ∧
    (∀ update ∈ updatesOf history, Delivers events base chain update) ∧
    Stands base chain first last upTo watcher

private theorem updatesOf_concat (history : List (FetchStep E)) (st : FetchStep E) :
    updatesOf (history ++ [st]) = updatesOf history ++ (updateOf st.out).toList := by
  unfold updatesOf
  rw [List.filterMap_append]
  cases hupdate : updateOf st.out with
  | none => simp [hupdate]
  | some update => simp [hupdate]

variable (events keccak256) in
/-- **Every call keeps the pages consecutive.** -/
theorem Paging.step (base : EventWatcher) (hfallible : base.config.fallibleEvents = [])
    {first last : Nat} (hfits : last < 2 ^ 64) (honce : ListedOnce base chain ⟨first, last⟩)
    {history : List (FetchStep E)} {watcher : EventWatcher}
    (h : Paging events base chain first last history watcher)
    (htruthful : Truthful base chain answers) :
    Paging events base chain first last
      (history ++ [Trace.take (next events keccak256) watcher answers])
      (next events keccak256 watcher answers).1 := by
  obtain ⟨upTo, hconsecutive, hdelivers, hstands⟩ := h
  unfold Paging
  rw [updatesOf_concat, Trace.take_out]
  cases hstands with
  | done hupTo =>
      refine ⟨upTo, ?_, ?_, .done hupTo⟩
      · rw [next]
        simpa [updateOf] using hconsecutive
      · rw [next]
        simpa [updateOf] using hdelivers
  | warping pageSize fetched hfirst hlast hpage =>
      obtain ⟨step, hpost, hpages⟩ := next_pages events keccak256 base htruthful hfallible hlast
        hfits (honce.mono hfirst (Nat.le_refl _)) pageSize hpage
      rw [hpost]
      generalize (next events keccak256 { base with step := .warping upTo last pageSize fetched }
        answers).2 = out at hpages
      cases hpages with
      | failed error pageSize' fetched' hpage' hkept =>
          refine ⟨upTo, ?_, ?_, .warping pageSize' fetched' hfirst hlast hpage'⟩
          · simpa [updateOf] using hconsecutive
          · simpa [updateOf] using hdelivers
      | delivered update hstart hnonempty hend hdelivered =>
          refine ⟨update.blocks.last + 1, hconsecutive.concat hstart hnonempty, ?_, ?_⟩
          · intro update' hupdate'
            rcases List.mem_append.mp hupdate' with hold | hnew
            · exact hdelivers update' hold
            · rw [List.mem_singleton.mp hnew]
              exact hdelivered
          · split
            · next heq => exact .done (by rw [heq])
            · next hne =>
                exact .warping _ none (by omega) (by omega) nofun

/-! ### A call whose requests succeed -/

/-- Every request is answered, no query reaches the limit, and every log that is due decodes. -/
structure Complete (events : Events E) (base : EventWatcher) (chain : Chain) (blocks : BlockRange)
    (answers : Answers) : Prop where
  logs : ∀ first last, Serves answers (.range first last) (chain.between ⟨first, last⟩)
  limit : ∀ max ∈ base.config.maxLogsPerQuery, chain.logs.length < max.val
  headers : ∀ number, answers.getBlock number = .found (chain.timestamp number)
  decodes : ∀ log ∈ base.due chain blocks,
    (events.decodeLog log.topics log.data).isSome ∧ log.logIndex.isSome

section Complete

variable {base : EventWatcher} {blocks : BlockRange}

theorem Complete.truthful (h : Complete events base chain blocks answers) :
    Truthful base chain answers where
  logs position first last topics served hserved := by
    obtain ⟨served', hserved', hperm⟩ :=
      h.logs first last position ⟨.range first last, base.addresses, topics⟩ rfl
    rw [hserved'] at hserved
    cases hserved
    exact .inr hperm
  headers number timestamp hfound := by
    rw [h.headers number] at hfound
    cases hfound
    rfl

variable (keccak256) in
private theorem fetchPage_complete (h : Complete events base chain blocks answers)
    (step : Step) (fromBlock toBlock : Nat) (pageSize : NonZero) :
    ∃ page, fetchPage keccak256 { base with step } answers fromBlock toBlock pageSize =
      .ok page := by
  have hlimit : ∀ range, BelowLimit { base with step } (chain.between range) := by
    intro range max hmax
    have hle : ((chain.between range).filter (base.asks base.topics)).length ≤ chain.logs.length :=
      (List.filter_sublist.trans List.filter_sublist).length_le
    exact Nat.lt_of_le_of_lt hle (h.limit max hmax)
  have hfetch : ∃ logs, fetchLogs keccak256 { base with step } answers
      (if 1 < pageSize.val then
        .singleQuery (.range fromBlock (min toBlock (saturatingAdd fromBlock (pageSize.val - 1))))
      else
        .multipleQueries
          (.range fromBlock (min toBlock (saturatingAdd fromBlock (pageSize.val - 1))))) =
        .ok logs := by
    split
    · exact (fetchLogs_single_serves keccak256 (h.logs _ _) (hlimit _)).imp fun _ hl => hl.1
    · exact (fetchLogs_multiple_serves keccak256 (h.logs _ _) (hlimit _)).imp fun _ hl => hl.1
  obtain ⟨logs, hlogs⟩ := hfetch
  exact ⟨_, bind_eq_ok.mpr ⟨logs, hlogs, rfl⟩⟩

private theorem fetchMissing_complete (h : Complete events base chain blocks answers)
    (logs : List Log) (known : Table Nat Nat) :
    (fetchMissingBlockTimestamps answers logs known).2 = none := by
  have hfold : ∀ (numbers : List Nat) (acc : Table Nat Nat × Option Error),
      (numbers.foldl (addTimestamp answers) acc).2 = acc.2 := by
    intro numbers
    induction numbers with
    | nil => intro acc; rfl
    | cons number numbers ih =>
        intro acc
        rw [List.foldl_cons, ih, addTimestamp, h.headers number]
  exact hfold _ _

theorem mem_missingTimestamps {logs : List Log} {known : Table Nat Nat} {log : Log} {number : Nat}
    (hlog : log ∈ logs) (htimestamp : log.blockTimestamp = none)
    (hnumber : log.blockNumber = some number) (hknown : known.lookup number = none) :
    number ∈ missingTimestamps logs known := by
  unfold missingTimestamps
  rw [Finset.mem_ascending, List.mem_toFinset, List.mem_filter, List.mem_filterMap]
  exact ⟨⟨log, List.mem_filter.mpr ⟨hlog, by simp [htimestamp]⟩, hnumber⟩, by simp [hknown]⟩

/-- A page whose timestamps are all found is decoded. -/
private theorem decodable_complete (h : Complete events base chain blocks answers)
    {fromBlock : Nat} {page : FetchedPage} (hpage : PageOf base chain fromBlock page)
    (hstart : blocks.start ≤ fromBlock) (hend : page.toBlock ≤ blocks.last) {known : Table Nat Nat}
    (hmissing : fetchMissingBlockTimestamps answers page.logs page.blockTimestamps =
      (known, none)) : Decodable events known page.logs := by
  obtain ⟨-, hgrow, hfound⟩ :=
    fetchMissingBlockTimestamps_ok h.truthful.headers hpage.timestamps hmissing
  intro log hlog
  obtain ⟨hbetween, hasks⟩ := mem_due.mp (hpage.logs.mem_iff.mp hlog)
  obtain ⟨hchain, number, hnumber, hfrom, hto⟩ := mem_between.mp hbetween
  have hdue : log ∈ base.due chain blocks := mem_due.mpr
    ⟨mem_between.mpr ⟨hchain, number, hnumber, hstart.trans hfrom, Nat.le_trans hto hend⟩, hasks⟩
  obtain ⟨hdata, hindex⟩ := h.decodes log hdue
  obtain ⟨data, hdata⟩ := Option.isSome_iff_exists.mp hdata
  obtain ⟨index, hindex⟩ := Option.isSome_iff_exists.mp hindex
  have htimestamp : ∃ timestamp, log.blockTimestamp.or (known.lookup number) = some timestamp := by
    cases hown : log.blockTimestamp with
    | some timestamp => exact ⟨timestamp, rfl⟩
    | none =>
        rw [Option.none_or]
        cases hlookup : page.blockTimestamps.lookup number with
        | some timestamp => exact ⟨timestamp, hgrow number timestamp hlookup⟩
        | none =>
            have hmem := mem_missingTimestamps hlog hown hnumber hlookup
            exact Option.isSome_iff_exists.mp (hfound rfl number hmem)
  obtain ⟨timestamp, htimestamp⟩ := htimestamp
  simp [decode, hdata, hnumber, htimestamp, hindex]

variable (keccak256) in
/-- **A call whose requests succeed delivers a page.** -/
theorem next_delivers (h : Complete events base chain blocks answers)
    (hfallible : base.config.fallibleEvents = []) {fromBlock toBlock : Nat}
    (hstart : blocks.start ≤ fromBlock) (hrange : fromBlock ≤ toBlock)
    (hend : toBlock = blocks.last) (hfits : toBlock < 2 ^ 64)
    (honce : ListedOnce base chain ⟨fromBlock, toBlock⟩) (pageSize : NonZero)
    {fetched : Option FetchedPage}
    (hpage : ∀ page ∈ fetched, PageOf base chain fromBlock page ∧ page.toBlock ≤ toBlock) :
    ∃ update, (next events keccak256
      { base with step := .warping fromBlock toBlock pageSize fetched } answers).2 =
        .ok (some update) := by
  have hcurrent : ∃ page, currentPage keccak256
      { base with step := .warping fromBlock toBlock pageSize fetched } answers fromBlock toBlock
        pageSize fetched = .ok page ∧ PageOf base chain fromBlock page ∧ page.toBlock ≤ toBlock := by
    cases hfetched : fetched with
    | some page => exact ⟨page, rfl, hpage page hfetched⟩
    | none =>
        obtain ⟨page, hfetch⟩ := fetchPage_complete keccak256 h
          (.warping fromBlock toBlock pageSize none) fromBlock toBlock pageSize
        exact ⟨page, hfetch, fetchPage_ok h.truthful hfallible hrange hfits honce hfetch⟩
  obtain ⟨page, hcurrent, hof, hle⟩ := hcurrent
  rcases hmissing : fetchMissingBlockTimestamps answers page.logs page.blockTimestamps with
    ⟨known, error⟩
  have hnone : error = none := by
    have hfound := fetchMissing_complete h page.logs page.blockTimestamps
    rw [hmissing] at hfound
    exact hfound
  subst hnone
  have hdecodable := decodable_complete h hof hstart (hend ▸ hle) hmissing
  refine ⟨⟨⟨fromBlock, page.toBlock⟩, decoded events known page.logs⟩, ?_⟩
  unfold next
  dsimp only
  unfold warp
  rw [hcurrent]
  dsimp only
  unfold finishPage
  rw [hmissing]
  dsimp only
  rw [decodeAndSort_ok hdecodable]
  rfl

end Complete

variable (keccak256) in
theorem stands_delivers {base : EventWatcher} {first last upTo : Nat}
    (hstands : Stands base chain first last upTo watcher)
    (h : Complete events base chain ⟨first, last⟩ answers)
    (hfallible : base.config.fallibleEvents = []) (hfits : last < 2 ^ 64)
    (honce : ListedOnce base chain ⟨first, last⟩) (hbusy : watcher.step ≠ .idle) :
    ∃ update, (next events keccak256 watcher answers).2 = .ok (some update) := by
  cases hstands with
  | done hupTo => exact absurd rfl hbusy
  | warping pageSize fetched hfirst hlast hpage =>
      exact next_delivers keccak256 h hfallible hfirst hlast rfl hfits
        (honce.mono hfirst (Nat.le_refl _)) pageSize hpage

/-- What a failing call leaves: the warp stands where it was, and a page that was kept is kept, or
could not be decoded and is fetched again. -/
def Stays (last : Nat) (before after : Step) (error : Error) : Prop :=
  ∃ fromBlock pageSize pageSize' fetched fetched',
    before = .warping fromBlock last pageSize fetched ∧
    after = .warping fromBlock last pageSize' fetched' ∧
    ∀ page ∈ fetched, Kept page fetched' ∨
      fetched' = none ∧ ∃ blockHash logIndex, error = .decodeLog blockHash logIndex

variable (events keccak256) in
/-- What a call of the run does, by what it returns. -/
theorem stands_call (base : EventWatcher) {first last upTo : Nat}
    (hstands : Stands base chain first last upTo watcher) (htruthful : Truthful base chain answers)
    (hfallible : base.config.fallibleEvents = []) (hfits : last < 2 ^ 64)
    (honce : ListedOnce base chain ⟨first, last⟩) :
    (watcher.step = .idle → next events keccak256 watcher answers = (watcher, .ok none)) ∧
    ((next events keccak256 watcher answers).2 = .ok none → watcher.step = .idle) ∧
    ∀ error, (next events keccak256 watcher answers).2 = .error error →
      Stays last watcher.step (next events keccak256 watcher answers).1.step error := by
  cases hstands with
  | done hupTo => exact ⟨fun _ => rfl, fun _ => rfl, nofun⟩
  | warping pageSize fetched hfirst hlast hpage =>
      obtain ⟨step, hpost, hpages⟩ := next_pages events keccak256 base htruthful hfallible hlast
        hfits (honce.mono hfirst (Nat.le_refl _)) pageSize hpage
      rw [hpost]
      generalize hout : (next events keccak256
        { base with step := .warping upTo last pageSize fetched } answers).2 = out at hpages
      refine ⟨nofun, ?_, ?_⟩
      · intro hnone
        subst hnone
        cases hpages
      · intro error herror
        subst herror
        cases hpages with
        | failed error pageSize' fetched' hpage' hkept =>
            exact ⟨upTo, pageSize, pageSize', fetched, fetched', rfl, rfl, hkept⟩

/-- **A warp delivers every log exactly once.**  For every range, page size and sequence of answers,
if no event may fail and the topic of every log in the range is listed once:

* the updates have consecutive ranges from the first block of the warp on, and each is the logs of
  its blocks with their timestamps, strictly in the order of their positions; the watcher is idle
  exactly when the last block is delivered, and stands at the next block otherwise;
* an idle watcher returns nothing more, and it is the only one that does; a call that fails stays at
  its block, and what it keeps is a page of that block on;
* a call whose requests succeed delivers a page.
-/
theorem warp_delivers_once (events : Events E) (keccak256 : Bytes → B256) (config : Config)
    (addresses : List Address) (first last : Nat) (hrange : first ≤ last) (hfits : last < 2 ^ 64)
    (hfallible : config.fallibleEvents = []) (started : EventWatcher)
    (hstarted : (new events config addresses).onBlockUpdate (.warp first last) = .ok started)
    (chain : Chain) (honce : ListedOnce started chain ⟨first, last⟩) (calls : List Answers)
    (htruthful : ∀ answers ∈ calls, Truthful started chain answers) :
    let history := Trace.trace (next events keccak256) started calls
    let final := Trace.final (next events keccak256) started calls
    (∃ upTo, Consecutive first (updatesOf history) upTo ∧
      (∀ update ∈ updatesOf history, Delivers events started chain update) ∧
      (final.step = .idle ∧ upTo = last + 1 ∨
        ∃ pageSize fetched, final.step = .warping upTo last pageSize fetched ∧ upTo ≤ last ∧
          1 ≤ pageSize.val ∧
          ∀ page ∈ fetched, PageOf started chain upTo page ∧ page.toBlock ≤ last)) ∧
    (∀ st ∈ history,
      (st.pre.step = .idle → st.out = .ok none ∧ st.post = st.pre) ∧
      (st.out = .ok none → st.pre.step = .idle) ∧
      ∀ error, st.out = .error error → Stays last st.pre.step st.post.step error) ∧
    ∀ answers, Complete events started chain ⟨first, last⟩ answers → final.step ≠ .idle →
      ∃ update, (next events keccak256 final answers).2 = .ok (some update) := by
  intro history final
  obtain ⟨_, -, hstarted⟩ := bind_eq_ok.mp hstarted
  have hstarted := pure_eq_ok.mp hstarted
  have hconfig : started.config = config := by rw [← hstarted]; rfl
  have hfallible : started.config.fallibleEvents = [] := by rw [hconfig]; exact hfallible
  have hinit : Paging events started chain first last [] started := by
    refine ⟨first, .nil, nofun, ?_⟩
    have hstep : started = { started with step := .warping first last config.blockPageSize none } := by
      rw [← hstarted]
      rfl
    rw [hstep]
    exact .warping _ none (Nat.le_refl _) hrange nofun
  have hstep : ∀ (history : List (FetchStep E)) watcher answers,
      Paging events started chain first last history watcher → Truthful started chain answers →
      Paging events started chain first last
        (history ++ [Trace.take (next events keccak256) watcher answers])
        (next events keccak256 watcher answers).1 :=
    fun _ _ _ h htruthful => h.step events keccak256 started hfallible hfits honce htruthful
  have hcalls : ∀ st ∈ history, Truthful started chain st.input := fun st hst =>
    htruthful st.input (Trace.input_mem hst)
  refine ⟨?_, fun st hst => ?_, fun answers hcomplete hbusy => ?_⟩
  · obtain ⟨upTo, hconsecutive, hdelivers, hstands⟩ :=
      Trace.history_invariant (E := fun st => Truthful started chain st.input) hinit hstep calls
        hcalls
    exact ⟨upTo, hconsecutive, hdelivers, hstands.step_eq⟩
  · obtain ⟨before, after, hsplit⟩ := List.append_of_mem hst
    obtain ⟨⟨upTo, -, -, hstands⟩, htake⟩ := Trace.split_invariant
      (E := fun st => Truthful started chain st.input) hinit hstep hcalls hsplit
    obtain ⟨hidle, hnone, herror⟩ := stands_call events keccak256 started
      hstands (hcalls st hst) hfallible hfits honce
    have hout : st.out = (next events keccak256 st.pre st.input).2 := congrArg Trace.Step.out htake
    have hpost : st.post = (next events keccak256 st.pre st.input).1 := congrArg Trace.Step.post htake
    rw [hout, hpost]
    exact ⟨fun h => ⟨congrArg Prod.snd (hidle h), congrArg Prod.fst (hidle h)⟩, hnone, herror⟩
  · obtain ⟨upTo, -, -, hstands⟩ :=
      Trace.history_invariant (E := fun st => Truthful started chain st.input) hinit hstep calls
        hcalls
    exact stands_delivers keccak256 hstands hcomplete hfallible hfits honce hbusy

/-! ### Tokens in a warp -/

/-- The chain with the transfer only. -/
def transferChain : Chain where
  logs := [transferLog]
  timestamp _ := 100
  distinct := by simp
  timed log hlog number hnumber t ht := by
    rw [List.mem_singleton.mp hlog] at ht
    exact (Option.some.inj ht).symm

/-- Pages of one block. -/
def pageConfig : Config := { Config.default with blockPageSize := ⟨1, Nat.one_pos⟩ }

/-- The watcher at the beginning of a warp over block 7. -/
def pageWatcher (events : Events TokenEvents) : EventWatcher :=
  { new events pageConfig [0x11#160] with step := .warping 7 7 ⟨1, Nat.one_pos⟩ none }

/-- A node that serves the chain. -/
def Chain.node (chain : Chain) : Answers where
  getLogs _ filter :=
    match filter.blocks with
    | .range first last => .ok ((chain.between ⟨first, last⟩).filter filter.accepts)
    | .hash _ => .error ⟨none⟩
  getBlock number := .found (chain.timestamp number)
  firstFailure := 0

theorem Chain.node_truthful (chain : Chain) (watcher : EventWatcher) :
    Truthful watcher chain chain.node where
  logs position first last topics served hserved := by
    cases hserved
    exact .inr (.refl _)
  headers number timestamp hfound := by
    cases hfound
    rfl

/-- **A transfer is delivered twice if both kinds of tokens are watched.** -/
theorem token_transfer_warped_twice :
    let events := watcherEvents [erc20Events, erc721Events]
    (new events pageConfig [0x11#160]).onBlockUpdate (.warp 7 7) = .ok (pageWatcher events) ∧
      Truthful (pageWatcher events) transferChain transferChain.node ∧
      updatesOf (Trace.trace (next events transferKeccak) (pageWatcher events)
        [transferChain.node]) = [⟨⟨7, 7⟩, [transferEvent, transferEvent]⟩] :=
  ⟨by decide +kernel, transferChain.node_truthful _, by decide +kernel⟩

private theorem erc20_due_once : ListedOnce (pageWatcher erc20Only) transferChain ⟨7, 7⟩ := by
  intro log hlog
  have hlog : log = transferLog :=
    List.mem_singleton.mp (mem_between.mp (mem_due.mp hlog).1).1
  subst hlog
  exact ⟨transferTopic, rfl, by decide +kernel⟩

/-- With one kind of tokens it is delivered once. -/
theorem erc20_transfer_warped_once :
    updatesOf (Trace.trace (next erc20Only transferKeccak) (pageWatcher erc20Only)
        [transferChain.node]) = [⟨⟨7, 7⟩, [transferEvent]⟩] ∧
      ∃ upTo, Consecutive 7 (updatesOf (Trace.trace (next erc20Only transferKeccak)
        (pageWatcher erc20Only) [transferChain.node])) upTo := by
  obtain ⟨⟨upTo, hconsecutive, -⟩, -⟩ := warp_delivers_once erc20Only transferKeccak pageConfig
    [0x11#160] 7 7 (Nat.le_refl _) (by decide) rfl (pageWatcher erc20Only) (by decide +kernel)
    transferChain erc20_due_once [transferChain.node]
    (fun answers hanswers => by
      rw [List.mem_singleton.mp hanswers]
      exact transferChain.node_truthful _)
  exact ⟨by decide +kernel, upTo, hconsecutive⟩

end Safenet.Core.EventWatcher
