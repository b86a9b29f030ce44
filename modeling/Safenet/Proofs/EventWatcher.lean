/-
What the event watcher delivers.

The node serves the logs that match a filter in any order (`Serves`); a filter without addresses or
topics matches any.  `decodeAndSort` does not depend on that order, so a way of fetching logs is
characterised by which logs it selects, and how often.  One query for all topics and the filter of
the client select each watched log once.  One query per topic selects a log once for each time its
topic is listed, and a topic that two contracts have in common is listed twice.
-/
import Mathlib.Data.List.Perm.Subperm
import Safenet.Core.EventWatcher
import Safenet.Core.StateMachine
import Safenet.Lib.Trace

namespace Safenet.Core.EventWatcher

open Fallible

variable {E : Type} {events : Events E} {keccak256 : Bytes → B256}

/-! ### Decoding and sorting -/

section Decode

variable {blockTimestamps : Table Nat Nat} {logs logs' : List Log}

/-- Every log can be decoded, and has a position and a timestamp. -/
def Decodable (events : Events E) (blockTimestamps : Table Nat Nat) (logs : List Log) : Prop :=
  ∀ log ∈ logs, (decode events blockTimestamps log).isSome

/-- What the logs decode to, in the order of their positions. -/
def decoded (events : Events E) (blockTimestamps : Table Nat Nat) (logs : List Log) :
    List (EventLog E) :=
  (logs.filterMap (decode events blockTimestamps)).sortByKey position

private theorem mapM_decodeOrError (h : Decodable events blockTimestamps logs) :
    logs.mapM (decodeOrError events blockTimestamps) =
      .ok (logs.filterMap (decode events blockTimestamps)) := by
  induction logs with
  | nil => rfl
  | cons log logs ih =>
      obtain ⟨event, hevent⟩ := Option.isSome_iff_exists.mp (h log List.mem_cons_self)
      have hrest : Decodable events blockTimestamps logs := fun other hother =>
        h other (List.mem_cons_of_mem _ hother)
      rw [List.mapM_cons, ih hrest, List.filterMap_cons, hevent, decodeOrError, hevent]
      rfl

theorem decodeAndSort_ok (h : Decodable events blockTimestamps logs) :
    decodeAndSort events logs blockTimestamps = .ok (decoded events blockTimestamps logs) := by
  unfold decodeAndSort
  rw [mapM_decodeOrError h]
  rfl

/-- Without a log that cannot be decoded there is no error. -/
theorem decodeAndSort_eq_ok {result : List (EventLog E)} :
    decodeAndSort events logs blockTimestamps = .ok result ↔
      Decodable events blockTimestamps logs ∧ result = decoded events blockTimestamps logs := by
  constructor
  · intro h
    have hdecodable : Decodable events blockTimestamps logs := by
      obtain ⟨values, hvalues, -⟩ := bind_eq_ok.mp h
      clear h
      induction logs generalizing values with
      | nil => exact nofun
      | cons log logs ih =>
          rw [List.mapM_cons] at hvalues
          obtain ⟨event, hevent, hvalues⟩ := bind_eq_ok.mp hvalues
          obtain ⟨rest, hrest, -⟩ := bind_eq_ok.mp hvalues
          intro other hother
          rcases List.mem_cons.mp hother with rfl | hother
          · unfold decodeOrError at hevent
            split at hevent
            · next hsome => rw [hsome]; rfl
            · cases hevent
          · exact ih rest hrest other hother
    rw [decodeAndSort_ok hdecodable] at h
    cases h
    exact ⟨hdecodable, rfl⟩
  · rintro ⟨hdecodable, rfl⟩
    exact decodeAndSort_ok hdecodable

theorem Decodable.perm (h : Decodable events blockTimestamps logs) (hperm : logs.Perm logs') :
    Decodable events blockTimestamps logs' :=
  fun log hlog => h log (hperm.mem_iff.mpr hlog)

theorem length_decoded (h : Decodable events blockTimestamps logs) :
    (decoded events blockTimestamps logs).length = logs.length := by
  rw [decoded, (List.sortByKey_perm _ _).length_eq]
  induction logs with
  | nil => rfl
  | cons log logs ih =>
      obtain ⟨event, hevent⟩ := Option.isSome_iff_exists.mp (h log List.mem_cons_self)
      rw [List.filterMap_cons, hevent, List.length_cons, List.length_cons,
        ih fun other hother => h other (List.mem_cons_of_mem _ hother)]

/-- Where a decoded log stands. -/
theorem position_decode {log : Log} {event : EventLog E}
    (h : decode events blockTimestamps log = some event) :
    log.blockNumber = some event.block.number ∧ log.logIndex = some event.index ∧
      (log.blockTimestamp.or (blockTimestamps.lookup event.block.number)) =
        some event.block.timestamp := by
  unfold decode at h
  simp only [Option.bind_eq_bind, Option.bind_eq_some_iff, Option.pure_def, Option.some.injEq] at h
  obtain ⟨data, -, number, hnumber, timestamp, htimestamp, index, hindex, rfl⟩ := h
  exact ⟨hnumber, hindex, htimestamp⟩

/-- Where a log stands, as the node says. -/
def place (log : Log) : Option Nat × Option Nat := (log.blockNumber, log.logIndex)

/-- Logs at different places have different positions. -/
theorem positions_nodup (h : (logs.map place).Nodup) :
    ((logs.filterMap (decode events blockTimestamps)).map position).Nodup := by
  rw [List.Nodup, List.pairwise_map] at h ⊢
  rw [List.pairwise_filterMap]
  refine h.imp fun {log log'} hne event hevent event' hevent' heq => hne ?_
  obtain ⟨hnumber, hindex, -⟩ := position_decode hevent
  obtain ⟨hnumber', hindex', -⟩ := position_decode hevent'
  have heq : (event.block.number, event.index) = (event'.block.number, event'.index) := heq
  rw [Prod.mk.injEq] at heq
  rw [place, place, hnumber, hindex, hnumber', hindex', heq.1, heq.2]

/-- **What is delivered does not depend on the order in which the logs were served.** -/
theorem decoded_perm (hperm : logs.Perm logs') (h : (logs.map place).Nodup) :
    decoded events blockTimestamps logs = decoded events blockTimestamps logs' :=
  List.sortByKey_congr (hperm.filterMap _) (positions_nodup h)

private theorem isSorted_of_pairwise {l : List (EventLog E)}
    (h : l.Pairwise fun a b => position a < position b) : StateMachine.isSorted l = true := by
  induction l with
  | nil => rfl
  | cons a l ih =>
      cases l with
      | nil => rfl
      | cons b l =>
          have hab := (List.pairwise_cons.mp h).1 b List.mem_cons_self
          have hbefore : StateMachine.logBefore a b = true := by
            rw [position, position, Prod.Lex.toLex_lt_toLex] at hab
            simpa [StateMachine.logBefore] using hab
          rw [StateMachine.isSorted, hbefore, Bool.true_and]
          exact ih (List.pairwise_cons.mp h).2

/-- The state machine accepts the order of what is delivered. -/
theorem isSorted_decoded (h : (logs.map place).Nodup) :
    StateMachine.isSorted (decoded events blockTimestamps logs) = true :=
  isSorted_of_pairwise (List.sortByKey_strict (positions_nodup h))

end Decode

/-! ### What the node serves -/

/-- Whether a log of the asked blocks matches the filter. -/
def Filter.accepts (filter : Filter) (log : Log) : Bool :=
  (filter.addresses.isEmpty || log.address ∈ filter.addresses) &&
    (filter.topics.isEmpty || log.topic0.any (· ∈ filter.topics))

section Select

variable {watcher : EventWatcher} {answers : Answers} {blocks : BlockFilter} {logs : List Log}

/-- The log is of a watched address and has one of the topics, as far as the node can tell. -/
def asks (watcher : EventWatcher) (topics : List B256) (log : Log) : Bool :=
  (Filter.mk (.hash 0) watcher.addresses topics).accepts log

/-- The logs that one query per topic selects. -/
def askedEach (watcher : EventWatcher) (logs : List Log) : List Log :=
  watcher.topics.flatMap fun topic => logs.filter (watcher.asks [topic])

private theorem mapM_id_perm {g : B256 → List Log} {topics : List B256} :
    ∀ {f : Nat → B256 → Except Error (List Log)} {pages : List (List Log)},
      (∀ position, ∀ topic ∈ topics, ∀ served, f position topic = .ok served →
        served.Perm (g topic)) →
      (topics.mapIdx f).mapM id = .ok pages → pages.flatten.Perm (topics.flatMap g) := by
  induction topics with
  | nil =>
      intro f pages _ h
      cases h
      exact .refl _
  | cons topic topics ih =>
      intro f pages hf h
      rw [List.mapIdx_cons, List.mapM_cons] at h
      obtain ⟨served, hserved, h⟩ := bind_eq_ok.mp h
      obtain ⟨rest, hrest, h⟩ := bind_eq_ok.mp h
      cases pure_eq_ok.mp h
      rw [List.flatten_cons, List.flatMap_cons]
      refine (hf 0 topic List.mem_cons_self served hserved).append (ih ?_ hrest)
      exact fun position other hother => hf (position + 1) other (List.mem_cons_of_mem _ hother)

theorem fetchLogs_multiple {fetched : List Log}
    (hquery : ∀ position, ∀ topic ∈ watcher.topics, ∀ served,
      watcher.queryEvent answers blocks position topic = .ok served →
        served.Perm (logs.filter (watcher.asks [topic])))
    (h : watcher.fetchLogs keccak256 answers (.multipleQueries blocks) = .ok fetched) :
    fetched.Perm (watcher.askedEach logs) := by
  unfold fetchLogs at h
  obtain ⟨pages, hpages, h⟩ := bind_eq_ok.mp h
  cases pure_eq_ok.mp h
  unfold tryJoinAll at hpages
  split at hpages
  · next values hvalues =>
      cases hpages
      exact mapM_id_perm hquery hvalues
  · cases hpages

/-! ### How often a log is selected -/

/-- How often a log is selected by one query per topic. -/
def selections (watcher : EventWatcher) (log : Log) : Nat :=
  if watcher.addresses.isEmpty || log.address ∈ watcher.addresses then
    (log.topic0.map watcher.topics.count).getD 0
  else 0

theorem asks_single {topic : B256} {log : Log} :
    watcher.asks [topic] log = true ↔
      (watcher.addresses.isEmpty || log.address ∈ watcher.addresses) = true ∧
        log.topic0 = some topic := by
  unfold asks Filter.accepts
  rw [Bool.and_eq_true]
  refine and_congr_right fun _ => ?_
  cases log.topic0 with
  | none => simp
  | some t => simp

private theorem count_filter_asks (topic : B256) (log : Log) :
    (logs.filter (watcher.asks [topic])).count log =
      if watcher.asks [topic] log = true then logs.count log else 0 := by
  split
  · next hasks => exact List.count_filter hasks
  · next hasks =>
      refine List.count_eq_zero.mpr fun hmem => hasks ?_
      exact (List.mem_filter.mp hmem).2

/-- **One query per topic selects a log once for each time its topic is listed.** -/
theorem count_askedEach (log : Log) :
    (watcher.askedEach logs).count log = watcher.selections log * logs.count log := by
  unfold askedEach selections
  induction watcher.topics with
  | nil =>
      cases log.topic0 with
      | none => simp
      | some t => simp
  | cons topic topics ih =>
      rw [List.flatMap_cons, List.count_append, ih, count_filter_asks]
      simp only [asks_single]
      by_cases haddress : (watcher.addresses.isEmpty || log.address ∈ watcher.addresses) = true
      · cases htopic : log.topic0 with
        | none => simp [haddress]
        | some t =>
            by_cases heq : t = topic
            · subst heq
              simp only [haddress, and_self, if_true, Option.map_some, Option.getD_some,
                List.count_cons_self, Nat.add_mul, Nat.one_mul]
              omega
            · have hne : ¬ topic = t := fun h => heq h.symm
              simp [haddress, heq, hne]
      · simp [haddress]

/-- One query for all topics selects a log that one of the queries per topic selects. -/
theorem asks_topics {log : Log} (hwatch : watcher.topics ≠ []) :
    watcher.asks watcher.topics log = true ↔ 0 < watcher.selections log := by
  have hempty : watcher.topics.isEmpty = false := by
    cases htopics : watcher.topics with
    | nil => exact absurd htopics hwatch
    | cons => rfl
  unfold asks Filter.accepts selections
  simp only [hempty, Bool.false_or]
  by_cases haddress : (watcher.addresses.isEmpty || log.address ∈ watcher.addresses) = true
  · cases log.topic0 with
    | none => simp [haddress]
    | some t => simp [haddress, List.count_pos_iff]
  · simp [haddress]

/-- The client keeps no log that the node would not select. -/
theorem asks_of_isWatched {log : Log} (h : watcher.isWatched log = true) :
    watcher.asks watcher.topics log = true := by
  unfold isWatched at h
  unfold asks Filter.accepts
  rw [Bool.and_eq_true] at h ⊢
  exact ⟨by simp [h.1], by simp [h.2]⟩

/-- A log the client keeps is selected by one query per topic as often as its topic is listed. -/
theorem selections_of_isWatched {log : Log} (h : watcher.isWatched log = true) :
    0 < watcher.selections log := by
  have htopics : watcher.topics ≠ [] := by
    intro hnil
    unfold isWatched at h
    rw [hnil, Bool.and_eq_true] at h
    cases htopic : log.topic0 with
    | none => simp [htopic] at h
    | some t => simp [htopic] at h
  exact (asks_topics htopics).mp (asks_of_isWatched h)

theorem selections_eq_count {log : Log} (h : watcher.isWatched log = true) {topic : B256}
    (htopic : log.topic0 = some topic) : watcher.selections log = watcher.topics.count topic := by
  unfold isWatched at h
  rw [Bool.and_eq_true] at h
  unfold selections
  rw [if_pos (by simp [h.1]), htopic]
  rfl

/-! ### Queries that succeed -/

/-- Every query about the blocks is answered with the logs that match, in some order. -/
def Serves (answers : Answers) (blocks : BlockFilter) (logs : List Log) : Prop :=
  ∀ position filter, filter.blocks = blocks →
    ∃ served, answers.getLogs position filter = .ok served ∧
      served.Perm (logs.filter filter.accepts)

/-- The watched logs are fewer than the limit of a query. -/
def BelowLimit (watcher : EventWatcher) (logs : List Log) : Prop :=
  ∀ max ∈ watcher.config.maxLogsPerQuery,
    (logs.filter (watcher.asks watcher.topics)).length < max.val

private theorem query_serves (hserves : Serves answers blocks logs) (position : Nat)
    {topics : List B256}
    (hlimit : ∀ max ∈ watcher.config.maxLogsPerQuery,
      (logs.filter (watcher.asks topics)).length < max.val) :
    ∃ served, watcher.query answers position blocks topics = .ok served ∧
      served.Perm (logs.filter (watcher.asks topics)) := by
  obtain ⟨served, hserved, hperm⟩ := hserves position ⟨blocks, watcher.addresses, topics⟩ rfl
  have hperm : served.Perm (logs.filter (watcher.asks topics)) := hperm
  refine ⟨served, bind_eq_ok.mpr ⟨served, mapError_eq_ok.mpr hserved, ?_⟩, hperm⟩
  refine bind_eq_ok.mpr ⟨⟨⟩, require_eq_ok.mpr ?_, rfl⟩
  cases hmax : watcher.config.maxLogsPerQuery with
  | none => rfl
  | some max =>
      have hlength := hlimit max hmax
      rw [← hperm.length_eq] at hlength
      simpa using hlength

/-- A query for one of the topics asks for no more than the query for all. -/
private theorem belowLimit_topic (hlimit : BelowLimit watcher logs) {topic : B256}
    (htopic : topic ∈ watcher.topics) :
    ∀ max ∈ watcher.config.maxLogsPerQuery,
      (logs.filter (watcher.asks [topic])).length < max.val := by
  intro max hmax
  refine lt_of_le_of_lt ?_ (hlimit max hmax)
  rw [← List.countP_eq_length_filter, ← List.countP_eq_length_filter]
  refine List.countP_mono_left fun log _ hasks => ?_
  obtain ⟨haddress, hlog⟩ := asks_single.mp hasks
  unfold asks Filter.accepts
  rw [Bool.and_eq_true]
  exact ⟨haddress, by simp [hlog, htopic]⟩

variable (keccak256) in
theorem fetchLogs_single_serves (hserves : Serves answers blocks logs)
    (hlimit : BelowLimit watcher logs) :
    ∃ fetched, watcher.fetchLogs keccak256 answers (.singleQuery blocks) = .ok fetched ∧
      fetched.Perm (logs.filter (watcher.asks watcher.topics)) :=
  query_serves hserves 0 hlimit

private theorem mapM_id_ok {topics : List B256} :
    ∀ {f : Nat → B256 → Except Error (List Log)},
      (∀ position, ∀ topic ∈ topics, ∃ served, f position topic = .ok served) →
      ∃ pages, (topics.mapIdx f).mapM id = .ok pages := by
  induction topics with
  | nil => intro f _; exact ⟨[], rfl⟩
  | cons topic topics ih =>
      intro f hf
      obtain ⟨served, hserved⟩ := hf 0 topic List.mem_cons_self
      have hrest : ∀ position, ∀ other ∈ topics, ∃ served, f (position + 1) other = .ok served :=
        fun position other hother => hf (position + 1) other (List.mem_cons_of_mem _ hother)
      obtain ⟨pages, hpages⟩ := ih hrest
      refine ⟨served :: pages, ?_⟩
      rw [List.mapIdx_cons, List.mapM_cons]
      exact bind_eq_ok.mpr ⟨served, hserved, bind_eq_ok.mpr ⟨pages, hpages, rfl⟩⟩

variable (keccak256) in
theorem fetchLogs_multiple_serves (hserves : Serves answers blocks logs)
    (hlimit : BelowLimit watcher logs) :
    ∃ fetched, watcher.fetchLogs keccak256 answers (.multipleQueries blocks) = .ok fetched ∧
      fetched.Perm (watcher.askedEach logs) := by
  have hquery : ∀ position, ∀ topic ∈ watcher.topics, ∃ served,
      watcher.queryEvent answers blocks position topic = .ok served ∧
        served.Perm (logs.filter (watcher.asks [topic])) := by
    intro position topic htopic
    obtain ⟨served, hserved, hperm⟩ :=
      query_serves hserves position (belowLimit_topic hlimit htopic)
    refine ⟨served, ?_, hperm⟩
    rw [queryEvent, hserved]
  obtain ⟨pages, hpages⟩ := mapM_id_ok fun position topic htopic =>
    (hquery position topic htopic).imp fun _ h => h.1
  have hfetch : watcher.fetchLogs keccak256 answers (.multipleQueries blocks) =
      .ok pages.flatten := by
    refine bind_eq_ok.mpr ⟨pages, ?_, rfl⟩
    unfold tryJoinAll
    rw [hpages]
  refine ⟨pages.flatten, hfetch, fetchLogs_multiple ?_ hfetch⟩
  intro position topic htopic served hserved
  obtain ⟨served', hserved', hperm⟩ := hquery position topic htopic
  rw [hserved'] at hserved
  cases hserved
  exact hperm

/-! ### The bloom filter -/

private theorem accrue_or (bloom : Bloom) (raw : Bytes) :
    Bloom.accrue keccak256 bloom raw = bloom ||| Bloom.accrue keccak256 0 raw := by
  simp [Bloom.accrue, BitVec.or_assoc]

private theorem foldl_accrue_or (raws : List Bytes) : ∀ bloom : Bloom,
    raws.foldl (Bloom.accrue keccak256) bloom =
      bloom ||| raws.foldl (Bloom.accrue keccak256) 0 := by
  induction raws with
  | nil => intro bloom; simp
  | cons raw raws ih =>
      intro bloom
      rw [List.foldl_cons, List.foldl_cons, ih, ih (Bloom.accrue keccak256 0 raw), accrue_or,
        BitVec.or_assoc]

/-- The filter of some logs does not depend on their order. -/
theorem computeLogsBloom_perm {logs' : List Log} (h : logs.Perm logs') :
    Bloom.computeLogsBloom keccak256 logs = Bloom.computeLogsBloom keccak256 logs' := by
  unfold Bloom.computeLogsBloom
  have hor : ∀ bloom log, Bloom.accrueLog keccak256 bloom log =
      bloom ||| Bloom.accrueLog keccak256 0 log := fun bloom log => foldl_accrue_or _ bloom
  refine h.foldl_eq' (fun log _ log' _ bloom => ?_) 0
  rw [hor (Bloom.accrueLog keccak256 bloom log), hor bloom log,
    hor (Bloom.accrueLog keccak256 bloom log'), hor bloom log', BitVec.or_assoc, BitVec.or_assoc,
    BitVec.or_comm (Bloom.accrueLog keccak256 0 log)]

variable (keccak256 watcher) in
theorem fetchLogs_client_serves {blockHash : B256}
    (hserves : Serves answers (.hash blockHash) logs) :
    ∃ fetched, watcher.fetchLogs keccak256 answers
        (.clientFiltered blockHash (Bloom.computeLogsBloom keccak256 logs)) = .ok fetched ∧
      fetched.Perm (logs.filter watcher.isWatched) := by
  obtain ⟨served, hserved, hperm⟩ := hserves 0 ⟨.hash blockHash, [], []⟩ rfl
  have hperm : served.Perm logs := by
    have hall : logs.filter (Filter.mk (.hash blockHash) [] []).accepts = logs := by
      rw [List.filter_eq_self]
      intro log _
      rfl
    rwa [hall] at hperm
  refine ⟨served.filter watcher.isWatched, ?_, hperm.filter _⟩
  refine bind_eq_ok.mpr ⟨served, mapError_eq_ok.mpr hserved, ?_⟩
  exact bind_eq_ok.mpr ⟨⟨⟩, require_eq_ok.mpr (by simp [computeLogsBloom_perm hperm]), rfl⟩

end Select

/-! ### The three ways of fetching the logs of a block -/

/-- The logs of one block. -/
structure BlockLogs where
  number : Nat
  logs : List Log
  numbered : ∀ log ∈ logs, log.blockNumber = some number
  distinct : (logs.map Log.logIndex).Nodup

theorem BlockLogs.places_nodup (block : BlockLogs) : (block.logs.map place).Nodup := by
  have hdistinct := block.distinct
  rw [List.Nodup, List.pairwise_map] at hdistinct ⊢
  exact hdistinct.imp fun hne heq => hne (Prod.ext_iff.mp heq).2

theorem BlockLogs.places_nodup_filter (block : BlockLogs) (p : Log → Bool) :
    ((block.logs.filter p).map place).Nodup :=
  block.places_nodup.sublist (List.filter_sublist.map place)

/-- What a way of fetching logs delivers; nothing if it fails. -/
def delivered (events : Events E) (keccak256 : Bytes → B256) (watcher : EventWatcher)
    (answers : Answers) (blockTimestamps : Table Nat Nat) (fetch : Fetch) :
    Option (List (EventLog E)) :=
  (do
    let logs ← watcher.fetchLogs keccak256 answers fetch
    decodeAndSort events logs blockTimestamps).toOption

section Deliver

variable {watcher : EventWatcher} {answers : Answers} {blockTimestamps : Table Nat Nat}
  {fetch : Fetch} {fetched selected : List Log}

private theorem toOption_eq_some {ε α : Type} {x : Except ε α} {a : α} :
    x.toOption = some a ↔ x = .ok a := by
  cases x with
  | error e => simp [Except.toOption]
  | ok b => simp [Except.toOption]

theorem delivered_of_fetched (h : watcher.fetchLogs keccak256 answers fetch = .ok fetched) :
    delivered events keccak256 watcher answers blockTimestamps fetch =
      (decodeAndSort events fetched blockTimestamps).toOption := by
  rw [delivered, h]
  rfl

/-- What is delivered depends on which logs are selected only. -/
theorem decodeAndSort_perm (hperm : fetched.Perm selected) (hnodup : (selected.map place).Nodup) :
    (decodeAndSort events fetched blockTimestamps).toOption =
      (decodeAndSort events selected blockTimestamps).toOption := by
  refine Option.ext fun result => ?_
  rw [toOption_eq_some, toOption_eq_some, decodeAndSort_eq_ok, decodeAndSort_eq_ok,
    decoded_perm hperm.symm hnodup]
  exact and_congr_left' ⟨fun hd => hd.perm hperm, fun hd => hd.perm hperm.symm⟩

/-- A log that cannot be decoded stops the delivery. -/
theorem decodeAndSort_none {log : Log} (hlog : log ∈ fetched)
    (hdecode : decode events blockTimestamps log = none) :
    (decodeAndSort events fetched blockTimestamps).toOption = none := by
  rw [Option.eq_none_iff_forall_ne_some]
  intro result hresult
  have hdecodable := (decodeAndSort_eq_ok.mp (toOption_eq_some.mp hresult)).1 log hlog
  rw [hdecode] at hdecodable
  cases hdecodable

/-- One query per topic selects what one query for all topics does, if no topic of a selected log
is listed twice. -/
theorem askedEach_perm {logs : List Log}
    (h : ∀ log ∈ logs, watcher.asks watcher.topics log = true → watcher.selections log = 1) :
    (watcher.askedEach logs).Perm (logs.filter (watcher.asks watcher.topics)) := by
  rw [List.perm_iff_count]
  intro log
  rw [count_askedEach]
  by_cases hlog : log ∈ logs
  · by_cases hasks : watcher.asks watcher.topics log = true
    · rw [h log hlog hasks, Nat.one_mul, List.count_filter hasks]
    · have hnone : (logs.filter (watcher.asks watcher.topics)).count log = 0 :=
        List.count_eq_zero.mpr fun hmem => hasks (List.mem_filter.mp hmem).2
      have hselections : watcher.selections log = 0 := by
        by_cases htopics : watcher.topics = []
        · unfold selections
          rw [htopics]
          cases log.topic0 with
          | none => simp
          | some t => simp
        · exact Nat.eq_zero_of_not_pos fun hpos => hasks ((asks_topics htopics).mpr hpos)
      rw [hnone, hselections, Nat.zero_mul]
  · rw [List.count_eq_zero.mpr hlog, Nat.mul_zero]
    exact (List.count_eq_zero.mpr fun hmem => hlog (List.mem_filter.mp hmem).1).symm

/-- A log with a topic that is listed twice is selected twice. -/
theorem length_lt_askedEach {logs : List Log} {log : Log} (hlog : log ∈ logs)
    (hasks : watcher.asks watcher.topics log = true) (htwice : 1 < watcher.selections log) :
    (logs.filter (watcher.asks watcher.topics)).length < (watcher.askedEach logs).length := by
  have htopics : watcher.topics ≠ [] := by
    intro hnil
    unfold selections at htwice
    rw [hnil] at htwice
    cases htopic : log.topic0 with
    | none => simp [htopic] at htwice
    | some t => simp [htopic] at htwice
  have hsubperm : (log :: logs.filter (watcher.asks watcher.topics)).Subperm
      (watcher.askedEach logs) := by
    rw [List.subperm_ext_iff]
    intro other hother
    rw [count_askedEach]
    have hasks' : watcher.asks watcher.topics other = true := by
      rcases List.mem_cons.mp hother with rfl | hmem
      · exact hasks
      · exact (List.mem_filter.mp hmem).2
    have hpos := (asks_topics htopics).mp hasks'
    rw [List.count_cons, List.count_filter hasks']
    by_cases heq : log = other
    · subst heq
      have hcount : 0 < logs.count log := List.count_pos_iff.mpr hlog
      have hmul : 2 * logs.count log ≤ watcher.selections log * logs.count log :=
        Nat.mul_le_mul_right _ htwice
      simp only [BEq.rfl, if_true]
      omega
    · have hmul : 1 * logs.count other ≤ watcher.selections other * logs.count other :=
        Nat.mul_le_mul_right _ hpos
      simp only [beq_iff_eq, heq, if_false]
      omega
  have hlength := hsubperm.length_le
  rw [List.length_cons] at hlength
  exact hlength

end Deliver

/-- If a filter keeps no more than a stricter one, they keep the same. -/
private theorem filter_imp_of_length_eq {α : Type} {p q : α → Bool} {l : List α}
    (himp : ∀ a ∈ l, p a = true → q a = true)
    (hlength : (l.filter p).length = (l.filter q).length) :
    ∀ a ∈ l, q a = true → p a = true := by
  have hsublist : (l.filter p).Sublist (l.filter q) := by
    have hboth : l.filter p = (l.filter q).filter p := by
      rw [List.filter_filter]
      refine List.filter_congr fun a ha => ?_
      cases hp : p a with
      | false => rfl
      | true => simp [himp a ha hp]
    rw [hboth]
    exact List.filter_sublist
  intro a ha hq
  have hmem : a ∈ l.filter p := by
    rw [hsublist.eq_of_length hlength]
    exact List.mem_filter.mpr ⟨ha, hq⟩
  exact (List.mem_filter.mp hmem).2

/-- **When the three ways of fetching the logs of a block agree.**  With every query answered below
the limit, the single query, one query per topic and the complete set filtered by the client deliver
the same events, in an order the state machine accepts, exactly if the node selects no log the
client does not watch, and none with a topic that is listed twice; or if a watched log cannot be
decoded, and all three fail. -/
theorem strategies_agree_iff (events : Events E) (keccak256 : Bytes → B256)
    (watcher : EventWatcher) (block : BlockLogs) (blockTimestamps : Table Nat Nat)
    (blocks : BlockFilter) (blockHash : B256) (single multiple client : Answers)
    (hsingle : Serves single blocks block.logs) (hmultiple : Serves multiple blocks block.logs)
    (hclient : Serves client (.hash blockHash) block.logs)
    (hlimit : BelowLimit watcher block.logs) :
    (∃ result, delivered events keccak256 watcher single blockTimestamps (.singleQuery blocks) =
        result ∧
      delivered events keccak256 watcher multiple blockTimestamps (.multipleQueries blocks) =
        result ∧
      delivered events keccak256 watcher client blockTimestamps
          (.clientFiltered blockHash (Bloom.computeLogsBloom keccak256 block.logs)) = result ∧
      ∀ logs ∈ result, StateMachine.isSorted logs = true ∧
        ∀ log ∈ logs, log.block.number = block.number) ↔
    (∀ log ∈ block.logs, watcher.asks watcher.topics log = true →
      watcher.isWatched log = true ∧ ∀ topic ∈ log.topic0, watcher.topics.count topic = 1) ∨
    ∃ log ∈ block.logs, watcher.isWatched log = true ∧
      decode events blockTimestamps log = none := by
  obtain ⟨fetched₁, hfetch₁, hperm₁⟩ :=
    fetchLogs_single_serves keccak256 hsingle hlimit
  obtain ⟨fetched₂, hfetch₂, hperm₂⟩ :=
    fetchLogs_multiple_serves keccak256 hmultiple hlimit
  obtain ⟨fetched₃, hfetch₃, hperm₃⟩ :=
    fetchLogs_client_serves keccak256 watcher hclient
  rw [delivered_of_fetched hfetch₁, delivered_of_fetched hfetch₂, delivered_of_fetched hfetch₃,
    decodeAndSort_perm hperm₁ (block.places_nodup_filter _),
    decodeAndSort_perm hperm₃ (block.places_nodup_filter _)]
  constructor
  · rintro ⟨result, hresult₁, hresult₂, hresult₃, -⟩
    by_cases hdecodable : Decodable events blockTimestamps (block.logs.filter watcher.isWatched)
    · rw [decodeAndSort_ok hdecodable] at hresult₃
      cases hresult₃
      obtain ⟨hd₁, heq₁⟩ := decodeAndSort_eq_ok.mp (toOption_eq_some.mp hresult₁)
      obtain ⟨hd₂, heq₂⟩ := decodeAndSort_eq_ok.mp (toOption_eq_some.mp hresult₂)
      have hlength₁ := congrArg List.length heq₁
      have hlength₂ := congrArg List.length heq₂
      rw [length_decoded hdecodable, length_decoded hd₁] at hlength₁
      rw [length_decoded hdecodable, length_decoded hd₂, hperm₂.length_eq] at hlength₂
      refine .inl fun log hlog hasks => ?_
      have hwatched := filter_imp_of_length_eq (fun log _ => asks_of_isWatched) hlength₁ log hlog
        hasks
      refine ⟨hwatched, fun topic htopic => ?_⟩
      rw [← selections_eq_count hwatched htopic]
      have hpos := selections_of_isWatched hwatched
      by_contra hne
      have hlt := length_lt_askedEach hlog hasks (by omega : 1 < watcher.selections log)
      omega
    · refine .inr ?_
      unfold Decodable at hdecodable
      push Not at hdecodable
      obtain ⟨log, hlog, hnone⟩ := hdecodable
      obtain ⟨hlog, hwatched⟩ := List.mem_filter.mp hlog
      exact ⟨log, hlog, hwatched, by simpa using hnone⟩
  · rintro (hselect | ⟨log, hlog, hwatched, hnone⟩)
    · -- all three select the watched logs, each once
      have hsame : block.logs.filter (watcher.asks watcher.topics) =
          block.logs.filter watcher.isWatched := by
        refine List.filter_congr fun log hlog => ?_
        rw [Bool.eq_iff_iff]
        exact ⟨fun hasks => (hselect log hlog hasks).1, asks_of_isWatched⟩
      have honce : ∀ log ∈ block.logs, watcher.asks watcher.topics log = true →
          watcher.selections log = 1 := by
        intro log hlog hasks
        obtain ⟨hwatched, hcount⟩ := hselect log hlog hasks
        cases htopic : log.topic0 with
        | none => simp [isWatched, htopic] at hwatched
        | some topic => rw [selections_eq_count hwatched htopic, hcount topic htopic]
      refine ⟨_, rfl, ?_, by rw [hsame], ?_⟩
      · exact decodeAndSort_perm (hperm₂.trans (askedEach_perm honce)) (block.places_nodup_filter _)
      · intro logs hlogs
        obtain ⟨-, rfl⟩ := decodeAndSort_eq_ok.mp (toOption_eq_some.mp hlogs)
        refine ⟨isSorted_decoded (block.places_nodup_filter _), fun event hevent => ?_⟩
        obtain ⟨log, hlog, hdecode⟩ := List.mem_filterMap.mp (List.mem_sortByKey.mp hevent)
        have hnumber := block.numbered log (List.mem_filter.mp hlog).1
        rw [(position_decode hdecode).1] at hnumber
        exact Option.some.inj hnumber
    · have hasks := asks_of_isWatched hwatched
      have hmem₂ : log ∈ fetched₂ := by
        rw [hperm₂.mem_iff, ← List.count_pos_iff, count_askedEach]
        exact Nat.mul_pos (selections_of_isWatched hwatched) (List.count_pos_iff.mpr hlog)
      refine ⟨none, ?_, decodeAndSort_none hmem₂ hnone, ?_, nofun⟩
      · exact decodeAndSort_none (List.mem_filter.mpr ⟨hlog, hasks⟩) hnone
      · exact decodeAndSort_none (List.mem_filter.mpr ⟨hlog, hwatched⟩) hnone

/-! ### Tokens

Transfers of fungible and of other tokens have the same signature hash.
-/

/-- The transfers of two kinds of tokens. -/
inductive TokenEvents where
  | erc20 (amount : B256)
  | erc721 (tokenId : B256)
deriving DecidableEq, Repr

/-- `keccak256("Transfer(address,address,uint256)")`. -/
def transferTopic : B256 := 0xddf252ad1be2c89b69c2b068fc378daa952ba7f163c4a11628f55a4df523b3ef#256

/-- Two indexed arguments and a word of data. -/
def erc20Events : EventInterface TokenEvents where
  selectors := [transferTopic]
  decodeRawLog topics data :=
    match topics with
    | [topic, _, _] =>
        if topic = transferTopic ∧ data.length = 32 then
          some (.erc20 (BitVec.ofNat 256 (Bytes.value data)))
        else none
    | _ => none

/-- Three indexed arguments. -/
def erc721Events : EventInterface TokenEvents where
  selectors := [transferTopic]
  decodeRawLog topics data :=
    match topics with
    | [topic, _, _, tokenId] =>
        if topic = transferTopic ∧ data = [] then some (.erc721 tokenId) else none
    | _ => none

/-- A transfer of an amount. -/
def transferLog : Log where
  address := 0x11#160
  topics := [transferTopic, 1#256, 2#256]
  data := Bytes.word 5#256
  blockHash := some 0xb7#256
  blockNumber := some 7
  blockTimestamp := some 100
  logIndex := some 0

/-- The block with that transfer. -/
def transferBlock : BlockLogs where
  number := 7
  logs := [transferLog]
  numbered := by simp [transferLog]
  distinct := by simp

/-- A node that answers every query with the transfer if it matches. -/
def transferAnswers : Answers where
  getLogs _ filter := .ok ([transferLog].filter filter.accepts)
  getBlock _ := .missing
  firstFailure := 0

theorem transferAnswers_serves (blocks : BlockFilter) :
    Serves transferAnswers blocks transferBlock.logs :=
  fun _ _ _ => ⟨_, rfl, .refl _⟩

/-- The watcher with default settings. -/
def tokenWatcher (events : Events TokenEvents) : EventWatcher :=
  new events .default [0x11#160]

/-- The transfer as it is delivered. -/
def transferEvent : EventLog TokenEvents :=
  { block := ⟨7, 100⟩, index := 0, address := 0x11#160, data := .erc20 5#256 }

/-- The hash function on the address and the topics of the transfer. -/
def transferKeccak (bytes : Bytes) : B256 :=
  match Bytes.value bytes with
  | 0x11 => 0xc0f4fde474181fca3d1fb6e0dc118a71457fe7cc5d4f1e426c92e1767eb885a0#256
  | 1 => 0xb10e2d527612073b26eecdfd717e6a320cf44b4afac2b0732d9fcbe2b7fa0cf6#256
  | 2 => 0x405787fa12a823e0f2b7631cc41b3ba8828b3321ca811111fa75cd3aa3bb5ace#256
  | _ => 0xada389e1fc24a8587c776340efb91b36e675792ab631816100d55df0b5cf3cbc#256

/-- What is delivered of the block, by the way of fetching. -/
def deliveredTransfers (events : Events TokenEvents) (fetch : Fetch) :
    Option (List (EventLog TokenEvents)) :=
  delivered events transferKeccak (tokenWatcher events) transferAnswers .empty fetch

/-- **One query per topic delivers a transfer twice if both kinds of tokens are watched.** -/
theorem token_transfer_delivered_twice :
    let events := watcherEvents [erc20Events, erc721Events]
    Serves transferAnswers (.hash 0xb7#256) transferBlock.logs ∧
      BelowLimit (tokenWatcher events) transferBlock.logs ∧
      deliveredTransfers events (.singleQuery (.hash 0xb7#256)) = some [transferEvent] ∧
      deliveredTransfers events (.multipleQueries (.hash 0xb7#256)) =
        some [transferEvent, transferEvent] ∧
      StateMachine.isSorted [transferEvent, transferEvent] = false :=
  ⟨transferAnswers_serves _, nofun, by decide +kernel, by decide +kernel, by decide +kernel⟩

/-- Only the transfers of fungible tokens. -/
def erc20Only : Events TokenEvents := watcherEvents [erc20Events]

private theorem erc20_belowLimit : BelowLimit (tokenWatcher erc20Only) transferBlock.logs := by
  intro max hmax
  cases hmax

private theorem erc20_listed_once : ∀ log ∈ transferBlock.logs,
    (tokenWatcher erc20Only).asks (tokenWatcher erc20Only).topics log = true →
      (tokenWatcher erc20Only).isWatched log = true ∧
        ∀ topic ∈ log.topic0, (tokenWatcher erc20Only).topics.count topic = 1 := by
  intro log hlog _
  have hlog : log = transferLog := List.mem_singleton.mp hlog
  subst hlog
  refine ⟨by decide +kernel, fun topic htopic => ?_⟩
  have htopic : transferTopic = topic := Option.some.inj htopic
  subst htopic
  decide +kernel

/-- With one kind of tokens all three ways deliver the transfer. -/
theorem erc20_transfer_delivered_once :
    ∃ result, deliveredTransfers erc20Only (.singleQuery (.hash 0xb7#256)) = result ∧
      deliveredTransfers erc20Only (.multipleQueries (.hash 0xb7#256)) = result ∧
      deliveredTransfers erc20Only (.clientFiltered 0xb7#256
        (Bloom.computeLogsBloom transferKeccak transferBlock.logs)) = result ∧
      ∀ logs ∈ result, StateMachine.isSorted logs = true ∧
        ∀ log ∈ logs, log.block.number = transferBlock.number :=
  (strategies_agree_iff erc20Only transferKeccak (tokenWatcher erc20Only) transferBlock .empty
    (.hash 0xb7#256) 0xb7#256 transferAnswers transferAnswers transferAnswers
    (transferAnswers_serves _) (transferAnswers_serves _) (transferAnswers_serves _)
    erc20_belowLimit).mpr (.inl erc20_listed_once)

end Safenet.Core.EventWatcher
