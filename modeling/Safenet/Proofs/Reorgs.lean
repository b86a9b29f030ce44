/-
Execution marks under reorganizations.

A branch is the nonce of the account at each block.  Every status describes the branch that is canonical
then; before a status of a new branch there is one at or below the last block the two have in common, and
blocks up to the safe one are not replaced (`Faithful`).  The marks are then truthful on the branch, and
what is pruned was executed on it, provided that a call which is told of a reorganization is not stopped
before it has cleared the marks above it (`Clears`).  If it is, the marks stay, and the next start prunes
by them before it clears any.

Throughout a call the marks up to the latest block are true (`Follows`).  There are none above it from
the moment the others are cleared (`Settled`).
-/
import Safenet.Proofs.NonceAllocation

namespace Safenet.Core.Tx

namespace Queue

open Program

/-! ### Branches -/

/-- The nonce of the account at each block. -/
abbrev Branch := Nat → Nat

/-- What the queue was told last. -/
structure Chain where
  branch : Branch
  status : Option BlockStatus

def Chain.next (chain : Chain) (branch : Branch) : Input → Chain
  | .call (.updateBlockStatus status) _ _ => ⟨branch, some status⟩
  | _ => chain

/-- A status of the branch, after what the queue was told before, and the answers to its call.  Since the
safe block is below every reported one, it is final. -/
structure Describes (chain : Chain) (branch : Branch) (status : BlockStatus) (answers : Answers) :
    Prop where
  ordered : status.safe ≤ status.latest
  /-- A reorganization was reported by a status below it. -/
  reported : ∀ p, chain.status = some p → ∀ n ≤ status.latest, branch n = chain.branch n
  /-- The safe block does not move back. -/
  monotone : ∀ p, chain.status = some p → p.safe ≤ status.safe
  proofs : ∀ index n nonce codeHash, answers.getProof index (some n) = some (nonce, codeHash) →
    nonce = branch n

/-- Blocks up to the safe one are not replaced. -/
theorem Describes.final {chain : Chain} {branch : Branch} {status p : BlockStatus} {answers : Answers}
    (h : Describes chain branch status answers) (hp : chain.status = some p) {n : Nat} (hn : n ≤ p.safe) :
    branch n = chain.branch n :=
  h.reported p hp n (hn.trans ((h.monotone p hp).trans h.ordered))

/-- The inputs of a run, each with the branch that is canonical then. -/
def Faithful (chain : Chain) : List (Branch × Input) → Prop
  | [] => True
  | (branch, input) :: events =>
      (∀ status answers stopsAfter, input = .call (.updateBlockStatus status) answers stopsAfter →
        Describes chain branch status answers) ∧ Faithful (chain.next branch input) events

/-- The queue together with what it was told. -/
def track (setup : Setup) (state : Queue × Chain) (event : Branch × Input) : (Queue × Chain) × Output :=
  let result := step setup state.1 event.2
  ((result.1, state.2.next event.1 event.2), result.2)

abbrev TrackedStep := Trace.Step (Queue × Chain) (Branch × Input) Output

/-- How many statements a call takes until the marks are cleared. -/
def clearing (previous : Option BlockStatus) (status : BlockStatus) : Nat :=
  if previous.all (·.safe ≠ status.safe) then 2 else 1

/-- A call that is given a status below a mark is not stopped before it has cleared the marks. -/
def Clears (st : TrackedStep) : Prop :=
  ∀ status answers stopsAfter, st.input.2 = .call (.updateBlockStatus status) answers stopsAfter →
    (∃ row ∈ st.pre.1.storage.allocatedNonces.rows, ∃ block ∈ row.executedAt, status.latest < block) →
      ∀ n, stopsAfter = some n → clearing st.pre.1.blockStatus status ≤ n

/-! ### True marks -/

/-- The nonce is used at the block, unless the block is above the latest one. -/
def TrueBelow (latest : Nat) (branch : Branch) (nonce block : Nat) : Prop :=
  block ≤ latest → nonce < branch block

/-- Every nonce the account has moved past is marked. -/
def AllMarked (storage : Storage) (nonce : Nat) : Prop :=
  ∀ row ∈ storage.allocatedNonces.rows, row.nonce < nonce → row.executedAt ≠ none

/-- What a call has executed so far, with true marks all the time. -/
structure Follows (start : Storage) (status : BlockStatus) (branch : Branch) (frame : Frame) : Prop where
  storage : frame.queue.storage = Trace.final Storage.step start frame.statements
  during : ∀ d ∈ Trace.trace Storage.step start frame.statements,
    d.pre.Marked (TrueBelow status.latest branch)
  truthful : frame.queue.storage.Marked (TrueBelow status.latest branch)
  fits : frame.queue.storage.Marked fun _ block => block < 2 ^ 63
  known : frame.queue.blockStatus = some status

/-- No mark is above the latest block any more. -/
structure Settled (start : Storage) (status : BlockStatus) (branch : Branch) (frame : Frame) : Prop
    extends Follows start status branch frame where
  bound : frame.queue.storage.Marked fun _ block => block ≤ status.latest

variable {env : Env} {start : Storage} {status : BlockStatus} {branch : Branch} {frame : Frame}

theorem Follows.record (h : Follows start status branch frame) {statement : Storage.Statement}
    (hnew : statement.IsNew)
    (hmark : ∀ placed, statement = .markExecuted placed → placed = ⟨status.latest, branch status.latest⟩) :
    Follows start status branch (frame.record statement) := by
  have hsteps := Storage.step_changes hnew frame.queue.storage
  refine ⟨?_, ?_, ?_, ?_, h.known⟩
  · rw [Frame.record_storage, Frame.record_statements, Trace.final_concat, ← h.storage]
  · intro d hd
    rw [Frame.record_statements, Trace.trace_concat] at hd
    rcases List.mem_append.mp hd with hold | hlast
    · exact h.during d hold
    · rw [List.mem_singleton.mp hlast, Trace.take_pre, ← h.storage]
      exact h.truthful
  · rw [Frame.record_storage]
    rcases hsteps with ⟨reply, -, hchanges⟩ | ⟨-, hsame⟩
    · refine h.truthful.changes hchanges fun placed heq nonce hlt _ => ?_
      rw [hmark placed heq] at hlt ⊢
      exact hlt
    · rw [hsame]
      exact h.truthful
  · rw [Frame.record_storage]
    rcases hsteps with ⟨reply, -, hchanges⟩ | ⟨-, hsame⟩
    · refine h.fits.changes hchanges fun placed heq nonce _ => ?_
      subst heq
      cases hchanges with
      | markExecuted _ hblock hrows hnonces => exact hblock
    · rw [hsame]
      exact h.fits

theorem Settled.record (h : Settled start status branch frame) {statement : Storage.Statement}
    (hnew : statement.IsNew)
    (hmark : ∀ placed, statement = .markExecuted placed → placed = ⟨status.latest, branch status.latest⟩) :
    Settled start status branch (frame.record statement) := by
  refine ⟨h.toFollows.record hnew hmark, ?_⟩
  rw [Frame.record_storage]
  rcases Storage.step_changes hnew frame.queue.storage with ⟨reply, -, hchanges⟩ | ⟨-, hsame⟩
  · refine h.bound.changes hchanges fun placed heq nonce _ => ?_
    rw [hmark placed heq]
  · rw [hsame]
    exact h.bound

/-! ### Every nonce below that of the account is marked -/

theorem AllMarked.changes {storage storage' : Storage} {nonce : Nat} {statement : Storage.Statement}
    {reply : Storage.Reply} (h : AllMarked storage nonce)
    (hchanges : Storage.Changes storage storage' statement reply)
    (hkeeps : ∀ block, statement ≠ .unmarkExecuted block)
    (habove : ∀ status bundler, statement = .nextTransaction status bundler → nonce ≤ status.nonce) :
    AllMarked storage' nonce := by
  intro row' hrow' hlt
  rcases hchanges.marks hrow' with ⟨row, hrow, hnonce, hmark⟩ | ⟨-, -, status, bundler, hstatement, hle⟩
  · have hsome := h row hrow (by omega)
    rw [hmark]
    unfold Storage.Statement.mark
    split
    · split
      · simp
      · exact hsome
    · exact absurd rfl (hkeeps _)
    · exact hsome
  · have := habove status bundler hstatement
    omega

theorem allMarked_markExecuted {storage storage' : Storage} {status : Status} {reply : Storage.Reply}
    (hchanges : Storage.Changes storage storage' (.markExecuted status) reply) :
    AllMarked storage' status.nonce := by
  intro row' hrow' hlt
  rcases hchanges.marks hrow' with ⟨row, hrow, hnonce, hmark⟩ | ⟨-, -, other, bundler, hstatement, -⟩
  · rw [hmark]
    unfold Storage.Statement.mark
    dsimp only
    cases hexecuted : row.executedAt with
    | none =>
        rw [if_pos (by simp only [Option.isNone_none, Bool.and_true, decide_eq_true_eq]; omega)]
        exact Option.some_ne_none _
    | some block =>
        rw [if_neg (by simp)]
        exact Option.some_ne_none _
  · cases hstatement

/-- If nothing is outstanding, everything is marked. -/
theorem allMarked_of_countOutstanding {storage : Storage} {block count : Nat}
    (h : storage.countOutstanding block = .ok count) (hcount : ¬0 < count) (nonce : Nat) :
    AllMarked storage nonce := by
  obtain ⟨block', -, h⟩ := Fallible.bind_eq_ok.mp h
  have hsum := Fallible.pure_eq_ok.mp h
  have hnil : storage.allocatedNonces.rows.filter (·.executedAt.isNone) = [] := by
    apply List.eq_nil_of_length_eq_zero
    omega
  intro row hrow _ hnone
  exact List.filter_eq_nil_iff.mp hnil row hrow (by rw [hnone]; rfl)

/-! ### A new block -/

/-- The account is seen at the latest block. -/
structure Sighted (start : Storage) (status : BlockStatus) (branch : Branch) (frame : Frame) : Prop
    extends Settled start status branch frame where
  cache : ∀ account, frame.queue.accountCache = some account → account.nonce = branch status.latest

/-- The process ended, or the database refused a statement. -/
def Halt.isStop : Halt → Bool
  | .stopped | .storage _ => true
  | .rpc | .signing => false

section NewBlock

variable (hproofs : ∀ index n nonce codeHash,
  env.answers.getProof index (some n) = some (nonce, codeHash) → nonce = branch n)

include hproofs

theorem respects_sighted (Q : Storage → Prop) :
    Respects env (fun account => account.nonce = branch status.latest)
      (fun frame => Sighted start status branch frame ∧ Q frame.queue.storage) where
  quiet frame frame' hstatements hstorage hstatus hcache h := by
    obtain ⟨⟨⟨⟨hfinal, hduring, htruthful, hfits, hknown⟩, hbound⟩, haccount⟩, hQ⟩ := h
    refine ⟨⟨⟨⟨?_, ?_, ?_, ?_, ?_⟩, ?_⟩, ?_⟩, ?_⟩
    · rw [hstorage, hstatements, hfinal]
    · rw [hstatements]
      exact hduring
    · rw [hstorage]
      exact htruthful
    · rw [hstorage]
      exact hfits
    · rw [hstatus, hknown]
    · rw [hstorage]
      exact hbound
    · rw [hcache]
      exact haccount
    · rw [hstorage]
      exact hQ
  cached frame account h hcache := h.1.cache account hcache
  answered frame index nonce codeHash h hanswer := by
    rw [h.1.known] at hanswer
    have hnonce := hproofs index _ nonce codeHash hanswer
    obtain ⟨⟨⟨⟨hfinal, hduring, htruthful, hfits, hknown⟩, hbound⟩, -⟩, hQ⟩ := h
    refine ⟨hnonce, ⟨⟨⟨hfinal, hduring, htruthful, hfits, hknown⟩, hbound⟩, fun account hcache => ?_⟩, hQ⟩
    cases hcache
    exact hnonce

/-- The first request for a new block is for the account. -/
theorem triple_firstAccount :
    Triple (fun frame => Sighted start status branch frame ∧ frame.queue.accountCache = none ∧
        frame.requests = 0) (account env)
      (fun account frame => account.nonce = branch status.latest ∧ Sighted start status branch frame)
      (fun _ frame => Settled start status branch frame ∧
        env.answers.getProof 0 (some status.latest) = none) := by
  refine triple_get_bind fun frame => ?_
  cases hcache : frame.queue.accountCache with
  | some cached =>
      intro s hs
      obtain ⟨⟨-, hnone, -⟩, rfl⟩ := hs
      rw [hcache] at hnone
      cases hnone
  | none =>
      have hrespects : Respects env (fun account => account.nonce = branch status.latest)
          (fun frame => Sighted start status branch frame ∧ True) := respects_sighted hproofs fun _ => True
      refine triple_bind (Q := fun index s => index = 0 ∧ Sighted start status branch s) ?_ fun index => ?_
      · refine triple_get_bind fun asked => ?_
        refine triple_bind (Q := fun _ s => asked.requests = 0 ∧ Sighted start status branch s)
          (triple_set fun s hs => ?_) fun _ => triple_pure fun s hs => hs
        obtain ⟨⟨⟨hsighted, -, hrequests⟩, -⟩, rfl⟩ := hs
        have hquiet := hrespects.quiet s { s with requests := s.requests + 1 } rfl rfl rfl rfl
          ⟨hsighted, trivial⟩
        exact ⟨hrequests, hquiet.1⟩
      · refine triple_get_bind fun asked => ?_
        cases hproof : env.answers.getProof index (asked.queue.blockStatus.map BlockStatus.latest) with
        | none =>
            refine triple_throw fun s hs => ?_
            obtain ⟨⟨rfl, hsighted⟩, rfl⟩ := hs
            rw [hsighted.known] at hproof
            exact ⟨hsighted.toSettled, hproof⟩
        | some proof =>
            obtain ⟨nonce, codeHash⟩ := proof
            refine triple_bind (Q := fun _ s => nonce = branch status.latest ∧
              Sighted start status branch s) (triple_set fun s hs => ?_) fun _ => triple_pure fun s hs => hs
            obtain ⟨⟨-, hsighted⟩, rfl⟩ := hs
            have hanswered := hrespects.answered s index nonce codeHash ⟨hsighted, trivial⟩ hproof
            exact ⟨hanswered.1, hanswered.2.1⟩

/-- **A new block:** if the account is answered for, and the call is not stopped, every nonce it has moved
past is marked. -/
theorem triple_advance :
    Triple (fun frame => Sighted start status branch frame ∧ frame.queue.accountCache = none ∧
        frame.requests = 0) (advance env status.latest)
      (fun _ frame => Settled start status branch frame ∧
        AllMarked frame.queue.storage (branch status.latest))
      (fun halt frame => Settled start status branch frame ∧
        (env.answers.getProof 0 (some status.latest) ≠ none → halt.isStop = false →
          AllMarked frame.queue.storage (branch status.latest))) := by
  have hexit : ∀ halt (s : Frame), (Settled start status branch s ∧
      env.answers.getProof 0 (some status.latest) = none) → Settled start status branch s ∧
        (env.answers.getProof 0 (some status.latest) ≠ none → Halt.isStop halt = false →
          AllMarked s.queue.storage (branch status.latest)) :=
    fun halt s hs => ⟨hs.1, fun hsome => absurd hs.2 hsome⟩
  refine triple_bind (Q := fun account frame => account.nonce = branch status.latest ∧
    Sighted start status branch frame) (triple_weaken (triple_firstAccount hproofs) (fun _ hs => hs)
      (fun _ _ hs => hs) hexit) fun account => ?_
  let I : Frame → Prop := fun frame => Sighted start status branch frame ∧
    AllMarked frame.queue.storage (branch status.latest)
  have hrespects : Respects env (fun account => account.nonce = branch status.latest) I :=
    respects_sighted hproofs fun storage => AllMarked storage (branch status.latest)
  have hkeeps : ∀ statement : Storage.Statement, statement.IsNew →
      (∀ placed, statement ≠ .markExecuted placed) → (∀ block, statement ≠ .unmarkExecuted block) →
      (∀ seen bundler, statement = .nextTransaction seen bundler → branch status.latest ≤ seen.nonce) →
        Keeps I (execute env statement) := by
    intro statement hnew hmark hunmark hnext
    have hrecord : ∀ frame, I frame → I (frame.record statement) := by
      intro frame h
      refine ⟨⟨h.1.toSettled.record hnew fun placed heq => absurd heq (hmark placed), h.1.cache⟩, ?_⟩
      rw [Frame.record_storage]
      rcases Storage.step_changes hnew frame.queue.storage with ⟨reply, -, hchanges⟩ | ⟨-, hsame⟩
      · exact h.2.changes hchanges hunmark hnext
      · rw [hsame]
        exact h.2
    exact triple_execute (fun _ h _ => h) (fun frame _ h _ => hrecord frame h)
      fun frame _ h _ => hrecord frame h
  have hrecover : ∀ nonce, Keeps I (execute env (.recoverAuthorizationGap nonce)) :=
    fun nonce => hkeeps _ trivial (by simp) (by simp) (by simp)
  have hsubmission : ∀ submission, Keeps I (execute env (.recordSubmission submission)) :=
    fun submission => hkeeps _ trivial (by simp) (by simp) (by simp)
  have hnext : ∀ account : AccountStatus, account.nonce = branch status.latest →
      Keeps I (execute env (.nextTransaction ⟨status.latest, account.nonce⟩ (bundler env account))) := by
    intro account haccount
    refine hkeeps _ (bundler_isNew env account) (by simp) (by simp) fun seen bundler heq => ?_
    cases heq
    exact Nat.le_of_eq haccount.symm
  refine triple_bind (Q := fun _ => I) ?_ fun _ => ?_
  · have hsettled : ∀ frame : Frame, account.nonce = branch status.latest →
        Sighted start status branch frame →
          Settled start status branch (frame.record (.markExecuted ⟨status.latest, account.nonce⟩)) := by
      intro frame haccount h
      refine h.toSettled.record trivial fun placed heq => ?_
      cases heq
      rw [haccount]
    refine triple_execute (fun frame h _ => ⟨h.2.toSettled, fun _ hstop => by cases hstop⟩) ?_ ?_
    · intro frame reply h hreply
      refine ⟨⟨hsettled frame h.1 h.2, h.2.cache⟩, ?_⟩
      have hnew : (Storage.Statement.markExecuted ⟨status.latest, account.nonce⟩).IsNew := trivial
      rcases Storage.step_changes hnew frame.queue.storage with
        ⟨reply', -, hchanges⟩ | ⟨⟨error, herror⟩, -⟩
      · rw [← h.1]
        exact allMarked_markExecuted hchanges
      · rw [hreply] at herror
        cases herror
    · intro frame error h _
      exact ⟨hsettled frame h.1 h.2, fun _ hstop => by cases hstop⟩
  · have hrest : Keeps I (execute env (.recoverAuthorizationGap account.nonce) >>= fun _ =>
        resubmitStale env status.latest >>= fun _ => submitPending env status.latest) :=
      keeps_bind (hrecover account.nonce) fun _ =>
        keeps_bind (keeps_resubmitStale hrespects hsubmission status.latest) fun _ =>
          keeps_submitPending hrespects hsubmission hnext
    exact triple_weaken hrest (fun _ hs => hs) (fun _ s hs => ⟨hs.1.toSettled, hs.2⟩)
      fun halt s hs => ⟨hs.1.toSettled, fun _ _ => hs.2⟩

end NewBlock

/-! ### A call -/

/-- The status was taken note of, and the marks are still what they were; `high` says that there is one
above the latest block. -/
structure Told (start : Storage) (previous : Option BlockStatus) (status : BlockStatus)
    (branch : Branch) (high : Prop) (frame : Frame) : Prop extends Follows start status branch frame where
  before : ∀ p, previous = some p → frame.queue.storage.Marked fun _ block => block ≤ p.latest
  low : ¬high → frame.queue.storage.Marked fun _ block => block ≤ status.latest
  cache : previous.all (·.latest < status.latest) = true → frame.queue.accountCache = none
  requests : frame.requests = 0

variable {previous : Option BlockStatus} {high : Prop}

theorem Told.settled (h : Told start previous status branch high frame) (hlow : ¬high) :
    Settled start status branch frame :=
  ⟨h.toFollows, h.low hlow⟩

theorem Told.record (h : Told start previous status branch high frame) {statement : Storage.Statement}
    (hnew : statement.IsNew) (hmark : ∀ placed, statement ≠ .markExecuted placed) :
    Told start previous status branch high (frame.record statement) := by
  have hkeeps : ∀ P : Nat → Nat → Prop, frame.queue.storage.Marked P →
      (frame.record statement).queue.storage.Marked P := by
    intro P hP
    rw [Frame.record_storage]
    rcases Storage.step_changes hnew frame.queue.storage with ⟨reply, -, hchanges⟩ | ⟨-, hsame⟩
    · exact hP.changes hchanges fun placed heq => absurd heq (hmark placed)
    · rw [hsame]
      exact hP
  refine ⟨h.toFollows.record hnew fun placed heq => absurd heq (hmark placed), fun p hp => ?_,
    fun hlow => ?_, h.cache, h.requests⟩
  · exact hkeeps _ (h.before p hp)
  · exact hkeeps _ (h.low hlow)

theorem step_prune_error {storage : Storage} {safe : Nat} {error : Storage.Error}
    (h : (storage.step (.prune safe)).2 = .error error) : 2 ^ 63 ≤ safe := by
  by_contra hlt
  have hok : Storage.toI64 safe = .ok safe := if_pos (by omega)
  simp [Storage.step, Storage.execute, Storage.prune, hok] at h

theorem step_unmark_error {storage : Storage} {block : Nat} {error : Storage.Error}
    (h : (storage.step (.unmarkExecuted block)).2 = .error error) : 2 ^ 63 ≤ block := by
  by_contra hlt
  have hok : Storage.toI64 block = .ok block := if_pos (by omega)
  simp [Storage.step, Storage.execute, Storage.unmarkExecuted, hok] at h

/-- How a call may be left before the marks are cleared: only if there is nothing to clear. -/
def LeftEarly (start : Storage) (status : BlockStatus) (branch : Branch) (halt : Halt) (frame : Frame) :
    Prop :=
  Settled start status branch frame ∧ halt.isStop = true

section Clearing

variable (hordered : status.safe ≤ status.latest)
  (hhigh : high → status.latest + 1 < 2 ^ 63 ∧
    ∀ n, env.stopsAfter = some n → clearing previous status ≤ n)

include hordered hhigh

theorem triple_pruneStorage_told :
    Triple (fun frame => Told start previous status branch high frame ∧ frame.statements = [])
      (pruneStorage env previous status)
      (fun _ frame => Told start previous status branch high frame ∧
        frame.statements.length + 1 = clearing previous status ∧
        (previous = none → status.safe < 2 ^ 63 ∧
          frame.queue.storage.Marked fun _ block => status.safe < block))
      (LeftEarly start status branch) := by
  have hnew : (Storage.Statement.prune status.safe).IsNew := trivial
  unfold pruneStorage clearing
  split
  · next hmoved =>
      refine triple_bind (Q := fun _ frame => Told start previous status branch high frame ∧
        frame.statements.length + 1 = 2 ∧ (previous = none → status.safe < 2 ^ 63 ∧
          frame.queue.storage.Marked fun _ block => status.safe < block)) ?_
        fun _ => triple_pure fun _ hs => hs
      refine triple_execute ?_ ?_ ?_
      · intro frame h hstops
        refine ⟨h.1.settled fun hmark => ?_, rfl⟩
        have hle := (hhigh hmark).2 _ hstops
        rw [h.2, clearing, if_pos hmoved] at hle
        cases hle
      · intro frame reply h hreply
        refine ⟨h.1.record hnew (by simp), by rw [Frame.record_statements, h.2]; rfl, fun _ => ?_⟩
        rcases Storage.step_changes hnew frame.queue.storage with
          ⟨reply', -, hchanges⟩ | ⟨⟨error, herror⟩, -⟩
        · refine ⟨?_, (h.1.fits.prune hchanges).imp fun _ _ hmark => hmark.2⟩
          cases hchanges with
          | prune _ hsafe hnonces hrows => exact hsafe
        · rw [hreply] at herror
          cases herror
      · intro frame error h herror
        refine ⟨(h.1.record hnew (by simp)).settled fun hmark => ?_, rfl⟩
        have := step_prune_error herror
        have := (hhigh hmark).1
        omega
  · next hsame =>
      refine triple_pure fun frame h => ⟨h.1, by rw [h.2]; rfl, fun hnone => ?_⟩
      rw [hnone] at hsame
      exact absurd rfl hsame

theorem triple_unmarkReplaced_told :
    Triple (fun frame => Told start previous status branch high frame ∧
        frame.statements.length + 1 = clearing previous status ∧
        (previous = none → status.safe < 2 ^ 63 ∧
          frame.queue.storage.Marked fun _ block => status.safe < block))
      (unmarkReplaced env previous status)
      (fun _ frame => Told start previous status branch high frame ∧ Settled start status branch frame)
      (LeftEarly start status branch) := by
  unfold unmarkReplaced
  split
  · next block hblock =>
      have hnew : (Storage.Statement.unmarkExecuted block).IsNew := trivial
      refine triple_bind (Q := fun _ frame => Told start previous status branch high frame ∧
        Settled start status branch frame) ?_ fun _ => triple_pure fun _ hs => hs
      refine triple_execute ?_ ?_ ?_
      · intro frame h hstops
        refine ⟨h.1.settled fun hmark => ?_, rfl⟩
        have hle := (hhigh hmark).2 _ hstops
        omega
      · intro frame reply h hreply
        have htold := h.1.record hnew (by simp)
        refine ⟨htold, htold.toFollows, ?_⟩
        rw [Frame.record_storage]
        rcases Storage.step_changes hnew frame.queue.storage with
          ⟨reply', -, hchanges⟩ | ⟨⟨error, herror⟩, -⟩
        · have hcleared := marked_unmarkFrom hblock (fun hnone => (h.2.2 hnone).2) h.1.fits hchanges
          exact hcleared.imp fun _ _ hmark => hmark.2
        · rw [hreply] at herror
          cases herror
      · intro frame error h herror
        refine ⟨(h.1.record hnew (by simp)).settled fun hmark => ?_, rfl⟩
        -- the block fits, because a mark above it does
        have hlarge := step_unmark_error herror
        have hfits := (hhigh hmark).1
        have hle : block ≤ status.latest + 1 := by
          unfold unmarkFrom at hblock
          split at hblock
          · split at hblock
            · cases hblock
              omega
            · cases hblock
          · split at hblock
            · split at hblock
              · cases hblock
                exact Nat.le_refl _
              · cases hblock
            · cases hblock
        omega
  · next hblock =>
      refine triple_pure fun frame h => ⟨h.1, h.1.toFollows, ?_⟩
      exact marked_of_unmarkFrom hblock h.1.fits h.1.before fun hnone => (h.2.2 hnone).1

end Clearing

/-- Every mark is at or below the latest block the queue was told of, and true on its branch. -/
structure Truthful (state : Queue × Chain) : Prop where
  fits : state.1.storage.Marked fun _ block => block < 2 ^ 63
  told : ∀ status, state.1.blockStatus = some status → state.2.status = some status
  marks : state.1.storage.Marked fun nonce block =>
    (∃ status, state.2.status = some status ∧ block ≤ status.latest) ∧ nonce < state.2.branch block

/-- There is a mark above the latest block. -/
def IsHigh (storage : Storage) (status : BlockStatus) : Prop :=
  ∃ row ∈ storage.allocatedNonces.rows, ∃ block ∈ row.executedAt, status.latest < block

section Call

variable {queue : Queue} {chain : Chain}

/-- The marks a call starts from. -/
theorem Truthful.atStart (h : Truthful (queue, chain)) {answers : Answers}
    (hdescribes : Describes chain branch status answers) :
    queue.storage.Marked (TrueBelow status.latest branch) ∧
      (¬IsHigh queue.storage status → queue.storage.Marked fun _ block => block ≤ status.latest) ∧
      ∀ p, queue.blockStatus = some p → queue.storage.Marked fun _ block => block ≤ p.latest := by
  refine ⟨?_, fun hlow row hrow block hblock => ?_, fun p hp => ?_⟩
  · refine h.marks.imp fun nonce block hmark hle => ?_
    obtain ⟨⟨p, hp, -⟩, hlt⟩ := hmark
    rw [hdescribes.reported p hp block hle]
    exact hlt
  · by_contra hlt
    exact hlow ⟨row, hrow, block, hblock, Nat.not_le.mp hlt⟩
  · refine h.marks.imp fun nonce block hmark => ?_
    obtain ⟨⟨told, htold, hle⟩, -⟩ := hmark
    have hsame := h.told p hp
    dsimp only at hsame htold
    rw [hsame] at htold
    cases htold
    exact hle

/-- **A call that is given a status:** its marks are true and none is above the latest block, however it
ends; and every nonce the account has moved past is marked if the block is new and the account was
answered for. -/
theorem triple_updateBlockStatus_told (h : Truthful (queue, chain))
    (hdescribes : Describes chain branch status env.answers)
    (hclears : IsHigh queue.storage status →
      ∀ n, env.stopsAfter = some n → clearing queue.blockStatus status ≤ n) :
    Triple (fun frame => frame = ⟨queue, [], 0⟩) (updateBlockStatus env status)
      (fun _ frame => Settled queue.storage status branch frame ∧
        (queue.blockStatus.all (·.latest < status.latest) = true →
          AllMarked frame.queue.storage (branch status.latest)))
      (fun halt frame => Settled queue.storage status branch frame ∧
        (queue.blockStatus.all (·.latest < status.latest) = true →
          env.answers.getProof 0 (some status.latest) ≠ none → halt.isStop = false →
            AllMarked frame.queue.storage (branch status.latest))) := by
  obtain ⟨htruthful, hlow, hbefore⟩ := h.atStart hdescribes
  have hhigh : IsHigh queue.storage status → status.latest + 1 < 2 ^ 63 ∧
      ∀ n, env.stopsAfter = some n → clearing queue.blockStatus status ≤ n := by
    intro hmark
    refine ⟨?_, hclears hmark⟩
    obtain ⟨row, hrow, block, hblock, hlt⟩ := hmark
    have : block < 2 ^ 63 := h.fits row hrow block hblock
    omega
  refine triple_get_bind fun frame => ?_
  by_cases hframe : frame = ⟨queue, [], 0⟩
  swap
  · intro s hs
    exact absurd (hs.2.symm.trans hs.1) hframe
  subst hframe
  dsimp only
  split
  · next hsame =>
      refine triple_pure fun s hs => ?_
      obtain ⟨rfl, -⟩ := hs
      refine ⟨⟨⟨rfl, fun d hd => (by cases hd), htruthful, h.fits, hsame⟩, hbefore status hsame⟩, ?_⟩
      intro hnew
      rw [hsame] at hnew
      simp at hnew
  · refine triple_bind (Q := fun _ s => Told queue.storage queue.blockStatus status branch
      (IsHigh queue.storage status) s ∧ s.statements = []) ?_ fun _ => ?_
    · refine triple_get_bind fun before => triple_set fun s hs => ?_
      obtain ⟨⟨rfl, -⟩, rfl⟩ := hs
      refine ⟨⟨⟨rfl, fun d hd => (by cases hd), htruthful, h.fits, rfl⟩, hbefore, hlow, fun hnew => ?_,
        rfl⟩, rfl⟩
      dsimp only at hnew ⊢
      rw [if_pos]
      cases hprevious : queue.blockStatus with
      | none => rfl
      | some p =>
          rw [hprevious] at hnew
          simp only [Option.all_some, decide_eq_true_eq] at hnew ⊢
          omega
    · have hexit : ∀ halt (s : Frame), LeftEarly queue.storage status branch halt s →
          Settled queue.storage status branch s ∧
            (queue.blockStatus.all (·.latest < status.latest) = true →
              env.answers.getProof 0 (some status.latest) ≠ none → Halt.isStop halt = false →
                AllMarked s.queue.storage (branch status.latest)) := by
        intro halt s hs
        refine ⟨hs.1, fun _ _ hgoes => ?_⟩
        rw [hs.2] at hgoes
        cases hgoes
      refine triple_bind (triple_weaken (triple_pruneStorage_told hdescribes.ordered hhigh) (fun _ hs => hs)
        (fun _ _ hs => hs) hexit) fun _ => ?_
      refine triple_bind (triple_weaken (triple_unmarkReplaced_told hdescribes.ordered hhigh)
        (fun _ hs => hs) (fun _ _ hs => hs) hexit) fun _ => ?_
      unfold advanceIfNew
      split
      · next hnew =>
          refine triple_bind (triple_read fun frame error hs => ⟨hs.2, fun _ _ hgoes => ?_⟩) fun count => ?_
          · cases hgoes
          · split
            · refine triple_weaken (triple_advance hdescribes.proofs) (fun s hs => ?_)
                (fun _ s hs => ⟨hs.1, fun _ => hs.2⟩) fun halt s hs => ⟨hs.1, fun _ => hs.2⟩
              obtain ⟨⟨htold, hsettled⟩, -⟩ := hs
              have hnone := htold.cache hnew
              refine ⟨⟨hsettled, fun account hcache => ?_⟩, hnone, htold.requests⟩
              rw [hnone] at hcache
              cases hcache
            · next hzero =>
                exact triple_pure fun s hs =>
                  ⟨hs.1.2, fun _ => allMarked_of_countOutstanding hs.2 hzero _⟩
      · next hold => exact triple_pure fun s hs => ⟨hs.2, fun hnew => absurd hnew hold⟩

/-- How such a call ends. -/
theorem updateBlockStatus_ends (env : Env) (h : Truthful (queue, chain))
    (hdescribes : Describes chain branch status env.answers)
    (hclears : IsHigh queue.storage status →
      ∀ n, env.stopsAfter = some n → clearing queue.blockStatus status ≤ n)
    {result : Except Halt Unit}
    (hrun : perform env (.updateBlockStatus status) ⟨queue, [], 0⟩ = (result, frame)) :
    Settled queue.storage status branch frame ∧
      (queue.blockStatus.all (·.latest < status.latest) = true →
        env.answers.getProof 0 (some status.latest) ≠ none →
        (∀ halt, result = .error halt → halt.isStop = false) →
          AllMarked frame.queue.storage (branch status.latest)) := by
  have hend := triple_updateBlockStatus_told h hdescribes hclears ⟨queue, [], 0⟩ rfl
  have hsame : updateBlockStatus env status ⟨queue, [], 0⟩ = (result, frame) := hrun
  rw [hsame] at hend
  cases result with
  | ok done => exact ⟨hend.1, fun hnew _ _ => hend.2 hnew⟩
  | error halt => exact ⟨hend.1, fun hnew hanswered hgoes => hend.2 hnew hanswered (hgoes halt rfl)⟩

/-- A call that queues transactions leaves the marks alone. -/
theorem keeps_queue {P : Nat → Nat → Prop} {known : Option BlockStatus}
    (transactions : List (Transaction × Option Nat)) :
    Keeps (fun frame => frame.queue.storage.Marked P ∧ frame.queue.blockStatus = known)
      (Queue.queue env transactions) := by
  have hkeeps : ∀ statement : Storage.Statement, statement.IsNew →
      (∀ placed, statement ≠ .markExecuted placed) →
        Keeps (fun frame => frame.queue.storage.Marked P ∧ frame.queue.blockStatus = known)
          (execute env statement) := by
    intro statement hnew hmark
    have hrecord : ∀ frame : Frame, frame.queue.storage.Marked P ∧ frame.queue.blockStatus = known →
        (frame.record statement).queue.storage.Marked P ∧
          (frame.record statement).queue.blockStatus = known := by
      intro frame h
      refine ⟨?_, h.2⟩
      rw [Frame.record_storage]
      rcases Storage.step_changes hnew frame.queue.storage with ⟨reply, -, hchanges⟩ | ⟨-, hsame⟩
      · exact h.1.changes hchanges fun placed heq => absurd heq (hmark placed)
      · rw [hsame]
        exact h.1
    exact triple_execute (fun _ h _ => h) (fun frame _ h _ => hrecord frame h)
      fun frame _ h _ => hrecord frame h
  have hrespects : Respects env (fun _ => True)
      (fun frame => frame.queue.storage.Marked P ∧ frame.queue.blockStatus = known) :=
    { quiet := fun frame frame' _ hstorage hstatus _ h => by
        rw [hstorage, hstatus]
        exact h
      cached := fun _ _ _ _ => trivial
      answered := fun _ _ _ _ h _ => ⟨trivial, h⟩ }
  refine keeps_bind (hkeeps _ trivial (by simp)) fun _ => keeps_get_bind fun frame => ?_
  split
  · exact keeps_submitPending hrespects (fun _ => hkeeps _ trivial (by simp))
      fun account _ => hkeeps _ (bundler_isNew env account) (by simp)
  · exact keeps_pure

end Call

/-! ### Runs -/

/-- What is to be shown of a call: the marks are true afterwards, every nonce the account has moved past is
marked, and what it prunes was executed. -/
structure Reconciled (st : TrackedStep) : Prop where
  truthful : Truthful st.post
  marked : ∀ status answers stopsAfter, st.input.2 = .call (.updateBlockStatus status) answers stopsAfter →
    st.pre.1.blockStatus.all (·.latest < status.latest) = true →
    answers.getProof 0 (some status.latest) ≠ none →
    (∀ halt, st.out.result = .error halt → halt.isStop = false) →
      AllMarked st.post.1.storage (st.post.2.branch status.latest)
  pruned : ∀ d ∈ Trace.trace Storage.step st.pre.1.storage st.out.statements, ∀ safe,
    d.input = .prune safe → (∃ status, st.post.2.status = some status ∧ safe = status.safe) ∧
      ∀ row ∈ d.pre.allocatedNonces.rows, ∀ block ∈ row.executedAt, block ≤ safe →
        row.nonce < st.post.2.branch block

theorem blockStatus_of_surviving {queue : Queue} {result : Except Halt Unit} {status : BlockStatus}
    (h : (surviving queue result).blockStatus = some status) : queue.blockStatus = some status := by
  unfold surviving at h
  split at h
  · exact h
  · exact h
  · cases h

theorem reconciled_track (setup : Setup) {state : Queue × Chain} {event : Branch × Input}
    (h : Truthful state)
    (hdescribes : ∀ status answers stopsAfter, event.2 = .call (.updateBlockStatus status) answers stopsAfter →
      Describes state.2 event.1 status answers)
    (hclears : Clears (Trace.take (track setup) state event)) :
    Reconciled (Trace.take (track setup) state event) := by
  obtain ⟨queue, chain⟩ := state
  obtain ⟨branch, input⟩ := event
  have hprunes := (step_traced setup queue input).2
  cases input with
  | restart =>
      refine ⟨⟨h.fits, fun status hstatus => ?_, h.marks⟩, fun _ _ _ heq => ?_, fun d hd => ?_⟩
      · cases hstatus
      · cases heq
      · cases hd
  | call operation answers stopsAfter =>
      cases operation with
      | queue transactions =>
          have hend : ∀ P : Nat → Nat → Prop, queue.storage.Marked P →
              (step setup queue (.call (.queue transactions) answers stopsAfter)).1.storage.Marked P ∧
                ∀ status, (step setup queue (.call (.queue transactions) answers stopsAfter)).1.blockStatus =
                  some status → queue.blockStatus = some status := by
            intro P hP
            have hkeeps : Keeps (fun frame => frame.queue.storage.Marked P ∧
                frame.queue.blockStatus = queue.blockStatus)
                (perform ⟨setup, answers, stopsAfter⟩ (.queue transactions)) := keeps_queue transactions
            have hstart : (⟨queue, [], 0⟩ : Frame).queue.storage.Marked P ∧
                (⟨queue, [], 0⟩ : Frame).queue.blockStatus = queue.blockStatus := ⟨hP, rfl⟩
            obtain ⟨hmarked, hknown⟩ := hkeeps.final hstart
            constructor
            · show (surviving _ _).storage.Marked P
              rw [surviving_storage]
              exact hmarked
            · intro status hstatus
              rw [← hknown]
              exact blockStatus_of_surviving hstatus
          refine ⟨⟨(hend _ h.fits).1, fun status hstatus => ?_, (hend _ h.marks).1⟩, fun _ _ _ heq => ?_,
            fun d hd safe hprune => ?_⟩
          · exact h.told status ((hend _ h.fits).2 status hstatus)
          · cases heq
          · have hstatement := Trace.input_mem hd
            rw [hprune] at hstatement
            obtain ⟨operation, _, _, heq, hallowed⟩ := hprunes _ hstatement
            cases heq
            cases hallowed
      | updateBlockStatus status =>
          have hdescribes := hdescribes status answers stopsAfter rfl
          have hhigh : IsHigh queue.storage status →
              ∀ n, stopsAfter = some n → clearing queue.blockStatus status ≤ n :=
            hclears status answers stopsAfter rfl
          rcases hrun : (perform ⟨setup, answers, stopsAfter⟩ (.updateBlockStatus status) ⟨queue, [], 0⟩ :
            Except Halt Unit × Frame) with ⟨result, frame⟩
          obtain ⟨hsettled, hmarked⟩ := updateBlockStatus_ends _ h hdescribes hhigh hrun
          have hstep : step setup queue (.call (.updateBlockStatus status) answers stopsAfter) =
              (surviving frame.queue result, ⟨result, frame.statements⟩) := by
            unfold step
            dsimp only
            rw [hrun]
          have hstorage : (surviving frame.queue result).storage = frame.queue.storage :=
            surviving_storage _ _
          have htake : Trace.take (track setup) (queue, chain)
              (branch, .call (.updateBlockStatus status) answers stopsAfter) =
              ⟨(queue, chain), (branch, .call (.updateBlockStatus status) answers stopsAfter),
                ⟨result, frame.statements⟩, (surviving frame.queue result, ⟨branch, some status⟩)⟩ := by
            unfold Trace.take track
            rw [hstep]
            rfl
          rw [hstep] at hprunes
          rw [htake]
          refine ⟨⟨?_, fun known hknown => ?_, ?_⟩, fun other _ _ heq hnew hanswered hgoes => ?_,
            fun d hd safe hprune => ?_⟩
          · rw [hstorage]
            exact hsettled.fits
          · have := blockStatus_of_surviving hknown
            rw [hsettled.known] at this
            exact this
          · show (surviving frame.queue result).storage.Marked _
            rw [hstorage]
            intro row hrow block hblock
            have hle := hsettled.bound row hrow block hblock
            exact ⟨⟨status, rfl, hle⟩, hsettled.truthful row hrow block hblock hle⟩
          · cases heq
            show AllMarked (surviving frame.queue result).storage (branch status.latest)
            rw [hstorage]
            exact hmarked hnew hanswered hgoes
          · have hstatement : Storage.Statement.prune safe ∈ frame.statements := by
              rw [← hprune]
              exact Trace.input_mem hd
            obtain ⟨operation, _, _, heq, hallowed⟩ := hprunes _ hstatement
            cases heq
            cases hallowed
            refine ⟨⟨status, rfl, rfl⟩, fun row hrow block hblock hle => ?_⟩
            exact hsettled.during d hd row hrow block hblock (Nat.le_trans hle hdescribes.ordered)

/-- **Every call of a run reconciles the marks.** -/
theorem run_reconciled (setup : Setup) (events : List (Branch × Input)) :
    ∀ {state : Queue × Chain}, Truthful state → Faithful state.2 events →
      (∀ st ∈ Trace.trace (track setup) state events, Clears st) →
        ∀ st ∈ Trace.trace (track setup) state events, Reconciled st := by
  induction events with
  | nil =>
      intro state _ _ _ st hst
      cases hst
  | cons event events ih =>
      intro state h hfaithful hclears st hst
      have hfirst := reconciled_track setup h hfaithful.1 (hclears _ (List.mem_cons_self ..))
      rcases List.mem_cons.mp hst with rfl | hst
      · exact hfirst
      · exact ih hfirst.truthful hfaithful.2 (fun later hlater => hclears later
          (List.mem_cons_of_mem _ hlater)) st hst

/-- Blocks up to a safe one stay on every later branch. -/
theorem branch_final (setup : Setup) (events : List (Branch × Input)) :
    ∀ {state : Queue × Chain} {status : BlockStatus}, Faithful state.2 events →
      state.2.status = some status → ∀ st ∈ Trace.trace (track setup) state events,
        ∀ n ≤ status.safe, st.post.2.branch n = state.2.branch n := by
  induction events with
  | nil =>
      intro state status _ _ st hst
      cases hst
  | cons event events ih =>
      intro state status hfaithful hstatus st hst n hn
      obtain ⟨branch, input⟩ := event
      -- the branch after the first step, and a safe block that is not below
      have hnext : (state.2.next branch input).branch n = state.2.branch n ∧
          ∃ next, (state.2.next branch input).status = some next ∧ status.safe ≤ next.safe := by
        cases input with
        | restart => exact ⟨rfl, status, hstatus, Nat.le_refl _⟩
        | call operation answers stopsAfter =>
            cases operation with
            | queue transactions => exact ⟨rfl, status, hstatus, Nat.le_refl _⟩
            | updateBlockStatus next =>
                have hdescribes := hfaithful.1 next answers stopsAfter rfl
                exact ⟨hdescribes.final hstatus hn, next, rfl, hdescribes.monotone status hstatus⟩
      obtain ⟨hsame, next, hnext, hle⟩ := hnext
      rcases List.mem_cons.mp hst with rfl | hst
      · exact hsame
      · rw [ih hfaithful.2 hnext st hst n (Nat.le_trans hn hle)]
        exact hsame

/-- What follows a part of a run that describes the branches describes them too. -/
theorem faithful_after {setup : Setup} {event : Branch × Input} {later : List (Branch × Input)}
    (events : List (Branch × Input)) : ∀ {state : Queue × Chain},
    Faithful state.2 (events ++ event :: later) →
      Faithful (track setup (Trace.final (track setup) state events) event).1.2 later := by
  induction events with
  | nil =>
      intro state h
      exact h.2
  | cons first events ih =>
      intro state h
      rw [Trace.final_cons]
      exact ih h.2

/-- Every statement of a run is sound. -/
theorem track_sound (setup : Setup) (events : List (Branch × Input)) :
    ∀ {state : Queue × Chain}, state.1.storage.Consistent →
      ∀ st ∈ Trace.trace (track setup) state events,
        ∀ d ∈ Trace.trace Storage.step st.pre.1.storage st.out.statements, Storage.Sound d := by
  induction events with
  | nil =>
      intro state _ st hst
      cases hst
  | cons event events ih =>
      intro state h st hst
      obtain ⟨hstorage, hallowed⟩ := step_traced setup state.1 event.2
      have hnew : ∀ statement ∈ (step setup state.1 event.2).2.statements, statement.IsNew := by
        intro statement hmem
        obtain ⟨operation, -, -, -, hoperation⟩ := hallowed statement hmem
        exact hoperation.isNew
      rcases List.mem_cons.mp hst with rfl | hst
      · exact Storage.run_sound _ hnew h
      · refine ih ?_ st hst
        show ((step setup state.1 event.2).1).storage.Consistent
        rw [hstorage]
        exact Storage.run_consistent _ hnew h

/--
**Execution marks are true, unless a call is stopped before it has cleared the replaced ones.**  Let every
status describe a canonical branch, with reorganizations reported and the safe block final.  If no call that
is given a status below a mark is stopped before it has cleared the marks, then after every call every mark
is at most at the latest block and true on its branch; after a call for a new block for which the account
was answered, and that was not stopped, every nonce below that of the account is marked; and a transaction
with a nonce is only removed if the nonce is used at or below the safe block, on this branch and all later
ones.
-/
theorem marks_are_true (setup : Setup) (first : Branch) (events : List (Branch × Input))
    (hfaithful : Faithful ⟨first, none⟩ events)
    (hclears : ∀ st ∈ Trace.trace (track setup) (.new, ⟨first, none⟩) events, Clears st) :
    ∀ before st after, Trace.trace (track setup) (.new, ⟨first, none⟩) events = before ++ st :: after →
      (∀ row ∈ st.post.1.storage.allocatedNonces.rows, ∀ block ∈ row.executedAt,
        (∃ status, st.post.2.status = some status ∧ block ≤ status.latest) ∧
          row.nonce < st.post.2.branch block) ∧
      (∀ status answers stopsAfter, st.input.2 = .call (.updateBlockStatus status) answers stopsAfter →
        st.pre.1.blockStatus.all (·.latest < status.latest) = true →
        answers.getProof 0 (some status.latest) ≠ none →
        (∀ halt, st.out.result = .error halt → halt.isStop = false) →
          ∀ row ∈ st.post.1.storage.allocatedNonces.rows, row.nonce < st.post.2.branch status.latest →
            row.executedAt ≠ none) ∧
      ∀ d ∈ Trace.trace Storage.step st.pre.1.storage st.out.statements, ∀ row ∈ Storage.removedBy d,
        ∀ nonce, row.nonce = some nonce → ∃ status, st.post.2.status = some status ∧
          ∃ block ≤ status.safe, ∀ later ∈ st :: after, nonce < later.post.2.branch block := by
  intro before st after hsplit
  have hempty : Truthful (.new, ⟨first, none⟩) :=
    ⟨Storage.marked_empty, fun status hstatus => (by cases hstatus), Storage.marked_empty⟩
  have hst : st ∈ Trace.trace (track setup) (.new, ⟨first, none⟩) events := by
    rw [hsplit]
    exact List.mem_append_right _ (List.mem_cons_self ..)
  have hreconciled := run_reconciled setup events hempty hfaithful hclears st hst
  refine ⟨hreconciled.truthful.marks, hreconciled.marked, fun d hd row hrow nonce hnonce => ?_⟩
  obtain ⟨events', later, hevents, -, htake, hafter⟩ := Trace.trace_split _ _ hsplit
  have hsound := track_sound setup events Storage.consistent_empty st hst d hd
  obtain ⟨safe, hprune, hmarked | ⟨hnone, -⟩⟩ := hsound.removed hrow
  · obtain ⟨nonceRow, hnonceRow, hkey, block, hblock, hle⟩ := hmarked
    rw [hnonce, Option.some.injEq] at hkey
    subst hkey
    obtain ⟨⟨status, hstatus, rfl⟩, htrue⟩ := hreconciled.pruned d hd safe hprune
    have hused := htrue nonceRow hnonceRow block hblock hle
    refine ⟨status, hstatus, block, hle, fun other hother => ?_⟩
    rcases List.mem_cons.mp hother with rfl | hlater
    · exact hused
    · rw [hafter] at hlater
      have hfollowing : Faithful st.post.2 later := by
        rw [htake]
        exact faithful_after events' (hevents ▸ hfaithful)
      rw [branch_final setup later hfollowing hstatus other hlater block hle]
      exact hused
  · rw [hnonce] at hnone
    cases hnone

/-! ### A replaced mark -/

/-- A node on the branch, which accepts everything. -/
def reporting (branch : Branch) : Answers :=
  ⟨fun _ block => block.map fun n => (branch n, 0), fun _ => some ⟨1, 1⟩, fun _ _ => .accepted⟩

theorem describes_reporting {chain : Chain} {branch : Branch} {status : BlockStatus}
    (hordered : status.safe ≤ status.latest)
    (hreported : ∀ p, chain.status = some p →
      p.safe ≤ status.safe ∧ ∀ n ≤ status.latest, branch n = chain.branch n) :
    Describes chain branch status (reporting branch) where
  ordered := hordered
  reported p hp := (hreported p hp).2
  monotone p hp := (hreported p hp).1
  proofs index n nonce codeHash h := by
    cases h
    rfl

/-- The branch on which the first nonce is used at block 100. -/
def using100 : Branch := fun n => if 100 ≤ n then 1 else 0

/-- The branch on which it is never used. -/
def unused : Branch := fun _ => 0

/-- A transaction is sent and executed at block 100. -/
def executedRun : List (Branch × Input) :=
  [(using100, .call (.queue [(.default, none)]) (willing 0) none),
    (using100, .call (.updateBlockStatus ⟨99, 95⟩) (reporting using100) none),
    (using100, .call (.updateBlockStatus ⟨100, 95⟩) (reporting using100) none)]

theorem faithful_executedRun {events : List (Branch × Input)}
    (h : Faithful ⟨using100, some ⟨100, 95⟩⟩ events) :
    Faithful ⟨using100, none⟩ (executedRun ++ events) := by
  refine ⟨fun status answers stopsAfter heq => ?_, fun status answers stopsAfter heq => ?_,
    fun status answers stopsAfter heq => ?_, h⟩
  · cases heq
  · cases heq
    exact describes_reporting (by decide) fun p hp => by cases hp
  · cases heq
    refine describes_reporting (by decide) fun p hp => ?_
    cases hp
    exact ⟨by decide, fun n _ => rfl⟩

/-- The nonce is marked at block 100, where the account has used it. -/
theorem executed_mark_is_true :
    (∃ row ∈ (Trace.final (track pairSetup) (.new, ⟨using100, none⟩) executedRun).1.storage.allocatedNonces.rows,
      row.executedAt = some 100) ∧
    ∀ st ∈ Trace.trace (track pairSetup) (.new, ⟨using100, none⟩) executedRun,
      ∀ row ∈ st.post.1.storage.allocatedNonces.rows, ∀ block ∈ row.executedAt,
        row.nonce < st.post.2.branch block := by
  refine ⟨by decide +kernel, fun st hst row hrow block hblock => ?_⟩
  have hend : Faithful ⟨using100, some ⟨100, 95⟩⟩ [] := trivial
  have hfaithful : Faithful ⟨using100, none⟩ executedRun := faithful_executedRun hend
  have hclears : ∀ st ∈ Trace.trace (track pairSetup) (.new, ⟨using100, none⟩) executedRun, Clears st := by
    intro st hst status answers stopsAfter hinput _ n hn
    have hmem := Trace.input_mem hst
    rw [executedRun] at hmem
    simp only [List.mem_cons, List.not_mem_nil, or_false] at hmem
    rcases hmem with heq | heq | heq
    · rw [heq] at hinput
      cases hinput
    · rw [heq] at hinput
      cases hinput
      cases hn
    · rw [heq] at hinput
      cases hinput
      cases hn
  obtain ⟨before, after, hsplit⟩ := List.append_of_mem hst
  exact ((marks_are_true pairSetup using100 executedRun hfaithful hclears before st after hsplit).1 row hrow
    block hblock).2

/-- Block 98 and those after it are replaced by the other branch, and the call that is told so is stopped
at once; later the safe block moves to 145. -/
def replacedRun : List (Branch × Input) :=
  executedRun ++ [(unused, .call (.updateBlockStatus ⟨97, 95⟩) (reporting unused) (some 0)),
    (unused, .call (.updateBlockStatus ⟨150, 145⟩) (reporting unused) none)]

/-- The transaction is removed although its nonce is used at no block. -/
theorem replaced_mark_is_pruned :
    Faithful ⟨using100, none⟩ replacedRun ∧
    ∃ st ∈ Trace.trace (track pairSetup) (.new, ⟨using100, none⟩) replacedRun, st.post.2.branch = unused ∧
      (∃ d ∈ Trace.trace Storage.step st.pre.1.storage st.out.statements,
        ∃ row ∈ Storage.removedBy d, row.nonce = some 0) ∧ ∀ block, ¬0 < unused block := by
  constructor
  · refine faithful_executedRun ⟨fun status answers stopsAfter heq => ?_,
      fun status answers stopsAfter heq => ?_, trivial⟩
    · cases heq
      refine describes_reporting (by decide) fun p hp => ?_
      cases hp
      exact ⟨by decide, by decide⟩
    · cases heq
      refine describes_reporting (by decide) fun p hp => ?_
      cases hp
      exact ⟨by decide, fun n _ => rfl⟩
  · refine ⟨(Trace.trace (track pairSetup) (.new, ⟨using100, none⟩) replacedRun).get ⟨4, by decide +kernel⟩,
      List.get_mem .., rfl, ?_, fun block => Nat.lt_irrefl 0⟩
    decide +kernel

end Queue

end Safenet.Core.Tx
