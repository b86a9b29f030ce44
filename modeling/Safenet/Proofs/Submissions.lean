/-
Replacement fees clear the floor.

The calls that keep a log are those of the queue (`erases_perform`).  What they send is built from the
recorded fees and the estimate (`triple_submitTransaction`): between reading the fees and sending, only
transactions with other nonces are sent.  What is recorded was just sent, so that every change of the
recorded fees is that of an answered submission, or the deletion of the nonce.
-/
import Safenet.Proofs.RecordedFees

namespace Safenet.Core.Tx

namespace Queue

open Program

namespace Logged

/-! ### Without the log -/

section Erases

variable {α β : Type} {logged : LoggedTask α} {task : Task α}

/-- Without its log, the part of a call is that of the queue. -/
def Erases (logged : LoggedTask α) (task : Task α) : Prop :=
  ∀ s : Logged, ((logged s : Except Halt α × Logged).1, (logged s : Except Halt α × Logged).2.frame) =
    (task s.frame : Except Halt α × Frame)

theorem erases_lift (task : Task α) : Erases (lift task) task := fun _ => rfl

theorem erases_pure (a : α) : Erases (pure a) (pure a) := fun _ => rfl

theorem erases_throw_bind (halt : Halt) {f : α → LoggedTask β} {g : α → Task β} :
    Erases (throw halt >>= f) (throw halt >>= g) := fun _ => rfl

theorem erases_bind {f : α → LoggedTask β} {g : α → Task β} (h : Erases logged task)
    (hf : ∀ a, Erases (f a) (g a)) : Erases (logged >>= f) (task >>= g) := by
  intro s
  have hfirst := h s
  show ((ExceptT.bindCont f (logged s).1 (logged s).2 : Except Halt β × Logged).1,
    (ExceptT.bindCont f (logged s).1 (logged s).2 : Except Halt β × Logged).2.frame) =
      (ExceptT.bindCont g (task s.frame).1 (task s.frame).2 : Except Halt β × Frame)
  rw [← hfirst]
  rcases hrun : (logged s : Except Halt α × Logged) with ⟨result, s'⟩
  cases result with
  | ok a => exact hf a s'
  | error halt => rfl

/-- What is read of the state is not the log. -/
theorem erases_get_bind {f : Logged → LoggedTask β} {g : Frame → Task β}
    (h : ∀ s : Logged, Erases (f s) (g s.frame)) : Erases (get >>= f) (get >>= g) := fun s => h s s

/-- Writing the log does nothing else. -/
theorem erases_log {sent : Logged → Sent} {f : LoggedTask α} (h : Erases f task) :
    Erases (get >>= fun s : Logged => set (Logged.mk s.frame (s.sent ++ [sent s])) >>= fun _ => f) task :=
  fun s => h ⟨s.frame, s.sent ++ [sent s]⟩

theorem erases_forM {ι : Type} {f : ι → LoggedTask PUnit} {g : ι → Task PUnit}
    (h : ∀ i, Erases (f i) (g i)) (l : List ι) : Erases (l.forM f) (l.forM g) := by
  induction l with
  | nil => exact erases_pure _
  | cons i l ih => exact erases_bind (h i) fun _ => ih

end Erases

variable {env : Env}

theorem erases_submitTransaction (transaction : AllocatedTransaction) (block : Nat) :
    Erases (submitTransaction env transaction block) (Queue.submitTransaction env transaction block) := by
  refine erases_bind (erases_lift _) fun fees => ?_
  dsimp only
  split
  · exact erases_throw_bind _
  · refine erases_bind (erases_lift _) fun index => erases_log ?_
    cases env.answers.sendRawTransaction index _ with
    | accepted => exact erases_lift _
    | underpriced => exact erases_lift _
    | failed => exact erases_pure _

theorem erases_submitWhile (block room : Nat) : ∀ inFlight,
    Erases (submitWhile env block room inFlight) (Queue.submitWhile env block room inFlight) := by
  induction room with
  | zero => exact fun _ => erases_pure _
  | succ room ih =>
      intro inFlight
      refine erases_bind (erases_lift _) fun account => ?_
      split
      · exact erases_pure _
      · refine erases_bind (erases_lift _) fun reply => ?_
        cases reply with
        | done => exact erases_pure _
        | recovered isRecovered => exact erases_pure _
        | allocated transaction =>
            cases transaction with
            | none => exact erases_pure _
            | some transaction =>
                exact erases_bind (erases_submitTransaction transaction block) fun _ => ih (inFlight + 1)

theorem erases_submitPending (block : Nat) :
    Erases (submitPending env block) (Queue.submitPending env block) :=
  erases_get_bind fun _ => erases_submitWhile block _ _

theorem erases_advance (latest : Nat) : Erases (advance env latest) (Queue.advance env latest) := by
  refine erases_bind (erases_lift _) fun account => erases_bind (erases_lift _) fun _ =>
    erases_bind (erases_lift _) fun _ => erases_bind ?_ fun _ => erases_submitPending latest
  exact erases_bind (erases_lift _) fun stale =>
    erases_forM (fun transaction => erases_submitTransaction transaction latest) stale

/-- **Without the log, the calls are those of the queue.** -/
theorem erases_perform (operation : Operation) :
    Erases (perform env operation) (Queue.perform env operation) := by
  cases operation with
  | queue transactions =>
      refine erases_bind (erases_lift _) fun _ => erases_get_bind fun s => ?_
      cases s.frame.queue.blockStatus with
      | some status => exact erases_submitPending status.latest
      | none => exact erases_pure _
  | updateBlockStatus status =>
      refine erases_get_bind fun s => ?_
      dsimp only
      split
      · exact erases_pure _
      · refine erases_bind (erases_lift _) fun _ => erases_bind (erases_lift _) fun _ =>
          erases_bind (erases_lift _) fun _ => ?_
        unfold advanceIfNew Queue.advanceIfNew
        split
        · refine erases_bind (erases_lift _) fun count => ?_
          split
          · exact erases_advance _
          · exact erases_pure _
        · exact erases_pure _

end Logged

/-- Without the log, a step is that of the queue. -/
theorem loggedStep_eq (setup : Setup) (queue : Queue) (input : Input) :
    ((loggedStep setup queue input).1, (loggedStep setup queue input).2.output) = step setup queue input := by
  cases input with
  | restart => rfl
  | call operation answers stopsAfter =>
      have herases : Logged.Erases (Logged.perform ⟨setup, answers, stopsAfter⟩ operation)
          (perform ⟨setup, answers, stopsAfter⟩ operation) := Logged.erases_perform operation
      have hrun := herases ⟨⟨queue, [], 0⟩, []⟩
      unfold loggedStep step
      dsimp only
      rw [← hrun]
      rfl

/-! ### What is sent -/

/-- The fees of a transaction that was sent. -/
def Sent.fees (sent : Sent) : Fees := ⟨sent.transaction.maxFeePerGas, sent.transaction.maxPriorityFeePerGas⟩

/-- What was sent is not below the estimate, and replaces what is recorded for its nonce. -/
structure Sent.Clears (Q : Fees → Prop) (start : Storage) (sent : Sent) : Prop where
  traced : sent.frame.queue.storage = Trace.final Storage.step start sent.frame.statements
  kept : sent.frame.queue.storage.Holds Q
  estimate : ∃ estimate, sent.frame.queue.feeCache = some estimate ∧ estimate.Le sent.fees
  replaces : ∀ previous, sent.frame.queue.storage.recorded sent.transaction.nonce = some previous →
    sent.fees.Replaces previous
  holds : Q sent.fees

/-- The submission that is recorded is the one that was just sent. -/
structure Sent.Explains (sent : Sent) (before : List Storage.Statement) (submission : Submission) :
    Prop where
  statements : sent.frame.statements = before
  nonce : submission.nonce = sent.transaction.nonce
  fees : submission.fees = sent.fees
  answer : sent.answer = .accepted ∧ submission.block.isSome ∨
    sent.answer = .underpriced ∧ submission.block = none

/-- What is estimated is of a kind, and what is bumped stays of it. -/
structure FeeLaw (Q : Fees → Prop) (env : Env) : Prop where
  estimated : ∀ index fees, env.answers.estimateFees index = some fees →
    Q (match env.setup.config.priorityFeeCap with
      | some cap => capPriorityFee fees cap
      | none => fees)
  bumped : ∀ fresh previous, Q fresh → (∀ fees, previous = some fees → Q fees) → Q (bump fresh previous)

namespace Logged

/-- Everything that was sent clears the floor, and everything that was recorded was sent. -/
structure Clear (Q : Fees → Prop) (start : Storage) (s : Logged) : Prop where
  traced : s.frame.queue.storage = Trace.final Storage.step start s.frame.statements
  holds : s.frame.queue.storage.Holds Q
  cached : ∀ fees, s.frame.queue.feeCache = some fees → Q fees
  sent : ∀ sent ∈ s.sent, sent.Clears Q start
  explained : ∀ place submission, s.frame.statements[place]? = some (.recordSubmission submission) →
    ∃ sent ∈ s.sent, sent.Explains (s.frame.statements.take place) submission

variable {Q : Fees → Prop} {start : Storage} {s : Logged} {env : Env}

/-- Requests and caches other than that of the fees are of no concern. -/
theorem Clear.quiet (h : Clear Q start s) {frame : Frame} (hstatements : frame.statements = s.frame.statements)
    (hstorage : frame.queue.storage = s.frame.queue.storage)
    (hcached : ∀ fees, frame.queue.feeCache = some fees → Q fees) : Clear Q start ⟨frame, s.sent⟩ where
  traced := by
    show frame.queue.storage = Trace.final Storage.step start frame.statements
    rw [hstorage, hstatements]
    exact h.traced
  holds := by
    show frame.queue.storage.Holds Q
    rw [hstorage]
    exact h.holds
  cached := hcached
  sent := h.sent
  explained := by
    show ∀ place submission, frame.statements[place]? = _ → _
    rw [hstatements]
    exact h.explained

theorem Clear.record (h : Clear Q start s) {statement : Storage.Statement} (hnew : statement.IsNew)
    (hsubmission : ∀ submission, statement = .recordSubmission submission →
      Q submission.fees ∧ ∃ sent ∈ s.sent, sent.Explains s.frame.statements submission) :
    Clear Q start ⟨s.frame.record statement, s.sent⟩ where
  traced := by
    show (s.frame.queue.storage.step statement).1 =
      Trace.final Storage.step start (s.frame.statements ++ [statement])
    rw [Trace.final_concat, ← h.traced]
  holds := h.holds.step hnew fun submission heq => (hsubmission submission heq).1
  cached := h.cached
  sent := h.sent
  explained := by
    intro place submission hplace
    change (s.frame.statements ++ [statement])[place]? = _ at hplace
    change ∃ sent ∈ s.sent, sent.Explains ((s.frame.statements ++ [statement]).take place) submission
    rcases Nat.lt_or_ge place s.frame.statements.length with hold | hnew
    · rw [List.getElem?_append_left hold] at hplace
      rw [List.take_append_of_le_length hold.le]
      exact h.explained place submission hplace
    · rw [List.getElem?_append_right hnew] at hplace
      obtain ⟨hlt, heq⟩ := List.getElem?_eq_some_iff.mp hplace
      have hlast : place = s.frame.statements.length := by
        rw [List.length_singleton] at hlt
        omega
      subst hlast
      rw [List.take_left]
      refine (hsubmission submission ?_).2
      simpa using heq

section Triples

variable {α : Type} {pre : Logged → Prop} {exit : Halt → Logged → Prop}

/-- A part of a call that sends nothing leaves the log alone. -/
theorem triple_lift {task : Task α} {post : α → Logged → Prop}
    (h : ∀ sent, Triple (fun frame => pre ⟨frame, sent⟩) task (fun a frame => post a ⟨frame, sent⟩)
      fun halt frame => exit halt ⟨frame, sent⟩) : Triple pre (lift task) post exit := by
  intro s hs
  have hrun := h s.sent s.frame hs
  rcases hresult : (task s.frame : Except Halt α × Frame) with ⟨result, frame⟩
  have hlift : (lift task s : Except Halt α × Logged) = (result, ⟨frame, s.sent⟩) := by
    unfold lift
    rw [hresult]
  rw [hresult] at hrun
  rw [hlift]
  cases result with
  | ok a => exact hrun
  | error halt => exact hrun

variable {W : Storage → Prop}

/-- What is known of a call and of its storage. -/
def Known (Q : Fees → Prop) (start : Storage) (W : Storage → Prop) (s : Logged) : Prop :=
  Clear Q start s ∧ W s.frame.queue.storage

theorem keeps_request_frame {I : Frame → Prop}
    (h : ∀ frame requests, I frame → I { frame with requests }) : Keeps I request := by
  refine triple_get_bind fun frame => triple_bind (Q := fun _ => I) (triple_set fun s hs => ?_) fun _ => keeps_pure
  obtain ⟨hI, rfl⟩ := hs
  exact h _ _ hI

theorem keeps_account : Keeps (Clear Q start) (lift (account env)) := by
  refine triple_lift fun log => keeps_get_bind fun frame => ?_
  cases frame.queue.accountCache with
  | some cached => exact keeps_pure
  | none =>
      refine keeps_bind (keeps_request_frame fun frame requests hclear =>
        hclear.quiet rfl rfl hclear.cached) fun index => triple_get_bind fun asked => ?_
      cases env.answers.getProof index (asked.queue.blockStatus.map BlockStatus.latest) with
      | none => exact triple_throw fun s hs => hs.1
      | some proof =>
          refine triple_bind (Q := fun _ frame => Clear Q start ⟨frame, log⟩) (triple_set fun s hs => ?_)
            fun _ => keeps_pure
          obtain ⟨hclear, rfl⟩ := hs
          exact hclear.quiet rfl rfl hclear.cached

/-- The estimate is cached when it is used. -/
theorem triple_fees (hlaw : FeeLaw Q env) : Triple (Known Q start W) (lift (Queue.fees env))
    (fun fees s => Known Q start W s ∧ s.frame.queue.feeCache = some fees) fun _ => Clear Q start := by
  refine triple_lift fun sent => triple_get_bind fun frame => ?_
  cases hcache : frame.queue.feeCache with
  | some cached =>
      refine triple_pure fun s hs => ?_
      obtain ⟨hI, rfl⟩ := hs
      exact ⟨hI, hcache⟩
  | none =>
      refine triple_bind (Q := fun _ frame => Known Q start W ⟨frame, sent⟩) ?_ fun index => ?_
      · refine triple_weaken (keeps_request_frame fun frame requests hI => ?_) (fun s hs => hs.1)
          (fun _ _ hs => hs) fun _ _ hs => hs.1
        exact ⟨hI.1.quiet rfl rfl hI.1.cached, hI.2⟩
      · refine triple_get_bind fun asked => ?_
        cases hestimate : env.answers.estimateFees index with
        | none => exact triple_throw fun s hs => hs.1.1
        | some estimate =>
            refine triple_bind
              (Q := fun _ frame => Known Q start W ⟨frame, sent⟩ ∧ frame.queue.feeCache = some _)
              (triple_set fun s hs => ?_) fun _ => triple_pure fun s hs => hs
            obtain ⟨hI, rfl⟩ := hs
            refine ⟨⟨hI.1.quiet rfl rfl fun fees hfees => ?_, hI.2⟩, rfl⟩
            cases hfees
            exact hlaw.estimated index estimate hestimate

/-- What is sent clears the floor, with the fees of the transaction that is sent. -/
theorem Clear.send (h : Clear Q start s) (hlaw : FeeLaw Q env) {transaction : AllocatedTransaction}
    {estimate : Fees} {chainId : Nat} {answer : SendAnswer}
    (hcached : s.frame.queue.feeCache = some estimate)
    (hfees : transaction.fees = s.frame.queue.storage.recorded transaction.nonce) :
    Clear Q start ⟨s.frame, s.sent ++ [⟨s.frame, transaction.build chainId estimate, answer⟩]⟩ where
  traced := h.traced
  holds := h.holds
  cached := h.cached
  sent := by
    intro sent hsent
    rcases List.mem_append.mp hsent with hold | hlast
    · exact h.sent sent hold
    · rw [List.mem_singleton.mp hlast]
      refine ⟨h.traced, h.holds, ⟨estimate, hcached, le_bump estimate transaction.fees⟩,
        fun previous hprevious => ?_, ?_⟩
      · have hbump : transaction.fees = some previous := hfees.trans hprevious
        show (bump estimate transaction.fees).Replaces previous
        rw [hbump]
        exact bump_replaces estimate previous
      · refine hlaw.bumped estimate transaction.fees (h.cached estimate hcached) fun fees hfees' => ?_
        exact h.holds.recorded (hfees.symm.trans hfees')
  explained := by
    intro place submission hplace
    obtain ⟨sent, hsent, hexplains⟩ := h.explained place submission hplace
    exact ⟨sent, List.mem_append_left _ hsent, hexplains⟩

/-- A submission that is recorded leaves the fees of other nonces alone. -/
theorem triple_record {R : Nat → Option Fees} (sent : Sent) {block : Option Nat}
    (hanswer : sent.answer = .accepted ∧ block.isSome ∨ sent.answer = .underpriced ∧ block = none) :
    Triple (fun s => Known Q start (fun storage => ∀ n ≠ sent.transaction.nonce, storage.recorded n = R n) s ∧
        sent ∈ s.sent ∧ s.frame.statements = sent.frame.statements)
      (lift (discard (execute env (.recordSubmission ⟨block, sent.transaction.nonce, sent.fees⟩))))
      (fun _ => Known Q start fun storage => ∀ n ≠ sent.transaction.nonce, storage.recorded n = R n)
      fun _ => Clear Q start := by
  let submission : Submission := ⟨block, sent.transaction.nonce, sent.fees⟩
  have hrecord : ∀ s : Logged, Clear Q start s → sent ∈ s.sent →
      s.frame.statements = sent.frame.statements →
        Clear Q start ⟨s.frame.record (.recordSubmission submission), s.sent⟩ := by
    intro s hclear hsent hstatements
    refine hclear.record trivial fun submission' heq => ?_
    cases heq
    exact ⟨(hclear.sent sent hsent).holds, sent, hsent, hstatements.symm, rfl, rfl, hanswer⟩
  refine triple_lift fun log => triple_discard (triple_execute ?_ ?_ ?_)
  · exact fun frame hpre _ => hpre.1.1
  · intro frame reply hpre _
    obtain ⟨⟨hclear, hothers⟩, hsent, hstatements⟩ := hpre
    refine ⟨hrecord ⟨frame, log⟩ hclear hsent hstatements, fun n hn => ?_⟩
    have hnew : (Storage.Statement.recordSubmission submission).IsNew := trivial
    rcases frame.queue.storage.recorded_step hnew n with
      hsame | ⟨submission', heq, hsubmission, -⟩ | ⟨_, heq, -⟩
    · exact hsame.trans (hothers n hn)
    · cases heq
      exact absurd hsubmission.symm hn
    · cases heq
  · exact fun frame error hpre _ => hrecord ⟨frame, log⟩ hpre.1.1 hpre.2.1 hpre.2.2

/-- **What is sent clears the floor, and what is recorded is what was sent.** -/
theorem triple_submitTransaction (hlaw : FeeLaw Q env) {transaction : AllocatedTransaction} {block : Nat}
    {R : Nat → Option Fees} :
    Triple (Known Q start fun storage => transaction.fees = storage.recorded transaction.nonce ∧
        ∀ n ≠ transaction.nonce, storage.recorded n = R n)
      (submitTransaction env transaction block)
      (fun _ => Known Q start fun storage => ∀ n ≠ transaction.nonce, storage.recorded n = R n)
      fun _ => Clear Q start := by
  refine triple_bind (triple_fees hlaw) fun estimate => ?_
  dsimp only
  split
  · exact triple_throw_bind fun s hs => hs.1.1
  · refine triple_bind (Q := fun _ s => Known Q start (fun storage =>
      transaction.fees = storage.recorded transaction.nonce ∧
        ∀ n ≠ transaction.nonce, storage.recorded n = R n) s ∧ s.frame.queue.feeCache = some estimate) ?_
      fun index => ?_
    · refine triple_lift fun _ => triple_weaken (keeps_request_frame fun frame requests hI => ?_)
        (fun _ hs => hs) (fun _ _ hs => hs) fun _ _ hs => hs.1.1
      exact ⟨⟨hI.1.1.quiet rfl rfl hI.1.1.cached, hI.1.2⟩, hI.2⟩
    · generalize hanswer : env.answers.sendRawTransaction index _ = answer
      refine triple_get_bind fun logged => ?_
      refine triple_bind (Q := fun _ s => Known Q start (fun storage =>
          ∀ n ≠ transaction.nonce, storage.recorded n = R n) s ∧
        (⟨logged.frame, transaction.build env.setup.chainId estimate, answer⟩ : Sent) ∈ s.sent ∧
        s.frame.statements = logged.frame.statements) (triple_set fun s hs => ?_) fun _ => ?_
      · obtain ⟨⟨⟨hclear, hfees, hothers⟩, hcached⟩, rfl⟩ := hs
        exact ⟨⟨hclear.send hlaw hcached hfees, hothers⟩,
          List.mem_append_right _ (List.mem_singleton_self _), rfl⟩
      · cases answer with
        | accepted =>
            exact triple_record ⟨logged.frame, transaction.build env.setup.chainId estimate, .accepted⟩
              (.inl ⟨rfl, rfl⟩)
        | underpriced =>
            exact triple_record ⟨logged.frame, transaction.build env.setup.chainId estimate, .underpriced⟩
              (.inr ⟨rfl, rfl⟩)
        | failed => exact triple_pure fun s hs => hs.1

/-- The transaction has the fees that are recorded for its nonce. -/
theorem triple_submitRecorded (hlaw : FeeLaw Q env) {transaction : AllocatedTransaction} {block : Nat} :
    Triple (fun s => Clear Q start s ∧ transaction.fees = s.frame.queue.storage.recorded transaction.nonce)
      (submitTransaction env transaction block) (fun _ => Clear Q start) fun _ => Clear Q start := by
  intro s hs
  refine triple_weaken (triple_submitTransaction (R := s.frame.queue.storage.recorded) hlaw)
    (fun s' heq => ?_) (fun _ _ hclear => hclear.1) (fun _ _ hclear => hclear) s rfl
  cases heq
  exact ⟨hs.1, hs.2, fun _ _ => rfl⟩

/-- Statements that record no submission. -/
theorem keeps_other (statement : Storage.Statement) (hnew : statement.IsNew)
    (hother : ∀ submission, statement ≠ .recordSubmission submission) {log : List Sent} :
    Keeps (fun frame => Clear Q start ⟨frame, log⟩) (execute env statement) := by
  have hrecord : ∀ frame, Clear Q start ⟨frame, log⟩ → Clear Q start ⟨frame.record statement, log⟩ :=
    fun frame hs => hs.record hnew fun submission heq => absurd heq (hother submission)
  exact triple_execute (fun frame hs _ => hs) (fun frame reply hs _ => hrecord frame hs)
    fun frame error hs _ => hrecord frame hs

/-- What is allocated has no recorded fees yet. -/
theorem triple_nextTransaction {status : Status} {account : AccountStatus} :
    Triple (Clear Q start) (lift (execute env (.nextTransaction status (bundler env account))))
      (fun reply s => Clear Q start s ∧ ∀ transaction, reply = .allocated (some transaction) →
        transaction.fees = s.frame.queue.storage.recorded transaction.nonce) fun _ => Clear Q start := by
  have hnew := bundler_isNew env account
  have hrecord : ∀ s, Clear Q start s →
      Clear Q start ⟨s.frame.record (.nextTransaction status (bundler env account)), s.sent⟩ := fun s hs =>
    hs.record hnew fun _ heq => nomatch heq
  refine triple_lift fun log => triple_execute (fun frame hs _ => hs) (fun frame reply hs hreply => ?_)
    fun frame error hs _ => hrecord _ hs
  refine ⟨hrecord _ hs, fun transaction heq => ?_⟩
  rw [heq] at hreply
  exact Storage.recorded_allocated hnew hreply

theorem keeps_submitWhile (hlaw : FeeLaw Q env) (block room : Nat) : ∀ inFlight,
    Keeps (Clear Q start) (submitWhile env block room inFlight) := by
  induction room with
  | zero => exact fun _ => keeps_pure
  | succ room ih =>
      intro inFlight
      refine keeps_bind keeps_account fun account => ?_
      split
      · exact keeps_pure
      · refine triple_bind triple_nextTransaction fun reply => ?_
        cases reply with
        | done => exact triple_pure fun s hs => hs.1
        | recovered isRecovered => exact triple_pure fun s hs => hs.1
        | allocated transaction =>
            cases transaction with
            | none => exact triple_pure fun s hs => hs.1
            | some transaction =>
                refine triple_bind ?_ fun _ => ih (inFlight + 1)
                exact triple_weaken (triple_submitRecorded hlaw) (fun s hs => ⟨hs.1, hs.2 transaction rfl⟩)
                  (fun _ _ hs => hs) fun _ _ hs => hs

theorem keeps_submitPending (hlaw : FeeLaw Q env) (block : Nat) :
    Keeps (Clear Q start) (submitPending env block) :=
  keeps_get_bind fun _ => keeps_submitWhile hlaw block _ _

/-- What is submitted after a transaction has other nonces, whose fees are as they were read. -/
theorem triple_submitAll (hlaw : FeeLaw Q env) {block : Nat} : ∀ {stale : List AllocatedTransaction},
    stale.Pairwise (fun transaction transaction' => transaction.nonce < transaction'.nonce) →
      Triple (Known Q start fun storage => ∀ transaction ∈ stale,
          transaction.fees = storage.recorded transaction.nonce)
        (stale.forM fun transaction => submitTransaction env transaction block)
        (fun _ => Clear Q start) fun _ => Clear Q start := by
  intro stale
  induction stale with
  | nil => exact fun _ => triple_pure fun s hs => hs.1
  | cons transaction stale ih =>
      intro hordered
      obtain ⟨hfirst, hrest⟩ := List.pairwise_cons.mp hordered
      refine triple_bind (Q := fun _ => Known Q start fun storage => ∀ other ∈ stale,
        other.fees = storage.recorded other.nonce) ?_ fun _ => ih hrest
      intro s hs
      refine triple_weaken (triple_submitTransaction (R := s.frame.queue.storage.recorded) hlaw)
        (fun s' heq => ?_) (fun _ s' hknown => ⟨hknown.1, fun other hother => ?_⟩)
        (fun _ _ hclear => hclear) s rfl
      · cases heq
        exact ⟨hs.1, hs.2 transaction (List.mem_cons_self ..), fun _ _ => rfl⟩
      · rw [hknown.2 other.nonce (hfirst other hother).ne']
        exact hs.2 other (List.mem_cons_of_mem _ hother)

theorem keeps_resubmitStale (hlaw : FeeLaw Q env) (block : Nat) :
    Keeps (Clear Q start) (resubmitStale env block) := by
  refine triple_bind (Q := fun stale s => Clear Q start s ∧
      s.frame.queue.storage.staleSubmissions _ = .ok stale)
    (triple_lift fun log => triple_read fun _ _ hs => hs) fun stale => ?_
  intro s hs
  obtain ⟨hfees, hordered⟩ := Storage.fees_staleSubmissions hs.2
  exact triple_submitAll hlaw hordered s ⟨hs.1, hfees⟩

theorem keeps_advance (hlaw : FeeLaw Q env) (latest : Nat) : Keeps (Clear Q start) (advance env latest) := by
  refine keeps_bind keeps_account fun account => ?_
  refine keeps_bind (triple_lift fun _ => keeps_other (.markExecuted _) trivial nofun) fun _ => ?_
  refine keeps_bind (triple_lift fun _ => keeps_other (.recoverAuthorizationGap _) trivial nofun) fun _ => ?_
  exact keeps_bind (keeps_resubmitStale hlaw latest) fun _ => keeps_submitPending hlaw latest

theorem keeps_updateBlockStatus (hlaw : FeeLaw Q env) (status : BlockStatus) :
    Keeps (Clear Q start) (updateBlockStatus env status) := by
  refine keeps_get_bind fun s => ?_
  dsimp only
  split
  · exact keeps_pure
  · refine keeps_bind ?_ fun _ => keeps_bind ?_ fun _ => keeps_bind ?_ fun _ => ?_
    · -- the estimate may be dropped
      refine triple_lift fun log => triple_get_bind fun frame => triple_set fun s hs => ?_
      obtain ⟨hclear, rfl⟩ := hs
      refine hclear.quiet rfl rfl fun fees hfees => hclear.cached fees ?_
      revert hfees
      dsimp only
      split
      · exact nofun
      · exact id
    · unfold pruneStorage
      split
      · exact triple_lift fun _ => keeps_discard (keeps_other (.prune _) trivial nofun)
      · exact keeps_pure
    · unfold unmarkReplaced
      split
      · exact triple_lift fun _ => keeps_discard (keeps_other (.unmarkExecuted _) trivial nofun)
      · exact keeps_pure
    · unfold advanceIfNew
      split
      · refine keeps_bind (triple_lift fun log => keeps_read _) fun count => ?_
        split
        · exact keeps_advance hlaw _
        · exact keeps_pure
      · exact keeps_pure

/-- **Every call keeps the floor.** -/
theorem keeps_perform (hlaw : FeeLaw Q env) (operation : Operation) :
    Keeps (Clear Q start) (perform env operation) := by
  cases operation with
  | queue transactions =>
      refine keeps_bind (triple_lift fun _ => keeps_other (.enqueue _) trivial nofun) fun _ => ?_
      refine keeps_get_bind fun s => ?_
      split
      · exact keeps_submitPending hlaw _
      · exact keeps_pure
  | updateBlockStatus status => exact keeps_updateBlockStatus hlaw status

end Triples

end Logged

/-! ### Every run -/

/-- A kind of fees that the cap and the bump do not leave. -/
structure Closed (Q : Fees → Prop) : Prop where
  capped : ∀ fees cap, Q fees → Q (capPriorityFee fees cap)
  bumped : ∀ fresh previous, Q fresh → (∀ fees, previous = some fees → Q fees) → Q (bump fresh previous)

theorem closed_isU128 : Closed Fees.IsU128 where
  capped _ cap hfees := capPriorityFee_isU128 hfees cap
  bumped _ previous hfresh _ := bump_isU128 hfresh previous

theorem closed_isOrdered : Closed Fees.IsOrdered where
  capped _ cap hfees := capPriorityFee_isOrdered hfees cap
  bumped _ _ hfresh hprevious := bump_isOrdered hfresh hprevious

/-- The node's estimates are of a kind. -/
def Input.Estimates (Q : Fees → Prop) : Input → Prop
  | .call _ answers _ => ∀ index fees, answers.estimateFees index = some fees → Q fees
  | .restart => True

/-- What the queue keeps between calls is of a kind. -/
structure KeepsFees (Q : Fees → Prop) (queue : Queue) : Prop where
  holds : queue.storage.Holds Q
  cached : ∀ fees, queue.feeCache = some fees → Q fees

/-- A call of a run, with its log. -/
abbrev LoggedStep := Trace.Step Queue Input LoggedOutput

/-- The call without its log. -/
def erase (st : LoggedStep) : CallStep := ⟨st.pre, st.input, st.out.output, st.post⟩

/-- The storage before a statement of a call. -/
def storageAt (st : LoggedStep) (place : Nat) : Storage :=
  Trace.final Storage.step st.pre.storage (st.out.output.statements.take place)

/-- What is sent in a call clears the floor, and what is recorded was sent. -/
structure StepClear (Q : Fees → Prop) (st : LoggedStep) : Prop where
  storage : st.post.storage = Trace.final Storage.step st.pre.storage st.out.output.statements
  isNew : ∀ statement ∈ st.out.output.statements, statement.IsNew
  kept : KeepsFees Q st.post
  sent : ∀ sent ∈ st.out.sent, sent.Clears Q st.pre.storage
  explained : ∀ place submission,
    st.out.output.statements[place]? = some (.recordSubmission submission) →
      ∃ sent ∈ st.out.sent, sent.Explains (st.out.output.statements.take place) submission

variable {Q : Fees → Prop} {setup : Setup} {queue : Queue} {input : Input}

theorem Closed.feeLaw (h : Closed Q) {answers : Answers} {stopsAfter : Option Nat}
    (hestimates : ∀ index fees, answers.estimateFees index = some fees → Q fees) :
    FeeLaw Q ⟨setup, answers, stopsAfter⟩ where
  estimated index fees hfees := by
    dsimp only
    split
    · exact h.capped fees _ (hestimates index fees hfees)
    · exact hestimates index fees hfees
  bumped := h.bumped

theorem KeepsFees.surviving (h : KeepsFees Q queue) (result : Except Halt Unit) :
    KeepsFees Q (surviving queue result) := by
  refine ⟨?_, ?_⟩
  · rw [surviving_storage]
    exact h.holds
  · unfold Queue.surviving
    split
    · exact h.cached
    · exact h.cached
    · exact nofun

theorem step_clear (hclosed : Closed Q) (hkept : KeepsFees Q queue) (hestimates : input.Estimates Q) :
    StepClear Q (Trace.take (loggedStep setup) queue input) := by
  have hnew : ∀ statement ∈ (loggedStep setup queue input).2.output.statements, statement.IsNew := by
    have herased : (loggedStep setup queue input).2.output = (step setup queue input).2 :=
      congrArg Prod.snd (loggedStep_eq setup queue input)
    rw [herased]
    intro statement hstatement
    obtain ⟨operation, answers, stopsAfter, -, hallowed⟩ := (step_traced setup queue input).2 statement hstatement
    exact hallowed.isNew
  cases input with
  | restart => exact ⟨rfl, nofun, ⟨hkept.holds, nofun⟩, nofun, nofun⟩
  | call operation answers stopsAfter =>
      have hstart : Logged.Clear Q queue.storage ⟨⟨queue, [], 0⟩, []⟩ :=
        ⟨rfl, hkept.holds, hkept.cached, nofun, nofun⟩
      have hlaw : FeeLaw Q ⟨setup, answers, stopsAfter⟩ := hclosed.feeLaw hestimates
      have hend := (Logged.keeps_perform hlaw operation).final hstart
      refine ⟨?_, hnew, ?_, hend.sent, hend.explained⟩
      · show (surviving _ _).storage = _
        rw [surviving_storage]
        exact hend.traced
      · exact KeepsFees.surviving ⟨hend.holds, hend.cached⟩ _

theorem run_clear (hclosed : Closed Q) (inputs : List Input)
    (hestimates : ∀ input ∈ inputs, input.Estimates Q) :
    ∀ st ∈ Trace.trace (loggedStep setup) .new inputs, StepClear Q st := by
  have hkept : KeepsFees Q .new := by
    refine ⟨fun row hrow => absurd hrow List.not_mem_nil, fun fees hfees => ?_⟩
    cases hfees
  have hnew : KeepsFees Q .new ∧ ∀ st ∈ ([] : List LoggedStep), StepClear Q st :=
    ⟨hkept, fun st hst => absurd hst List.not_mem_nil⟩
  have hstep : ∀ (history : List LoggedStep) (queue : Queue) (input : Input),
      (KeepsFees Q queue ∧ ∀ st ∈ history, StepClear Q st) → input.Estimates Q →
        KeepsFees Q (loggedStep setup queue input).1 ∧
          ∀ st ∈ history ++ [Trace.take (loggedStep setup) queue input], StepClear Q st := by
    intro history queue input hI hok
    have hclear : StepClear Q (Trace.take (loggedStep setup) queue input) := step_clear hclosed hI.1 hok
    refine ⟨hclear.kept, fun st hst => ?_⟩
    rcases List.mem_append.mp hst with hold | hlast
    · exact hI.2 st hold
    · rw [List.mem_singleton.mp hlast]
      exact hclear
  exact (Trace.history_invariant (E := fun st : LoggedStep => st.input.Estimates Q) hnew hstep inputs
    fun st hst => hestimates st.input (Trace.input_mem hst)).2

/-- **Without the log, a run is that of the queue.** -/
theorem erase_trace (setup : Setup) (inputs : List Input) : ∀ queue,
    (Trace.trace (loggedStep setup) queue inputs).map erase = Trace.trace (step setup) queue inputs := by
  induction inputs with
  | nil => exact fun _ => rfl
  | cons input inputs ih =>
      intro queue
      have hsame := loggedStep_eq setup queue input
      have hpost : (loggedStep setup queue input).1 = (step setup queue input).1 := congrArg Prod.fst hsame
      have hout : (loggedStep setup queue input).2.output = (step setup queue input).2 := congrArg Prod.snd hsame
      rw [Trace.trace_cons, Trace.trace_cons, List.map_cons, ih, hpost]
      congr 1
      unfold erase Trace.take
      dsimp only
      rw [hpost, hout]

/-- The fees that were sent are recorded, and nothing higher was recorded before. -/
structure Sent.Records (sent : Sent) (before after : Storage) : Prop where
  storage : sent.frame.queue.storage = before
  answer : sent.answer = .accepted ∨ sent.answer = .underpriced
  recorded : after.recorded sent.transaction.nonce = some sent.fees
  le : ∀ previous, before.recorded sent.transaction.nonce = some previous → previous.Le sent.fees

/-- **The recorded fees are those that were sent.** -/
theorem StepClear.recorded {st : LoggedStep} (h : StepClear Fees.IsU128 st) {place : Nat}
    {statement : Storage.Statement} (hplace : st.out.output.statements[place]? = some statement) (nonce : Nat) :
    ((storageAt st place).step statement).1.recorded nonce = (storageAt st place).recorded nonce ∨
      (∃ sent ∈ st.out.sent, sent.transaction.nonce = nonce ∧
        sent.Records (storageAt st place) ((storageAt st place).step statement).1) ∨
      ∃ safe, statement = .prune safe ∧ (storageAt st place).PrunedAt nonce safe ∧
        ((storageAt st place).step statement).1.recorded nonce = none := by
  rcases (storageAt st place).recorded_step (h.isNew _ (List.mem_of_getElem? hplace)) nonce with
    hsame | ⟨submission, rfl, rfl, hrecorded⟩ | hpruned
  · exact .inl hsame
  · obtain ⟨sent, hsent, hexplains⟩ := h.explained place submission hplace
    have hclears := h.sent sent hsent
    have hstorage : sent.frame.queue.storage = storageAt st place := by
      rw [hclears.traced, hexplains.statements]
      rfl
    refine .inr (.inl ⟨sent, hsent, hexplains.nonce.symm, hstorage, ?_, ?_, fun previous hprevious => ?_⟩)
    · exact hexplains.answer.imp And.left And.left
    · rw [← hexplains.nonce, hrecorded, hexplains.fees]
    · rw [← hstorage] at hprevious
      exact (hclears.replaces previous hprevious).le (hclears.kept.recorded hprevious)
  · exact .inr (.inr hpruned)

/-- An update of the stored fees in place is the update of the request. -/
theorem store_submitRow (row : NonceRow) (block : Option Nat) (fees : Fees) :
    (Storage.NonceRow.submit row block fees).request.map Request.store =
      row.request.map fun request => request.store.setFees fees := by
  show (row.request.map _).map Request.store = _
  rw [Option.map_map]
  rfl

/--
**Replacement fees clear the floor.**  In every run in which the estimates of the node are `u128` values:
the calls with a log are those of the queue.  What is sent is not below the estimate, and not below a tenth
more than what is recorded for its nonce.  The recorded fees of a nonce change when an accepted or an
underpriced submission is recorded, to what was sent, which is not below them, and when the nonce is pruned;
at no other statement.  They are loaded as they were stored.  If the estimates are ordered, everything that
is sent is; and the cap lowers the priority fee no more than it has to.
-/
theorem fees_clear_floor (setup : Setup) (inputs : List Input)
    (hestimates : ∀ input ∈ inputs, input.Estimates Fees.IsU128) :
    let history := Trace.trace (loggedStep setup) .new inputs
    history.map erase = Trace.trace (step setup) .new inputs ∧
    (∀ st ∈ history,
      st.post.storage = Trace.final Storage.step st.pre.storage st.out.output.statements ∧
      (∀ sent ∈ st.out.sent, sent.Clears Fees.IsU128 st.pre.storage) ∧
      ∀ place statement, st.out.output.statements[place]? = some statement → ∀ nonce,
        let before := storageAt st place
        let after := (before.step statement).1
        after.recorded nonce = before.recorded nonce ∨
          (∃ sent ∈ st.out.sent, sent.transaction.nonce = nonce ∧ sent.Records before after) ∨
          ∃ safe, statement = .prune safe ∧ before.PrunedAt nonce safe ∧ after.recorded nonce = none) ∧
    (∀ parse, ReadsQuantity parse → ∀ st ∈ history, ∀ row ∈ st.post.storage.allocatedNonces.rows,
      (∀ request, row.request = some request → request.store.load parse = some request) ∧
      ∀ block fees, (Storage.NonceRow.submit row block fees).request.map Request.store =
        row.request.map fun request => request.store.setFees fees) ∧
    ((∀ input ∈ inputs, input.Estimates Fees.IsOrdered) →
      ∀ st ∈ history, ∀ sent ∈ st.out.sent, sent.fees.IsOrdered) ∧
    ∀ fees scaled, fees.IsU128 → fees.base * scaled < 2 ^ 128 →
      (capPriorityFee fees scaled).base = fees.base ∧
      IsGreatest (withinCap fees scaled) (capPriorityFee fees scaled).maxPriorityFeePerGas ∧
      fees.base + (capPriorityFee fees scaled).maxPriorityFeePerGas < 2 ^ 128 ∧
      saturatingMul128 fees.base scaled = fees.base * scaled := by
  have hclear : ∀ st ∈ Trace.trace (loggedStep setup) .new inputs, StepClear Fees.IsU128 st :=
    run_clear closed_isU128 inputs hestimates
  refine ⟨erase_trace setup inputs .new, fun st hst => ?_, fun parse hparse st hst row hrow => ?_,
    fun hordered st hst sent hsent => ?_, fun fees scaled hfees hproduct => capPriorityFee_exact hfees hproduct⟩
  · exact ⟨(hclear st hst).storage, (hclear st hst).sent, fun place statement hplace nonce =>
      (hclear st hst).recorded hplace nonce⟩
  · refine ⟨fun request hrequest => ?_, store_submitRow row⟩
    exact load_store hparse ((hclear st hst).kept.holds row hrow request hrequest)
  · exact ((run_clear closed_isOrdered inputs hordered st hst).sent sent hsent).holds

/-! ### A nonce that is pruned -/

/-- A queue that sends one transaction at a time. -/
def singleSetup : Setup := ⟨fun _ => 0, 1, 1, ⟨.direct 1, 5, none⟩⟩

/-- A node that answers with the nonce and the fees, and accepts everything. -/
def charging (nonce fee : Nat) : Answers :=
  ⟨fun _ _ => some (nonce, 0), fun _ => some ⟨fee, fee⟩, fun _ _ => .accepted⟩

/-- A transaction is sent and executed, its nonce is pruned, and the account falls back to it. -/
def reusedRun : List Input :=
  [.call (.queue [(.default, none)]) (charging 0 10) none,
    .call (.updateBlockStatus ⟨9, 5⟩) (charging 0 10) none,
    .call (.updateBlockStatus ⟨10, 5⟩) (charging 1 10) none,
    .call (.updateBlockStatus ⟨11, 10⟩) (charging 0 1) none,
    .call (.queue [(.default, none)]) (charging 0 1) none]

theorem reusedRun_estimates {Q : Fees → Prop} (hten : Q ⟨10, 10⟩) (hone : Q ⟨1, 1⟩) :
    ∀ input ∈ reusedRun, input.Estimates Q := by
  have hcharging : ∀ operation nonce fee, Q ⟨fee, fee⟩ →
      (Input.call operation (charging nonce fee) none).Estimates Q := by
    intro operation nonce fee hfee index fees hanswer
    cases hanswer
    exact hfee
  intro input hinput
  simp only [reusedRun, List.mem_cons, List.not_mem_nil, or_false] at hinput
  rcases hinput with rfl | rfl | rfl | rfl | rfl
  · exact hcharging _ 0 10 hten
  · exact hcharging _ 0 10 hten
  · exact hcharging _ 1 10 hten
  · exact hcharging _ 0 1 hone
  · exact hcharging _ 0 1 hone

/-- A reader of QUANTITY texts. -/
def readQuantity (text : String) : Option Nat :=
  some (hexValue ((text.toList.drop 2).map fun c => (List.range 16).findIdx (Nat.digitChar · = c)))

theorem reads_readQuantity : ReadsQuantity readQuantity := by
  intro digits _ hlt _ _
  have hdigit : ∀ digit < 16, (List.range 16).findIdx (Nat.digitChar · = Nat.digitChar digit) = digit := by
    decide
  have hdrop : ("0x" ++ String.ofList (digits.map Nat.digitChar)).toList.drop 2 = digits.map Nat.digitChar := by
    rw [String.toList_append, String.toList_ofList, String.toList_ofList]
    rfl
  have hread : digits.map (fun digit => (List.range 16).findIdx (Nat.digitChar · = Nat.digitChar digit)) =
      digits := by
    calc digits.map (fun digit => (List.range 16).findIdx (Nat.digitChar · = Nat.digitChar digit))
        = digits.map id := List.map_congr_left fun digit hmem => hdigit digit (hlt digit hmem)
      _ = digits := List.map_id digits
  unfold readQuantity
  rw [hdrop, List.map_map]
  exact congrArg (fun digits => some (hexValue digits)) hread

/-- The floor in a run in which a nonce is used again. -/
theorem reused_nonce_clears :
    (∀ st ∈ Trace.trace (loggedStep singleSetup) .new reusedRun,
      ∀ sent ∈ st.out.sent, sent.Clears Fees.IsU128 st.pre.storage ∧ sent.fees.IsOrdered) ∧
    (∀ st ∈ Trace.trace (loggedStep singleSetup) .new reusedRun, ∀ row ∈ st.post.storage.allocatedNonces.rows,
      ∀ request, row.request = some request → request.store.load readQuantity = some request) ∧
    (capPriorityFee ⟨30, 20⟩ 100000).base = 10 := by
  have hestimates : ∀ input ∈ reusedRun, input.Estimates Fees.IsU128 :=
    reusedRun_estimates ⟨by decide, by decide⟩ ⟨by decide, by decide⟩
  have hall := fees_clear_floor singleSetup reusedRun hestimates
  have hordered := hall.2.2.2.1 (reusedRun_estimates (Nat.le_refl 10) (Nat.le_refl 1))
  refine ⟨fun st hst sent hsent => ⟨(hall.2.1 st hst).2.1 sent hsent, hordered st hst sent hsent⟩, ?_, ?_⟩
  · exact fun st hst row hrow => (hall.2.2.1 readQuantity reads_readQuantity st hst row hrow).1
  · exact (hall.2.2.2.2 ⟨30, 20⟩ 100000 ⟨by decide, by decide⟩ (by decide)).1

/-- **After its row was pruned, a nonce is sent for less.** -/
theorem reused_nonce_is_cheaper :
    let history := Trace.trace (loggedStep singleSetup) .new reusedRun
    (history.map fun st => st.post.storage.recorded 0) =
        [none, some ⟨10, 10⟩, some ⟨10, 10⟩, none, some ⟨1, 1⟩] ∧
      (history.flatMap fun st => st.out.sent.map fun sent => (sent.transaction.nonce, sent.fees)) =
        [(0, ⟨10, 10⟩), (0, ⟨1, 1⟩)] ∧
      ¬Fees.Replaces ⟨1, 1⟩ ⟨10, 10⟩ ∧ ¬Fees.Le ⟨10, 10⟩ ⟨1, 1⟩ := by
  refine ⟨by decide +kernel, by decide +kernel, fun h => ?_, fun h => ?_⟩
  · exact absurd h.1 (by decide)
  · exact absurd h.1 (by decide)

end Queue

end Safenet.Core.Tx
