/-
The execution marks of the transaction queue.

A nonce is marked with the block at which the account was seen past it.  `Changes.marks` says once what
each statement does to the marks; everything else about them follows from it.  Marks are placed in the
order of the blocks, because the queue only marks at a block above the one before, or after it has
cleared every mark.  So a nonce is never marked above a later one (`InOrder`), and what is pruned or
cleared is a lower or an upper part of the table.
-/
import Safenet.Proofs.TransactionQueue

namespace Safenet.Core.Tx

namespace Storage

variable {storage storage' : Storage} {statement : Statement} {reply : Reply}
  {P : Nat → Nat → Prop}

theorem mem_mapNonces {p : NonceRow → Bool} {f : NonceRow → NonceRow} {row' : NonceRow} :
    row' ∈ storage.mapNonces p f ↔
      ∃ row ∈ storage.allocatedNonces.rows, (if p row then f row else row) = row' :=
  List.mem_map

/-- The mark of a row after a statement. -/
def Statement.mark (statement : Statement) (row : NonceRow) : Option Nat :=
  match statement with
  | .markExecuted status =>
      if row.nonce < status.nonce && row.executedAt.isNone then some status.block else row.executedAt
  | .unmarkExecuted block => if row.executedAt.any (block ≤ ·) then none else row.executedAt
  | _ => row.executedAt

/-- **What a statement does to the marks.**  A row is an old one with its mark after the statement, or
one that was allocated, above all others and without a mark. -/
theorem Changes.marks (h : Changes storage storage' statement reply) {row' : NonceRow}
    (hrow' : row' ∈ storage'.allocatedNonces.rows) :
    (∃ row ∈ storage.allocatedNonces.rows, row'.nonce = row.nonce ∧
        row'.executedAt = statement.mark row) ∨
      (∀ row ∈ storage.allocatedNonces.rows, row.nonce < row'.nonce) ∧ row'.executedAt = none ∧
        ∃ status bundler, statement = .nextTransaction status bundler ∧ status.nonce ≤ row'.nonce := by
  cases h with
  | enqueue transactions new hrows hentries hnew hnonces =>
      rw [hnonces] at hrow'
      exact .inl ⟨row', hrow', rfl, rfl⟩
  | idle status bundler hsame =>
      rw [hsame] at hrow'
      exact .inl ⟨row', hrow', rfl, rfl⟩
  | allocate status bundler taken rest allocated hpending hnonempty hnonce hauthorization hcarries hnonces
      hrows =>
      rw [hnonces] at hrow'
      rcases List.mem_append.mp hrow' with hold | hnew
      · exact .inl ⟨row', hold, rfl, rfl⟩
      · have hle : status.nonce ≤ allocated.nonce := by omega
        rcases mem_allocatedRows.mp hnew with rfl | ⟨authorization, -, rfl⟩
        · exact .inr ⟨fun row hrow => nonce_lt_allocated hnonce hrow, rfl, status, bundler, rfl, hle⟩
        · exact .inr ⟨fun row hrow => Nat.lt_succ_of_lt (nonce_lt_allocated hnonce hrow), rfl, status,
            bundler, rfl, Nat.le_succ_of_le hle⟩
  | recordSubmission submission hrows hnonces =>
      rw [hnonces] at hrow'
      obtain ⟨row, hrow, rfl⟩ := mem_mapNonces.mp hrow'
      refine .inl ⟨row, hrow, ?_⟩
      split
      · exact ⟨rfl, rfl⟩
      · exact ⟨rfl, rfl⟩
  | markExecuted status hblock hrows hnonces =>
      rw [hnonces] at hrow'
      obtain ⟨row, hrow, rfl⟩ := mem_mapNonces.mp hrow'
      refine .inl ⟨row, hrow, ?_⟩
      split
      · next hp => exact ⟨rfl, (if_pos hp).symm⟩
      · next hp => exact ⟨rfl, (if_neg hp).symm⟩
  | recoverAuthorizationGap nonce isRecovered hrecovered hrows hnonces =>
      rw [hnonces] at hrow'
      obtain ⟨row, hrow, rfl⟩ := mem_mapNonces.mp hrow'
      refine .inl ⟨row, hrow, ?_⟩
      split
      · exact ⟨rfl, rfl⟩
      · exact ⟨rfl, rfl⟩
  | prune safe hsafe hnonces hrows =>
      rw [hnonces, Relation.rows_deleteWhere] at hrow'
      exact .inl ⟨row', (List.mem_filter.mp hrow').1, rfl, rfl⟩
  | unmarkExecuted block hrows hnonces =>
      rw [hnonces] at hrow'
      obtain ⟨row, hrow, rfl⟩ := mem_mapNonces.mp hrow'
      refine .inl ⟨row, hrow, ?_⟩
      split
      · next hp => exact ⟨rfl, (if_pos hp).symm⟩
      · next hp => exact ⟨rfl, (if_neg hp).symm⟩

/-- A mark is an old one, or was placed by the statement. -/
theorem Statement.mem_mark {row : NonceRow} {block : Nat} (h : block ∈ statement.mark row) :
    block ∈ row.executedAt ∧ (∀ above, statement = .unmarkExecuted above → block < above) ∨
      ∃ nonce, statement = .markExecuted ⟨block, nonce⟩ ∧ row.nonce < nonce ∧ row.executedAt = none := by
  cases statement with
  | markExecuted status =>
      unfold Statement.mark at h
      dsimp only at h
      split at h
      · next hmarks =>
          rw [Bool.and_eq_true, decide_eq_true_iff] at hmarks
          cases h
          exact .inr ⟨status.nonce, rfl, hmarks.1, Option.isNone_iff_eq_none.mp hmarks.2⟩
      · exact .inl ⟨h, by simp⟩
  | unmarkExecuted above =>
      unfold Statement.mark at h
      dsimp only at h
      split at h
      · cases h
      · next hkept =>
          refine .inl ⟨h, fun block' heq => ?_⟩
          cases heq
          rw [Option.mem_def.mp h] at hkept
          simpa using hkept
  | _ => exact .inl ⟨h, by simp⟩

/-! ### Properties of all marks -/

/-- Every mark has the property, which depends on the nonce and the block. -/
def Marked (storage : Storage) (P : Nat → Nat → Prop) : Prop :=
  ∀ row ∈ storage.allocatedNonces.rows, ∀ block ∈ row.executedAt, P row.nonce block

theorem Marked.imp {Q : Nat → Nat → Prop} (h : storage.Marked P) (himp : ∀ n b, P n b → Q n b) :
    storage.Marked Q :=
  fun row hrow block hblock => himp _ _ (h row hrow block hblock)

theorem marked_empty : empty.Marked P := by
  intro row hrow
  cases hrow

/-- A statement keeps a property of the marks, if it has it for those it places. -/
theorem Marked.changes (h : storage.Marked P) (hchanges : Changes storage storage' statement reply)
    (hmark : ∀ status, statement = .markExecuted status → ∀ nonce < status.nonce,
      P nonce status.block) : storage'.Marked P := by
  intro row' hrow' block hblock
  rcases hchanges.marks hrow' with ⟨row, hrow, hnonce, hsame⟩ | ⟨-, hnone, -⟩
  · rw [hnonce]
    rw [hsame] at hblock
    rcases Statement.mem_mark hblock with ⟨hold, -⟩ | ⟨nonce, rfl, hlt, -⟩
    · exact h row hrow block hold
    · exact hmark _ rfl row.nonce hlt
  · rw [hnone] at hblock
    cases hblock

/-- No mark is left at the block or above it. -/
theorem Marked.unmark {block : Nat} (h : storage.Marked P)
    (hchanges : Changes storage storage' (.unmarkExecuted block) reply) :
    storage'.Marked fun nonce executed => P nonce executed ∧ executed < block := by
  intro row' hrow' executed hexecuted
  rcases hchanges.marks hrow' with ⟨row, hrow, hnonce, hsame⟩ | ⟨-, hnone, -⟩
  · rw [hsame] at hexecuted
    rcases Statement.mem_mark hexecuted with ⟨hold, hlt⟩ | ⟨nonce, hmark, -⟩
    · rw [hnonce]
      exact ⟨h row hrow executed hold, hlt block rfl⟩
    · cases hmark
  · rw [hnone] at hexecuted
    cases hexecuted

/-- No mark is left at or below the safe block. -/
theorem Marked.prune {safe : Nat} (h : storage.Marked P)
    (hchanges : Changes storage storage' (.prune safe) reply) :
    storage'.Marked fun nonce executed => P nonce executed ∧ safe < executed := by
  cases hchanges with
  | prune _ hsafe hnonces hrows =>
      intro row hrow executed hexecuted
      rw [hnonces, Relation.rows_deleteWhere] at hrow
      obtain ⟨hrow, hkept⟩ := List.mem_filter.mp hrow
      rw [Option.mem_def.mp hexecuted] at hkept
      exact ⟨h row hrow executed hexecuted, by simpa using hkept⟩

/-! ### The order of the marks -/

/-- If a nonce is marked, so are those before it, at that block or below. -/
def InOrder (storage : Storage) : Prop :=
  ∀ row ∈ storage.allocatedNonces.rows, ∀ row' ∈ storage.allocatedNonces.rows,
    row.nonce < row'.nonce → ∀ block' ∈ row'.executedAt, ∃ block ∈ row.executedAt, block ≤ block'

/-- A statement that marks does so at a block that no mark is above. -/
def MarksOnTop (storage : Storage) (statement : Statement) : Prop :=
  ∀ status, statement = .markExecuted status → storage.Marked fun _ block => block ≤ status.block

theorem inOrder_empty : InOrder empty := by
  intro row hrow
  cases hrow

theorem InOrder.changes (h : storage.InOrder) (hchanges : Changes storage storage' statement reply)
    (htop : storage.MarksOnTop statement) : storage'.InOrder := by
  intro first' hfirst' second' hsecond' hlt block' hblock'
  rcases hchanges.marks hsecond' with ⟨second, hsecond, hnonce', hsame'⟩ | ⟨-, hnone, -⟩
  · rcases hchanges.marks hfirst' with ⟨first, hfirst, hnonce, hsame⟩ | ⟨habove, -⟩
    · rw [hnonce, hnonce'] at hlt
      rw [hsame'] at hblock'
      rw [hsame]
      rcases Statement.mem_mark hblock' with ⟨hold', hbelow⟩ | ⟨nonce, rfl, hbelow, -⟩
      · -- the mark of the second row is an old one, and so is that of the first
        obtain ⟨block, hblock, hle⟩ := h first hfirst second hsecond hlt block' hold'
        refine ⟨block, ?_, hle⟩
        unfold Statement.mark
        split
        · rw [if_neg (by rw [Option.mem_def.mp hblock]; simp)]
          exact hblock
        · next above =>
            have hlow := hbelow above rfl
            rw [if_neg (by
              rw [Option.mem_def.mp hblock]
              simp only [Option.any_some, decide_eq_true_eq]
              omega)]
            exact hblock
        · exact hblock
      · -- both are below the nonce of the account
        cases hfree : first.executedAt with
        | none =>
            refine ⟨block', ?_, Nat.le_refl _⟩
            unfold Statement.mark
            dsimp only
            rw [if_pos (by
              rw [hfree]
              simp only [Option.isNone_none, Bool.and_true, decide_eq_true_eq]
              omega)]
            rfl
        | some block =>
            refine ⟨block, ?_, htop _ rfl first hfirst block hfree⟩
            unfold Statement.mark
            dsimp only
            rw [if_neg (by rw [hfree]; simp)]
            exact hfree
    · have := habove second hsecond
      omega
  · rw [hnone] at hblock'
    cases hblock'

end Storage

namespace Queue

open Program

variable {env : Env} {start : Storage} {status : BlockStatus} {frame : Frame}

/-! ### The marks a call places -/

/-- What a call has executed so far, with every mark placed on top of the others. -/
structure Orderly (start : Storage) (frame : Frame) : Prop where
  storage : frame.queue.storage = Trace.final Storage.step start frame.statements
  onTop : ∀ d ∈ Trace.trace Storage.step start frame.statements, d.pre.MarksOnTop d.input
  fits : frame.queue.storage.Marked fun _ block => block < 2 ^ 63

/-- No mark is above the latest block, if one is known. -/
def Bounded (queue : Queue) : Prop :=
  ∀ status, queue.blockStatus = some status →
    queue.storage.Marked fun _ block => block ≤ status.latest

/-- The moment at which marks may be placed at the latest block. -/
structure Ready (start : Storage) (status : BlockStatus) (frame : Frame) : Prop where
  orderly : Orderly start frame
  known : frame.queue.blockStatus = some status
  bound : frame.queue.storage.Marked fun _ block => block ≤ status.latest

theorem Ready.bounded (h : Ready start status frame) : Bounded frame.queue := by
  intro known hknown
  rw [h.known] at hknown
  cases hknown
  exact h.bound

theorem Orderly.record (h : Orderly start frame) {statement : Storage.Statement}
    (hnew : statement.IsNew) (htop : frame.queue.storage.MarksOnTop statement) :
    Orderly start (frame.record statement) := by
  refine ⟨?_, ?_, ?_⟩
  · rw [Frame.record_storage, Frame.record_statements, Trace.final_concat, ← h.storage]
  · intro d hd
    rw [Frame.record_statements, Trace.trace_concat] at hd
    rcases List.mem_append.mp hd with hold | hlast
    · exact h.onTop d hold
    · rw [List.mem_singleton.mp hlast, Trace.take_pre, Trace.take_input, ← h.storage]
      exact htop
  · rw [Frame.record_storage]
    rcases Storage.step_changes hnew frame.queue.storage with ⟨reply, -, hchanges⟩ | ⟨-, hsame⟩
    · refine h.fits.changes hchanges fun status hmark nonce _ => ?_
      subst hmark
      cases hchanges with
      | markExecuted _ hblock hrows hnonces => exact hblock
    · rw [hsame]
      exact h.fits

theorem Ready.record (h : Ready start status frame) {statement : Storage.Statement}
    (hnew : statement.IsNew)
    (hmark : ∀ placed, statement = .markExecuted placed → placed.block = status.latest) :
    Ready start status (frame.record statement) := by
  refine ⟨h.orderly.record hnew fun placed heq => ?_, h.known, ?_⟩
  · rw [hmark placed heq]
    exact h.bound
  · rw [Frame.record_storage]
    rcases Storage.step_changes hnew frame.queue.storage with ⟨reply, -, hchanges⟩ | ⟨-, hsame⟩
    · exact h.bound.changes hchanges fun placed heq nonce _ => Nat.le_of_eq (hmark placed heq)
    · rw [hsame]
      exact h.bound

theorem keeps_ready {statement : Storage.Statement} (hnew : statement.IsNew)
    (hmark : ∀ placed, statement = .markExecuted placed → placed.block = status.latest) :
    Keeps (Ready start status) (execute env statement) :=
  triple_execute (fun _ h _ => h) (fun _ _ h _ => h.record hnew hmark) fun _ _ h _ => h.record hnew hmark

theorem respects_ready (env : Env) (start : Storage) (status : BlockStatus) :
    Respects env (fun _ => True) (Ready start status) where
  quiet frame frame' hstatements hstorage hstatus _ h := by
    refine ⟨⟨?_, ?_, ?_⟩, ?_, ?_⟩
    · rw [hstorage, hstatements]
      exact h.orderly.storage
    · rw [hstatements]
      exact h.orderly.onTop
    · rw [hstorage]
      exact h.orderly.fits
    · rw [hstatus]
      exact h.known
    · rw [hstorage]
      exact h.bound
  cached _ _ _ _ := trivial
  answered _ _ _ _ h _ := ⟨trivial, ⟨h.orderly.storage, h.orderly.onTop, h.orderly.fits⟩, h.known, h.bound⟩

theorem keeps_ready_submitPending :
    Keeps (Ready start status) (submitPending env status.latest) :=
  keeps_submitPending (respects_ready env start status)
    (fun submission => keeps_ready trivial (by simp))
    fun account _ => keeps_ready (bundler_isNew env account) (by simp)

theorem keeps_ready_advance : Keeps (Ready start status) (advance env status.latest) :=
  keeps_advance (respects_ready env start status)
    (fun account _ => keeps_ready trivial fun placed heq => by cases heq; rfl)
    (fun nonce => keeps_ready trivial (by simp)) (fun submission => keeps_ready trivial (by simp))
    fun account _ => keeps_ready (bundler_isNew env account) (by simp)

/-- The queue knows how far its marks go also if the call ends early, unless it is lost. -/
def Left (start : Storage) (halt : Halt) (frame : Frame) : Prop :=
  Orderly start frame ∧ (halt = .rpc → Bounded frame.queue)

theorem Ready.left (h : Ready start status frame) (halt : Halt) : Left start halt frame :=
  ⟨h.orderly, fun _ => h.bounded⟩

theorem triple_queue (transactions : List (Transaction × Option Nat)) :
    Triple (fun frame => Orderly start frame ∧ Bounded frame.queue) (queue env transactions)
      (fun _ frame => Orderly start frame ∧ Bounded frame.queue) (Left start) := by
  have hrecord : ∀ frame, Orderly start frame ∧ Bounded frame.queue →
      Orderly start (frame.record (.enqueue transactions)) ∧
        Bounded (frame.record (.enqueue transactions)).queue := by
    intro frame h
    refine ⟨h.1.record trivial (by intro status heq; cases heq), fun status hstatus => ?_⟩
    rw [Frame.record_storage]
    have hnew : (Storage.Statement.enqueue transactions).IsNew := trivial
    rcases Storage.step_changes hnew frame.queue.storage with ⟨reply, -, hchanges⟩ | ⟨-, hsame⟩
    · exact (h.2 status hstatus).changes hchanges (by simp)
    · rw [hsame]
      exact h.2 status hstatus
  refine triple_bind (Q := fun _ frame => Orderly start frame ∧ Bounded frame.queue) ?_ fun _ => ?_
  · refine triple_execute (fun _ h _ => ⟨h.1, fun _ => h.2⟩) (fun frame _ h _ => hrecord frame h) ?_
    intro frame error h _
    exact ⟨(hrecord frame h).1, fun _ => (hrecord frame h).2⟩
  · refine triple_get_bind fun frame => ?_
    cases hstatus : frame.queue.blockStatus with
    | none => exact triple_pure fun s hs => hs.1
    | some status =>
        have hsubmit : Keeps (Ready start status) (submitPending env status.latest) :=
          keeps_ready_submitPending
        refine triple_weaken hsubmit (fun s hs => ?_) (fun _ s hs => ⟨hs.orderly, hs.bounded⟩)
          fun halt s hs => hs.left halt
        obtain ⟨⟨horderly, hbounded⟩, rfl⟩ := hs
        exact ⟨horderly, hstatus, hbounded status hstatus⟩

/-- The status was taken note of; the marks are what they were. -/
structure Observed (start : Storage) (previous : Option BlockStatus) (status : BlockStatus)
    (frame : Frame) : Prop where
  orderly : Orderly start frame
  known : frame.queue.blockStatus = some status
  bound : ∀ p, previous = some p → frame.queue.storage.Marked fun _ block => block ≤ p.latest

/-- The storage was pruned if it had to. -/
structure Pruned (start : Storage) (previous : Option BlockStatus) (status : BlockStatus)
    (frame : Frame) : Prop extends Observed start previous status frame where
  fresh : previous = none →
    status.safe < 2 ^ 63 ∧ frame.queue.storage.Marked fun _ block => status.safe < block

variable {previous : Option BlockStatus}

theorem triple_observe :
    Triple (fun frame => (Orderly start frame ∧ Bounded frame.queue) ∧
        frame.queue.blockStatus = previous)
      (observe previous status) (fun _ => Observed start previous status) (Left start) := by
  refine triple_get_bind fun frame => triple_set fun s hs => ?_
  obtain ⟨⟨⟨horderly, hbounded⟩, hprevious⟩, rfl⟩ := hs
  refine ⟨⟨horderly.storage, horderly.onTop, horderly.fits⟩, rfl, fun p hp => ?_⟩
  exact hbounded p (hprevious.trans hp)

/-- A statement that fails changes nothing, and the queue is lost. -/
theorem Orderly.failed (h : Orderly start frame) {statement : Storage.Statement} {error : Storage.Error}
    (hnew : statement.IsNew) (htop : frame.queue.storage.MarksOnTop statement) :
    Left start (.storage error) (frame.record statement) :=
  ⟨h.record hnew htop, fun heq => by cases heq⟩

theorem triple_pruneStorage :
    Triple (Observed start previous status) (pruneStorage env previous status)
      (fun _ => Pruned start previous status) (Left start) := by
  have htop : ∀ storage : Storage, storage.MarksOnTop (.prune status.safe) := by
    intro storage placed heq
    cases heq
  have hnew : (Storage.Statement.prune status.safe).IsNew := trivial
  unfold pruneStorage
  split
  · refine triple_bind (Q := fun _ => Pruned start previous status) ?_ fun _ => triple_pure fun _ hs => hs
    refine triple_execute (fun _ h _ => ⟨h.orderly, fun heq => by cases heq⟩) ?_ ?_
    · intro frame reply h hreply
      have hrecord := h.orderly.record hnew (htop _)
      rcases Storage.step_changes hnew frame.queue.storage with
        ⟨reply', -, hchanges⟩ | ⟨⟨error, herror⟩, -⟩
      · refine ⟨⟨hrecord, h.known, fun p hp => ?_⟩, fun _ => ⟨?_, ?_⟩⟩
        · exact (h.bound p hp).changes hchanges (by simp)
        · cases hchanges with
          | prune _ hsafe hnonces hrows => exact hsafe
        · exact (h.orderly.fits.prune hchanges).imp fun _ _ hmark => hmark.2
      · rw [hreply] at herror
        cases herror
    · intro frame error h _
      exact h.orderly.failed hnew (htop _)
  · next hsame =>
      refine triple_pure fun frame h => ⟨h, fun hnone => ?_⟩
      rw [hnone] at hsame
      exact absurd rfl hsame

/-- Once the marks are cleared, none is above the latest block. -/
theorem marked_unmarkFrom {storage storage' : Storage} {block : Nat} {reply : Storage.Reply}
    {P : Nat → Nat → Prop} (hblock : unmarkFrom previous status = some block)
    (hfresh : previous = none → storage.Marked fun _ executed => status.safe < executed)
    (h : storage.Marked P) (hchanges : Storage.Changes storage storage' (.unmarkExecuted block) reply) :
    storage'.Marked fun nonce executed => P nonce executed ∧ executed ≤ status.latest := by
  intro row hrow executed hexecuted
  have hkept := h.unmark hchanges row hrow executed hexecuted
  refine ⟨hkept.1, ?_⟩
  cases hprevious : previous with
  | none =>
      -- no mark is left: those up to the safe block were pruned
      rw [hprevious, unmarkFrom] at hblock
      split at hblock
      · cases hblock
        have := ((hfresh hprevious).unmark hchanges row hrow executed hexecuted).1
        have := hkept.2
        omega
      · cases hblock
  | some p =>
      rw [hprevious, unmarkFrom] at hblock
      split at hblock
      · split at hblock
        · cases hblock
          exact Nat.le_of_lt_succ hkept.2
        · cases hblock
      · cases hblock

/-- If no marks are to be cleared, none is above the latest block. -/
theorem marked_of_unmarkFrom {storage : Storage} (hblock : unmarkFrom previous status = none)
    (hfits : storage.Marked fun _ block => block < 2 ^ 63)
    (hbound : ∀ p, previous = some p → storage.Marked fun _ block => block ≤ p.latest)
    (hsafe : previous = none → status.safe < 2 ^ 63) :
    storage.Marked fun _ block => block ≤ status.latest := by
  cases hprevious : previous with
  | none =>
      rw [hprevious, unmarkFrom] at hblock
      split at hblock
      · cases hblock
      · have := hsafe hprevious
        omega
  | some p =>
      rw [hprevious, unmarkFrom] at hblock
      split at hblock
      · split at hblock
        · cases hblock
        · -- such a block is above everything the database can store
          refine hfits.imp fun _ executed hmark => ?_
          omega
      · refine (hbound p hprevious).imp fun _ executed hmark => ?_
        omega

theorem triple_unmarkReplaced :
    Triple (Pruned start previous status) (unmarkReplaced env previous status)
      (fun _ => Ready start status) (Left start) := by
  unfold unmarkReplaced
  split
  · next block hblock =>
      have htop : ∀ storage : Storage, storage.MarksOnTop (.unmarkExecuted block) := by
        intro storage placed heq
        cases heq
      have hnew : (Storage.Statement.unmarkExecuted block).IsNew := trivial
      refine triple_bind (Q := fun _ => Ready start status) ?_ fun _ => triple_pure fun _ hs => hs
      refine triple_execute (fun _ h _ => ⟨h.orderly, fun heq => by cases heq⟩) ?_ ?_
      · intro frame reply h hreply
        refine ⟨h.orderly.record hnew (htop _), h.known, ?_⟩
        rw [Frame.record_storage]
        rcases Storage.step_changes hnew frame.queue.storage with
          ⟨reply', -, hchanges⟩ | ⟨⟨error, herror⟩, -⟩
        · have hcleared := marked_unmarkFrom hblock (fun hnone => (h.fresh hnone).2) h.orderly.fits hchanges
          exact hcleared.imp fun _ _ hmark => hmark.2
        · rw [hreply] at herror
          cases herror
      · intro frame error h _
        exact h.orderly.failed hnew (htop _)
  · next hblock =>
      refine triple_pure fun frame h => ⟨h.orderly, h.known, ?_⟩
      exact marked_of_unmarkFrom hblock h.orderly.fits h.bound fun hnone => (h.fresh hnone).1

theorem triple_updateBlockStatus (status : BlockStatus) :
    Triple (fun frame => Orderly start frame ∧ Bounded frame.queue) (updateBlockStatus env status)
      (fun _ frame => Orderly start frame ∧ Bounded frame.queue) (Left start) := by
  refine triple_get_bind fun frame => ?_
  dsimp only
  split
  · exact triple_pure fun s hs => hs.1
  · refine triple_bind (Q := fun _ => Observed start frame.queue.blockStatus status) ?_ fun _ => ?_
    · intro s hs
      refine triple_observe s ⟨hs.1, ?_⟩
      rw [hs.2]
    · refine triple_bind triple_pruneStorage fun _ => triple_bind triple_unmarkReplaced fun _ => ?_
      have hadvance : Keeps (Ready start status) (advanceIfNew env frame.queue.blockStatus status) := by
        unfold advanceIfNew
        split
        · refine keeps_bind (keeps_read _) fun count => ?_
          split
          · exact keeps_ready_advance
          · exact keeps_pure
        · exact keeps_pure
      exact triple_weaken hadvance (fun _ hs => hs) (fun _ s hs => ⟨hs.orderly, hs.bounded⟩)
        fun halt s hs => hs.left halt

/-! ### The marks of a run -/

/-- A call places its marks on top of the others. -/
theorem step_onTop (setup : Setup) {queue : Queue} (hbounded : Bounded queue)
    (hfits : queue.storage.Marked fun _ block => block < 2 ^ 63) (input : Input) :
    (Bounded (step setup queue input).1 ∧
        (step setup queue input).1.storage.Marked fun _ block => block < 2 ^ 63) ∧
      ∀ d ∈ Trace.trace Storage.step queue.storage (step setup queue input).2.statements,
        d.pre.MarksOnTop d.input := by
  cases input with
  | restart =>
      refine ⟨⟨fun status hstatus => ?_, hfits⟩, fun d hd => by cases hd⟩
      cases hstatus
  | call operation answers stopsAfter =>
      have hstart : Orderly queue.storage ⟨queue, [], 0⟩ := ⟨rfl, fun d hd => (by cases hd), hfits⟩
      have hcall : Triple (fun frame => Orderly queue.storage frame ∧ Bounded frame.queue)
          (perform ⟨setup, answers, stopsAfter⟩ operation)
          (fun _ frame => Orderly queue.storage frame ∧ Bounded frame.queue) (Left queue.storage) := by
        cases operation with
        | queue transactions => exact triple_queue transactions
        | updateBlockStatus status => exact triple_updateBlockStatus status
      have hrun := hcall ⟨queue, [], 0⟩ ⟨hstart, hbounded⟩
      unfold step
      dsimp only
      rcases hresult : (perform ⟨setup, answers, stopsAfter⟩ operation ⟨queue, [], 0⟩ :
        Except Halt Unit × Frame) with ⟨result, frame⟩
      rw [hresult] at hrun
      dsimp only
      have hlost : Bounded frame.queue.restarted := by
        intro status hstatus
        cases hstatus
      cases result with
      | ok done => exact ⟨⟨hrun.2, hrun.1.fits⟩, hrun.1.onTop⟩
      | error halt =>
          refine ⟨⟨?_, ?_⟩, hrun.1.onTop⟩
          · cases halt with
            | rpc => exact hrun.2 rfl
            | storage error => exact hlost
            | signing => exact hlost
            | stopped => exact hlost
          · rw [surviving_storage]
            exact hrun.1.fits

/-- The statements of a run, from any queue that knows how far its marks go. -/
theorem trace_onTop (setup : Setup) (inputs : List Input) : ∀ {queue : Queue}, Bounded queue →
    (queue.storage.Marked fun _ block => block < 2 ^ 63) →
      ∀ d ∈ Trace.trace Storage.step queue.storage
        (statementsOf (Trace.trace (step setup) queue inputs)), d.pre.MarksOnTop d.input := by
  induction inputs with
  | nil =>
      intro queue _ _ d hd
      cases hd
  | cons input inputs ih =>
      intro queue hbounded hfits d hd
      obtain ⟨⟨hbounded', hfits'⟩, hfirst⟩ := step_onTop setup hbounded hfits input
      rw [Trace.trace_cons, statementsOf_cons, Trace.trace_append] at hd
      rcases List.mem_append.mp hd with hnow | hlater
      · exact hfirst d hnow
      · refine ih hbounded' hfits' d ?_
        rw [(step_traced setup queue input).1]
        exact hlater

/-- **In every run a mark is placed at a block that no mark is above.** -/
theorem run_onTop (setup : Setup) (inputs : List Input) :
    ∀ d ∈ Trace.trace Storage.step .empty (statementsOf (Trace.trace (step setup) .new inputs)),
      d.pre.MarksOnTop d.input := by
  have hbounded : Bounded .new := by
    intro status hstatus
    cases hstatus
  exact trace_onTop setup inputs hbounded Storage.marked_empty

end Queue

end Safenet.Core.Tx
