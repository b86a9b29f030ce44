/-
No transaction of the queue is lost or doubled.

The statements of a run are a run of the database.  Every statement keeps the tables consistent
(`Consistent`), keeps what is allocated to a nonce for as long as the nonce has a row (`Stable`), and
neither adds nor drops a transaction except by queueing and pruning (`conserved`).  The queue adds what
it is given and prunes at the safe block of the status it is given, whatever the node answers and
wherever a call is stopped.
-/
import Safenet.Core.TransactionQueue
import Safenet.Lib.Program
import Safenet.Proofs.TransactionStorage

namespace Safenet.Core.Tx

namespace Storage

variable {storage storage' : Storage} {statement : Statement} {reply : Reply}

/-- The transactions allocated to a nonce, in the order of their ids. -/
def allocatedTo (storage : Storage) (nonce : Nat) : List TransactionRow :=
  storage.transactions.rows.filter (·.nonce = some nonce)

theorem mem_allocatedTo {nonce : Nat} {row : TransactionRow} :
    row ∈ storage.allocatedTo nonce ↔ row ∈ storage.transactions.rows ∧ row.nonce = some nonce := by
  simp [allocatedTo]

/-- Every allocated transaction has a nonce at which its call is made, and every nonce makes the calls
of the transactions allocated to it. -/
structure Consistent (storage : Storage) : Prop where
  references : ∀ row ∈ storage.transactions.rows, ∀ nonce, row.nonce = some nonce →
    ∃ nonceRow ∈ storage.allocatedNonces.rows, nonceRow.nonce = nonce ∧ nonceRow.request.isSome
  carries : ∀ nonceRow ∈ storage.allocatedNonces.rows, ∀ request, nonceRow.request = some request →
    Carries request.transaction
      ((storage.allocatedTo nonceRow.nonce).map TransactionRow.request)

/-- What is allocated to a nonce, and the transaction sent there, stay until the nonce is pruned
together with its transactions. -/
def Stable (storage storage' : Storage) : Prop :=
  ∀ nonceRow ∈ storage.allocatedNonces.rows, ∀ request, nonceRow.request = some request →
    (∃ nonceRow' ∈ storage'.allocatedNonces.rows, nonceRow'.nonce = nonceRow.nonce ∧
        nonceRow'.request.map Request.transaction = some request.transaction ∧
        storage'.allocatedTo nonceRow.nonce = storage.allocatedTo nonceRow.nonce) ∨
      (∀ nonceRow' ∈ storage'.allocatedNonces.rows, nonceRow'.nonce ≠ nonceRow.nonce) ∧
        storage'.allocatedTo nonceRow.nonce = []

/-! ### Updates of single nonces -/

/-- What an update does to a row: it keeps the transaction, or puts a cancellation in place of an
authorization. -/
structure Touches (row row' : NonceRow) : Prop where
  nonce : row'.nonce = row.nonce
  delegate : row'.delegate = row.delegate
  request : row'.request.map Request.transaction = row.request.map Request.transaction ∨
    row.request = none ∧ row.delegate.isSome ∧ row'.request = some ⟨.default, none, none⟩

theorem Touches.refl (row : NonceRow) : Touches row row := ⟨rfl, rfl, .inl rfl⟩

/-- Only rows of `allocated_nonces` are updated. -/
def Updates (storage storage' : Storage) : Prop :=
  ∃ f, (∀ row, Touches row (f row)) ∧ storage'.transactions = storage.transactions ∧
    storage'.allocatedNonces.rows = storage.allocatedNonces.rows.map f

theorem updates_mapNonces {p : NonceRow → Bool} {f : NonceRow → NonceRow}
    (hrows : storage'.transactions = storage.transactions)
    (hnonces : storage'.allocatedNonces.rows = storage.mapNonces p f)
    (h : ∀ row, p row = true → Touches row (f row)) : Updates storage storage' := by
  refine ⟨fun row => if p row then f row else row, fun row => ?_, hrows, hnonces⟩
  dsimp only
  split
  · next hp => exact h row hp
  · exact .refl row

/-- Whether the statement only updates rows of `allocated_nonces`. -/
def Statement.isUpdate : Statement → Bool
  | .enqueue _ | .nextTransaction _ _ | .prune _ => false
  | .recordSubmission _ | .markExecuted _ | .recoverAuthorizationGap _ | .unmarkExecuted _ => true

theorem Changes.updates (h : Changes storage storage' statement reply)
    (hupdate : statement.isUpdate = true) : Updates storage storage' := by
  cases h with
  | enqueue transactions new hrows hentries hnew hnonces => cases hupdate
  | prune safe hsafe hnonces hrows => cases hupdate
  | allocate status bundler taken rest allocated => cases hupdate
  | idle status bundler hsame => cases hupdate
  | recordSubmission submission hrows hnonces =>
      refine updates_mapNonces hrows hnonces fun row _ => ⟨rfl, rfl, .inl ?_⟩
      show (row.request.map _).map _ = _
      rw [Option.map_map]
      rfl
  | markExecuted status hblock hrows hnonces =>
      exact updates_mapNonces hrows hnonces fun row _ => ⟨rfl, rfl, .inl rfl⟩
  | recoverAuthorizationGap nonce isRecovered hrecovered hrows hnonces =>
      refine updates_mapNonces hrows hnonces fun row hgap => ⟨rfl, rfl, .inr ?_⟩
      rw [Bool.and_eq_true, Bool.and_eq_true] at hgap
      exact ⟨Option.isNone_iff_eq_none.mp hgap.2, hgap.1.2, rfl⟩
  | unmarkExecuted block hrows hnonces =>
      exact updates_mapNonces hrows hnonces fun row _ => ⟨rfl, rfl, .inl rfl⟩

theorem Consistent.updates (h : Consistent storage) (hupdates : Updates storage storage') :
    Consistent storage' := by
  obtain ⟨f, hf, hrows, hnonces⟩ := hupdates
  have hallocated : ∀ nonce, storage'.allocatedTo nonce = storage.allocatedTo nonce := by
    intro nonce
    rw [allocatedTo, hrows, allocatedTo]
  constructor
  · intro row hrow nonce hnonce
    rw [hrows] at hrow
    obtain ⟨nonceRow, hmem, hkey, hrequest⟩ := h.references row hrow nonce hnonce
    refine ⟨f nonceRow, by rw [hnonces]; exact List.mem_map_of_mem hmem, (hf nonceRow).nonce.trans hkey, ?_⟩
    rcases (hf nonceRow).request with hsame | ⟨hnone, -, -⟩
    · have := congrArg Option.isSome hsame
      rw [Option.isSome_map, Option.isSome_map] at this
      rw [this]
      exact hrequest
    · rw [hnone] at hrequest
      cases hrequest
  · intro nonceRow' hmem' request' hrequest'
    rw [hnonces] at hmem'
    obtain ⟨nonceRow, hmem, rfl⟩ := List.mem_map.mp hmem'
    rw [hallocated, (hf nonceRow).nonce]
    rcases (hf nonceRow).request with hsame | ⟨hnone, -, hcancelled⟩
    · rw [hrequest'] at hsame
      obtain ⟨request, hrequest, heq⟩ := Option.map_eq_some_iff.mp hsame.symm
      rw [← heq]
      exact h.carries nonceRow hmem request hrequest
    · -- nothing is allocated to the nonce of an authorization
      rw [hcancelled] at hrequest'
      cases hrequest'
      have hnil : storage.allocatedTo nonceRow.nonce = [] := by
        rw [List.eq_nil_iff_forall_not_mem]
        intro row hrow
        obtain ⟨hrow, hnonce⟩ := mem_allocatedTo.mp hrow
        obtain ⟨other, hother, hkey, hrequest⟩ := h.references row hrow _ hnonce
        rw [Relation.eq_of_key hother hmem hkey, hnone] at hrequest
        cases hrequest
      rw [hnil]
      exact .cancellation

theorem Updates.stable (h : Updates storage storage') : Stable storage storage' := by
  obtain ⟨f, hf, hrows, hnonces⟩ := h
  intro nonceRow hmem request hrequest
  refine .inl ⟨f nonceRow, by rw [hnonces]; exact List.mem_map_of_mem hmem, (hf nonceRow).nonce, ?_, ?_⟩
  · rcases (hf nonceRow).request with hsame | ⟨hnone, -, -⟩
    · rw [hsame, hrequest]
      rfl
    · rw [hnone] at hrequest
      cases hrequest
  · rw [allocatedTo, hrows, allocatedTo]

/-! ### Queueing, allocating and pruning -/

theorem allocatedTo_append {new : List TransactionRow} (hnew : ∀ row ∈ new, row.nonce = none)
    (hrows : storage'.transactions.rows = storage.transactions.rows ++ new) (nonce : Nat) :
    storage'.allocatedTo nonce = storage.allocatedTo nonce := by
  rw [allocatedTo, hrows, List.filter_append, allocatedTo]
  have hnil : new.filter (·.nonce = some nonce) = [] := by
    rw [List.filter_eq_nil_iff]
    intro row hrow
    simp [hnew row hrow]
  rw [hnil, List.append_nil]

theorem Consistent.enqueue (h : Consistent storage) {new : List TransactionRow}
    (hrows : storage'.transactions.rows = storage.transactions.rows ++ new)
    (hnew : ∀ row ∈ new, row.nonce = none)
    (hnonces : storage'.allocatedNonces = storage.allocatedNonces) : Consistent storage' := by
  constructor
  · intro row hrow nonce hnonce
    rw [hnonces]
    rw [hrows] at hrow
    rcases List.mem_append.mp hrow with hold | hadded
    · exact h.references row hold nonce hnonce
    · rw [hnew row hadded] at hnonce
      cases hnonce
  · intro nonceRow hmem request hrequest
    rw [allocatedTo_append hnew hrows]
    rw [hnonces] at hmem
    exact h.carries nonceRow hmem request hrequest

section Allocate

variable {taken rest : List TransactionRow} {block nonce : Nat}
  (hpending : storage.transactions.rows.filter (isPending block) = taken ++ rest)
  (hrows : storage'.transactions.rows = storage.transactions.rows.map fun row =>
    if row ∈ taken then { row with nonce := some nonce } else row)

include hpending

/-- A transaction that is taken had no nonce. -/
theorem taken_unallocated {row : TransactionRow} (h : row ∈ taken) :
    row ∈ storage.transactions.rows ∧ row.nonce = none := by
  have hmem : row ∈ storage.transactions.rows.filter (isPending block) := by
    rw [hpending]
    exact List.mem_append_left _ h
  obtain ⟨hmem, hwaits⟩ := List.mem_filter.mp hmem
  rw [isPending, Bool.and_eq_true] at hwaits
  exact ⟨hmem, Option.isNone_iff_eq_none.mp hwaits.1⟩

/-- The rows taken, as a selection of all rows. -/
theorem filter_taken : storage.transactions.rows.filter (· ∈ taken) = taken := by
  have hsub : storage.transactions.rows.filter (· ∈ taken) =
      (storage.transactions.rows.filter (isPending block)).filter (· ∈ taken) := by
    rw [List.filter_filter]
    apply List.filter_congr
    intro row _
    by_cases htaken : row ∈ taken
    · have hmem : row ∈ storage.transactions.rows.filter (isPending block) := by
        rw [hpending]
        exact List.mem_append_left _ htaken
      simp [htaken, (List.mem_filter.mp hmem).2]
    · simp [htaken]
  have hdistinct : (taken ++ rest).Pairwise fun r r' => r.id < r'.id := by
    rw [← hpending]
    exact storage.transactions.sorted.filter _
  have hrest : rest.filter (· ∈ taken) = [] := by
    rw [List.filter_eq_nil_iff]
    intro row hrow htaken
    have := (List.pairwise_append.mp hdistinct).2.2 row (by simpa using htaken) row hrow
    omega
  rw [hsub, hpending, List.filter_append, hrest, List.append_nil, List.filter_eq_self]
  simp

include hrows

theorem allocatedTo_other {other : Nat} (hother : other ≠ nonce) :
    storage'.allocatedTo other = storage.allocatedTo other := by
  rw [allocatedTo, hrows, List.filter_map, allocatedTo]
  have hsame : storage.transactions.rows.filter ((fun row => decide (row.nonce = some other)) ∘
        fun row => if row ∈ taken then { row with nonce := some nonce } else row) =
      storage.transactions.rows.filter (·.nonce = some other) := by
    apply List.filter_congr
    intro row hrow
    by_cases htaken : row ∈ taken
    · simp [htaken, (taken_unallocated hpending htaken).2, Ne.symm hother]
    · simp [htaken]
  rw [hsame]
  conv_rhs => rw [← List.map_id (storage.transactions.rows.filter (·.nonce = some other))]
  apply List.map_congr_left
  intro row hrow
  have hnonce : row.nonce = some other := by simpa using (List.mem_filter.mp hrow).2
  rw [if_neg, id]
  intro htaken
  rw [(taken_unallocated hpending htaken).2] at hnonce
  cases hnonce

theorem allocatedTo_new (hfree : ∀ row ∈ storage.transactions.rows, row.nonce ≠ some nonce) :
    storage'.allocatedTo nonce = taken.map fun row => { row with nonce := some nonce } := by
  rw [allocatedTo, hrows, List.filter_map]
  have hsame : storage.transactions.rows.filter ((fun row => decide (row.nonce = some nonce)) ∘
        fun row => if row ∈ taken then { row with nonce := some nonce } else row) = taken := by
    rw [← filter_taken hpending]
    apply List.filter_congr
    intro row hrow
    rw [filter_taken hpending]
    by_cases htaken : row ∈ taken
    · simp [htaken]
    · simp [htaken, hfree row hrow]
  rw [hsame]
  apply List.map_congr_left
  intro row hrow
  rw [if_pos hrow]

end Allocate

/-- The nonce of an allocation is above all others. -/
theorem nonce_lt_allocated {status : Status} {allocated : AllocatedTransaction}
    (hnonce : allocated.nonce = max status.nonce (storage.allocatedNonces.nextKey 0))
    {nonceRow : NonceRow} (h : nonceRow ∈ storage.allocatedNonces.rows) :
    nonceRow.nonce < allocated.nonce := by
  have := Relation.key_lt_nextKey h 0
  omega

theorem Consistent.unallocated (h : Consistent storage) {nonce : Nat}
    (hfresh : ∀ nonceRow ∈ storage.allocatedNonces.rows, nonceRow.nonce < nonce) :
    ∀ row ∈ storage.transactions.rows, row.nonce ≠ some nonce := by
  intro row hrow heq
  obtain ⟨nonceRow, hmem, hkey, -⟩ := h.references row hrow nonce heq
  have := hfresh nonceRow hmem
  omega

theorem mem_allocatedRows {allocated : AllocatedTransaction} {nonceRow : NonceRow} :
    nonceRow ∈ allocatedRows allocated ↔ nonceRow = transactionRow allocated ∨
      ∃ authorization, allocated.authorization = some authorization ∧
        nonceRow = delegateRow (allocated.nonce + 1) authorization := by
  unfold allocatedRows
  cases allocated.authorization with
  | none => simp
  | some authorization => simp

theorem Consistent.allocate (h : Consistent storage) {taken rest : List TransactionRow} {block : Nat}
    {allocated : AllocatedTransaction}
    (hpending : storage.transactions.rows.filter (isPending block) = taken ++ rest)
    (hfresh : ∀ nonceRow ∈ storage.allocatedNonces.rows, nonceRow.nonce < allocated.nonce)
    (hcarries : Carries allocated.transaction (taken.map TransactionRow.request))
    (hnonces : storage'.allocatedNonces.rows = storage.allocatedNonces.rows ++ allocatedRows allocated)
    (hrows : storage'.transactions.rows = storage.transactions.rows.map fun row =>
      if row ∈ taken then { row with nonce := some allocated.nonce } else row) :
    Consistent storage' := by
  constructor
  · intro row' hrow' nonce hnonce
    rw [hrows] at hrow'
    rw [hnonces]
    obtain ⟨row, hrow, rfl⟩ := List.mem_map.mp hrow'
    split at hnonce
    · cases hnonce
      exact ⟨transactionRow allocated, List.mem_append_right _ (List.mem_cons_self ..), rfl, rfl⟩
    · obtain ⟨nonceRow, hmem, hkey, hrequest⟩ := h.references row hrow nonce hnonce
      exact ⟨nonceRow, List.mem_append_left _ hmem, hkey, hrequest⟩
  · intro nonceRow hmem request hrequest
    rw [hnonces] at hmem
    rcases List.mem_append.mp hmem with hold | hadded
    · rw [allocatedTo_other hpending hrows (Nat.ne_of_lt (hfresh nonceRow hold))]
      exact h.carries nonceRow hold request hrequest
    · rcases mem_allocatedRows.mp hadded with rfl | ⟨authorization, -, rfl⟩
      · cases hrequest
        show Carries allocated.transaction ((storage'.allocatedTo allocated.nonce).map _)
        rw [allocatedTo_new hpending hrows (h.unallocated hfresh), List.map_map]
        exact hcarries
      · cases hrequest

theorem stable_allocate {taken rest : List TransactionRow} {block : Nat}
    {allocated : AllocatedTransaction}
    (hpending : storage.transactions.rows.filter (isPending block) = taken ++ rest)
    (hfresh : ∀ nonceRow ∈ storage.allocatedNonces.rows, nonceRow.nonce < allocated.nonce)
    (hnonces : storage'.allocatedNonces.rows = storage.allocatedNonces.rows ++ allocatedRows allocated)
    (hrows : storage'.transactions.rows = storage.transactions.rows.map fun row =>
      if row ∈ taken then { row with nonce := some allocated.nonce } else row) :
    Stable storage storage' := by
  intro nonceRow hmem request hrequest
  refine .inl ⟨nonceRow, by rw [hnonces]; exact List.mem_append_left _ hmem, rfl, ?_,
    allocatedTo_other hpending hrows (Nat.ne_of_lt (hfresh nonceRow hmem))⟩
  rw [hrequest]
  rfl

section Prune

variable {safe : Nat}

/-- Whether pruning keeps the transaction. -/
def survives (storage : Storage) (safe : Nat) (row : TransactionRow) : Bool :=
  match row.nonce with
  | some nonce => !storage.allocatedNonces.rows.any fun nonceRow =>
      nonceRow.nonce = nonce && nonceRow.executedAt.any (· ≤ safe)
  | none => row.expiresAt.all (safe < ·)

/-- A transaction with a nonce survives together with the nonce. -/
theorem survives_iff {row : TransactionRow} {nonceRow : NonceRow}
    (hmem : nonceRow ∈ storage.allocatedNonces.rows) (hnonce : row.nonce = some nonceRow.nonce) :
    storage.survives safe row = !nonceRow.executedAt.any (· ≤ safe) := by
  rw [survives, hnonce]
  dsimp only
  congr 1
  rw [Bool.eq_iff_iff, List.any_eq_true]
  constructor
  · rintro ⟨other, hother, hmarked⟩
    rw [Bool.and_eq_true, decide_eq_true_iff] at hmarked
    rw [← Relation.eq_of_key hother hmem hmarked.1]
    exact hmarked.2
  · intro hmarked
    exact ⟨nonceRow, hmem, by simpa using hmarked⟩

variable (hnonces : storage'.allocatedNonces =
    storage.allocatedNonces.deleteWhere fun row => row.executedAt.any (· ≤ safe))
  (hrows : storage'.transactions.rows = storage.transactions.rows.filter (storage.survives safe))

include hrows

theorem allocatedTo_prune {nonceRow : NonceRow} (hmem : nonceRow ∈ storage.allocatedNonces.rows) :
    storage'.allocatedTo nonceRow.nonce =
      if nonceRow.executedAt.any (· ≤ safe) then [] else storage.allocatedTo nonceRow.nonce := by
  rw [allocatedTo, hrows, List.filter_filter, allocatedTo]
  split
  · next hmarked =>
      rw [List.filter_eq_nil_iff]
      intro row _
      by_cases hnonce : row.nonce = some nonceRow.nonce
      · simp [hnonce, survives_iff hmem hnonce, hmarked]
      · simp [hnonce]
  · next hmarked =>
      apply List.filter_congr
      intro row _
      by_cases hnonce : row.nonce = some nonceRow.nonce
      · simp [hnonce, survives_iff hmem hnonce, hmarked]
      · simp [hnonce]

include hnonces

theorem Consistent.prune (h : Consistent storage) : Consistent storage' := by
  have hkept : ∀ nonceRow, nonceRow ∈ storage'.allocatedNonces.rows ↔
      nonceRow ∈ storage.allocatedNonces.rows ∧ nonceRow.executedAt.any (· ≤ safe) = false := by
    intro nonceRow
    rw [hnonces, Relation.rows_deleteWhere, List.mem_filter, Bool.not_eq_true']
  constructor
  · intro row hrow nonce hnonce
    rw [hrows] at hrow
    obtain ⟨hrow, hsurvives⟩ := List.mem_filter.mp hrow
    obtain ⟨nonceRow, hmem, rfl, hrequest⟩ := h.references row hrow nonce hnonce
    rw [survives_iff hmem hnonce, Bool.not_eq_true'] at hsurvives
    exact ⟨nonceRow, (hkept nonceRow).mpr ⟨hmem, hsurvives⟩, rfl, hrequest⟩
  · intro nonceRow hmem request hrequest
    obtain ⟨hmem, hunmarked⟩ := (hkept nonceRow).mp hmem
    rw [allocatedTo_prune hrows hmem, if_neg (by simp [hunmarked])]
    exact h.carries nonceRow hmem request hrequest

theorem stable_prune : Stable storage storage' := by
  intro nonceRow hmem request hrequest
  have hallocated := allocatedTo_prune hrows hmem
  by_cases hmarked : nonceRow.executedAt.any (· ≤ safe) = true
  · rw [if_pos hmarked] at hallocated
    refine .inr ⟨fun nonceRow' hmem' heq => ?_, hallocated⟩
    rw [hnonces, Relation.rows_deleteWhere, List.mem_filter, Bool.not_eq_true'] at hmem'
    rw [Relation.eq_of_key hmem'.1 hmem heq, hmarked] at hmem'
    cases hmem'.2
  · rw [if_neg hmarked] at hallocated
    refine .inl ⟨nonceRow, ?_, rfl, by rw [hrequest]; rfl, hallocated⟩
    rw [hnonces, Relation.rows_deleteWhere, List.mem_filter]
    exact ⟨hmem, by simpa using hmarked⟩

end Prune

/-- **Every statement keeps the tables consistent and the allocations stable.** -/
theorem Consistent.changes (h : Consistent storage) (hchanges : Changes storage storage' statement reply) :
    Consistent storage' ∧ Stable storage storage' := by
  by_cases hupdate : statement.isUpdate = true
  · have hupdates := hchanges.updates hupdate
    exact ⟨h.updates hupdates, hupdates.stable⟩
  · cases hchanges with
    | enqueue transactions new hrows hentries hnew hnonces =>
        refine ⟨h.enqueue hrows hnew hnonces, fun nonceRow hmem request hrequest => .inl ?_⟩
        refine ⟨nonceRow, by rw [hnonces]; exact hmem, rfl, by rw [hrequest]; rfl, ?_⟩
        exact allocatedTo_append hnew hrows _
    | idle status bundler hsame =>
        rw [hsame]
        exact ⟨h, fun nonceRow hmem request hrequest =>
          .inl ⟨nonceRow, hmem, rfl, by rw [hrequest]; rfl, rfl⟩⟩
    | allocate status bundler taken rest allocated hpending hnonempty hnonce hauthorization hcarries hnonces
        hrows =>
        have hfresh : ∀ nonceRow ∈ storage.allocatedNonces.rows, nonceRow.nonce < allocated.nonce :=
          fun nonceRow hmem => nonce_lt_allocated hnonce hmem
        exact ⟨h.allocate hpending hfresh hcarries hnonces hrows,
          stable_allocate hpending hfresh hnonces hrows⟩
    | prune safe hsafe hnonces hrows => exact ⟨h.prune hnonces hrows, stable_prune hnonces hrows⟩
    | recordSubmission submission hrows hnonces => exact absurd rfl hupdate
    | markExecuted status hblock hrows hnonces => exact absurd rfl hupdate
    | recoverAuthorizationGap nonce isRecovered hrecovered hrows hnonces => exact absurd rfl hupdate
    | unmarkExecuted block hrows hnonces => exact absurd rfl hupdate

/-- A transaction that has a nonce is allocated to one row only. -/
theorem Consistent.allocated_once (h : storage.Consistent)
    {row : TransactionRow} (hrow : row ∈ storage.transactions.rows) :
    row.nonce = none ∨ ∃! nonceRow, nonceRow ∈ storage.allocatedNonces.rows ∧
      row ∈ storage.allocatedTo nonceRow.nonce := by
  cases hnonce : row.nonce with
  | none => exact .inl rfl
  | some nonce =>
      obtain ⟨nonceRow, hmem, rfl, -⟩ := h.references row hrow nonce hnonce
      refine .inr ⟨nonceRow, ⟨hmem, mem_allocatedTo.mpr ⟨hrow, hnonce⟩⟩, ?_⟩
      rintro other ⟨hother, hallocated⟩
      have heq := (mem_allocatedTo.mp hallocated).2
      rw [hnonce, Option.some.injEq] at heq
      exact Relation.eq_of_key hother hmem heq.symm

/-! ### Runs of the database -/

/-- A statement that was executed. -/
abbrev DbStep := Trace.Step Storage Statement (Except Error Reply)

/-- The transactions a statement has queued. -/
def enqueuedBy (st : DbStep) : List (Transaction × Option Nat) :=
  match st.input, st.out with
  | .enqueue transactions, .ok _ => transactions
  | _, _ => []

/-- The rows a statement has removed. -/
def removedBy (st : DbStep) : List TransactionRow :=
  st.pre.transactions.rows.filter fun row => !st.post.transactions.rows.any (·.id = row.id)

/-- What a statement did, and that it kept the tables consistent. -/
structure Sound (st : DbStep) : Prop where
  pre : Consistent st.pre
  post : Consistent st.post
  stable : Stable st.pre st.post
  changes : (∃ reply, st.out = .ok reply ∧ Changes st.pre st.post st.input reply) ∨
    (∃ error, st.out = .error error) ∧ st.post = st.pre

theorem consistent_empty : Consistent empty := by
  constructor
  · intro row hrow
    cases hrow
  · intro nonceRow hmem
    cases hmem

theorem Stable.refl (storage : Storage) : Stable storage storage := by
  intro nonceRow hmem request hrequest
  exact .inl ⟨nonceRow, hmem, rfl, by rw [hrequest]; rfl, rfl⟩

theorem Consistent.sound (h : Consistent storage) (hnew : statement.IsNew) :
    Sound (Trace.take step storage statement) := by
  rcases step_changes hnew storage with ⟨reply, hout, hchanges⟩ | ⟨hout, hsame⟩
  · obtain ⟨hpost, hstable⟩ := h.changes hchanges
    exact ⟨h, hpost, hstable, .inl ⟨reply, hout, hchanges⟩⟩
  · refine ⟨h, ?_, ?_, .inr ⟨hout, hsame⟩⟩
    · rw [Trace.take_post, hsame]
      exact h
    · show Stable storage (step storage statement).1
      rw [hsame]
      exact .refl storage

/-- **Every statement of a run is sound.** -/
theorem run_sound (statements : List Statement) (hnew : ∀ statement ∈ statements, statement.IsNew) :
    ∀ {storage : Storage}, Consistent storage →
      ∀ st ∈ Trace.trace step storage statements, Sound st := by
  induction statements with
  | nil =>
      intro storage _ st hst
      cases hst
  | cons statement statements ih =>
      intro storage h st hst
      have hsound := h.sound (hnew statement (List.mem_cons_self ..))
      rcases List.mem_cons.mp hst with rfl | hst
      · exact hsound
      · exact ih (fun s hs => hnew s (List.mem_cons_of_mem _ hs)) hsound.post st hst

theorem run_consistent (statements : List Statement)
    (hnew : ∀ statement ∈ statements, statement.IsNew) :
    ∀ {storage : Storage}, Consistent storage → Consistent (Trace.final step storage statements) := by
  induction statements with
  | nil => intro storage h; exact h
  | cons statement statements ih =>
      intro storage h
      rw [Trace.final_cons]
      exact ih (fun s hs => hnew s (List.mem_cons_of_mem _ hs))
        (h.sound (hnew statement (List.mem_cons_self ..))).post

/-- A statement that keeps the ids and entries removes nothing. -/
private theorem conserved_map (st : DbStep) {f : TransactionRow → TransactionRow}
    (hf : ∀ row, (f row).id = row.id ∧ entry (f row) = entry row)
    (hrows : st.post.transactions.rows = st.pre.transactions.rows.map f) :
    removedBy st = [] ∧
      st.post.transactions.rows.map entry = st.pre.transactions.rows.map entry := by
  constructor
  · rw [removedBy, List.filter_eq_nil_iff]
    intro row hrow
    rw [hrows, Bool.not_eq_true', Bool.not_eq_false, List.any_eq_true]
    exact ⟨f row, List.mem_map_of_mem hrow, by simpa using (hf row).1⟩
  · rw [hrows, List.map_map]
    apply List.map_congr_left
    intro row _
    exact (hf row).2

/-- **What is queued and what is removed account for every transaction.** -/
theorem Sound.conserved {st : DbStep} (h : Sound st) :
    (st.post.transactions.rows.map entry ++ (removedBy st).map entry).Perm
      (st.pre.transactions.rows.map entry ++ enqueuedBy st) := by
  obtain ⟨before, statement, out, after⟩ := st
  rcases h.changes with ⟨reply, hout, hchanges⟩ | ⟨⟨error, hout⟩, hsame⟩
  · cases hout
    dsimp only at hchanges
    have hquiet : (∃ f : TransactionRow → TransactionRow,
        (∀ row, (f row).id = row.id ∧ entry (f row) = entry row) ∧
          after.transactions.rows = before.transactions.rows.map f) →
        enqueuedBy ⟨before, statement, .ok reply, after⟩ = [] →
        (after.transactions.rows.map entry ++
          (removedBy ⟨before, statement, .ok reply, after⟩).map entry).Perm
          (before.transactions.rows.map entry ++ enqueuedBy ⟨before, statement, .ok reply, after⟩) := by
      rintro ⟨f, hf, hrows⟩ hnone
      obtain ⟨hremoved, hentries⟩ := conserved_map ⟨before, statement, .ok reply, after⟩ hf hrows
      rw [hremoved, hnone, hentries]
      exact .refl _
    by_cases hupdate : statement.isUpdate = true
    · obtain ⟨-, -, hrows, -⟩ := hchanges.updates hupdate
      refine hquiet ⟨id, fun row => ⟨rfl, rfl⟩, by rw [hrows, List.map_id]⟩ ?_
      cases statement with
      | enqueue transactions => cases hupdate
      | _ => rfl
    · cases hchanges with
      | enqueue transactions new hrows hentries hnew hnonces =>
          have hremoved : removedBy ⟨before, .enqueue transactions, .ok .done, after⟩ = [] := by
            rw [removedBy, List.filter_eq_nil_iff]
            intro row hrow
            rw [hrows, Bool.not_eq_true', Bool.not_eq_false, List.any_eq_true]
            exact ⟨row, List.mem_append_left _ hrow, by simp⟩
          show (after.transactions.rows.map entry ++ _).Perm (_ ++ transactions)
          rw [hremoved, hrows, List.map_append, hentries, List.map_nil, List.append_nil]
      | idle status bundler hsame =>
          exact hquiet ⟨id, fun row => ⟨rfl, rfl⟩, by rw [hsame, List.map_id]⟩ rfl
      | allocate status bundler taken rest allocated hpending hnonempty hnonce hauthorization hcarries
          hnonces hrows =>
          refine hquiet ⟨_, fun row => ?_, hrows⟩ rfl
          split
          · exact ⟨rfl, rfl⟩
          · exact ⟨rfl, rfl⟩
      | prune safe hsafe hnonces hrows =>
          have hremoved : removedBy ⟨before, .prune safe, .ok .done, after⟩ =
              before.transactions.rows.filter fun row => !before.survives safe row := by
            apply List.filter_congr
            intro row hrow
            congr 1
            rw [Bool.eq_iff_iff, List.any_eq_true]
            constructor
            · rintro ⟨kept, hkept, hid⟩
              rw [hrows] at hkept
              obtain ⟨hkept, hsurvives⟩ := List.mem_filter.mp hkept
              rw [← Relation.eq_of_key hkept hrow (by simpa using hid)]
              exact hsurvives
            · intro hsurvives
              exact ⟨row, by rw [hrows]; exact List.mem_filter.mpr ⟨hrow, hsurvives⟩, by simp⟩
          show (after.transactions.rows.map entry ++ _).Perm (_ ++ [])
          rw [hremoved, hrows, ← List.map_append, List.append_nil]
          exact (List.filter_append_perm (before.survives safe) before.transactions.rows).map entry
      | recordSubmission submission hrows hnonces => exact absurd rfl hupdate
      | markExecuted status hblock hrows hnonces => exact absurd rfl hupdate
      | recoverAuthorizationGap nonce isRecovered hrecovered hrows hnonces => exact absurd rfl hupdate
      | unmarkExecuted block hrows hnonces => exact absurd rfl hupdate
  · cases hout
    cases hsame
    have hremoved : removedBy ⟨before, statement, .error error, before⟩ = [] := by
      rw [removedBy, List.filter_eq_nil_iff]
      intro row hrow
      rw [Bool.not_eq_true', Bool.not_eq_false, List.any_eq_true]
      exact ⟨row, hrow, by simp⟩
    have hnone : enqueuedBy ⟨before, statement, .error error, before⟩ = [] := by
      cases statement <;> rfl
    rw [hremoved, hnone]
    exact .refl _

/-- The transactions a run has queued. -/
def enqueued (history : List DbStep) : List (Transaction × Option Nat) := history.flatMap enqueuedBy

/-- The rows a run has removed. -/
def removed (history : List DbStep) : List TransactionRow := history.flatMap removedBy

/-- **In every run, what was queued is still there or was removed, once.** -/
theorem run_conserved (statements : List Statement)
    (hnew : ∀ statement ∈ statements, statement.IsNew) :
    ∀ {storage : Storage}, Consistent storage →
      ((Trace.final step storage statements).transactions.rows.map entry ++
          (removed (Trace.trace step storage statements)).map entry).Perm
        (storage.transactions.rows.map entry ++ enqueued (Trace.trace step storage statements)) := by
  induction statements with
  | nil => intro storage _; exact .refl _
  | cons statement statements ih =>
      intro storage h
      have hsound := h.sound (hnew statement (List.mem_cons_self ..))
      have hfirst := hsound.conserved
      have hrest := ih (fun s hs => hnew s (List.mem_cons_of_mem _ hs)) hsound.post
      rw [List.perm_iff_count] at hfirst hrest ⊢
      intro queued
      have hfirst := hfirst queued
      have hrest := hrest queued
      rw [Trace.take_post] at hrest
      simp only [enqueued, removed, Trace.trace_cons, List.flatMap_cons, List.map_append,
        List.count_append, Trace.final_cons, Trace.take_post, Trace.take_pre] at hfirst hrest ⊢
      omega

/-- **A transaction is only removed by pruning:** with its nonce, which is marked as executed at or
below the safe block, or without a nonce, once it has expired there. -/
theorem Sound.removed {st : DbStep} (h : Sound st) {row : TransactionRow} (hrow : row ∈ removedBy st) :
    ∃ safe, st.input = .prune safe ∧
      ((∃ nonceRow ∈ st.pre.allocatedNonces.rows, row.nonce = some nonceRow.nonce ∧
          ∃ block ∈ nonceRow.executedAt, block ≤ safe) ∨
        row.nonce = none ∧ ∃ block ∈ row.expiresAt, block ≤ safe) := by
  obtain ⟨before, statement, out, after⟩ := st
  obtain ⟨hmem, hgone⟩ := List.mem_filter.mp hrow
  rw [Bool.not_eq_true', List.any_eq_false] at hgone
  have hkept : ∀ row' ∈ after.transactions.rows, row'.id ≠ row.id := by simpa using hgone
  rcases h.changes with ⟨reply, hout, hchanges⟩ | ⟨-, hsame⟩
  · dsimp only at hchanges hmem
    by_cases hupdate : statement.isUpdate = true
    · obtain ⟨-, -, hrows, -⟩ := hchanges.updates hupdate
      exact absurd rfl (hkept row (by rw [hrows]; exact hmem))
    · cases hchanges with
      | enqueue transactions new hrows hentries hnew hnonces =>
          exact absurd rfl (hkept row (by rw [hrows]; exact List.mem_append_left _ hmem))
      | idle status bundler hsame => exact absurd rfl (hkept row (by rw [hsame]; exact hmem))
      | allocate status bundler taken rest allocated hpending hnonempty hnonce hauthorization hcarries
          hnonces hrows =>
          refine absurd ?_ (hkept _ (by rw [hrows]; exact List.mem_map_of_mem hmem))
          split
          · rfl
          · rfl
      | prune safe hsafe hnonces hrows =>
          have hdies : before.survives safe row = false := by
            by_contra hsurvives
            refine absurd rfl (hkept row ?_)
            rw [hrows]
            exact List.mem_filter.mpr ⟨hmem, Bool.eq_true_of_not_eq_false hsurvives⟩
          refine ⟨safe, rfl, ?_⟩
          cases hnonce : row.nonce with
          | none =>
              rw [survives, hnonce] at hdies
              refine .inr ⟨rfl, ?_⟩
              cases hexpires : row.expiresAt with
              | none =>
                  rw [hexpires] at hdies
                  cases hdies
              | some block =>
                  rw [hexpires] at hdies
                  exact ⟨block, rfl, Nat.not_lt.mp (of_decide_eq_false hdies)⟩
          | some nonce =>
              obtain ⟨nonceRow, hnonceRow, rfl, -⟩ := h.pre.references row hmem nonce hnonce
              rw [survives_iff hnonceRow hnonce, Bool.not_eq_false', Option.any_eq_true] at hdies
              obtain ⟨block, hblock, hle⟩ := hdies
              exact .inl ⟨nonceRow, hnonceRow, rfl, block, hblock, of_decide_eq_true hle⟩
      | recordSubmission submission hrows hnonces => exact absurd rfl hupdate
      | markExecuted status hblock hrows hnonces => exact absurd rfl hupdate
      | recoverAuthorizationGap nonce isRecovered hrecovered hrows hnonces => exact absurd rfl hupdate
      | unmarkExecuted block hrows hnonces => exact absurd rfl hupdate
  · cases hsame
    exact absurd rfl (hkept row hmem)

/-- **Nonces are given out in order:** to the first transactions that are queued and not expired. -/
theorem Sound.fifo {st : DbStep} (h : Sound st) {status : Status} {bundler : Bundler}
    {allocated : AllocatedTransaction} (hinput : st.input = .nextTransaction status bundler)
    (hout : st.out = .ok (.allocated (some allocated))) :
    ∃ taken rest, st.pre.transactions.rows.filter (isPending status.block) = taken ++ rest ∧
      taken ≠ [] ∧
      st.post.allocatedTo allocated.nonce =
        taken.map (fun row => { row with nonce := some allocated.nonce }) ∧
      ∀ row ∈ rest, row ∈ st.post.transactions.rows := by
  rcases h.changes with ⟨reply, hreply, hchanges⟩ | ⟨⟨error, herror⟩, -⟩
  · rw [hout] at hreply
    cases hreply
    rw [hinput] at hchanges
    cases hchanges with
    | allocate _ _ taken rest _ hpending hnonempty hnonce hauthorization hcarries hnonces hrows =>
        refine ⟨taken, rest, hpending, hnonempty, ?_, fun row hrow => ?_⟩
        · exact allocatedTo_new hpending hrows (h.pre.unallocated fun nonceRow hmem =>
            nonce_lt_allocated hnonce hmem)
        · have hmem : row ∈ st.pre.transactions.rows.filter (isPending status.block) := by
            rw [hpending]
            exact List.mem_append_right _ hrow
          rw [hrows]
          refine List.mem_map.mpr ⟨row, (List.mem_filter.mp hmem).1, if_neg fun htaken => ?_⟩
          have hsorted := st.pre.transactions.sorted.filter (isPending status.block)
          rw [hpending, List.pairwise_append] at hsorted
          exact Nat.lt_irrefl _ (hsorted.2.2 row htaken row hrow)
  · rw [hout] at herror
    cases herror

end Storage

namespace Queue

open Program

/-! ### Calls -/

variable {env : Env} {I : Frame → Prop} {P : AccountStatus → Prop}

/-- The state of a call after one more statement. -/
def Frame.record (frame : Frame) (statement : Storage.Statement) : Frame :=
  { frame with
    queue := { frame.queue with storage := (frame.queue.storage.step statement).1 }
    statements := frame.statements ++ [statement] }

@[simp] theorem Frame.record_storage (frame : Frame) (statement : Storage.Statement) :
    (frame.record statement).queue.storage = (frame.queue.storage.step statement).1 := rfl

@[simp] theorem Frame.record_statements (frame : Frame) (statement : Storage.Statement) :
    (frame.record statement).statements = frame.statements ++ [statement] := rfl

@[simp] theorem Frame.record_accountCache (frame : Frame) (statement : Storage.Statement) :
    (frame.record statement).queue.accountCache = frame.queue.accountCache := rfl

@[simp] theorem Frame.record_blockStatus (frame : Frame) (statement : Storage.Statement) :
    (frame.record statement).queue.blockStatus = frame.queue.blockStatus := rfl

/-- A statement is executed, or the process stops before it; it succeeds or fails. -/
theorem triple_execute {statement : Storage.Statement} {pre : Frame → Prop}
    {post : Storage.Reply → Frame → Prop} {exit : Halt → Frame → Prop}
    (hstop : ∀ frame, pre frame → env.stopsAfter = some frame.statements.length → exit .stopped frame)
    (hok : ∀ frame reply, pre frame → (frame.queue.storage.step statement).2 = .ok reply →
      post reply (frame.record statement))
    (hfail : ∀ frame error, pre frame → (frame.queue.storage.step statement).2 = .error error →
      exit (.storage error) (frame.record statement)) :
    Triple pre (execute env statement) post exit := by
  refine triple_get_bind fun frame => ?_
  split
  · next hstopped =>
      refine triple_throw_bind fun s hs => hstop s hs.1 ?_
      rw [hs.2]
      exact hstopped
  · refine triple_bind (Q := fun _ s => pre frame ∧ s = frame.record statement)
      (triple_set fun s hs => ?_) fun _ => ?_
    · obtain ⟨hpre, rfl⟩ := hs
      exact ⟨hpre, rfl⟩
    · split
      · next reply hreply =>
          refine triple_pure fun s hs => ?_
          rw [hs.2]
          exact hok frame reply hs.1 hreply
      · next error herror =>
          refine triple_throw fun s hs => ?_
          rw [hs.2]
          exact hfail frame error hs.1 herror

/-- An invariant of calls that does not depend on the fees, and says `P` of the account. -/
structure Respects (env : Env) (P : AccountStatus → Prop) (I : Frame → Prop) : Prop where
  quiet : ∀ frame frame' : Frame, frame'.statements = frame.statements →
    frame'.queue.storage = frame.queue.storage → frame'.queue.blockStatus = frame.queue.blockStatus →
    frame'.queue.accountCache = frame.queue.accountCache → I frame → I frame'
  cached : ∀ frame account, I frame → frame.queue.accountCache = some account → P account
  answered : ∀ frame index nonce codeHash, I frame →
    env.answers.getProof index (frame.queue.blockStatus.map BlockStatus.latest) = some (nonce, codeHash) →
      P (.new env.setup.keccak256 nonce codeHash) ∧
        I { frame with queue := { frame.queue with
          accountCache := some (.new env.setup.keccak256 nonce codeHash) } }

theorem keeps_request (h : Respects env P I) : Keeps I request := by
  refine triple_get_bind fun frame => ?_
  refine triple_bind (Q := fun _ => I) (triple_set fun s hs => ?_) fun _ => keeps_pure
  obtain ⟨hI, rfl⟩ := hs
  exact h.quiet s _ rfl rfl rfl rfl hI

theorem triple_account (h : Respects env P I) :
    Triple I (account env) (fun account frame => P account ∧ I frame) fun _ => I := by
  refine triple_get_bind fun frame => ?_
  cases hcache : frame.queue.accountCache with
  | some cached =>
      refine triple_pure fun s hs => ?_
      obtain ⟨hI, rfl⟩ := hs
      exact ⟨h.cached s cached hI hcache, hI⟩
  | none =>
      refine triple_bind (Q := fun _ => I) ?_ fun index => ?_
      · exact triple_weaken (keeps_request h) (fun s hs => hs.1) (fun _ _ hs => hs) fun _ _ hs => hs
      · refine triple_get_bind fun asked => ?_
        cases hproof : env.answers.getProof index (asked.queue.blockStatus.map BlockStatus.latest) with
        | none => exact triple_throw fun s hs => hs.1
        | some proof =>
            obtain ⟨nonce, codeHash⟩ := proof
            refine triple_bind (Q := fun _ frame =>
              P (.new env.setup.keccak256 nonce codeHash) ∧ I frame) (triple_set fun s hs => ?_)
              fun _ => triple_pure fun s hs => hs
            obtain ⟨hI, rfl⟩ := hs
            exact h.answered s index nonce codeHash hI hproof

theorem keeps_fees (h : Respects env P I) : Keeps I (fees env) := by
  refine keeps_get_bind fun frame => ?_
  cases hcache : frame.queue.feeCache with
  | some cached => exact keeps_pure
  | none =>
      refine keeps_bind (keeps_request h) fun index => triple_get_bind fun asked => ?_
      cases env.answers.estimateFees index with
      | none => exact triple_throw fun s hs => hs.1
      | some fees =>
          refine triple_bind (Q := fun _ => I) (triple_set fun s hs => ?_) fun _ => keeps_pure
          obtain ⟨hI, rfl⟩ := hs
          exact h.quiet s _ rfl rfl rfl rfl hI

/-- A query answers what the storage holds, or ends the call. -/
theorem triple_read {α : Type} {query : Storage → Except Storage.Error α} {pre : Frame → Prop}
    {exit : Halt → Frame → Prop} (hfail : ∀ frame error, pre frame → exit (.storage error) frame) :
    Triple pre (read query) (fun result frame => pre frame ∧ query frame.queue.storage = .ok result)
      exit := by
  refine triple_get_bind fun frame => ?_
  cases hquery : query frame.queue.storage with
  | ok result =>
      refine triple_pure fun s hs => ?_
      obtain ⟨hpre, rfl⟩ := hs
      exact ⟨hpre, hquery⟩
  | error error => exact triple_throw fun s hs => hfail s error hs.1

theorem keeps_read {α : Type} (query : Storage → Except Storage.Error α) : Keeps I (read query) :=
  triple_weaken (triple_read fun _ _ h => h) (fun _ h => h) (fun _ _ h => h.1) fun _ _ h => h

theorem keeps_submitTransaction (h : Respects env P I)
    (hrecord : ∀ submission, Keeps I (execute env (.recordSubmission submission)))
    (transaction : AllocatedTransaction) (block : Nat) :
    Keeps I (submitTransaction env transaction block) := by
  refine keeps_bind (keeps_fees h) fun fees => ?_
  dsimp only
  split
  · exact triple_throw_bind fun s hs => hs
  · refine keeps_bind (keeps_request h) fun index => ?_
    cases env.answers.sendRawTransaction index _ with
    | accepted => exact keeps_discard (hrecord _)
    | underpriced => exact keeps_discard (hrecord _)
    | failed => exact keeps_pure

theorem keeps_submitWhile (h : Respects env P I) {block : Nat}
    (hrecord : ∀ submission, Keeps I (execute env (.recordSubmission submission)))
    (hnext : ∀ account, P account →
      Keeps I (execute env (.nextTransaction ⟨block, account.nonce⟩ (bundler env account))))
    (room : Nat) : ∀ inFlight, Keeps I (submitWhile env block room inFlight) := by
  induction room with
  | zero => intro inFlight; exact keeps_pure
  | succ room ih =>
      intro inFlight
      refine triple_bind (triple_account h) fun account => ?_
      split
      · exact triple_pure fun s hs => hs.2
      · refine triple_bind (Q := fun _ => I) ?_ fun reply => ?_
        · intro s hs
          exact hnext account hs.1 s hs.2
        · cases reply with
          | done => exact keeps_pure
          | recovered isRecovered => exact keeps_pure
          | allocated transaction =>
              cases transaction with
              | none => exact keeps_pure
              | some transaction =>
                  exact keeps_bind (keeps_submitTransaction h hrecord transaction block) fun _ =>
                    ih (inFlight + 1)

theorem keeps_submitPending (h : Respects env P I) {block : Nat}
    (hrecord : ∀ submission, Keeps I (execute env (.recordSubmission submission)))
    (hnext : ∀ account, P account →
      Keeps I (execute env (.nextTransaction ⟨block, account.nonce⟩ (bundler env account)))) :
    Keeps I (submitPending env block) :=
  keeps_get_bind fun _ => keeps_submitWhile h hrecord hnext _ _

theorem keeps_resubmitStale (h : Respects env P I)
    (hrecord : ∀ submission, Keeps I (execute env (.recordSubmission submission))) (block : Nat) :
    Keeps I (resubmitStale env block) :=
  keeps_bind (keeps_read _) fun stale =>
    keeps_forM stale fun transaction _ => keeps_submitTransaction h hrecord transaction block

theorem keeps_advance (h : Respects env P I) {latest : Nat}
    (hmark : ∀ account, P account → Keeps I (execute env (.markExecuted ⟨latest, account.nonce⟩)))
    (hrecover : ∀ nonce, Keeps I (execute env (.recoverAuthorizationGap nonce)))
    (hrecord : ∀ submission, Keeps I (execute env (.recordSubmission submission)))
    (hnext : ∀ account, P account →
      Keeps I (execute env (.nextTransaction ⟨latest, account.nonce⟩ (bundler env account)))) :
    Keeps I (advance env latest) := by
  refine triple_bind (triple_account h) fun account => ?_
  refine triple_bind (Q := fun _ => I) (fun s hs => hmark account hs.1 s hs.2) fun _ => ?_
  refine keeps_bind (hrecover account.nonce) fun _ => ?_
  exact keeps_bind (keeps_resubmitStale h hrecord latest) fun _ =>
    keeps_submitPending h hrecord hnext

/-- The bundles of the queue are empty at first. -/
theorem bundler_isNew (env : Env) (account : AccountStatus) : (bundler env account).IsNew := by
  unfold bundler
  split
  · exact .inl ⟨_, rfl⟩
  · exact .inr ⟨_, _, _, rfl⟩

/-! ### The statements of a call -/

/-- The statements a call may execute. -/
def Allowed : Operation → Storage.Statement → Prop
  | .queue transactions, .enqueue queued => queued = transactions
  | _, .enqueue _ => False
  | .updateBlockStatus status, .prune safe => safe = status.safe
  | _, .prune _ => False
  | _, .nextTransaction _ bundler => bundler.IsNew
  | _, _ => True

/-- What a call has executed, and that the storage is what came of it. -/
structure Traced (operation : Operation) (start : Storage) (frame : Frame) : Prop where
  storage : frame.queue.storage = Trace.final Storage.step start frame.statements
  allowed : ∀ statement ∈ frame.statements, Allowed operation statement

variable {operation : Operation} {start : Storage}

theorem keeps_execute {statement : Storage.Statement} (h : Allowed operation statement) :
    Keeps (Traced operation start) (execute env statement) := by
  have hrecord : ∀ frame, Traced operation start frame →
      Traced operation start (frame.record statement) := by
    intro frame hI
    constructor
    · show (frame.queue.storage.step statement).1 = _
      rw [Frame.record_statements, Trace.final_concat, ← hI.storage]
    · intro other hother
      rcases List.mem_append.mp hother with hold | hlast
      · exact hI.allowed other hold
      · rw [List.mem_singleton.mp hlast]
        exact h
  exact triple_execute (fun frame hI _ => hI) (fun frame reply hI _ => hrecord frame hI)
    fun frame error hI _ => hrecord frame hI

theorem respects_traced (env : Env) (operation : Operation) (start : Storage) :
    Respects env (fun _ => True) (Traced operation start) where
  quiet frame frame' hstatements hstorage _ _ h := by
    refine ⟨?_, ?_⟩
    · rw [hstorage, hstatements]
      exact h.storage
    · rw [hstatements]
      exact h.allowed
  cached _ _ _ _ := trivial
  answered _ _ _ _ h _ := ⟨trivial, h.storage, h.allowed⟩

/-- **A call leaves what its statements make of the tables.** -/
theorem keeps_perform (env : Env) (operation : Operation) (start : Storage) :
    Keeps (Traced operation start) (perform env operation) := by
  have hrespects := respects_traced env operation start
  have hrecord : ∀ submission,
      Keeps (Traced operation start) (execute env (.recordSubmission submission)) := by
    intro submission
    apply keeps_execute
    cases operation <;> trivial
  have hnext : ∀ block account,
      Keeps (Traced operation start)
        (execute env (.nextTransaction ⟨block, account.nonce⟩ (bundler env account))) := by
    intro block account
    apply keeps_execute
    cases operation <;> exact bundler_isNew env account
  cases operation with
  | queue transactions =>
      refine keeps_bind (keeps_execute rfl) fun _ => keeps_get_bind fun frame => ?_
      split
      · exact keeps_submitPending hrespects hrecord fun account _ => hnext _ account
      · exact keeps_pure
  | updateBlockStatus status =>
      have hadvance : Keeps (Traced (.updateBlockStatus status) start) (advance env status.latest) :=
        keeps_advance hrespects (fun account _ => keeps_execute trivial) (fun nonce => keeps_execute trivial)
          hrecord fun account _ => hnext _ account
      refine keeps_get_bind fun frame => ?_
      dsimp only
      split
      · exact keeps_pure
      · refine keeps_bind ?_ fun _ => keeps_bind ?_ fun _ => keeps_bind ?_ fun _ => ?_
        · refine triple_get_bind fun before => triple_set fun s hs => ?_
          obtain ⟨hI, rfl⟩ := hs
          exact ⟨hI.storage, hI.allowed⟩
        · unfold pruneStorage
          split
          · exact keeps_discard (keeps_execute rfl)
          · exact keeps_pure
        · unfold unmarkReplaced
          split
          · exact keeps_discard (keeps_execute trivial)
          · exact keeps_pure
        · unfold advanceIfNew
          split
          · refine keeps_bind (keeps_read _) fun count => ?_
            split
            · exact hadvance
            · exact keeps_pure
          · exact keeps_pure

/-! ### Every run -/

/-- A call of a run. -/
abbrev CallStep := Trace.Step Queue Input Output

/-- Everything the calls of a run have executed. -/
def statementsOf (history : List CallStep) : List Storage.Statement :=
  history.flatMap fun st => st.out.statements

@[simp] theorem statementsOf_cons (st : CallStep) (history : List CallStep) :
    statementsOf (st :: history) = st.out.statements ++ statementsOf history := rfl

@[simp] theorem surviving_storage (queue : Queue) (result : Except Halt Unit) :
    (surviving queue result).storage = queue.storage := by
  unfold surviving
  split <;> rfl

/-- A call changes the tables by its statements, which are those of its operation. -/
theorem step_traced (setup : Setup) (queue : Queue) (input : Input) :
    (step setup queue input).1.storage =
        Trace.final Storage.step queue.storage (step setup queue input).2.statements ∧
      ∀ statement ∈ (step setup queue input).2.statements, ∃ operation answers stopsAfter,
        input = .call operation answers stopsAfter ∧ Allowed operation statement := by
  cases input with
  | restart => exact ⟨rfl, by simp [step]⟩
  | call operation answers stopsAfter =>
      have hstart : Traced operation queue.storage ⟨queue, [], 0⟩ := ⟨rfl, by simp⟩
      have hend := (keeps_perform ⟨setup, answers, stopsAfter⟩ operation queue.storage).final hstart
      constructor
      · show (surviving _ _).storage = _
        rw [surviving_storage]
        exact hend.storage
      · intro statement hstatement
        exact ⟨operation, answers, stopsAfter, rfl, hend.allowed statement hstatement⟩

/-- The tables after a run are what its statements make of them. -/
theorem final_storage (setup : Setup) (inputs : List Input) : ∀ queue : Queue,
    (Trace.final (step setup) queue inputs).storage =
      Trace.final Storage.step queue.storage
        (statementsOf (Trace.trace (step setup) queue inputs)) := by
  induction inputs with
  | nil => intro queue; rfl
  | cons input inputs ih =>
      intro queue
      rw [Trace.final_cons, ih, Trace.trace_cons, statementsOf_cons, Trace.final_append,
        (step_traced setup queue input).1]
      rfl

theorem Allowed.isNew {operation : Operation} {statement : Storage.Statement}
    (h : Allowed operation statement) : statement.IsNew := by
  cases statement with
  | nextTransaction status bundler => cases operation <;> exact h
  | _ => trivial

/-- The statements of a call are those of its operation. -/
theorem allowed_of_mem {setup : Setup} {queue : Queue} {inputs : List Input} {st : CallStep}
    (hst : st ∈ Trace.trace (step setup) queue inputs) {statement : Storage.Statement}
    (h : statement ∈ st.out.statements) : ∃ operation answers stopsAfter,
      st.input = .call operation answers stopsAfter ∧ Allowed operation statement := by
  obtain ⟨before, after, hsplit⟩ := List.append_of_mem hst
  obtain ⟨js, ks, -, -, htake, -⟩ := Trace.trace_split _ inputs hsplit
  rw [htake] at h
  exact (step_traced setup _ _).2 statement h

/--
**No transaction is lost or doubled.**  Over every run, with failed requests and restarts anywhere:
what was queued is in the table or was removed, once; it is removed only by pruning at the safe block of
the status given, with its nonce if that is marked as executed there or below, or without one if it has
expired.  At every moment a transaction has no nonce or belongs to one, which makes the calls of its
transactions in the order of their ids; neither they nor the transaction sent there change as long as
the nonce has a row; and nonces are given to the first transactions that are not expired.
-/
theorem transactions_are_kept (setup : Setup) (inputs : List Input) :
    let history := Trace.trace (step setup) .new inputs
    let database := Trace.trace Storage.step .empty (statementsOf history)
    let storage := (Trace.final (step setup) .new inputs).storage
    (storage = Trace.final Storage.step .empty (statementsOf history) ∧
      (Storage.enqueued database).Perm (storage.transactions.rows.map Storage.entry ++
        (Storage.removed database).map Storage.entry)) ∧
    (∀ st ∈ history, ∀ statement ∈ st.out.statements,
      (∀ queued, statement = .enqueue queued →
        ∃ answers stopsAfter, st.input = .call (.queue queued) answers stopsAfter) ∧
      ∀ safe, statement = .prune safe → ∃ status answers stopsAfter,
        st.input = .call (.updateBlockStatus status) answers stopsAfter ∧ safe = status.safe) ∧
    ∀ d ∈ database,
      (∀ row ∈ Storage.removedBy d, ∃ safe, d.input = .prune safe ∧
        ((∃ nonceRow ∈ d.pre.allocatedNonces.rows, row.nonce = some nonceRow.nonce ∧
            ∃ block ∈ nonceRow.executedAt, block ≤ safe) ∨
          row.nonce = none ∧ ∃ block ∈ row.expiresAt, block ≤ safe)) ∧
      (∀ row ∈ d.post.transactions.rows, row.nonce = none ∨
        ∃! nonceRow, nonceRow ∈ d.post.allocatedNonces.rows ∧
          row ∈ d.post.allocatedTo nonceRow.nonce) ∧
      (∀ nonceRow ∈ d.post.allocatedNonces.rows, ∀ request, nonceRow.request = some request →
        Carries request.transaction
          ((d.post.allocatedTo nonceRow.nonce).map TransactionRow.request)) ∧
      Storage.Stable d.pre d.post ∧
      ∀ status bundler allocated, d.input = .nextTransaction status bundler →
        d.out = .ok (.allocated (some allocated)) →
          ∃ taken rest, d.pre.transactions.rows.filter (Storage.isPending status.block) = taken ++ rest ∧
            taken ≠ [] ∧
            d.post.allocatedTo allocated.nonce =
              taken.map (fun row => { row with nonce := some allocated.nonce }) ∧
            ∀ row ∈ rest, row ∈ d.post.transactions.rows := by
  intro history database storage
  have hnew : ∀ statement ∈ statementsOf history, statement.IsNew := by
    intro statement hstatement
    obtain ⟨st, hst, hmem⟩ := List.mem_flatMap.mp hstatement
    obtain ⟨operation, -, -, -, hallowed⟩ := allowed_of_mem hst hmem
    exact hallowed.isNew
  have hfinal : storage = Trace.final Storage.step .empty (statementsOf history) :=
    final_storage setup inputs .new
  refine ⟨⟨hfinal, ?_⟩, fun st hst statement hmem => ?_, fun d hd => ?_⟩
  · have hconserved := Storage.run_conserved _ hnew Storage.consistent_empty
    rw [← hfinal] at hconserved
    exact hconserved.symm
  · obtain ⟨operation, answers, stopsAfter, hinput, hallowed⟩ := allowed_of_mem hst hmem
    constructor
    · rintro queued rfl
      cases operation with
      | queue transactions =>
          cases hallowed
          exact ⟨answers, stopsAfter, hinput⟩
      | updateBlockStatus status => cases hallowed
    · rintro safe rfl
      cases operation with
      | queue transactions => cases hallowed
      | updateBlockStatus status => exact ⟨status, answers, stopsAfter, hinput, hallowed⟩
  · have hsound := Storage.run_sound _ hnew Storage.consistent_empty d hd
    exact ⟨fun row hrow => hsound.removed hrow,
      fun row hrow => Storage.Consistent.allocated_once hsound.post hrow,
      hsound.post.carries, hsound.stable,
      fun status bundler allocated hinput hout => hsound.fifo hinput hout⟩

end Queue

end Safenet.Core.Tx
