/-
What the statements of the transaction queue do to the two tables.

For each statement there is one lemma that says what the tables are afterwards if it succeeds.  The
allocation of a nonce is the one with content: the queued transactions it takes are the first ones
that are not expired, and what it updates are exactly these (`nextTransaction_ok`).  What it stores as
the request carries their calls in order (`Carries`).
-/
import Safenet.Core.TransactionStorage
import Safenet.Lib.Trace

namespace Safenet.Core.Tx

open Fallible

/-! ### Bundles -/

/-- An empty bundle. -/
def Bundler.IsNew (bundler : Bundler) : Prop :=
  (∃ authorization, bundler = .direct authorization) ∨
    ∃ account maxBatchGas authorization, bundler = .batched account maxBatchGas authorization

/-- The transaction sent at a nonce makes the calls of the transactions allocated to it, in order.
Only its gas may differ from that of a single transaction. -/
inductive Carries : Transaction → List Transaction → Prop
  | direct (transaction : Transaction) (gas : Nat) : Carries { transaction with gas } [transaction]
  | batched (account : Address) (transactions : List Transaction) (gas : Nat) :
      Carries ⟨account, 0, executeCall (transactions.map Transaction.call), gas⟩ transactions
  /-- A cancellation makes no call. -/
  | cancellation : Carries .default []

/-- The transactions that were pushed into a bundle. -/
inductive Bundler.Holds : Bundler → List Transaction → Prop
  | empty (authorization : Option Authorization) : Holds ⟨.direct none, authorization⟩ []
  | direct (transaction : Transaction) (authorization : Option Authorization) :
      Holds ⟨.direct (some transaction), authorization⟩ [transaction]
  | batched (account : Address) (maxBatchGas : Nat) (transactions : List Transaction) (gas : Nat)
      (full : Bool) (authorization : Option Authorization) :
      Holds ⟨.batched account maxBatchGas (transactions.map Transaction.call) gas full, authorization⟩
        transactions

theorem Bundler.IsNew.holds {bundler : Bundler} (h : bundler.IsNew) : bundler.Holds [] := by
  rcases h with ⟨authorization, rfl⟩ | ⟨account, maxBatchGas, authorization, rfl⟩
  · exact .empty authorization
  · exact .batched account maxBatchGas [] batchGas false authorization

theorem Bundler.Holds.push {bundler bundler' : Bundler} {held : List Transaction}
    {transaction : Transaction} (h : bundler.Holds held)
    (hpush : bundler.push transaction = (bundler', true)) :
    bundler'.Holds (held ++ [transaction]) ∧ bundler'.authorization = bundler.authorization := by
  unfold Bundler.push at hpush
  cases h with
  | empty authorization =>
      cases hpush
      exact ⟨.direct transaction authorization, rfl⟩
  | direct held authorization => cases hpush
  | batched account maxBatchGas transactions gas full authorization =>
      dsimp only at hpush
      split at hpush
      · cases hpush
      · cases hpush
        have hcalls : held.map Transaction.call ++ [transaction.call] =
            (held ++ [transaction]).map Transaction.call := by
          rw [List.map_append]
          rfl
        rw [hcalls]
        exact ⟨.batched account maxBatchGas _ _ _ authorization, rfl⟩

theorem Bundler.Holds.refuse {bundler bundler' : Bundler} {held : List Transaction}
    {transaction : Transaction} (h : bundler.Holds held)
    (hpush : bundler.push transaction = (bundler', false)) :
    bundler'.Holds held ∧ bundler'.authorization = bundler.authorization := by
  unfold Bundler.push at hpush
  cases h with
  | empty authorization => cases hpush
  | direct held authorization =>
      cases hpush
      exact ⟨.direct held authorization, rfl⟩
  | batched account maxBatchGas transactions gas full authorization =>
      dsimp only at hpush
      split at hpush
      · cases hpush
        exact ⟨.batched account maxBatchGas _ gas true authorization, rfl⟩
      · cases hpush

theorem Bundler.Holds.finish {bundler : Bundler} {held : List Transaction} {nonce : Nat}
    {allocated : AllocatedTransaction} (h : bundler.Holds held)
    (hfinish : bundler.finish nonce = some allocated) :
    allocated.nonce = nonce ∧ allocated.authorization = bundler.authorization ∧
      Carries allocated.transaction held := by
  obtain ⟨transaction, htransaction, hfinish⟩ := Option.bind_eq_some_iff.mp hfinish
  cases hfinish
  refine ⟨rfl, rfl, ?_⟩
  unfold Bundler.transaction at htransaction
  cases h with
  | empty authorization => cases htransaction
  | direct held authorization =>
      cases htransaction
      exact .direct transaction _
  | batched account maxBatchGas transactions gas full authorization =>
      dsimp only at htransaction
      split at htransaction
      · cases htransaction
      · cases htransaction
        exact .batched account held _

namespace Storage

theorem toI64_ok {n m : Nat} (h : toI64 n = .ok m) : n = m := by
  unfold toI64 at h
  split at h
  · exact Except.ok.inj h
  · cases h

theorem toI64_lt {n m : Nat} (h : toI64 n = .ok m) : n < 2 ^ 63 := by
  unfold toI64 at h
  split at h
  · assumption
  · cases h

theorem column_ok {n m : Nat} (h : column n = .ok m) : n = m := by
  unfold column at h
  split at h
  · exact Except.ok.inj h
  · cases h

theorem mapM_toI64_ok {n m : Option Nat} (h : n.mapM toI64 = .ok m) : n = m := by
  cases n with
  | none => exact Except.ok.inj h
  | some n =>
      obtain ⟨k, hk, h⟩ := bind_eq_ok.mp h
      rw [toI64_ok hk]
      exact pure_eq_ok.mp h

/-! ### Filling a bundle -/

/-- A bundle takes the first transactions. -/
theorem fill_ok {bundler' : Bundler} {last : Option Nat} (rows : List TransactionRow) :
    ∀ {bundler : Bundler} {init : Option Nat} {held : List Transaction}, bundler.Holds held →
      fill bundler init rows = (bundler', last) →
        ∃ taken rest, rows = taken ++ rest ∧
          bundler'.Holds (held ++ taken.map TransactionRow.request) ∧
          bundler'.authorization = bundler.authorization ∧
          last = (taken.getLast?.map TransactionRow.id).or init := by
  induction rows with
  | nil =>
      intro bundler init held hholds h
      cases h
      exact ⟨[], [], rfl, by simpa using hholds, rfl, rfl⟩
  | cons row rows ih =>
      intro bundler init held hholds h
      unfold fill at h
      split at h
      · next pushed hpush =>
          obtain ⟨hpushed, hauthorization⟩ := hholds.push hpush
          obtain ⟨taken, rest, hsplit, htaken, hsame, hlast⟩ := ih hpushed h
          refine ⟨row :: taken, rest, by rw [hsplit]; rfl, ?_, hsame.trans hauthorization, ?_⟩
          · rw [List.map_cons, List.append_cons]
            exact htaken
          · rw [hlast, List.getLast?_cons]
            cases taken.getLast? with
            | none => rfl
            | some last => rfl
      · next full hpush =>
          cases h
          obtain ⟨hfull, hauthorization⟩ := hholds.refuse hpush
          exact ⟨[], row :: rows, rfl, by simpa using hfull, hauthorization, rfl⟩

/-! ### Each statement -/

variable {storage storage' : Storage}

/-- Of the rows in the order of their keys, those up to the last one taken are the ones taken. -/
private theorem mem_taken {pending taken rest : List TransactionRow} {last : TransactionRow}
    (hsorted : pending.Pairwise fun r r' => r.id < r'.id) (hsplit : pending = taken ++ rest)
    (hlast : taken.getLast? = some last) {row : TransactionRow} (hrow : row ∈ pending) :
    row.id ≤ last.id ↔ row ∈ taken := by
  obtain ⟨init, rfl⟩ := List.getLast?_eq_some_iff.mp hlast
  rw [hsplit, List.append_assoc, List.pairwise_append] at hsorted
  obtain ⟨-, hrest, hinit⟩ := hsorted
  rw [List.singleton_append, List.pairwise_cons] at hrest
  constructor
  · intro hle
    rw [hsplit] at hrow
    rcases List.mem_append.mp hrow with htaken | hafter
    · exact htaken
    · have := hrest.1 row hafter
      omega
  · intro htaken
    rcases List.mem_append.mp htaken with hbefore | hlast
    · exact Nat.le_of_lt (hinit row hbefore last (List.mem_cons_self ..))
    · rw [List.mem_singleton.mp hlast]

/-- The rows of a new allocation. -/
def allocatedRows (allocated : AllocatedTransaction) : List NonceRow :=
  transactionRow allocated ::
    (allocated.authorization.map (delegateRow (allocated.nonce + 1))).toList

/-- **What an allocation does.**  It takes the first transactions that are queued and not expired, and
its nonce is above all others. -/
theorem nextTransaction_ok {status : Status} {bundler : Bundler}
    {result : Option AllocatedTransaction} (hnew : bundler.IsNew)
    (h : storage.nextTransaction status bundler = .ok (result, storage')) :
    (result = none ∧ storage' = storage) ∨
      ∃ taken rest allocated, result = some allocated ∧
        storage.transactions.rows.filter (isPending status.block) = taken ++ rest ∧ taken ≠ [] ∧
        allocated.nonce = max status.nonce (storage.allocatedNonces.nextKey 0) ∧
        allocated.authorization = bundler.authorization ∧
        Carries allocated.transaction (taken.map TransactionRow.request) ∧
        storage'.allocatedNonces.rows = storage.allocatedNonces.rows ++ allocatedRows allocated ∧
        storage'.transactions.rows = storage.transactions.rows.map fun row =>
          if row ∈ taken then { row with nonce := some allocated.nonce } else row := by
  obtain ⟨block, hblock, h⟩ := bind_eq_ok.mp h
  cases toI64_ok hblock
  split at h
  · next full hfill =>
      cases pure_eq_ok.mp h
      exact .inl ⟨rfl, rfl⟩
  · next full last hfill =>
      obtain ⟨accountNonce, haccount, h⟩ := bind_eq_ok.mp h
      cases toI64_ok haccount
      obtain ⟨nonce, hnonce, h⟩ := bind_eq_ok.mp h
      have hnonce := column_ok hnonce
      obtain ⟨taken, rest, hsplit, hholds, hauthorization, hlast⟩ := fill_ok _ hnew.holds hfill
      split at h
      · cases pure_eq_ok.mp h
        exact .inl ⟨rfl, rfl⟩
      · next allocated hfinish =>
          obtain ⟨hnonce', hsame, hcarries⟩ := hholds.finish hfinish
          obtain ⟨nonces, hinsert, h⟩ := bind_eq_ok.mp h
          obtain ⟨nonces', hinsert', h⟩ := bind_eq_ok.mp h
          cases pure_eq_ok.mp h
          -- the last one taken, by which the source finds the others
          rw [Option.or_none] at hlast
          obtain ⟨lastRow, hlastRow, rfl⟩ := Option.map_eq_some_iff.mp hlast.symm
          refine .inr ⟨taken, rest, allocated, rfl, hsplit, ?_, ?_, ?_, hcarries, ?_, ?_⟩
          · rintro rfl
            cases hlastRow
          · rw [hnonce', hnonce]
          · rw [hsame, hauthorization]
          · have habove : ∀ row ∈ storage.allocatedNonces.rows,
                row.nonce < (transactionRow allocated).nonce := by
              intro row hrow
              have hlt := Relation.key_lt_nextKey hrow 0
              show row.nonce < allocated.nonce
              omega
            unfold insertNonce at hinsert
            rw [Relation.insert_above habove] at hinsert
            cases hinsert
            unfold allocatedRows
            cases hcase : allocated.authorization with
            | none =>
                rw [hcase] at hinsert'
                cases hinsert'
                rfl
            | some authorization =>
                rw [hcase] at hinsert'
                obtain ⟨next, hnext, hinsert'⟩ := bind_eq_ok.mp hinsert'
                cases toI64_ok hnext
                have habove' : ∀ row ∈ (storage.allocatedNonces.append _ habove).rows,
                    row.nonce < (delegateRow (nonce + 1) authorization).nonce := by
                  intro row hrow
                  show row.nonce < nonce + 1
                  rcases List.mem_append.mp hrow with hold | hnew
                  · have : row.nonce < allocated.nonce := habove row hold
                    omega
                  · rw [List.mem_singleton.mp hnew]
                    show allocated.nonce < nonce + 1
                    omega
                unfold insertNonce at hinsert'
                rw [Relation.insert_above habove'] at hinsert'
                cases hinsert'
                show (storage.allocatedNonces.rows ++ [_]) ++ [_] = _
                rw [List.append_assoc, hnonce']
                rfl
          · rw [Relation.rows_updateWhere]
            apply List.map_congr_left
            intro row hrow
            rw [hnonce']
            have hpending : isPending status.block row = true ∧ row.id ≤ lastRow.id ↔ row ∈ taken := by
              constructor
              · rintro ⟨hpending, hle⟩
                have hmem := List.mem_filter.mpr ⟨hrow, hpending⟩
                exact (mem_taken (storage.transactions.sorted.filter _) hsplit hlastRow hmem).mp hle
              · intro htaken
                have hmem : row ∈ storage.transactions.rows.filter (isPending status.block) := by
                  rw [hsplit]
                  exact List.mem_append_left _ htaken
                exact ⟨(List.mem_filter.mp hmem).2,
                  (mem_taken (storage.transactions.sorted.filter _) hsplit hlastRow hmem).mpr htaken⟩
            simp only [Bool.and_eq_true, decide_eq_true_eq, hpending]

/-- What a queued transaction was queued with. -/
def entry (row : TransactionRow) : Transaction × Option Nat := (row.request, row.expiresAt)

/-- Queued transactions are added at the end. -/
theorem enqueue_ok (transactions : List (Transaction × Option Nat)) : ∀ {storage : Storage},
    storage.enqueue transactions = .ok storage' →
      ∃ new, storage'.transactions.rows = storage.transactions.rows ++ new ∧
        new.map entry = transactions ∧ (∀ row ∈ new, row.nonce = none) ∧
        storage'.allocatedNonces = storage.allocatedNonces := by
  induction transactions with
  | nil =>
      intro storage h
      cases pure_eq_ok.mp h
      exact ⟨[], (List.append_nil _).symm, rfl, by simp, rfl⟩
  | cons queued transactions ih =>
      intro storage h
      obtain ⟨next, hnext, h⟩ := bind_eq_ok.mp h
      obtain ⟨expiresAt, hexpires, hnext⟩ := bind_eq_ok.mp hnext
      cases mapM_toI64_ok hexpires
      cases pure_eq_ok.mp hnext
      obtain ⟨new, hrows, hentries, hnonces, hsame⟩ := ih h
      rw [Relation.rows_insertNext, List.append_assoc] at hrows
      refine ⟨_, hrows, ?_, ?_, hsame⟩
      · rw [List.map_append, hentries]
        rfl
      · intro row hrow
        rcases List.mem_append.mp hrow with hfirst | hrest
        · rw [List.mem_singleton.mp hfirst]
        · exact hnonces row hrest

/-- Updates some rows of `allocated_nonces`. -/
def mapNonces (storage : Storage) (p : NonceRow → Bool) (f : NonceRow → NonceRow) : List NonceRow :=
  storage.allocatedNonces.rows.map fun row => if p row then f row else row

/-- **Everything a statement can do.** -/
inductive Changes (storage storage' : Storage) : Statement → Reply → Prop
  | enqueue (transactions : List (Transaction × Option Nat)) (new : List TransactionRow)
      (hrows : storage'.transactions.rows = storage.transactions.rows ++ new)
      (hentries : new.map entry = transactions) (hnew : ∀ row ∈ new, row.nonce = none)
      (hnonces : storage'.allocatedNonces = storage.allocatedNonces) :
      Changes storage storage' (.enqueue transactions) .done
  | idle (status : Status) (bundler : Bundler) (hsame : storage' = storage) :
      Changes storage storage' (.nextTransaction status bundler) (.allocated none)
  | allocate (status : Status) (bundler : Bundler) (taken rest : List TransactionRow)
      (allocated : AllocatedTransaction)
      (hpending : storage.transactions.rows.filter (isPending status.block) = taken ++ rest)
      (hnonempty : taken ≠ [])
      (hnonce : allocated.nonce = max status.nonce (storage.allocatedNonces.nextKey 0))
      (hauthorization : allocated.authorization = bundler.authorization)
      (hcarries : Carries allocated.transaction (taken.map TransactionRow.request))
      (hnonces : storage'.allocatedNonces.rows =
        storage.allocatedNonces.rows ++ allocatedRows allocated)
      (hrows : storage'.transactions.rows = storage.transactions.rows.map fun row =>
        if row ∈ taken then { row with nonce := some allocated.nonce } else row) :
      Changes storage storage' (.nextTransaction status bundler) (.allocated (some allocated))
  | recordSubmission (submission : Submission)
      (hrows : storage'.transactions = storage.transactions)
      (hnonces : storage'.allocatedNonces.rows = storage.mapNonces
        (fun row => row.nonce = submission.nonce && row.request.isSome)
        (NonceRow.submit · submission.block submission.fees)) :
      Changes storage storage' (.recordSubmission submission) .done
  | markExecuted (status : Status) (hblock : status.block < 2 ^ 63)
      (hrows : storage'.transactions = storage.transactions)
      (hnonces : storage'.allocatedNonces.rows = storage.mapNonces
        (fun row => row.nonce < status.nonce && row.executedAt.isNone)
        fun row => { row with executedAt := some status.block }) :
      Changes storage storage' (.markExecuted status) .done
  | recoverAuthorizationGap (nonce : Nat) (isRecovered : Bool)
      (hrecovered : isRecovered = storage.allocatedNonces.rows.any fun row =>
        row.nonce = nonce && row.delegate.isSome && row.request.isNone)
      (hrows : storage'.transactions = storage.transactions)
      (hnonces : storage'.allocatedNonces.rows = storage.mapNonces
        (fun row => row.nonce = nonce && row.delegate.isSome && row.request.isNone)
        NonceRow.cancel) :
      Changes storage storage' (.recoverAuthorizationGap nonce) (.recovered isRecovered)
  | prune (safe : Nat) (hsafe : safe < 2 ^ 63)
      (hnonces : storage'.allocatedNonces =
        storage.allocatedNonces.deleteWhere fun row => row.executedAt.any (· ≤ safe))
      (hrows : storage'.transactions.rows = storage.transactions.rows.filter fun row =>
        match row.nonce with
        | some nonce => !storage.allocatedNonces.rows.any fun nonceRow =>
            nonceRow.nonce = nonce && nonceRow.executedAt.any (· ≤ safe)
        | none => row.expiresAt.all (safe < ·)) :
      Changes storage storage' (.prune safe) .done
  | unmarkExecuted (block : Nat) (hrows : storage'.transactions = storage.transactions)
      (hnonces : storage'.allocatedNonces.rows = storage.mapNonces
        (fun row => row.executedAt.any (block ≤ ·)) fun row => { row with executedAt := none }) :
      Changes storage storage' (.unmarkExecuted block) .done

/-- The bundle of an allocation is empty. -/
def Statement.IsNew : Statement → Prop
  | .nextTransaction _ bundler => bundler.IsNew
  | _ => True

private theorem prune_ok {safe : Nat} (h : storage.prune safe = .ok storage') :
    Changes storage storage' (.prune safe) .done := by
  obtain ⟨block, hblock, h⟩ := bind_eq_ok.mp h
  have hsafe := toI64_lt hblock
  cases toI64_ok hblock
  cases pure_eq_ok.mp h
  refine .prune safe hsafe rfl ?_
  rw [Relation.rows_deleteWhere, Relation.rows_deleteWhere, List.filter_filter]
  apply List.filter_congr
  intro row hrow
  cases hnonce : row.nonce with
  | none =>
      cases row.expiresAt with
      | none => rfl
      | some expires =>
          have hle : decide (expires ≤ safe) = !decide (safe < expires) := by
            rw [← decide_not]
            exact decide_eq_decide.mpr Nat.not_lt.symm
          simp [hle]
  | some nonce =>
      have hexecuted : decide (nonce ∈ (storage.allocatedNonces.rows.filter fun row =>
            row.executedAt.any (· ≤ safe)).map NonceRow.nonce) =
          storage.allocatedNonces.rows.any fun nonceRow =>
            nonceRow.nonce = nonce && nonceRow.executedAt.any (· ≤ safe) := by
        rw [Bool.eq_iff_iff, decide_eq_true_iff, List.any_eq_true, List.mem_map]
        constructor
        · rintro ⟨nonceRow, hmem, rfl⟩
          obtain ⟨hmem, hmarked⟩ := List.mem_filter.mp hmem
          exact ⟨nonceRow, hmem, by simpa using hmarked⟩
        · rintro ⟨nonceRow, hmem, hmarked⟩
          rw [Bool.and_eq_true, decide_eq_true_iff] at hmarked
          exact ⟨nonceRow, List.mem_filter.mpr ⟨hmem, hmarked.2⟩, hmarked.1⟩
      simp only [Option.any_some, Option.isNone_some, Bool.false_and, Bool.not_false, Bool.true_and]
      rw [hexecuted]

/-- **A statement that succeeds does one of the listed things.** -/
theorem execute_changes {statement : Statement} {reply : Reply} (hnew : statement.IsNew)
    (h : storage.execute statement = .ok (storage', reply)) :
    Changes storage storage' statement reply := by
  cases statement with
  | enqueue transactions =>
      obtain ⟨after, hcall, h⟩ := bind_eq_ok.mp h
      cases pure_eq_ok.mp h
      obtain ⟨new, hrows, hentries, hnonces, hsame⟩ := enqueue_ok _ hcall
      exact .enqueue transactions new hrows hentries hnonces hsame
  | nextTransaction status bundler =>
      obtain ⟨⟨result, after⟩, hcall, h⟩ := bind_eq_ok.mp h
      cases pure_eq_ok.mp h
      rcases nextTransaction_ok hnew hcall with ⟨rfl, hsame⟩ |
        ⟨taken, rest, allocated, rfl, hpending, hnonempty, hnonce, hauthorization, hcarries, hnonces, hrows⟩
      · exact .idle status bundler hsame
      · exact .allocate status bundler taken rest allocated hpending hnonempty hnonce hauthorization
          hcarries hnonces hrows
  | recordSubmission submission =>
      obtain ⟨after, hcall, h⟩ := bind_eq_ok.mp h
      cases pure_eq_ok.mp h
      obtain ⟨block, hblock, hcall⟩ := bind_eq_ok.mp hcall
      cases mapM_toI64_ok hblock
      obtain ⟨nonce, hnonce, hcall⟩ := bind_eq_ok.mp hcall
      cases toI64_ok hnonce
      dsimp only at hcall
      split at hcall
      · cases pure_eq_ok.mp hcall
        exact .recordSubmission submission rfl rfl
      · cases hcall
  | markExecuted status =>
      obtain ⟨after, hcall, h⟩ := bind_eq_ok.mp h
      cases pure_eq_ok.mp h
      obtain ⟨block, hblock, hcall⟩ := bind_eq_ok.mp hcall
      obtain ⟨nonce, hnonce, hcall⟩ := bind_eq_ok.mp hcall
      have hlt := toI64_lt hblock
      cases toI64_ok hblock
      cases toI64_ok hnonce
      cases pure_eq_ok.mp hcall
      exact .markExecuted status hlt rfl rfl
  | recoverAuthorizationGap nonce =>
      obtain ⟨⟨isRecovered, after⟩, hcall, h⟩ := bind_eq_ok.mp h
      cases pure_eq_ok.mp h
      obtain ⟨nonce', hnonce, hcall⟩ := bind_eq_ok.mp hcall
      cases toI64_ok hnonce
      cases pure_eq_ok.mp hcall
      exact .recoverAuthorizationGap nonce _ rfl rfl rfl
  | prune safe =>
      obtain ⟨after, hcall, h⟩ := bind_eq_ok.mp h
      cases pure_eq_ok.mp h
      exact prune_ok hcall
  | unmarkExecuted block =>
      obtain ⟨after, hcall, h⟩ := bind_eq_ok.mp h
      cases pure_eq_ok.mp h
      obtain ⟨block', hblock, hcall⟩ := bind_eq_ok.mp hcall
      cases toI64_ok hblock
      cases pure_eq_ok.mp hcall
      exact .unmarkExecuted block rfl rfl

/-- A statement changes the tables as listed, or fails and leaves them. -/
theorem step_changes {statement : Statement} (hnew : statement.IsNew) (storage : Storage) :
    (∃ reply, (storage.step statement).2 = .ok reply ∧
        Changes storage (storage.step statement).1 statement reply) ∨
      (∃ error, (storage.step statement).2 = .error error) ∧ (storage.step statement).1 = storage := by
  unfold step
  cases hexecute : storage.execute statement with
  | ok result =>
      obtain ⟨after, reply⟩ := result
      exact .inl ⟨reply, rfl, execute_changes hnew hexecute⟩
  | error error => exact .inr ⟨⟨error, rfl⟩, rfl⟩

end Storage

end Safenet.Core.Tx
