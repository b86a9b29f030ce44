/-
The fees recorded for a nonce.

They are those of its row.  Of all statements only `recordSubmission` puts others there, and only pruning
takes them away (`Changes.recorded`).  A transaction that was just allocated has none, and one that is
submitted again has those of its row (`recorded_allocated`, `fees_staleSubmissions`).
-/
import Safenet.Proofs.Fees
import Safenet.Proofs.TransactionQueue

namespace Safenet.Core.Tx

open Fallible

namespace Storage

variable {storage storage' : Storage} {statement : Statement} {reply : Reply} {nonce : Nat}

/-! ### Recorded fees -/

/-- The row of a nonce. -/
def rowAt (storage : Storage) (nonce : Nat) : Option NonceRow :=
  storage.allocatedNonces.rows.find? (·.nonce = nonce)

/-- The fees recorded for a nonce. -/
def recorded (storage : Storage) (nonce : Nat) : Option Fees :=
  (storage.rowAt nonce).bind fun row => row.request.bind Request.fees

theorem rowAt_eq_some {row : NonceRow} :
    storage.rowAt nonce = some row ↔ row ∈ storage.allocatedNonces.rows ∧ row.nonce = nonce := by
  constructor
  · intro h
    exact ⟨List.mem_of_find?_eq_some h, of_decide_eq_true (List.find?_some h :)⟩
  · rintro ⟨hmem, hnonce⟩
    cases h : storage.rowAt nonce with
    | none => exact absurd (decide_eq_true hnonce) (List.find?_eq_none.mp h row hmem)
    | some row' =>
        have hnonce' : row'.nonce = nonce := of_decide_eq_true (List.find?_some h :)
        rw [Relation.eq_of_key (List.mem_of_find?_eq_some h) hmem (hnonce'.trans hnonce.symm)]

theorem rowAt_eq_none :
    storage.rowAt nonce = none ↔ ∀ row ∈ storage.allocatedNonces.rows, row.nonce ≠ nonce := by
  unfold rowAt
  rw [List.find?_eq_none]
  exact forall₂_congr fun row _ => not_congr decide_eq_true_iff

/-- An update finds the updated rows. -/
theorem rowAt_mapNonces {p : NonceRow → Bool} {f : NonceRow → NonceRow}
    (hnonces : storage'.allocatedNonces.rows = storage.mapNonces p f)
    (hf : ∀ row, (f row).nonce = row.nonce) (nonce : Nat) :
    storage'.rowAt nonce = (storage.rowAt nonce).map fun row => if p row then f row else row := by
  have hsame : ((fun row : NonceRow => decide (row.nonce = nonce)) ∘ fun row => if p row then f row else row) =
      fun row => decide (row.nonce = nonce) := by
    funext row
    show decide ((if p row then f row else row).nonce = nonce) = _
    split
    · rw [hf]
    · rfl
  unfold rowAt
  rw [hnonces, mapNonces, List.find?_map, hsame]

/-- An update that leaves the fees alone. -/
theorem recorded_mapNonces {p : NonceRow → Bool} {f : NonceRow → NonceRow}
    (hnonces : storage'.allocatedNonces.rows = storage.mapNonces p f)
    (hf : ∀ row, (f row).nonce = row.nonce)
    (hfees : ∀ row, p row = true → (f row).request.bind Request.fees = row.request.bind Request.fees) :
    storage'.recorded nonce = storage.recorded nonce := by
  unfold recorded
  rw [rowAt_mapNonces hnonces hf]
  cases storage.rowAt nonce with
  | none => rfl
  | some row =>
      show (if p row then f row else row).request.bind Request.fees = row.request.bind Request.fees
      split
      · next hp => exact hfees row hp
      · rfl

/-- A nonce that is pruned was executed at the safe block or below. -/
def PrunedAt (storage : Storage) (nonce safe : Nat) : Prop :=
  ∃ row ∈ storage.allocatedNonces.rows,
    row.nonce = nonce ∧ ∃ block, row.executedAt = some block ∧ block ≤ safe

/-- **What a statement does to the recorded fees.** -/
theorem Changes.recorded (h : Changes storage storage' statement reply) (nonce : Nat) :
    storage'.recorded nonce = storage.recorded nonce ∨
      (∃ submission, statement = .recordSubmission submission ∧ submission.nonce = nonce ∧
        storage'.recorded nonce = some submission.fees) ∨
      ∃ safe, statement = .prune safe ∧ storage.PrunedAt nonce safe ∧ storage'.recorded nonce = none := by
  cases h with
  | enqueue transactions new hrows hentries hnew hnonces =>
      left
      rw [Storage.recorded, rowAt, hnonces]
      rfl
  | idle status bundler hsame =>
      left
      rw [hsame]
  | allocate status bundler taken rest allocated hpending hnonempty hnonce hauthorization hcarries hnonces =>
      left
      have hfound : storage'.rowAt nonce =
          (storage.rowAt nonce).or ((allocatedRows allocated).find? (·.nonce = nonce)) := by
        unfold rowAt
        rw [hnonces, List.find?_append]
      unfold Storage.recorded
      rw [hfound]
      cases storage.rowAt nonce with
      | some row => rfl
      | none =>
          rw [Option.none_or]
          cases hnew : (allocatedRows allocated).find? (·.nonce = nonce) with
          | none => rfl
          | some row =>
              rcases mem_allocatedRows.mp (List.mem_of_find?_eq_some hnew) with rfl | ⟨authorization, -, rfl⟩
              · rfl
              · rfl
  | recordSubmission submission hrows hnonces =>
      by_cases hnonce : submission.nonce = nonce
      · unfold Storage.recorded
        rw [rowAt_mapNonces hnonces fun row => rfl]
        cases hrow : storage.rowAt nonce with
        | none => exact .inl rfl
        | some row =>
            have hsame : row.nonce = submission.nonce := (rowAt_eq_some.mp hrow).2.trans hnonce.symm
            cases hrequest : row.request with
            | none =>
                left
                show (if decide (row.nonce = submission.nonce) && row.request.isSome then _ else row
                  : NonceRow).request.bind Request.fees = row.request.bind Request.fees
                rw [hrequest, Option.isSome_none, Bool.and_false, if_neg Bool.false_ne_true, hrequest]
            | some request =>
                refine .inr (.inl ⟨submission, rfl, hnonce, ?_⟩)
                show (if decide (row.nonce = submission.nonce) && row.request.isSome then
                  NonceRow.submit row submission.block submission.fees else row
                  : NonceRow).request.bind Request.fees = _
                rw [hrequest, decide_eq_true hsame, Option.isSome_some, Bool.and_true, if_pos rfl]
                show (row.request.map _).bind Request.fees = _
                rw [hrequest]
                rfl
      · left
        unfold Storage.recorded
        rw [rowAt_mapNonces hnonces fun row => rfl]
        cases hrow : storage.rowAt nonce with
        | none => rfl
        | some row =>
            have hother : row.nonce ≠ submission.nonce := fun heq =>
              hnonce (heq.symm.trans (rowAt_eq_some.mp hrow).2)
            show (if decide (row.nonce = submission.nonce) && row.request.isSome then _ else row
              : NonceRow).request.bind Request.fees = row.request.bind Request.fees
            rw [decide_eq_false hother, Bool.false_and, if_neg Bool.false_ne_true]
  | markExecuted status hblock hrows hnonces =>
      exact .inl (recorded_mapNonces hnonces (fun _ => rfl) fun _ _ => rfl)
  | recoverAuthorizationGap nonce' isRecovered hrecovered hrows hnonces =>
      refine .inl (recorded_mapNonces hnonces (fun _ => rfl) fun row hgap => ?_)
      rw [Bool.and_eq_true, Bool.and_eq_true] at hgap
      rw [Option.isNone_iff_eq_none.mp hgap.2]
      rfl
  | unmarkExecuted block hrows hnonces =>
      exact .inl (recorded_mapNonces hnonces (fun _ => rfl) fun _ _ => rfl)
  | prune safe hsafe hnonces hrows =>
      have hmem : ∀ row, row ∈ storage'.allocatedNonces.rows ↔
          row ∈ storage.allocatedNonces.rows ∧ row.executedAt.any (· ≤ safe) = false := by
        intro row
        rw [hnonces, Relation.rows_deleteWhere, List.mem_filter, Bool.not_eq_true']
      cases hrow : storage.rowAt nonce with
      | none =>
          left
          have hnone : storage'.rowAt nonce = none := by
            refine rowAt_eq_none.mpr fun row hrow' => ?_
            exact rowAt_eq_none.mp hrow row ((hmem row).mp hrow').1
          rw [Storage.recorded, Storage.recorded, hnone, hrow]
      | some row =>
          obtain ⟨hin, hnonce⟩ := rowAt_eq_some.mp hrow
          cases hexecuted : row.executedAt.any (· ≤ safe) with
          | false =>
              left
              have hkept : storage'.rowAt nonce = some row :=
                rowAt_eq_some.mpr ⟨(hmem row).mpr ⟨hin, hexecuted⟩, hnonce⟩
              rw [Storage.recorded, Storage.recorded, hkept, hrow]
          | true =>
              obtain ⟨block, hblock, hle⟩ :
                  ∃ block, row.executedAt = some block ∧ decide (block ≤ safe) = true := by
                cases hblock : row.executedAt with
                | none =>
                    rw [hblock] at hexecuted
                    cases hexecuted
                | some block =>
                    rw [hblock] at hexecuted
                    exact ⟨block, rfl, hexecuted⟩
              refine .inr (.inr ⟨safe, rfl, ⟨row, hin, hnonce, block, hblock, of_decide_eq_true hle⟩, ?_⟩)
              have hgone : storage'.rowAt nonce = none := by
                refine rowAt_eq_none.mpr fun row' hrow' hnonce' => ?_
                obtain ⟨hin', hkept⟩ := (hmem row').mp hrow'
                rw [Relation.eq_of_key hin' hin (hnonce'.trans hnonce.symm), hexecuted] at hkept
                cases hkept
              rw [Storage.recorded, hgone]
              rfl

/-- Every request was never submitted, or with fees of some kind. -/
def Holds (Q : Fees → Prop) (storage : Storage) : Prop :=
  ∀ row ∈ storage.allocatedNonces.rows, ∀ request, row.request = some request → request.Holds Q

theorem Holds.recorded {Q : Fees → Prop} (h : storage.Holds Q) {fees : Fees}
    (hfees : storage.recorded nonce = some fees) : Q fees := by
  obtain ⟨row, hrow, hfees⟩ := Option.bind_eq_some_iff.mp hfees
  obtain ⟨request, hrequest, hfees⟩ := Option.bind_eq_some_iff.mp hfees
  exact (h row (rowAt_eq_some.mp hrow).1 request hrequest).fees hfees

theorem holds_none {Q : Fees → Prop} (transaction : Transaction) :
    (Request.mk transaction none none).Holds Q := .inl ⟨rfl, rfl⟩

/-- An update keeps what it does to the updated rows. -/
theorem Holds.mapNonces {Q : Fees → Prop} (h : storage.Holds Q) {p : NonceRow → Bool}
    {f : NonceRow → NonceRow} (hnonces : storage'.allocatedNonces.rows = storage.mapNonces p f)
    (hf : ∀ row ∈ storage.allocatedNonces.rows, p row = true → ∀ request, (f row).request = some request →
      request.Holds Q) : storage'.Holds Q := by
  intro row' hrow' request hrequest
  rw [hnonces] at hrow'
  obtain ⟨row, hrow, rfl⟩ := List.mem_map.mp hrow'
  split at hrequest
  · next hp => exact hf row hrow hp request hrequest
  · exact h row hrow request hrequest

theorem Holds.changes {Q : Fees → Prop} (h : storage.Holds Q)
    (hchanges : Changes storage storage' statement reply)
    (hsubmission : ∀ submission, statement = .recordSubmission submission → Q submission.fees) :
    storage'.Holds Q := by
  cases hchanges with
  | enqueue transactions new hrows hentries hnew hnonces =>
      intro row hrow
      rw [hnonces] at hrow
      exact h row hrow
  | idle status bundler hsame => rwa [hsame]
  | allocate status bundler taken rest allocated hpending hnonempty hnonce hauthorization hcarries hnonces =>
      intro row hrow request hrequest
      rw [hnonces] at hrow
      rcases List.mem_append.mp hrow with hold | hnew
      · exact h row hold request hrequest
      · rcases mem_allocatedRows.mp hnew with rfl | ⟨authorization, -, rfl⟩
        · cases hrequest
          exact holds_none _
        · cases hrequest
  | recordSubmission submission hrows hnonces =>
      refine h.mapNonces hnonces fun row hrow hp request' hrequest' => ?_
      obtain ⟨request, hrequest, rfl⟩ := Option.map_eq_some_iff.mp hrequest'
      exact .inr ⟨submission.fees, hsubmission submission rfl, rfl, rfl⟩
  | markExecuted status hblock hrows hnonces =>
      exact h.mapNonces hnonces fun row hrow _ => h row hrow
  | recoverAuthorizationGap nonce isRecovered hrecovered hrows hnonces =>
      refine h.mapNonces hnonces fun row hrow hp request' hrequest' => ?_
      cases hrequest'
      exact holds_none _
  | unmarkExecuted block hrows hnonces => exact h.mapNonces hnonces fun row hrow _ => h row hrow
  | prune safe hsafe hnonces hrows =>
      intro row hrow
      rw [hnonces, Relation.rows_deleteWhere] at hrow
      exact h row (List.mem_filter.mp hrow).1

/-! ### Statements -/

theorem recorded_step (hnew : statement.IsNew) (nonce : Nat) :
    (storage.step statement).1.recorded nonce = storage.recorded nonce ∨
      (∃ submission, statement = .recordSubmission submission ∧ submission.nonce = nonce ∧
        (storage.step statement).1.recorded nonce = some submission.fees) ∨
      ∃ safe, statement = .prune safe ∧ storage.PrunedAt nonce safe ∧
        (storage.step statement).1.recorded nonce = none := by
  rcases step_changes hnew storage with ⟨reply, -, hchanges⟩ | ⟨-, hsame⟩
  · exact hchanges.recorded nonce
  · exact .inl (congrArg (Storage.recorded · nonce) hsame)

theorem Holds.step {Q : Fees → Prop} (h : storage.Holds Q) (hnew : statement.IsNew)
    (hsubmission : ∀ submission, statement = .recordSubmission submission → Q submission.fees) :
    (storage.step statement).1.Holds Q := by
  rcases step_changes hnew storage with ⟨reply, -, hchanges⟩ | ⟨-, hsame⟩
  · exact h.changes hchanges hsubmission
  · rwa [hsame]

theorem finish_fees {bundler : Bundler} {allocated : AllocatedTransaction}
    (h : bundler.finish nonce = some allocated) : allocated.fees = none := by
  obtain ⟨transaction, -, h⟩ := Option.bind_eq_some_iff.mp h
  cases h
  rfl

theorem nextTransaction_fees {status : Status} {bundler : Bundler} {allocated : AllocatedTransaction}
    (h : storage.nextTransaction status bundler = .ok (some allocated, storage')) : allocated.fees = none := by
  obtain ⟨block, -, h⟩ := bind_eq_ok.mp h
  split at h
  · cases pure_eq_ok.mp h
  · next filled last hfill =>
    obtain ⟨accountNonce, -, h⟩ := bind_eq_ok.mp h
    obtain ⟨nonce, -, h⟩ := bind_eq_ok.mp h
    split at h
    · cases pure_eq_ok.mp h
    · next finished hfinish =>
      obtain ⟨nonces, -, h⟩ := bind_eq_ok.mp h
      obtain ⟨nonces', -, h⟩ := bind_eq_ok.mp h
      cases pure_eq_ok.mp h
      exact finish_fees hfinish

/-- A transaction that was just allocated has no recorded fees. -/
theorem recorded_allocated {status : Status} {bundler : Bundler} {allocated : AllocatedTransaction}
    (hnew : bundler.IsNew)
    (h : (storage.step (.nextTransaction status bundler)).2 = .ok (.allocated (some allocated))) :
    allocated.fees = (storage.step (.nextTransaction status bundler)).1.recorded allocated.nonce := by
  have hfees : allocated.fees = none := by
    unfold step at h
    cases hexecute : storage.execute (.nextTransaction status bundler) with
    | error error =>
        rw [hexecute] at h
        cases h
    | ok result =>
        obtain ⟨⟨found, after⟩, hcall, hresult⟩ := bind_eq_ok.mp hexecute
        rw [hexecute, ← pure_eq_ok.mp hresult] at h
        cases h
        exact nextTransaction_fees hcall
  rw [hfees]
  have hstatement : (Statement.nextTransaction status bundler).IsNew := hnew
  rcases step_changes hstatement storage with ⟨reply, hreply, hchanges⟩ | ⟨⟨error, herror⟩, -⟩
  · rw [hreply] at h
    cases h
    cases hchanges with
    | allocate _ _ taken rest _ hpending hnonempty hnonce hauthorization hcarries hnonces hrows =>
        have hfree : storage.rowAt allocated.nonce = none :=
          rowAt_eq_none.mpr fun row hrow => (nonce_lt_allocated hnonce hrow).ne
        rcases recorded_step hstatement allocated.nonce with hsame | ⟨_, heq, -⟩ | ⟨_, heq, -⟩
        · rw [hsame, Storage.recorded, hfree]
          rfl
        · cases heq
        · cases heq
  · rw [herror] at h
    cases h

/-- What is submitted again has the fees recorded for its nonce. -/
theorem fees_staleSubmissions {submittedBefore : Option Nat} {stale : List AllocatedTransaction}
    (h : storage.staleSubmissions submittedBefore = .ok stale) :
    (∀ transaction ∈ stale, transaction.fees = storage.recorded transaction.nonce) ∧
      stale.Pairwise fun transaction transaction' => transaction.nonce < transaction'.nonce := by
  -- the query keeps the nonce and the fees of each row that it selects
  obtain ⟨select, rfl, hselect⟩ : ∃ select : NonceRow → Option AllocatedTransaction,
      stale = storage.allocatedNonces.rows.filterMap select ∧
        ∀ row transaction, select row = some transaction →
          transaction.nonce = row.nonce ∧ transaction.fees = row.request.bind Request.fees := by
    obtain ⟨block, -, h⟩ := bind_eq_ok.mp h
    cases pure_eq_ok.mp h
    refine ⟨_, rfl, fun row transaction hrow => ?_⟩
    cases hrequest : row.request with
    | none =>
        simp only [hrequest] at hrow
        cases hrow
    | some request =>
        simp only [hrequest] at hrow
        split at hrow
        · cases hrow
          exact ⟨rfl, rfl⟩
        · cases hrow
  constructor
  · intro transaction hmem
    obtain ⟨row, hrow, heq⟩ := List.mem_filterMap.mp hmem
    obtain ⟨hnonce, hfees⟩ := hselect row transaction heq
    rw [hfees, Storage.recorded, rowAt_eq_some.mpr ⟨hrow, hnonce.symm⟩]
    rfl
  · refine List.Pairwise.filterMap _ (fun row row' hlt transaction hrow transaction' hrow' => ?_)
      storage.allocatedNonces.sorted
    rw [(hselect row transaction hrow).1, (hselect row' transaction' hrow').1]
    exact hlt

end Storage

end Safenet.Core.Tx
