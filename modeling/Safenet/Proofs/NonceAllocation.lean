/-
Nonces and the authorizations paired with them.

A transaction that carries an authorization takes two nonces, and the row of the second one holds the
authorization.  The storage finds it again by the nonce alone, so it has to stay as long as the
transaction does, and no other delegate may come to stand there (`Paired`).  The first holds because
pruning removes a lower part of the table, the second because a new nonce is above all others.

If the account is used by the queue alone, every nonce up to the highest one allocated was allocated,
and still has a row unless it was pruned (`Covered`).
-/
import Safenet.Proofs.ExecutionMarks

namespace Safenet.Core.Tx

namespace Storage

variable {storage storage' : Storage} {statement : Statement} {reply : Reply} {nonce : Nat}
  {history : List DbStep} {st : DbStep}

/-- The authorization of a transaction is the delegate after it. -/
theorem authorizationOf_eq_some {authorization : Authorization} :
    storage.authorizationOf nonce = some authorization ↔
      ∃ row ∈ storage.allocatedNonces.rows, row.nonce = nonce + 1 ∧
        row.delegate = some authorization.address := by
  unfold authorizationOf
  constructor
  · intro h
    obtain ⟨row, hfind, hrow⟩ := Option.bind_eq_some_iff.mp h
    obtain ⟨address, haddress, rfl⟩ := Option.map_eq_some_iff.mp hrow
    have hp := List.find?_some hfind
    rw [Bool.and_eq_true, decide_eq_true_iff] at hp
    exact ⟨row, List.mem_of_find?_eq_some hfind, hp.1, haddress⟩
  · rintro ⟨row, hrow, hnonce, hdelegate⟩
    have hfind : (storage.allocatedNonces.rows.find? fun row =>
        row.nonce = nonce + 1 && row.delegate.isSome) = some row := by
      cases hfound : storage.allocatedNonces.rows.find? fun row =>
          row.nonce = nonce + 1 && row.delegate.isSome with
      | none =>
          have := List.find?_eq_none.mp hfound row hrow
          simp [hnonce, hdelegate] at this
      | some other =>
          have hp := List.find?_some hfound
          rw [Bool.and_eq_true, decide_eq_true_iff] at hp
          rw [Relation.eq_of_key (List.mem_of_find?_eq_some hfound) hrow (hp.1.trans hnonce.symm)]
    rw [hfind, Option.bind_some, hdelegate]
    rfl

/-- The delegate at a nonce. -/
def DelegateAt (storage : Storage) (nonce : Nat) (address : Address) : Prop :=
  ∃ row ∈ storage.allocatedNonces.rows, row.nonce = nonce ∧ row.delegate = some address

theorem authorizationOf_congr
    (h : ∀ address, storage'.DelegateAt (nonce + 1) address ↔ storage.DelegateAt (nonce + 1) address) :
    storage'.authorizationOf nonce = storage.authorizationOf nonce := by
  apply Option.ext
  intro authorization
  rw [authorizationOf_eq_some, authorizationOf_eq_some]
  exact h authorization.address

/-- What is submitted again is what was stored, with the authorization found for it. -/
theorem mem_staleSubmissions {submittedBefore : Option Nat}
    {stale : List AllocatedTransaction} (h : storage.staleSubmissions submittedBefore = .ok stale)
    {transaction : AllocatedTransaction} (hmem : transaction ∈ stale) :
    ∃ row ∈ storage.allocatedNonces.rows, row.nonce = transaction.nonce ∧
      row.request.map Request.transaction = some transaction.transaction ∧
      transaction.authorization = storage.authorizationOf row.nonce := by
  obtain ⟨block, -, h⟩ := Fallible.bind_eq_ok.mp h
  cases Fallible.pure_eq_ok.mp h
  obtain ⟨row, hrow, hsome⟩ := List.mem_filterMap.mp hmem
  cases hrequest : row.request with
  | none =>
      rw [hrequest] at hsome
      cases hsome
  | some request =>
      rw [hrequest] at hsome
      dsimp only at hsome
      split at hsome
      · cases hsome
        exact ⟨row, hrow, rfl, by rw [hrequest]; rfl, rfl⟩
      · cases hsome

/-! ### The allocations of a run -/

/-- What a statement has allocated. -/
def allocatedBy (st : DbStep) : Option AllocatedTransaction :=
  match st.out with
  | .ok (.allocated allocated) => allocated
  | _ => none

/-- The last allocation of a nonce to a transaction. -/
def allocationAt (history : List DbStep) (nonce : Nat) : Option AllocatedTransaction :=
  (history.filterMap allocatedBy).reverse.find? (·.nonce = nonce)

theorem allocationAt_concat (history : List DbStep) (st : DbStep) (nonce : Nat) :
    allocationAt (history ++ [st]) nonce =
      ((allocatedBy st).filter (·.nonce = nonce)).or (allocationAt history nonce) := by
  unfold allocationAt
  rw [List.filterMap_append, List.reverse_append]
  cases hallocated : allocatedBy st with
  | none => simp [hallocated]
  | some allocated =>
      by_cases heq : allocated.nonce = nonce
      · simp [hallocated, heq, Option.filter]
      · simp [hallocated, heq, Option.filter]

/-- Every transaction was allocated its nonce together with the authorization it is sent with now, and
every delegate belongs to the transaction before it. -/
structure Paired (history : List DbStep) (storage : Storage) : Prop where
  transactions : ∀ row ∈ storage.allocatedNonces.rows, row.delegate = none →
    ∃ allocated, allocationAt history row.nonce = some allocated ∧
      row.request.map Request.transaction = some allocated.transaction ∧
      storage.authorizationOf row.nonce = allocated.authorization
  delegates : ∀ row ∈ storage.allocatedNonces.rows, ∀ address, row.delegate = some address →
    ∃ nonce allocated, row.nonce = nonce + 1 ∧ allocationAt history nonce = some allocated ∧
      allocated.authorization = some ⟨address⟩ ∧
      (∀ request, row.request = some request → request.transaction = .default) ∧
      storage.authorizationOf row.nonce = none

theorem paired_empty : Paired [] empty := by
  constructor
  · intro row hrow
    cases hrow
  · intro row hrow
    cases hrow

/-- A statement that changes no delegate, and no transaction but to cancel an authorization. -/
theorem Paired.touches {f : NonceRow → NonceRow} (h : Paired history storage)
    (hf : ∀ row, Touches row (f row))
    (hnonces : storage'.allocatedNonces.rows = storage.allocatedNonces.rows.map f)
    (hnone : allocatedBy st = none) : Paired (history ++ [st]) storage' := by
  have hhistory : ∀ nonce, allocationAt (history ++ [st]) nonce = allocationAt history nonce := by
    intro nonce
    rw [allocationAt_concat, hnone]
    rfl
  have hauthorization : ∀ nonce, storage'.authorizationOf nonce = storage.authorizationOf nonce := by
    intro nonce
    apply authorizationOf_congr
    intro address
    unfold DelegateAt
    rw [hnonces]
    constructor
    · rintro ⟨row', hrow', hnonce, hdelegate⟩
      obtain ⟨row, hrow, rfl⟩ := List.mem_map.mp hrow'
      exact ⟨row, hrow, (hf row).nonce.symm.trans hnonce, (hf row).delegate.symm.trans hdelegate⟩
    · rintro ⟨row, hrow, hnonce, hdelegate⟩
      exact ⟨f row, List.mem_map_of_mem hrow, (hf row).nonce.trans hnonce,
        (hf row).delegate.trans hdelegate⟩
  constructor
  · intro row' hrow' hdelegate
    rw [hnonces] at hrow'
    obtain ⟨row, hrow, rfl⟩ := List.mem_map.mp hrow'
    rw [(hf row).delegate] at hdelegate
    obtain ⟨allocated, hallocated, hrequest, hsame⟩ := h.transactions row hrow hdelegate
    refine ⟨allocated, ?_, ?_, ?_⟩
    · rw [hhistory, (hf row).nonce, hallocated]
    · rcases (hf row).request with hkept | ⟨-, hsome, -⟩
      · rw [hkept, hrequest]
      · rw [hdelegate] at hsome
        cases hsome
    · rw [hauthorization, (hf row).nonce, hsame]
  · intro row' hrow' address hdelegate
    rw [hnonces] at hrow'
    obtain ⟨row, hrow, rfl⟩ := List.mem_map.mp hrow'
    rw [(hf row).delegate] at hdelegate
    obtain ⟨nonce, allocated, hnonce, hallocated, hcarried, hcancels, hlast⟩ :=
      h.delegates row hrow address hdelegate
    refine ⟨nonce, allocated, (hf row).nonce.trans hnonce, ?_, hcarried, ?_, ?_⟩
    · rw [hhistory, hallocated]
    · intro request' hrequest'
      rcases (hf row).request with hkept | ⟨-, -, hcancelled⟩
      · rw [hrequest'] at hkept
        obtain ⟨request, hrequest, heq⟩ := Option.map_eq_some_iff.mp hkept.symm
        rw [← heq]
        exact hcancels request hrequest
      · rw [hcancelled] at hrequest'
        cases hrequest'
        rfl
    · rw [hauthorization, (hf row).nonce, hlast]

theorem Paired.same (h : Paired history storage)
    (hsame : storage'.allocatedNonces = storage.allocatedNonces) (hnone : allocatedBy st = none) :
    Paired (history ++ [st]) storage' :=
  h.touches Touches.refl (by rw [hsame, List.map_id']) hnone

/-- A new nonce is above all others, so it pairs with nothing that is there. -/
theorem Paired.allocate {allocated : AllocatedTransaction} (h : Paired history storage)
    (hfresh : ∀ row ∈ storage.allocatedNonces.rows, row.nonce < allocated.nonce)
    (hnonces : storage'.allocatedNonces.rows = storage.allocatedNonces.rows ++ allocatedRows allocated)
    (hallocated : allocatedBy st = some allocated) : Paired (history ++ [st]) storage' := by
  have hhistory : ∀ nonce, nonce < allocated.nonce →
      allocationAt (history ++ [st]) nonce = allocationAt history nonce := by
    intro nonce hlt
    rw [allocationAt_concat, hallocated]
    simp [Option.filter, Nat.ne_of_gt hlt]
  have hnew : allocationAt (history ++ [st]) allocated.nonce = some allocated := by
    rw [allocationAt_concat, hallocated]
    simp [Option.filter]
  -- a delegate at or below the new nonce is an old one
  have hold : ∀ nonce, nonce < allocated.nonce →
      storage'.authorizationOf nonce = storage.authorizationOf nonce := by
    intro nonce hlt
    apply authorizationOf_congr
    intro address
    unfold DelegateAt
    rw [hnonces]
    constructor
    · rintro ⟨row, hrow, hnonce, hdelegate⟩
      rcases List.mem_append.mp hrow with hrow | hadded
      · exact ⟨row, hrow, hnonce, hdelegate⟩
      · rcases mem_allocatedRows.mp hadded with rfl | ⟨authorization, -, rfl⟩
        · cases hdelegate
        · have : allocated.nonce + 1 = nonce + 1 := hnonce
          omega
    · rintro ⟨row, hrow, hrest⟩
      exact ⟨row, List.mem_append_left _ hrow, hrest⟩
  have hat : ∀ authorization, storage'.authorizationOf allocated.nonce = some authorization ↔
      allocated.authorization = some authorization := by
    intro authorization
    rw [authorizationOf_eq_some, hnonces]
    constructor
    · rintro ⟨row, hrow, hnonce, hdelegate⟩
      rcases List.mem_append.mp hrow with hrow | hadded
      · have := hfresh row hrow
        omega
      · rcases mem_allocatedRows.mp hadded with rfl | ⟨other, hother, rfl⟩
        · cases hdelegate
        · obtain ⟨address⟩ := other
          cases hdelegate
          exact hother
    · intro hauthorization
      refine ⟨delegateRow (allocated.nonce + 1) authorization, ?_, rfl, rfl⟩
      exact List.mem_append_right _ (mem_allocatedRows.mpr (.inr ⟨authorization, hauthorization, rfl⟩))
  have hlast : storage'.authorizationOf (allocated.nonce + 1) = none := by
    cases hfound : storage'.authorizationOf (allocated.nonce + 1) with
    | none => rfl
    | some authorization =>
        obtain ⟨row, hrow, hnonce, hdelegate⟩ := authorizationOf_eq_some.mp hfound
        rw [hnonces] at hrow
        rcases List.mem_append.mp hrow with hrow | hadded
        · have := hfresh row hrow
          omega
        · rcases mem_allocatedRows.mp hadded with rfl | ⟨other, -, rfl⟩
          · cases hdelegate
          · have : allocated.nonce + 1 = allocated.nonce + 1 + 1 := hnonce
            omega
  constructor
  · intro row hrow hdelegate
    rw [hnonces] at hrow
    rcases List.mem_append.mp hrow with hrow | hadded
    · rw [hhistory _ (hfresh row hrow), hold _ (hfresh row hrow)]
      exact h.transactions row hrow hdelegate
    · rcases mem_allocatedRows.mp hadded with rfl | ⟨authorization, -, rfl⟩
      · exact ⟨allocated, hnew, rfl, Option.ext hat⟩
      · cases hdelegate
  · intro row hrow address hdelegate
    rw [hnonces] at hrow
    rcases List.mem_append.mp hrow with hrow | hadded
    · obtain ⟨nonce, other, hnonce, hother, hrest⟩ := h.delegates row hrow address hdelegate
      have hlt := hfresh row hrow
      refine ⟨nonce, other, hnonce, ?_, ?_⟩
      · rw [hhistory nonce (by omega), hother]
      · rw [hold _ hlt]
        exact hrest
    · rcases mem_allocatedRows.mp hadded with rfl | ⟨authorization, hauthorization, rfl⟩
      · cases hdelegate
      · cases hdelegate
        refine ⟨allocated.nonce, allocated, rfl, hnew, hauthorization, fun request hrequest => ?_, hlast⟩
        cases hrequest

/-- An authorization is not pruned before its transaction. -/
theorem Paired.prune {safe : Nat} (h : Paired history storage) (horder : storage.InOrder)
    (hnonces : storage'.allocatedNonces =
      storage.allocatedNonces.deleteWhere fun row => row.executedAt.any (· ≤ safe))
    (hnone : allocatedBy st = none) : Paired (history ++ [st]) storage' := by
  have hhistory : ∀ nonce, allocationAt (history ++ [st]) nonce = allocationAt history nonce := by
    intro nonce
    rw [allocationAt_concat, hnone]
    rfl
  have hkept : ∀ row, row ∈ storage'.allocatedNonces.rows ↔
      row ∈ storage.allocatedNonces.rows ∧ ∀ block ∈ row.executedAt, safe < block := by
    intro row
    rw [hnonces, Relation.rows_deleteWhere, List.mem_filter]
    cases row.executedAt with
    | none => simp
    | some block => simp
  have hauthorization : ∀ row ∈ storage'.allocatedNonces.rows,
      storage'.authorizationOf row.nonce = storage.authorizationOf row.nonce := by
    intro row hrow
    obtain ⟨hrow, hunmarked⟩ := (hkept row).mp hrow
    apply authorizationOf_congr
    intro address
    constructor
    · rintro ⟨other, hother, hrest⟩
      exact ⟨other, ((hkept other).mp hother).1, hrest⟩
    · rintro ⟨other, hother, hnonce, hdelegate⟩
      refine ⟨other, (hkept other).mpr ⟨hother, fun block' hblock' => ?_⟩, hnonce, hdelegate⟩
      obtain ⟨block, hblock, hle⟩ := horder row hrow other hother (by omega) block' hblock'
      have := hunmarked block hblock
      omega
  constructor
  · intro row hrow hdelegate
    rw [hhistory, hauthorization row hrow]
    exact h.transactions row ((hkept row).mp hrow).1 hdelegate
  · intro row hrow address hdelegate
    obtain ⟨nonce, allocated, hnonce, hallocated, hrest⟩ :=
      h.delegates row ((hkept row).mp hrow).1 address hdelegate
    refine ⟨nonce, allocated, hnonce, ?_, ?_⟩
    · rw [hhistory, hallocated]
    · rw [hauthorization row hrow]
      exact hrest

/-- **Every statement keeps transactions and authorizations paired.** -/
theorem Paired.sound (h : Paired history st.pre) (horder : st.pre.InOrder)
    (hsound : Sound st) : Paired (history ++ [st]) st.post := by
  obtain ⟨before, statement, out, after⟩ := st
  rcases hsound.changes with ⟨reply, hout, hchanges⟩ | ⟨⟨error, hout⟩, hsame⟩
  · cases hout
    dsimp only at hchanges h horder ⊢
    by_cases hupdate : statement.isUpdate = true
    · obtain ⟨f, hf, -, hnonces⟩ := hchanges.updates hupdate
      refine h.touches hf hnonces ?_
      cases hchanges with
      | allocate status bundler taken rest allocated => cases hupdate
      | _ => rfl
    · cases hchanges with
      | enqueue transactions new hrows hentries hnew hnonces => exact h.same hnonces rfl
      | idle status bundler hsame => exact h.same (by rw [hsame]) rfl
      | allocate status bundler taken rest allocated hpending hnonempty hnonce hauthorization hcarries
          hnonces hrows =>
          exact h.allocate (fun row hrow => nonce_lt_allocated hnonce hrow) hnonces rfl
      | prune safe hsafe hnonces hrows => exact h.prune horder hnonces rfl
      | recordSubmission submission hrows hnonces => exact absurd rfl hupdate
      | markExecuted status hblock hrows hnonces => exact absurd rfl hupdate
      | recoverAuthorizationGap nonce isRecovered hrecovered hrows hnonces => exact absurd rfl hupdate
      | unmarkExecuted block hrows hnonces => exact absurd rfl hupdate
  · cases hout
    exact h.same (by rw [hsame]) rfl

/-! ### What a statement does to the nonces -/

/-- The nonce has a row. -/
def HasRow (storage : Storage) (nonce : Nat) : Prop :=
  ∃ row ∈ storage.allocatedNonces.rows, row.nonce = nonce

instance : Decidable (storage.HasRow nonce) :=
  inferInstanceAs (Decidable (∃ row ∈ storage.allocatedNonces.rows, row.nonce = nonce))

/-- **A statement allocates, or only touches the rows that are there.** -/
theorem Sound.nonces (h : Sound st) :
    (∃ status bundler allocated, st.input = .nextTransaction status bundler ∧
        st.out = .ok (.allocated (some allocated)) ∧
        allocated.nonce = max status.nonce (st.pre.allocatedNonces.nextKey 0) ∧
        st.post.allocatedNonces.rows = st.pre.allocatedNonces.rows ++ allocatedRows allocated) ∨
      allocatedBy st = none ∧ ∀ row' ∈ st.post.allocatedNonces.rows,
        ∃ row ∈ st.pre.allocatedNonces.rows, Touches row row' := by
  obtain ⟨before, statement, out, after⟩ := st
  rcases h.changes with ⟨reply, hout, hchanges⟩ | ⟨⟨error, hout⟩, hsame⟩
  · cases hout
    dsimp only at hchanges ⊢
    by_cases hupdate : statement.isUpdate = true
    · obtain ⟨f, hf, -, hnonces⟩ := hchanges.updates hupdate
      refine .inr ⟨?_, fun row' hrow' => ?_⟩
      · cases hchanges with
        | allocate status bundler taken rest allocated => cases hupdate
        | _ => rfl
      · rw [hnonces] at hrow'
        obtain ⟨row, hrow, rfl⟩ := List.mem_map.mp hrow'
        exact ⟨row, hrow, hf row⟩
    · cases hchanges with
      | enqueue transactions new hrows hentries hnew hnonces =>
          refine .inr ⟨rfl, fun row hrow => ⟨row, ?_, .refl row⟩⟩
          rw [hnonces] at hrow
          exact hrow
      | idle status bundler hsame =>
          refine .inr ⟨rfl, fun row hrow => ⟨row, ?_, .refl row⟩⟩
          rw [hsame] at hrow
          exact hrow
      | allocate status bundler taken rest allocated hpending hnonempty hnonce hauthorization hcarries
          hnonces hrows =>
          exact .inl ⟨status, bundler, allocated, rfl, rfl, hnonce, hnonces⟩
      | prune safe hsafe hnonces hrows =>
          refine .inr ⟨rfl, fun row hrow => ⟨row, ?_, .refl row⟩⟩
          rw [hnonces, Relation.rows_deleteWhere] at hrow
          exact (List.mem_filter.mp hrow).1
      | recordSubmission submission hrows hnonces => exact absurd rfl hupdate
      | markExecuted status hblock hrows hnonces => exact absurd rfl hupdate
      | recoverAuthorizationGap nonce isRecovered hrecovered hrows hnonces => exact absurd rfl hupdate
      | unmarkExecuted block hrows hnonces => exact absurd rfl hupdate
  · cases hout
    refine .inr ⟨rfl, fun row hrow => ⟨row, ?_, .refl row⟩⟩
    dsimp only at hsame hrow
    rw [hsame] at hrow
    exact hrow

/-- A delegate comes with the transaction before it. -/
theorem Sound.delegate_created (h : Sound st) {row : NonceRow}
    (hrow : row ∈ st.post.allocatedNonces.rows) (hdelegate : row.delegate ≠ none)
    (hfresh : ¬st.pre.HasRow row.nonce) :
    ∃ allocated, st.out = .ok (.allocated (some allocated)) ∧ row.nonce = allocated.nonce + 1 ∧
      allocated.authorization = row.delegate.map Authorization.mk ∧
      transactionRow allocated ∈ st.post.allocatedNonces.rows ∧ ¬st.pre.HasRow allocated.nonce := by
  rcases h.nonces with ⟨status, bundler, allocated, hinput, hout, hnonce, hnonces⟩ | ⟨-, htouches⟩
  · rw [hnonces] at hrow ⊢
    rcases List.mem_append.mp hrow with hold | hadded
    · exact absurd ⟨row, hold, rfl⟩ hfresh
    · rcases mem_allocatedRows.mp hadded with rfl | ⟨authorization, hauthorization, rfl⟩
      · exact absurd rfl hdelegate
      · refine ⟨allocated, hout, rfl, hauthorization, ?_, ?_⟩
        · exact List.mem_append_right _ (List.mem_cons_self ..)
        · rintro ⟨other, hother, hsame⟩
          have := nonce_lt_allocated hnonce hother
          omega
  · obtain ⟨other, hother, htouch⟩ := htouches row hrow
    exact absurd ⟨other, hother, htouch.nonce.symm⟩ hfresh

/-- The transaction sent at a nonce stays. -/
theorem Sound.request_kept (h : Sound st) {row row' : NonceRow} {request : Request}
    (hrow : row ∈ st.pre.allocatedNonces.rows) (hrequest : row.request = some request)
    (hrow' : row' ∈ st.post.allocatedNonces.rows) (hnonce : row'.nonce = row.nonce) :
    row'.request.map Request.transaction = some request.transaction := by
  rcases h.stable row hrow request hrequest with ⟨kept, hkept, hsame, htransaction, -⟩ | ⟨hgone, -⟩
  · rw [Relation.eq_of_key hrow' hkept (hnonce.trans hsame.symm)]
    exact htransaction
  · exact absurd hnonce (hgone row' hrow')

/-! ### Recovered authorizations -/

/-- A cancellation was put in place of the authorization at the nonce. -/
def RecoveredBy (st : DbStep) (nonce : Nat) : Prop :=
  st.input = .recoverAuthorizationGap nonce ∧ st.out = .ok (.recovered true)

/-- A transaction is sent at the nonce. -/
def Sent (storage : Storage) (nonce : Nat) : Prop :=
  ∃ row ∈ storage.allocatedNonces.rows, row.nonce = nonce ∧ row.request.isSome

theorem Sound.recovered (h : Sound st) (hrecovered : RecoveredBy st nonce) :
    ¬st.pre.Sent nonce ∧ st.post.Sent nonce := by
  rcases h.changes with ⟨reply, hout, hchanges⟩ | ⟨⟨error, hout⟩, -⟩
  · rw [hrecovered.2] at hout
    cases hout
    rw [hrecovered.1] at hchanges
    cases hchanges with
    | recoverAuthorizationGap _ _ hany hrows hnonces =>
        obtain ⟨row, hrow, hgap⟩ := List.any_eq_true.mp hany.symm
        have hparts := hgap
        rw [Bool.and_eq_true, Bool.and_eq_true, decide_eq_true_iff] at hparts
        constructor
        · rintro ⟨other, hother, hnonce, hrequest⟩
          rw [Relation.eq_of_key hother hrow (hnonce.trans hparts.1.1.symm),
            Option.isNone_iff_eq_none.mp hparts.2] at hrequest
          cases hrequest
        · refine ⟨NonceRow.cancel row, ?_, hparts.1.1, rfl⟩
          rw [hnonces]
          exact mem_mapNonces.mpr ⟨row, hrow, if_pos hgap⟩
  · rw [hrecovered.2] at hout
    cases hout

theorem Sound.sent (h : Sound st) (hsent : st.pre.Sent nonce) (hkept : st.post.HasRow nonce) :
    st.post.Sent nonce := by
  obtain ⟨row, hrow, hnonce, hsome⟩ := hsent
  obtain ⟨row', hrow', hnonce'⟩ := hkept
  obtain ⟨request, hrequest⟩ := Option.isSome_iff_exists.mp hsome
  have hsame := h.request_kept hrow hrequest hrow' (hnonce'.trans hnonce.symm)
  refine ⟨row', hrow', hnonce', ?_⟩
  rw [← Option.isSome_map, hsame]
  rfl

/-- **An authorization is recovered once:** before it happens again at the nonce, its row was removed. -/
theorem recovered_once {statements : List Statement}
    (hsound : ∀ st ∈ Trace.trace step empty statements, Sound st)
    {before middle after : List DbStep} {first second : DbStep}
    (hsplit : Trace.trace step empty statements = before ++ first :: (middle ++ second :: after))
    (hfirst : RecoveredBy first nonce) (hsecond : RecoveredBy second nonce) :
    ∃ st ∈ middle, ¬st.post.HasRow nonce := by
  by_contra hkept
  have hmem : ∀ st ∈ first :: (middle ++ second :: after), Sound st := by
    intro st hst
    apply hsound
    rw [hsplit]
    exact List.mem_append_right _ hst
  obtain ⟨-, later, -, -, -, hlater⟩ := Trace.trace_split _ _ hsplit
  obtain ⟨until', -, -, hmiddle, hpoint, -⟩ := Trace.trace_split _ _ hlater.symm
  have hsent : (Trace.final step first.post until').Sent nonce := by
    refine Trace.history_invariant (I := fun _ storage => Sent storage nonce)
      (E := fun st => Sound st ∧ st.post.HasRow nonce)
      ((hmem first (List.mem_cons_self ..)).recovered hfirst).2
      (fun _ _ _ hsent h => h.1.sent hsent h.2) until' fun st hst => ?_
    rw [← hmiddle] at hst
    refine ⟨hmem st (List.mem_cons_of_mem _ (List.mem_append_left _ hst)), ?_⟩
    by_contra hnone
    exact hkept ⟨st, hst, hnone⟩
  have hlast := hmem second (List.mem_cons_of_mem _ (List.mem_append_right _ (List.mem_cons_self ..)))
  have hpre : second.pre = Trace.final step first.post until' := by
    rw [hpoint]
    rfl
  exact (hlast.recovered hsecond).1 (hpre ▸ hsent)

/-! ### No gaps -/

/-- The nonces a statement has allocated. -/
def noncesBy (st : DbStep) : List Nat :=
  (allocatedBy st).elim [] fun allocated => (allocatedRows allocated).map NonceRow.nonce

/-- The nonces whose rows a statement has removed. -/
def prunedBy (st : DbStep) : List Nat :=
  (st.pre.allocatedNonces.rows.map NonceRow.nonce).filter fun nonce => !decide (st.post.HasRow nonce)

/-- The nonce of the account that a statement is given. -/
def Statement.account : Statement → Option Nat
  | .nextTransaction status _ => some status.nonce
  | .markExecuted status => some status.nonce
  | .recoverAuthorizationGap nonce => some nonce
  | _ => none

/-- The nonce of an account that had the first one when the queue was set up, and that only used nonces
of the queue since. -/
def UsedAlone (first : Nat) (history : List DbStep) (account : Nat) : Prop :=
  first ≤ account ∧ (account = first ∨ ∃ nonce ∈ history.flatMap noncesBy, account ≤ nonce + 1)

instance (first : Nat) (history : List DbStep) (account : Nat) :
    Decidable (UsedAlone first history account) :=
  inferInstanceAs (Decidable (_ ∧ (_ ∨ _)))

/-- Every nonce up to an allocated one has a row or had one. -/
structure Covered (first : Nat) (history : List DbStep) (storage : Storage) : Prop where
  allocated : ∀ row ∈ storage.allocatedNonces.rows, row.nonce ∈ history.flatMap noncesBy
  covered : ∀ top ∈ history.flatMap noncesBy, ∀ nonce, first ≤ nonce → nonce ≤ top →
    storage.HasRow nonce ∨ nonce ∈ history.flatMap prunedBy

theorem covered_empty (first : Nat) : Covered first [] empty := by
  constructor
  · intro row hrow
    cases hrow
  · intro top htop
    cases htop

theorem Covered.sound {first : Nat} (h : Covered first history st.pre) (hsound : Sound st)
    (halone : ∀ account ∈ st.input.account, UsedAlone first history account) :
    Covered first (history ++ [st]) st.post := by
  -- what had a row still has one, or was pruned just now
  have hold : ∀ top ∈ history.flatMap noncesBy, ∀ nonce, first ≤ nonce → nonce ≤ top →
      st.post.HasRow nonce ∨ nonce ∈ (history ++ [st]).flatMap prunedBy := by
    intro top htop nonce hfirst hle
    rw [List.flatMap_append, List.mem_append]
    rcases h.covered top htop nonce hfirst hle with ⟨row, hrow, rfl⟩ | hpruned
    · by_cases hkept : st.post.HasRow row.nonce
      · exact .inl hkept
      · refine .inr (.inr ?_)
        simp only [List.flatMap_cons, List.flatMap_nil, List.append_nil, prunedBy]
        exact List.mem_filter.mpr ⟨List.mem_map_of_mem hrow, by simpa using hkept⟩
    · exact .inr (.inl hpruned)
  rcases hsound.nonces with ⟨status, bundler, allocated, hinput, hout, hnonce, hnonces⟩ |
    ⟨hnone, htouches⟩
  · have hby : noncesBy st = (allocatedRows allocated).map NonceRow.nonce := by
      unfold noncesBy allocatedBy
      rw [hout]
      rfl
    have hflat : (history ++ [st]).flatMap noncesBy =
        history.flatMap noncesBy ++ (allocatedRows allocated).map NonceRow.nonce := by
      rw [List.flatMap_append, List.flatMap_cons, List.flatMap_nil, List.append_nil, hby]
    constructor
    · intro row hrow
      rw [hflat]
      rw [hnonces] at hrow
      rcases List.mem_append.mp hrow with hrow | hadded
      · exact List.mem_append_left _ (h.allocated row hrow)
      · exact List.mem_append_right _ (List.mem_map_of_mem hadded)
    · intro top htop nonce hfirst hle
      rw [hflat] at htop
      rcases List.mem_append.mp htop with htop | hadded
      · exact hold top htop nonce hfirst hle
      · by_cases hlt : nonce < allocated.nonce
        · -- below the account nonce, or at most the highest row
          have hused := halone status.nonce (by rw [hinput]; rfl)
          have hbelow : ∃ top' ∈ history.flatMap noncesBy, nonce ≤ top' := by
            by_cases haccount : nonce < status.nonce
            · rcases hused.2 with heq | ⟨top', htop', hle'⟩
              · omega
              · exact ⟨top', htop', by omega⟩
            · have hkey : nonce < st.pre.allocatedNonces.nextKey 0 := by omega
              unfold Relation.nextKey at hkey
              cases hmax : st.pre.allocatedNonces.maxKey with
              | none =>
                  rw [hmax] at hkey
                  cases hkey
              | some top' =>
                  obtain ⟨row, hrow, rfl⟩ := Relation.maxKey_mem hmax
                  rw [hmax] at hkey
                  exact ⟨row.nonce, h.allocated row hrow, Nat.le_of_lt_succ hkey⟩
          obtain ⟨top', htop', hle'⟩ := hbelow
          exact hold top' htop' nonce hfirst hle'
        · left
          obtain ⟨row, hrow, rfl⟩ := List.mem_map.mp hadded
          rcases mem_allocatedRows.mp hrow with rfl | ⟨authorization, hauthorization, rfl⟩
          · refine ⟨transactionRow allocated, ?_, ?_⟩
            · rw [hnonces]
              exact List.mem_append_right _ hrow
            · have : nonce ≤ allocated.nonce := hle
              show allocated.nonce = nonce
              omega
          · have : nonce ≤ allocated.nonce + 1 := hle
            by_cases heq : nonce = allocated.nonce
            · refine ⟨transactionRow allocated, ?_, heq.symm⟩
              rw [hnonces]
              exact List.mem_append_right _ (List.mem_cons_self ..)
            · refine ⟨delegateRow (allocated.nonce + 1) authorization, ?_, ?_⟩
              · rw [hnonces]
                exact List.mem_append_right _ hrow
              · show allocated.nonce + 1 = nonce
                omega
  · have hflat : (history ++ [st]).flatMap noncesBy = history.flatMap noncesBy := by
      rw [List.flatMap_append, List.flatMap_cons, List.flatMap_nil, List.append_nil, noncesBy, hnone]
      exact List.append_nil _
    constructor
    · intro row' hrow'
      obtain ⟨row, hrow, htouch⟩ := htouches row' hrow'
      rw [hflat, htouch.nonce]
      exact h.allocated row hrow
    · rw [hflat]
      exact hold

end Storage

namespace Queue

/-! ### Every run -/

/-- The statements of a run, with what they did. -/
abbrev databaseOf (setup : Setup) (inputs : List Input) : List Storage.DbStep :=
  Trace.trace Storage.step .empty (statementsOf (Trace.trace (step setup) .new inputs))

theorem databaseOf_sound (setup : Setup) (inputs : List Input) :
    ∀ d ∈ databaseOf setup inputs, Storage.Sound d := by
  refine Storage.run_sound _ (fun statement hstatement => ?_) Storage.consistent_empty
  obtain ⟨st, hst, hmem⟩ := List.mem_flatMap.mp hstatement
  obtain ⟨operation, -, -, -, hallowed⟩ := allowed_of_mem hst hmem
  exact hallowed.isNew

section Prefix

variable {setup : Setup} {inputs : List Input} {done rest : List Storage.Statement}
  (hsplit : statementsOf (Trace.trace (step setup) .new inputs) = done ++ rest)

include hsplit

/-- What came of the first statements of a run comes first in the whole of it. -/
theorem databaseOf_split : databaseOf setup inputs =
    Trace.trace Storage.step .empty done ++
      Trace.trace Storage.step (Trace.final Storage.step .empty done) rest := by
  unfold databaseOf
  rw [hsplit, Trace.trace_append]

/-- At every moment of a run nonces are marked in their order, and transactions and authorizations
belong together. -/
theorem paired_during :
    (Trace.final Storage.step .empty done).InOrder ∧
      Storage.Paired (Trace.trace Storage.step .empty done) (Trace.final Storage.step .empty done) := by
  refine Trace.history_invariant (I := fun history storage => Storage.InOrder storage ∧
    Storage.Paired history storage) (E := fun d => Storage.Sound d ∧ d.pre.MarksOnTop d.input)
    ⟨Storage.inOrder_empty, Storage.paired_empty⟩ (fun history storage statement hI hE => ?_) done
    fun d hd => ?_
  · refine ⟨?_, hI.2.sound hI.1 hE.1⟩
    rcases hE.1.changes with ⟨reply, -, hchanges⟩ | ⟨-, hsame⟩
    · exact hI.1.changes hchanges hE.2
    · rw [Trace.take_post, Trace.take_pre] at hsame
      rw [hsame]
      exact hI.1
  · have hmem : d ∈ databaseOf setup inputs := by
      rw [databaseOf_split hsplit]
      exact List.mem_append_left _ hd
    exact ⟨databaseOf_sound setup inputs d hmem, run_onTop setup inputs d hmem⟩

/-- At every moment of a run of an account that is used by the queue alone, every nonce up to an
allocated one has or had a row. -/
theorem covered_during {first : Nat}
    (halone : Trace.Throughout (fun before (d : Storage.DbStep) => ∀ account ∈ d.input.account,
      Storage.UsedAlone first before account) (databaseOf setup inputs)) :
    Storage.Covered first (Trace.trace Storage.step .empty done)
      (Trace.final Storage.step .empty done) := by
  have hsound : ∀ d ∈ Trace.trace Storage.step .empty done, Storage.Sound d := by
    intro d hd
    apply databaseOf_sound setup inputs
    rw [databaseOf_split hsplit]
    exact List.mem_append_left _ hd
  rw [databaseOf_split hsplit] at halone
  replace halone := halone.of_append
  clear hsplit
  induction done using List.reverseRecOn with
  | nil => exact Storage.covered_empty first
  | append_singleton done statement ih =>
      rw [Trace.trace_concat] at hsound halone ⊢
      rw [Trace.final_concat]
      have hbefore := ih (fun d hd => hsound d (List.mem_append_left _ hd)) halone.of_append
      exact hbefore.sound (hsound _ (List.mem_append_right _ (List.mem_singleton_self _)))
        (halone _ _ [] rfl)

end Prefix

/--
**Nonces are allocated in order, and authorizations stay with their transactions.**  In every run, with
any answers of the node and with restarts anywhere: a nonce that is allocated is above all others and not
below that of the account; a delegate row only comes with the row of the transaction before it; the
transaction sent at a nonce stays.  As long as a transaction has its row, it is submitted again with the
authorization that was allocated with it, or without one if there was none; a cancellation that was put in
place of an authorization carries none, and takes its place once.  If the account is used by the queue
alone, every nonce from that of the account, once this is above all that were pruned, up to the highest
one allocated has a row.
-/
theorem nonces_are_paired (setup : Setup) (inputs : List Input) :
    (∀ d ∈ databaseOf setup inputs,
      (∀ status bundler allocated, d.input = .nextTransaction status bundler →
        d.out = .ok (.allocated (some allocated)) → status.nonce ≤ allocated.nonce ∧
          ∀ row ∈ d.pre.allocatedNonces.rows, row.nonce < allocated.nonce) ∧
      (∀ row ∈ d.post.allocatedNonces.rows, row.delegate ≠ none → ¬d.pre.HasRow row.nonce →
        ∃ allocated, d.out = .ok (.allocated (some allocated)) ∧ row.nonce = allocated.nonce + 1 ∧
          allocated.authorization = row.delegate.map Authorization.mk ∧
          Storage.transactionRow allocated ∈ d.post.allocatedNonces.rows ∧
          ¬d.pre.HasRow allocated.nonce) ∧
      ∀ row ∈ d.pre.allocatedNonces.rows, ∀ request, row.request = some request →
        ∀ row' ∈ d.post.allocatedNonces.rows, row'.nonce = row.nonce →
          row'.request.map Request.transaction = some request.transaction) ∧
    (∀ before first middle second after nonce,
      databaseOf setup inputs = before ++ first :: (middle ++ second :: after) →
        Storage.RecoveredBy first nonce → Storage.RecoveredBy second nonce →
          ∃ st ∈ middle, ¬st.post.HasRow nonce) ∧
    ∀ done rest, statementsOf (Trace.trace (step setup) .new inputs) = done ++ rest →
      let history := Trace.trace Storage.step .empty done
      let storage := Trace.final Storage.step .empty done
      (∀ submittedBefore stale, storage.staleSubmissions submittedBefore = .ok stale →
        ∀ transaction ∈ stale, ∃ row ∈ storage.allocatedNonces.rows, row.nonce = transaction.nonce ∧
          (row.delegate = none → ∃ allocated,
            Storage.allocationAt history row.nonce = some allocated ∧
            transaction.transaction = allocated.transaction ∧
            transaction.authorization = allocated.authorization) ∧
          ∀ address, row.delegate = some address → ∃ nonce allocated, row.nonce = nonce + 1 ∧
            Storage.allocationAt history nonce = some allocated ∧
            allocated.authorization = some ⟨address⟩ ∧
            transaction.transaction = .default ∧ transaction.authorization = none) ∧
      ∀ first, Trace.Throughout (fun before (d : Storage.DbStep) => ∀ account ∈ d.input.account,
          Storage.UsedAlone first before account) (databaseOf setup inputs) →
        ∀ account, Storage.UsedAlone first history account →
          (∀ nonce ∈ history.flatMap Storage.prunedBy, nonce < account) →
            ∀ top ∈ history.flatMap Storage.noncesBy, ∀ nonce, account ≤ nonce → nonce ≤ top →
              storage.HasRow nonce := by
  have hsound := databaseOf_sound setup inputs
  refine ⟨fun d hd => ⟨?_, fun row hrow hdelegate hfresh => ?_, fun row hrow request hrequest row' hrow'
    hnonce => ?_⟩, fun before first middle second after nonce hsplit hfirst hsecond => ?_,
    fun done rest hsplit => ⟨?_, ?_⟩⟩
  · intro status bundler allocated hinput hout
    rcases (hsound d hd).nonces with ⟨status', bundler', allocated', hinput', hout', hnonce, -⟩ |
      ⟨hnone, -⟩
    · rw [hinput] at hinput'
      rw [hout] at hout'
      cases hinput'
      cases hout'
      exact ⟨by omega, fun row hrow => Storage.nonce_lt_allocated hnonce hrow⟩
    · unfold Storage.allocatedBy at hnone
      rw [hout] at hnone
      cases hnone
  · exact (hsound d hd).delegate_created hrow hdelegate hfresh
  · exact (hsound d hd).request_kept hrow hrequest hrow' hnonce
  · exact Storage.recovered_once hsound hsplit hfirst hsecond
  · intro submittedBefore stale hstale transaction hmem
    obtain ⟨row, hrow, hnonce, hrequest, hauthorization⟩ := Storage.mem_staleSubmissions hstale hmem
    have hpaired := (paired_during hsplit).2
    refine ⟨row, hrow, hnonce, fun hdelegate => ?_, fun address hdelegate => ?_⟩
    · obtain ⟨allocated, hallocated, hsame, hcarried⟩ := hpaired.transactions row hrow hdelegate
      rw [hrequest] at hsame
      exact ⟨allocated, hallocated, Option.some.inj hsame, hauthorization.trans hcarried⟩
    · obtain ⟨nonce, allocated, hkey, hallocated, hcarried, hcancels, hlast⟩ :=
        hpaired.delegates row hrow address hdelegate
      obtain ⟨request, hstored, heq⟩ := Option.map_eq_some_iff.mp hrequest
      refine ⟨nonce, allocated, hkey, hallocated, hcarried, ?_, hauthorization.trans hlast⟩
      rw [← heq]
      exact hcancels request hstored
  · intro first halone account hused hpruned top htop nonce hle hle'
    have hfirst := hused.1
    rcases (covered_during hsplit halone).covered top htop nonce (by omega) hle' with hrow | hgone
    · exact hrow
    · have := hpruned nonce hgone
      omega

/-! ### A nonce that falls to a pruned one -/

/-- A queue that sends two transactions at a time. -/
def pairSetup : Setup := ⟨fun _ => 0, 1, 1, ⟨.direct 2, 5, none⟩⟩

/-- A node that answers with the nonce and accepts everything. -/
def willing (nonce : Nat) : Answers :=
  ⟨fun _ _ => some (nonce, 0), fun _ => some ⟨1, 1⟩, fun _ _ => .accepted⟩

/-- Two transactions are queued and sent, and the first one is executed at block 10. -/
def pairRun : List Input :=
  [.call (.queue [(.default, none), (.default, none)]) (willing 0) none,
    .call (.updateBlockStatus ⟨9, 5⟩) (willing 0) none,
    .call (.updateBlockStatus ⟨10, 5⟩) (willing 1) none]

/-- The account has used the nonces of the queue alone and stands at the second one, which has a row. -/
theorem second_nonce_has_row :
    Trace.Throughout (fun before (d : Storage.DbStep) => ∀ account ∈ d.input.account,
      Storage.UsedAlone 0 before account) (databaseOf pairSetup pairRun) ∧
    (Trace.final Storage.step .empty
      (statementsOf (Trace.trace (step pairSetup) .new pairRun))).HasRow 1 := by
  have halone : Trace.Throughout (fun before (d : Storage.DbStep) => ∀ account ∈ d.input.account,
      Storage.UsedAlone 0 before account) (databaseOf pairSetup pairRun) := by decide +kernel
  refine ⟨halone, ?_⟩
  exact ((nonces_are_paired pairSetup pairRun).2.2 _ [] (List.append_nil _).symm).2 0 halone 1
    (by decide +kernel) (by decide +kernel) 1 (by decide +kernel) 1 (Nat.le_refl 1) (Nat.le_refl 1)

/-- The safe block moves to 10 and the nonce is pruned; then the account stands at it again. -/
def fallenRun : List Input := pairRun ++ [.call (.updateBlockStatus ⟨11, 10⟩) (willing 0) none]

/-- The account is never below a nonce whose row was pruned, and uses the nonces of the queue alone, but
its nonce has no row although a later one has. -/
theorem fallen_nonce_has_no_row :
    let database := databaseOf pairSetup fallenRun
    Trace.Throughout (fun before (d : Storage.DbStep) => ∀ account ∈ d.input.account,
      Storage.UsedAlone 0 before account ∧
        ∀ nonce ∈ before.flatMap Storage.prunedBy, nonce ≤ account) database ∧
    (database.getLast?.bind fun d => d.input.account) = some 0 ∧
    1 ∈ database.flatMap Storage.noncesBy ∧
    ¬(Trace.final (step pairSetup) .new fallenRun).storage.HasRow 0 := by
  decide +kernel

end Queue

end Safenet.Core.Tx
