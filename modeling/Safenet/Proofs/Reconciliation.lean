/-
Reconciliations of the stored secrets are ordered by their block.

Whether a call is accepted depends only on the blocks of the accepted calls before it, and a call that
is not accepted changes nothing.  So a run is the list of its accepted calls (`acceptedCalls`), whose
blocks do not decrease, and each row goes through it on its own: `deadline` follows one row, which is
retained by some of the calls and not by others.  What the tables hold afterwards is read off the list
(`run_keygenSecrets`, `run_signingNonces`); if the largest block occurs once, the list ends with its
call in any order.
-/
import Safenet.Validator.SecretStore

namespace Safenet.Validator

open Fallible

/-- The arguments of a reconciliation. -/
structure Reconciliation where
  block : Nat
  retained : Table B256 RetainedSecrets

namespace Reconciliation

/-- The secrets of the group's key generation are kept. -/
def retainsKeygen (call : Reconciliation) (groupId : B256) : Bool := call.retained.lookup groupId = some .all

/-- The nonces of the group are kept. -/
def retainsNonces (call : Reconciliation) (groupId : B256) : Bool := (call.retained.lookup groupId).isSome

/-! ### One row -/

/-- The deadline of a row after a call that retains it or not. -/
def reschedule (retains : Reconciliation → Bool) (deadline : Option Nat) (call : Reconciliation) :
    Option Nat :=
  if retains call then none else deadline.or (some call.block)

/-- The deadline of a row after the calls. -/
def deadline (retains : Reconciliation → Bool) (start : Option Nat) (calls : List Reconciliation) :
    Option Nat :=
  calls.foldl (reschedule retains) start

variable {retains : Reconciliation → Bool} {start : Option Nat} {calls : List Reconciliation}

theorem deadline_concat (call : Reconciliation) :
    deadline retains start (calls ++ [call]) = reschedule retains (deadline retains start calls) call := by
  simp [deadline, List.foldl_append]

/-- The last call decides whether a row is scheduled. -/
theorem isSome_deadline_concat (call : Reconciliation) :
    (deadline retains start (calls ++ [call])).isSome = !retains call := by
  rw [deadline_concat]
  unfold reschedule
  cases hretains : retains call with
  | true => rfl
  | false => cases deadline retains start calls <;> rfl

/-- A scheduled row has the deadline it had before, if no call has retained it; or else the block of the
first call after the last one that retained it, or of the very first one. -/
theorem deadline_eq_some {block : Nat} (h : deadline retains start calls = some block) :
    (start = some block ∧ ∀ call ∈ calls, retains call = false) ∨
      ∃ before call after, calls = before ++ call :: after ∧ call.block = block ∧
        (∀ other ∈ call :: after, retains other = false) ∧
        ((before = [] ∧ start = none) ∨ ∃ last ∈ before.getLast?, retains last = true) := by
  induction calls using List.reverseRecOn generalizing block with
  | nil => exact .inl ⟨h, fun call hcall => absurd hcall List.not_mem_nil⟩
  | append_singleton calls call ih =>
    rw [deadline_concat] at h
    unfold reschedule at h
    split at h
    · cases h
    · next hretains =>
      have hcall : retains call = false := eq_false_of_ne_true hretains
      cases hdeadline : deadline retains start calls with
      | none =>
        -- the row was not scheduled, so this call does it
        rw [hdeadline] at h
        cases h
        refine .inr ⟨calls, call, [], rfl, rfl, by simpa using hcall, ?_⟩
        rcases List.eq_nil_or_concat calls with rfl | ⟨init, last, rfl⟩
        · exact .inl ⟨rfl, hdeadline⟩
        · rw [List.concat_eq_append] at hdeadline ⊢
          have hsome : (deadline retains start (init ++ [last])).isSome = !retains last :=
            isSome_deadline_concat last
          rw [hdeadline] at hsome
          exact .inr ⟨last, by simp, by simpa using hsome⟩
      | some earlier =>
        rw [hdeadline] at h
        cases h
        rcases ih hdeadline with ⟨hstart, hnone⟩ | ⟨before, first, after, rfl, hblock, hnone, hbefore⟩
        · refine .inl ⟨hstart, fun other hother => ?_⟩
          rcases List.mem_append.mp hother with hother | hother
          · exact hnone other hother
          · rw [List.mem_singleton.mp hother]
            exact hcall
        · refine .inr ⟨before, first, after ++ [call], by simp, hblock, fun other hother => ?_, hbefore⟩
          rw [← List.cons_append] at hother
          rcases List.mem_append.mp hother with hother | hother
          · exact hnone other hother
          · rw [List.mem_singleton.mp hother]
            exact hcall

end Reconciliation

namespace SecretStore

open Reconciliation

variable {store : SecretStore} {calls : List Reconciliation}

/-! ### One call -/

/-- The block of the call is not below the last accepted one, and fits the database. -/
def accepts (store : SecretStore) (call : Reconciliation) : Bool :=
  call.block < 2 ^ 63 && store.reconciliation.all (· ≤ call.block)

/-- The store after an accepted call. -/
def reconciled (store : SecretStore) (call : Reconciliation) : SecretStore where
  keygenSecrets := store.keygenSecrets.update fun key row =>
    { row with
      deleteAtBlock := reschedule (retainsKeygen · (ofLex key).1) row.deleteAtBlock call }
  signingNonces := store.signingNonces.update fun _ row =>
    { row with deleteAtBlock := reschedule (retainsNonces · row.groupId) row.deleteAtBlock call }
  reconciliation := some call.block

theorem scheduleAbsentGroups_eq {block : Nat} {retained : List B256} {groupId : B256} {start : Option Nat} :
    scheduleAbsentGroups block retained groupId start =
      if groupId ∈ retained then none else start.or (some block) := by
  unfold scheduleAbsentGroups
  split
  · next h => rw [h, if_neg List.not_mem_nil]
  · rfl

theorem mem_keygen_iff {retained : Table B256 RetainedSecrets} {groupId : B256} :
    groupId ∈ (retained.rows.filter fun row => row.2 = .all).map Prod.fst ↔
      retained.lookup groupId = some .all := by
  rw [List.mem_map]
  constructor
  · rintro ⟨⟨group, secrets⟩, hmem, rfl⟩
    obtain ⟨hrow, hall⟩ := List.mem_filter.mp hmem
    rw [decide_eq_true_eq] at hall
    obtain rfl : secrets = .all := hall
    exact Table.lookup_eq_some.mpr hrow
  · intro h
    exact ⟨(groupId, .all), List.mem_filter.mpr ⟨Table.lookup_eq_some.mp h, rfl⟩, rfl⟩

theorem mem_nonces_iff {retained : Table B256 RetainedSecrets} {groupId : B256} :
    groupId ∈ retained.rows.map Prod.fst ↔ (retained.lookup groupId).isSome = true := by
  rw [List.mem_map, Option.isSome_iff_exists]
  constructor
  · rintro ⟨⟨group, secrets⟩, hmem, rfl⟩
    exact ⟨secrets, Table.lookup_eq_some.mpr hmem⟩
  · rintro ⟨secrets, h⟩
    exact ⟨(groupId, secrets), Table.lookup_eq_some.mp h, rfl⟩

/-- **What a call does.** -/
theorem scheduleGroupSecretsDeletion_eq (store : SecretStore) (call : Reconciliation) :
    store.scheduleGroupSecretsDeletion call.block call.retained =
      if call.block < 2 ^ 63 then
        if store.accepts call then .ok (store.reconciled call, true) else .ok (store, false)
      else .error .overflow := by
  unfold scheduleGroupSecretsDeletion storedBlock accepts
  by_cases hblock : call.block < 2 ^ 63
  · simp only [require, hblock, decide_true, if_true, pure_bind, bind_assoc, Bool.true_and]
    show (if (store.reconciliation.all (· ≤ call.block)) = true then _ else _) = _
    split
    · next haccepted =>
      simp only [reconciled, reschedule, retainsKeygen, retainsNonces, scheduleAbsentGroups_eq, mem_keygen_iff,
        mem_nonces_iff, decide_eq_true_eq]
      rfl
    · rfl
  · simp only [require, hblock, decide_false, if_false]
    rfl

/-! ### A run -/

/-- The store after a call. -/
def reconcile (store : SecretStore) (call : Reconciliation) : SecretStore :=
  match store.scheduleGroupSecretsDeletion call.block call.retained with
  | .ok result => result.1
  | .error _ => store

/-- The store after the calls. -/
def reconcileAll (store : SecretStore) (calls : List Reconciliation) : SecretStore :=
  calls.foldl reconcile store

/-- The calls that were answered with `true`. -/
def acceptedCalls (store : SecretStore) : List Reconciliation → List Reconciliation
  | [] => []
  | call :: calls =>
      match store.scheduleGroupSecretsDeletion call.block call.retained with
      | .ok (_, true) => call :: acceptedCalls (store.reconcile call) calls
      | _ => acceptedCalls (store.reconcile call) calls

theorem reconcile_eq (store : SecretStore) (call : Reconciliation) :
    store.reconcile call = if store.accepts call then store.reconciled call else store := by
  unfold reconcile
  rw [scheduleGroupSecretsDeletion_eq]
  by_cases hblock : call.block < 2 ^ 63
  · rw [if_pos hblock]
    split_ifs <;> rfl
  · have hrejected : store.accepts call = false := by
      simp only [accepts, hblock, decide_false, Bool.false_and]
    rw [if_neg hblock, hrejected]
    rfl

theorem acceptedCalls_cons (store : SecretStore) (call : Reconciliation) (calls : List Reconciliation) :
    store.acceptedCalls (call :: calls) =
      if store.accepts call then call :: (store.reconciled call).acceptedCalls calls
      else store.acceptedCalls calls := by
  simp only [acceptedCalls, reconcile_eq, scheduleGroupSecretsDeletion_eq]
  by_cases hblock : call.block < 2 ^ 63
  · rw [if_pos hblock]
    split_ifs <;> rfl
  · have hrejected : store.accepts call = false := by
      simp only [accepts, hblock, decide_false, Bool.false_and]
    simp only [if_neg hblock, hrejected]
    rfl

theorem acceptedCalls_append (before after : List Reconciliation) :
    store.acceptedCalls (before ++ after) =
      store.acceptedCalls before ++ (store.reconcileAll before).acceptedCalls after := by
  induction before generalizing store with
  | nil => rfl
  | cons call before ih =>
    rw [List.cons_append, acceptedCalls_cons, acceptedCalls_cons]
    show _ = _ ++ ((store.reconcile call).reconcileAll before).acceptedCalls after
    rw [reconcile_eq]
    split
    · rw [ih, List.cons_append]
    · exact ih

/-- A row of a key generation goes through the accepted calls. -/
theorem run_keygenSecrets (key : B256 ×ₗ Address) :
    (store.reconcileAll calls).keygenSecrets.lookup key =
      (store.keygenSecrets.lookup key).map fun row =>
        { row with
          deleteAtBlock := deadline (retainsKeygen · (ofLex key).1) row.deleteAtBlock
            (store.acceptedCalls calls) } := by
  induction calls generalizing store with
  | nil => exact Option.map_id'.symm
  | cons call calls ih =>
    show ((store.reconcile call).reconcileAll calls).keygenSecrets.lookup key = _
    rw [reconcile_eq, acceptedCalls_cons]
    split
    · rw [ih]
      simp only [reconciled, Table.lookup_update, Option.map_map]
      rfl
    · exact ih

/-- A row of a signing ceremony goes through them too. -/
theorem run_signingNonces (signatureId : B256) :
    (store.reconcileAll calls).signingNonces.lookup signatureId =
      (store.signingNonces.lookup signatureId).map fun row =>
        { row with
          deleteAtBlock := deadline (retainsNonces · row.groupId) row.deleteAtBlock
            (store.acceptedCalls calls) } := by
  induction calls generalizing store with
  | nil => exact Option.map_id'.symm
  | cons call calls ih =>
    show ((store.reconcile call).reconcileAll calls).signingNonces.lookup signatureId = _
    rw [reconcile_eq, acceptedCalls_cons]
    split
    · rw [ih]
      simp only [reconciled, Table.lookup_update, Option.map_map]
      rfl
    · exact ih

/-- The last accepted block, from before the run if none was accepted in it. -/
theorem run_reconciliation :
    (store.reconcileAll calls).reconciliation =
      ((store.acceptedCalls calls).getLast?.map Reconciliation.block).or store.reconciliation := by
  induction calls generalizing store with
  | nil => rfl
  | cons call calls ih =>
    show ((store.reconcile call).reconcileAll calls).reconciliation = _
    rw [reconcile_eq, acceptedCalls_cons]
    split
    · rw [ih, List.getLast?_cons]
      cases ((store.reconciled call).acceptedCalls calls).getLast? <;> rfl
    · exact ih

/-- A block that is not below the last accepted one is not below any. -/
theorem le_of_acceptedCalls {block : Nat} (h : ∀ last ∈ (store.reconcileAll calls).reconciliation, last ≤ block) :
    (∀ first ∈ store.reconciliation, first ≤ block) ∧ ∀ call ∈ store.acceptedCalls calls, call.block ≤ block := by
  induction calls generalizing store with
  | nil => exact ⟨h, fun call hcall => absurd hcall List.not_mem_nil⟩
  | cons call calls ih =>
    change ∀ last ∈ ((store.reconcile call).reconcileAll calls).reconciliation, last ≤ block at h
    rw [reconcile_eq] at h
    rw [acceptedCalls_cons]
    split at h
    · next haccepts =>
      obtain ⟨hfirst, hcalls⟩ := ih h
      have hcall : call.block ≤ block := hfirst call.block rfl
      rw [if_pos haccepts]
      simp only [accepts, Bool.and_eq_true, decide_eq_true_eq, Option.all_eq_true] at haccepts
      refine ⟨fun first hmem => (haccepts.2 first hmem).trans hcall, ?_⟩
      exact List.forall_mem_cons.mpr ⟨hcall, hcalls⟩
    · next haccepts =>
      rw [if_neg haccepts]
      exact ih h

/-- **A call is accepted if its block fits and is not below any accepted before.** -/
theorem accepts_iff {call : Reconciliation} :
    (store.reconcileAll calls).accepts call = true ↔ call.block < 2 ^ 63 ∧
      (∀ first ∈ store.reconciliation, first ≤ call.block) ∧
        ∀ earlier ∈ store.acceptedCalls calls, earlier.block ≤ call.block := by
  simp only [accepts, Bool.and_eq_true, decide_eq_true_eq, Option.all_eq_true]
  refine and_congr_right fun _ => ⟨fun h => le_of_acceptedCalls h, fun h last hlast => ?_⟩
  rw [run_reconciliation] at hlast
  cases hgetLast : (store.acceptedCalls calls).getLast? with
  | none =>
    rw [hgetLast] at hlast
    exact h.1 last hlast
  | some final =>
    rw [hgetLast] at hlast
    cases hlast
    exact h.2 final (List.mem_of_getLast? hgetLast)

theorem sublist_acceptedCalls : (store.acceptedCalls calls).Sublist calls := by
  induction calls generalizing store with
  | nil => exact List.Sublist.slnil
  | cons call calls ih =>
    rw [acceptedCalls_cons]
    split
    · exact ih.cons_cons call
    · exact ih.cons call

theorem lt_of_mem_acceptedCalls {call : Reconciliation} (h : call ∈ store.acceptedCalls calls) :
    call.block < 2 ^ 63 := by
  induction calls generalizing store with
  | nil => cases h
  | cons first calls ih =>
    rw [acceptedCalls_cons] at h
    split at h
    · next haccepts =>
      rcases List.mem_cons.mp h with rfl | h
      · simp only [accepts, Bool.and_eq_true, decide_eq_true_eq] at haccepts
        exact haccepts.1
      · exact ih h
    · exact ih h

theorem reschedule_idem {retains : Reconciliation → Bool} {start : Option Nat} (call : Reconciliation) :
    reschedule retains (reschedule retains start call) call = reschedule retains start call := by
  unfold reschedule
  split
  · rfl
  · cases start <;> rfl

/-- The last accepted call is accepted again, to no effect. -/
theorem repeat_last {last : Reconciliation} (h : last ∈ (store.acceptedCalls calls).getLast?) :
    (store.reconcileAll calls).scheduleGroupSecretsDeletion last.block last.retained =
      .ok (store.reconcileAll calls, true) := by
  have hreconciliation : (store.reconcileAll calls).reconciliation = some last.block := by
    rw [run_reconciliation, Option.mem_def.mp h]
    rfl
  have hblock : last.block < 2 ^ 63 := lt_of_mem_acceptedCalls (List.mem_of_getLast? h)
  have haccepts : (store.reconcileAll calls).accepts last = true := by
    simp only [accepts, hreconciliation, hblock, decide_true, Bool.true_and]
    simp
  obtain ⟨init, hinit⟩ := List.getLast?_eq_some_iff.mp h
  have hsame : (store.reconcileAll calls).reconciled last = store.reconcileAll calls := by
    refine SecretStore.ext ?_ ?_ hreconciliation.symm
    · refine Table.ext_lookup fun key => ?_
      simp only [reconciled, Table.lookup_update, run_keygenSecrets, hinit, Option.map_map, Function.comp_def,
        deadline_concat, reschedule_idem]
    · refine Table.ext_lookup fun signatureId => ?_
      simp only [reconciled, Table.lookup_update, run_signingNonces, hinit, Option.map_map, Function.comp_def,
        deadline_concat, reschedule_idem]
  rw [scheduleGroupSecretsDeletion_eq, if_pos hblock, if_pos haccepts, hsame]

/-! ### Any order -/

/-- One call is above all others that fit. -/
def Largest (largest : Reconciliation) (calls : List Reconciliation) : Prop :=
  ∃ rest, (calls.filter fun call => call.block < 2 ^ 63).Perm (largest :: rest) ∧
    ∀ call ∈ rest, call.block < largest.block

theorem acceptedCalls_of_below {limit : Nat} (hlimit : limit ∈ store.reconciliation)
    (h : ∀ call ∈ calls, call.block < 2 ^ 63 → call.block < limit) : store.acceptedCalls calls = [] := by
  induction calls with
  | nil => rfl
  | cons call calls ih =>
    have hrejected : store.accepts call = false := by
      by_contra haccepts
      simp only [accepts, Bool.not_eq_false, Bool.and_eq_true, decide_eq_true_eq, Option.all_eq_true] at haccepts
      have hlow := haccepts.2 limit hlimit
      have hhigh := h call List.mem_cons_self haccepts.1
      omega
    rw [acceptedCalls_cons, hrejected]
    exact ih fun other hother => h other (List.mem_cons_of_mem _ hother)

/-- The largest call is the last one that is accepted, unless a larger one was before. -/
theorem getLast?_of_largest {largest : Reconciliation} (h : Largest largest calls) :
    (store.acceptedCalls calls).getLast? =
      if store.reconciliation.all (· ≤ largest.block) then some largest else none := by
  obtain ⟨rest, hperm, hrest⟩ := h
  have hmem : largest ∈ calls.filter fun call => call.block < 2 ^ 63 := hperm.mem_iff.mpr List.mem_cons_self
  obtain ⟨hcall, hfits⟩ := List.mem_filter.mp hmem
  rw [decide_eq_true_eq] at hfits
  obtain ⟨before, after, rfl⟩ := List.append_of_mem hcall
  -- every other call that fits is below
  have hother : (before ++ after).filter (fun call => call.block < 2 ^ 63) |>.Perm rest := by
    refine List.Perm.cons_inv (a := largest) (List.Perm.trans ?_ hperm)
    rw [List.filter_append, List.filter_append, List.filter_cons_of_pos (by simpa using hfits)]
    exact List.perm_middle.symm
  have hbelow : ∀ call ∈ before ++ after, call.block < 2 ^ 63 → call.block < largest.block := by
    intro call hcall hblock
    exact hrest call (hother.mem_iff.mp (List.mem_filter.mpr ⟨hcall, by simpa using hblock⟩))
  by_cases hfirst : store.reconciliation.all (· ≤ largest.block) = true
  · have haccepts : (store.reconcileAll before).accepts largest = true := by
      rw [accepts_iff]
      refine ⟨hfits, fun first hmem => by simpa using (Option.all_eq_true _ _).mp hfirst first hmem, ?_⟩
      intro earlier hearlier
      exact (hbelow earlier (List.mem_append_left _ (sublist_acceptedCalls.subset hearlier))
        (lt_of_mem_acceptedCalls hearlier)).le
    have hlast : largest.block ∈ ((store.reconcileAll before).reconciled largest).reconciliation := rfl
    have hafter : ((store.reconcileAll before).reconciled largest).acceptedCalls after = [] :=
      acceptedCalls_of_below hlast
        fun call hcall hblock => hbelow call (List.mem_append_right _ hcall) hblock
    rw [acceptedCalls_append, acceptedCalls_cons, if_pos haccepts, hafter, if_pos hfirst]
    simp
  · obtain ⟨limit, hlimit, hlow⟩ : ∃ limit ∈ store.reconciliation, largest.block < limit := by
      by_contra hnone
      push Not at hnone
      exact hfirst ((Option.all_eq_true _ _).mpr fun limit hlimit => by simpa using hnone limit hlimit)
    have hnone : store.acceptedCalls (before ++ largest :: after) = [] := by
      refine acceptedCalls_of_below hlimit fun call hcall hblock => ?_
      rcases List.mem_append.mp hcall with hcall | hcall
      · exact (hbelow call (List.mem_append_left _ hcall) hblock).trans hlow
      · rcases List.mem_cons.mp hcall with rfl | hcall
        · exact hlow
        · exact (hbelow call (List.mem_append_right _ hcall) hblock).trans hlow
    rw [hnone, if_neg hfirst]
    rfl

/-- How the last accepted call decides: a row is scheduled unless that call retains it. -/
theorem isSome_deadline {retains : Reconciliation → Bool} {start : Option Nat} (accepted : List Reconciliation) :
    (deadline retains start accepted).isSome =
      match accepted.getLast? with
      | some last => !retains last
      | none => start.isSome := by
  rcases List.eq_nil_or_concat accepted with rfl | ⟨init, last, rfl⟩
  · rfl
  · rw [List.concat_eq_append, isSome_deadline_concat, List.getLast?_concat]

/-- The rows that are scheduled, of both kinds. -/
def scheduled (store : SecretStore) : (B256 ×ₗ Address → Bool) × (B256 → Bool) :=
  (fun key => (store.keygenSecrets.lookup key).any (·.deleteAtBlock.isSome),
    fun signatureId => (store.signingNonces.lookup signatureId).any (·.deleteAtBlock.isSome))

theorem scheduled_of_getLast? {others : List Reconciliation}
    (h : (store.acceptedCalls calls).getLast? = (store.acceptedCalls others).getLast?) :
    (store.reconcileAll calls).scheduled = (store.reconcileAll others).scheduled := by
  refine Prod.ext (funext fun key => ?_) (funext fun signatureId => ?_)
  · simp only [scheduled, run_keygenSecrets, Option.any_map, isSome_deadline, h]
  · simp only [scheduled, run_signingNonces, Option.any_map, isSome_deadline, h]

/-- What becomes of the deadline of a row in the accepted calls. -/
structure Follows (retains : Reconciliation → Bool) (start final : Option Nat)
    (accepted : List Reconciliation) : Prop where
  unchanged : accepted = [] → final = start
  /-- The last call decides. -/
  scheduled : ∀ last ∈ accepted.getLast?, (final.isSome = true ↔ retains last = false)
  /-- The earlier schedule if no call has retained the row, else the block of the first call after the
  last one that did, or of the first call of all for a row that was not scheduled. -/
  block : ∀ block ∈ final, (start = some block ∧ ∀ call ∈ accepted, retains call = false) ∨
    ∃ before call after, accepted = before ++ call :: after ∧ call.block = block ∧
      (∀ other ∈ call :: after, retains other = false) ∧
      ((before = [] ∧ start = none) ∨ ∃ last ∈ before.getLast?, retains last = true)

theorem follows_deadline {retains : Reconciliation → Bool} {start : Option Nat}
    (accepted : List Reconciliation) : Follows retains start (deadline retains start accepted) accepted where
  unchanged := by
    rintro rfl
    rfl
  scheduled := by
    intro last hlast
    rw [isSome_deadline, Option.mem_def.mp hlast]
    simp
  block := fun block hblock => deadline_eq_some hblock

/-- **Reconciliations behave like writes ordered by their block.**  Calls from block `2 ^ 63` on are errors
and change nothing. -/
theorem reconciliations_by_block (store : SecretStore) (calls : List Reconciliation) :
    (∀ before call after, calls = before ++ call :: after →
      (store.reconcileAll before).scheduleGroupSecretsDeletion call.block call.retained =
        if call.block < 2 ^ 63 then
          if (∀ first ∈ store.reconciliation, first ≤ call.block) ∧
              ∀ earlier ∈ store.acceptedCalls before, earlier.block ≤ call.block then
            .ok (store.reconcileAll (before ++ [call]), true)
          else .ok (store.reconcileAll before, false)
        else .error .overflow) ∧
    (∀ key, match store.keygenSecrets.lookup key with
      | some row => ∃ deleteAtBlock,
          (store.reconcileAll calls).keygenSecrets.lookup key = some { row with deleteAtBlock } ∧
          Follows (retainsKeygen · (ofLex key).1) row.deleteAtBlock deleteAtBlock (store.acceptedCalls calls)
      | none => (store.reconcileAll calls).keygenSecrets.lookup key = none) ∧
    (∀ signatureId, match store.signingNonces.lookup signatureId with
      | some row => ∃ deleteAtBlock,
          (store.reconcileAll calls).signingNonces.lookup signatureId = some { row with deleteAtBlock } ∧
          Follows (retainsNonces · row.groupId) row.deleteAtBlock deleteAtBlock (store.acceptedCalls calls)
      | none => (store.reconcileAll calls).signingNonces.lookup signatureId = none) ∧
    (∀ last ∈ (store.acceptedCalls calls).getLast?,
      (store.reconcileAll calls).scheduleGroupSecretsDeletion last.block last.retained =
        .ok (store.reconcileAll calls, true)) ∧
    (∀ others, calls.Perm others → (∃ largest, Largest largest calls) →
      (store.reconcileAll calls).scheduled = (store.reconcileAll others).scheduled) := by
  refine ⟨?_, ?_, ?_, fun last hlast => repeat_last hlast, ?_⟩
  · intro before call after _
    rw [scheduleGroupSecretsDeletion_eq]
    have hconcat : store.reconcileAll (before ++ [call]) = (store.reconcileAll before).reconcile call := by
      simp [reconcileAll, List.foldl_append]
    by_cases hblock : call.block < 2 ^ 63
    · have haccepts : (store.reconcileAll before).accepts call = true ↔
          (∀ first ∈ store.reconciliation, first ≤ call.block) ∧
            ∀ earlier ∈ store.acceptedCalls before, earlier.block ≤ call.block :=
        accepts_iff.trans (and_iff_right hblock)
      rw [if_pos hblock, if_pos hblock, hconcat, reconcile_eq]
      by_cases hcall : (store.reconcileAll before).accepts call = true
      · rw [if_pos hcall, if_pos hcall, if_pos (haccepts.mp hcall)]
      · rw [if_neg hcall, if_neg hcall, if_neg (fun h => hcall (haccepts.mpr h))]
    · rw [if_neg hblock, if_neg hblock]
  · intro key
    rw [run_keygenSecrets]
    cases store.keygenSecrets.lookup key with
    | none => rfl
    | some row => exact ⟨_, rfl, follows_deadline _⟩
  · intro signatureId
    rw [run_signingNonces]
    cases store.signingNonces.lookup signatureId with
    | none => rfl
    | some row => exact ⟨_, rfl, follows_deadline _⟩
  · rintro others hperm ⟨largest, hlargest⟩
    have hother : Largest largest others := by
      obtain ⟨rest, hrest, hbelow⟩ := hlargest
      exact ⟨rest, (hperm.symm.filter _).trans hrest, hbelow⟩
    refine scheduled_of_getLast? ?_
    rw [getLast?_of_largest hlargest, getLast?_of_largest hother]

/-- The first call of all is not accepted if its block does not fit. -/
theorem large_block_is_an_error :
    ¬ ∀ (store : SecretStore) (before : List Reconciliation) (call : Reconciliation),
      (∃ next, (store.reconcileAll before).scheduleGroupSecretsDeletion call.block call.retained =
        .ok (next, true)) ↔
      (∀ first ∈ store.reconciliation, first ≤ call.block) ∧
        ∀ earlier ∈ store.acceptedCalls before, earlier.block ≤ call.block := by
  intro hclaim
  obtain ⟨next, hnext⟩ := (hclaim .empty [] ⟨2 ^ 63, .empty⟩).mpr
    ⟨fun first hfirst => (by cases hfirst), fun earlier hearlier => absurd hearlier List.not_mem_nil⟩
  rw [show SecretStore.empty.reconcileAll [] = .empty from rfl, scheduleGroupSecretsDeletion_eq] at hnext
  cases hnext

end SecretStore

end Safenet.Validator
