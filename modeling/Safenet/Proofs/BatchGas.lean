/-
Batches are funded and maximal.

The gas of a batch is kept along with its calls, and never computed from the encoding.  `estimate` is the
documented formula, with the length of the encoding as it is; `gas_concat` says that one more call adds
to it what the bundle adds.  Each check of the executor then passes while the terms of the calls that are
still to be made are left (`check_passes`).
-/
import Safenet.Contracts.Safenet7702Executor
import Mathlib.Algebra.BigOperators.Group.List.Basic
import Mathlib.Order.Bounds.Basic

namespace Safenet.Core.Tx

open Fallible

/-! ### The formula -/

/-- What a call may cost when it is made. -/
def callTerm (transaction : Transaction) : Nat :=
  transaction.gas + divCeil transaction.gas 63 + 5000 + if transaction.value = 0 then 0 else 34000

/-- What a batch may cost. -/
def estimate (transactions : List Transaction) : Nat :=
  26000 + 16 * (executeCall (transactions.map Transaction.call)).length + (transactions.map callTerm).sum

theorem paddedData_length (data : Bytes) : (paddedData data).length = divCeil data.length 32 * 32 := by
  rw [paddedData, List.length_append, List.length_replicate]
  unfold divCeil
  omega

theorem call_encode_length (call : Call) :
    call.encode.length = 160 + divCeil call.data.length 32 * 32 := by
  rw [Call.encode, List.length_append, Bytes.flatMap_word_length, paddedData_length]
  rfl

theorem offsets_length (calls : List Call) : ∀ start : Nat, (offsets start calls).length = calls.length := by
  induction calls with
  | nil => exact fun _ => rfl
  | cons call calls ih => exact fun start => congrArg (· + 1) (ih _)

/-- The encoding is the selector, two words, and an offset with an encoding for each call. -/
theorem executeCall_length (calls : List Call) : (executeCall calls).length =
    68 + (calls.map fun call => 32 + call.encode.length).sum := by
  have hencoded : (calls.flatMap Call.encode).length + 32 * calls.length =
      (calls.map fun call => 32 + call.encode.length).sum := by
    induction calls with
    | nil => rfl
    | cons call calls ih =>
        rw [List.flatMap_cons, List.length_append, List.length_cons, List.map_cons, List.sum_cons, ← ih]
        omega
  simp only [executeCall, List.length_append, Bytes.flatMap_word_length, List.length_cons, List.length_nil,
    List.length_map, offsets_length, ← hencoded]
  omega

/-- What one more call adds. -/
def addedGas (transaction : Transaction) : Nat :=
  16 * (32 + transaction.call.encode.length) + callTerm transaction

theorem estimate_eq (transactions : List Transaction) :
    estimate transactions = batchGas + (transactions.map addedGas).sum := by
  have hsum : 16 * (transactions.map fun transaction => 32 + transaction.call.encode.length).sum +
      (transactions.map callTerm).sum = (transactions.map addedGas).sum := by
    induction transactions with
    | nil => rfl
    | cons transaction transactions ih =>
        simp only [List.map_cons, List.sum_cons, ← ih, addedGas]
        omega
  rw [estimate, executeCall_length, List.map_map, ← hsum]
  unfold batchGas calldataGasPerByte
  simp only [Function.comp_def]
  omega

/-- What the bundle adds, where nothing saturates. -/
theorem callGas_eq {transaction : Transaction} (h : addedGas transaction < 2 ^ 64) :
    callGas transaction = addedGas transaction := by
  have hencode := call_encode_length transaction.call
  unfold addedGas callTerm at h
  unfold callGas addedGas callTerm saturatingAdd saturatingMul calldataGasPerByte callOverheadGas callValueGas
  rw [hencode] at h ⊢
  change 16 * (32 + (160 + divCeil transaction.data.length 32 * 32)) + _ < _ at h
  show _ = 16 * (32 + (160 + divCeil transaction.data.length 32 * 32)) + _
  generalize divCeil transaction.data.length 32 * 32 = dataLen at h ⊢
  generalize divCeil transaction.gas 63 = reserve at h ⊢
  generalize (if transaction.value = 0 then 0 else 34000) = value at h ⊢
  dsimp only
  omega

/-! ### Pushing -/

/-- Pushes transactions one after the other; answers which ones were added. -/
def Bundler.pushAll (bundler : Bundler) : List Transaction → Bundler × List Bool
  | [] => (bundler, [])
  | transaction :: transactions =>
      let (bundler, added) := bundler.push transaction
      let (bundler, later) := bundler.pushAll transactions
      (bundler, added :: later)

/-- The batch of these transactions. -/
def batch (account : Address) (maxBatchGas : Nat) (authorization : Option Authorization)
    (taken : List Transaction) (full : Bool) : Bundler :=
  ⟨.batched account maxBatchGas (taken.map Transaction.call) (estimate taken) full, authorization⟩

variable {account : Address} {maxBatchGas : Nat} {authorization : Option Authorization}
  {taken : List Transaction}

theorem estimate_concat (transaction : Transaction) :
    estimate (taken ++ [transaction]) = estimate taken + addedGas transaction := by
  rw [estimate_eq, estimate_eq, List.map_append, List.sum_append, List.map_singleton, List.sum_singleton,
    Nat.add_assoc]

/-- A part of a sequence costs less. -/
theorem estimate_append_le (later : List Transaction) : estimate taken ≤ estimate (taken ++ later) := by
  rw [estimate_eq, estimate_eq, List.map_append, List.sum_append]
  omega

/-- A full batch refuses everything. -/
theorem pushAll_full (transactions : List Transaction) :
    (batch account maxBatchGas authorization taken true).pushAll transactions =
      (batch account maxBatchGas authorization taken true, List.replicate transactions.length false) := by
  induction transactions with
  | nil => rfl
  | cons transaction transactions ih =>
      have hpush : (batch account maxBatchGas authorization taken true).push transaction =
          (batch account maxBatchGas authorization taken true, false) := by
        unfold batch Bundler.push
        dsimp only
        rw [Bool.true_or, if_pos rfl]
      unfold Bundler.pushAll
      rw [hpush]
      dsimp only
      rw [ih]
      rfl

/-- A batch that is not full takes what does not exceed its limit, and its first transaction. -/
theorem push_batch {transaction : Transaction} (h : estimate (taken ++ [transaction]) < 2 ^ 64) :
    (batch account maxBatchGas authorization taken false).push transaction =
      if taken = [] ∨ estimate (taken ++ [transaction]) ≤ maxBatchGas then
        (batch account maxBatchGas authorization (taken ++ [transaction]) false, true)
      else (batch account maxBatchGas authorization taken true, false) := by
  have hconcat : estimate (taken ++ [transaction]) = _ := estimate_concat transaction
  have hgas : saturatingAdd (estimate taken) (callGas transaction) = estimate (taken ++ [transaction]) := by
    rw [callGas_eq (by omega), saturatingAdd]
    omega
  have hempty : (taken.map Transaction.call).isEmpty = true ↔ taken = [] := by
    rw [List.isEmpty_iff, List.map_eq_nil_iff]
  unfold batch Bundler.push
  dsimp only
  rw [hgas, Bool.false_or]
  by_cases htaken : taken = [] ∨ estimate (taken ++ [transaction]) ≤ maxBatchGas
  · have hfits : ¬((!(taken.map Transaction.call).isEmpty &&
        decide (maxBatchGas < estimate (taken ++ [transaction]))) = true) := by
      intro hfull
      obtain ⟨hne, hexceeds⟩ := Bool.and_eq_true_iff.mp hfull
      rcases htaken with hnil | hle
      · rw [hempty.mpr hnil] at hne
        cases hne
      · exact Nat.not_le.mpr (of_decide_eq_true hexceeds) hle
    rw [if_neg hfits, if_pos htaken, List.map_append]
    rfl
  · obtain ⟨hne, hexceeds⟩ := not_or.mp htaken
    have hfull : (!(taken.map Transaction.call).isEmpty &&
        decide (maxBatchGas < estimate (taken ++ [transaction]))) = true := by
      rw [decide_eq_true (Nat.lt_of_not_le hexceeds), Bool.and_true, Bool.not_eq_true', ← Bool.not_eq_true,
        hempty]
      exact hne
    rw [if_pos hfull, if_neg htaken]

/-- The lengths of the parts of a sequence that a batch may hold. -/
def Fits (maxBatchGas : Nat) (transactions : List Transaction) : Set Nat :=
  { k | 1 ≤ k ∧ k ≤ transactions.length ∧ (k = 1 ∨ estimate (transactions.take k) ≤ maxBatchGas) }

theorem take_mem_fits {transaction : Transaction} {later : List Transaction}
    (h : taken = [] ∨ estimate (taken ++ [transaction]) ≤ maxBatchGas) :
    (taken ++ [transaction]).length ∈ Fits maxBatchGas (taken ++ [transaction] ++ later) := by
  have hone : (taken ++ [transaction]).length = taken.length + 1 := List.length_append
  have hlength : (taken ++ [transaction] ++ later).length = (taken ++ [transaction]).length + later.length :=
    List.length_append
  refine ⟨by omega, by omega, ?_⟩
  rcases h with rfl | hle
  · exact .inl rfl
  · right
    rwa [List.take_left]

/-- Nothing longer fits once a transaction was refused. -/
theorem refused_isGreatest {transaction : Transaction} {later : List Transaction}
    (h : taken.length ∈ Fits maxBatchGas (taken ++ transaction :: later))
    (hexceeds : ¬estimate (taken ++ [transaction]) ≤ maxBatchGas) :
    IsGreatest (Fits maxBatchGas (taken ++ transaction :: later)) taken.length := by
  refine ⟨h, fun j hj => Nat.le_of_not_lt fun hlt => hexceeds ?_⟩
  obtain ⟨-, -, hone | hle⟩ := hj
  · exact absurd h.1 (by omega)
  · obtain ⟨d, rfl⟩ : ∃ d, j = taken.length + (d + 1) := ⟨j - taken.length - 1, by omega⟩
    rw [List.take_length_add_append, List.take_succ_cons] at hle
    have hassoc : taken ++ transaction :: later.take d = taken ++ [transaction] ++ later.take d := by
      rw [List.append_assoc, List.singleton_append]
    rw [hassoc] at hle
    exact (estimate_append_le _).trans hle

/-- What a batch holds after transactions were pushed: as many as it has room for. -/
theorem pushAll_batch (later : List Transaction) :
    ∀ {taken : List Transaction}, estimate (taken ++ later) < 2 ^ 64 →
      (taken ≠ [] → taken.length ∈ Fits maxBatchGas (taken ++ later)) → taken ++ later ≠ [] →
        ∃ k, IsGreatest (Fits maxBatchGas (taken ++ later)) k ∧ taken.length ≤ k ∧
          (batch account maxBatchGas authorization taken false).pushAll later =
            (batch account maxBatchGas authorization ((taken ++ later).take k)
                (decide (k < (taken ++ later).length)),
              List.replicate (k - taken.length) true ++
                List.replicate ((taken ++ later).length - k) false) := by
  induction later with
  | nil =>
      intro taken hsum hfits hne
      rw [List.append_nil] at hsum hfits hne ⊢
      refine ⟨taken.length, ⟨hfits hne, fun j hj => hj.2.1⟩, le_rfl, ?_⟩
      rw [List.take_length, Nat.sub_self, decide_eq_false (Nat.lt_irrefl _)]
      rfl
  | cons transaction later ih =>
      intro taken hsum hfits hne
      have hassoc : taken ++ transaction :: later = taken ++ [transaction] ++ later := by
        rw [List.append_assoc, List.singleton_append]
      have hnext : estimate (taken ++ [transaction]) < 2 ^ 64 := by
        rw [hassoc] at hsum
        exact (estimate_append_le later).trans_lt hsum
      unfold Bundler.pushAll
      rw [push_batch hnext]
      by_cases htaken : taken = [] ∨ estimate (taken ++ [transaction]) ≤ maxBatchGas
      · rw [if_pos htaken]
        obtain ⟨k, hgreatest, hle, hpush⟩ := ih (hassoc ▸ hsum) (fun _ => take_mem_fits htaken)
          (by simp)
        rw [List.length_append, List.length_singleton] at hle
        refine ⟨k, hassoc ▸ hgreatest, by omega, ?_⟩
        dsimp only
        rw [hpush, hassoc]
        have hadded : k - taken.length = k - (taken ++ [transaction]).length + 1 := by
          rw [List.length_append, List.length_singleton]
          omega
        rw [hadded, List.replicate_succ]
        rfl
      · rw [if_neg htaken]
        obtain ⟨htakenNe, hexceeds⟩ := not_or.mp htaken
        have hgreatest := refused_isGreatest (hfits htakenNe) hexceeds
        refine ⟨taken.length, hgreatest, le_rfl, ?_⟩
        dsimp only
        have hlength : (taken ++ transaction :: later).length - taken.length = later.length + 1 := by
          rw [List.length_append, List.length_cons]
          omega
        rw [pushAll_full, List.take_left, Nat.sub_self, hlength, decide_eq_true (by omega),
          List.replicate_succ]
        rfl

/-! ### Finishing -/

/-- What the authorization of a batch may cost. -/
def authorizationGas (authorization : Option Authorization) : Nat :=
  if authorization.isSome then 25000 else 0

theorem finish_batch {full : Bool} {nonce : Nat} (hne : taken ≠ [])
    (hsum : estimate taken + authorizationGas authorization < 2 ^ 64) :
    (batch account maxBatchGas authorization taken full).finish nonce =
      some { nonce
             transaction := ⟨account, 0, executeCall (taken.map Transaction.call),
               estimate taken + authorizationGas authorization⟩
             authorization
             maxFeePerGas := none
             maxPriorityFeePerGas := none } := by
  have hcalls : (taken.map Transaction.call).isEmpty = false := by
    rw [← Bool.not_eq_true, List.isEmpty_iff, List.map_eq_nil_iff]
    exact hne
  have hgas : (if authorization.isSome then saturatingAdd (estimate taken) perEmptyAccountCost
      else estimate taken) = estimate taken + authorizationGas authorization := by
    unfold authorizationGas at hsum ⊢
    generalize estimate taken = gas at hsum ⊢
    by_cases hsome : authorization.isSome = true
    · rw [if_pos hsome] at hsum
      rw [if_pos hsome, if_pos hsome]
      exact Nat.min_eq_left (Nat.le_pred_of_lt hsum)
    · rw [if_neg hsome, if_neg hsome, Nat.add_zero]
  unfold Bundler.finish Bundler.transaction batch
  dsimp only
  rw [hcalls, if_neg Bool.false_ne_true]
  show some _ = some _
  rw [← hgas]

/-! ### Making the calls -/

section Executor

open Contracts (checkedMul checkedSub)
open Contracts.Safenet7702Executor

/-- What is kept back of the gas leaves enough for a call. -/
theorem reserve_suffices {gas gasleft : Nat} (h : gas + divCeil gas 63 ≤ gasleft) :
    gas ≤ gasleft * 63 / 64 := by
  unfold divCeil at h
  omega

/-- **The check of a call passes while its term is left.** -/
theorem check_passes {index gasleft : Nat} {transaction : Transaction} (hgas : gasleft < 2 ^ 64)
    (h : callTerm transaction ≤ gasleft) : checkGas index gasleft transaction.call.gasLimit = .ok ⟨⟩ := by
  have hlimit : transaction.call.gasLimit.toNat ≤ transaction.gas := by
    show (BitVec.ofNat 256 transaction.gas).toNat ≤ _
    rw [BitVec.toNat_ofNat]
    exact Nat.mod_le _ _
  have hreserve : transaction.gas ≤ gasleft * 63 / 64 := by
    refine reserve_suffices (le_trans ?_ h)
    unfold callTerm
    omega
  refine bind_eq_ok.mpr ⟨_, (if_pos (by omega) : checkedMul 256 gasleft 63 _ = .ok _), ?_⟩
  exact require_eq_ok.mpr (decide_eq_true (hlimit.trans hreserve))

/-- The call that an effect makes. -/
def madeCall : Effect → Option Call
  | .called call => some call
  | .callFailed _ _ => none

/-- **With enough gas, every call is made.** -/
theorem executeFrom_ok {outcome : Nat → Outcome} (transactions : List Transaction) :
    ∀ {index gasleft : Nat}, gasleft < 2 ^ 64 → (transactions.map callTerm).sum ≤ gasleft →
      (∀ i transaction, transactions[i]? = some transaction →
        (outcome (index + i)).spent ≤ callTerm transaction) →
      ∃ effects, executeFrom outcome index gasleft (transactions.map Transaction.call) = .ok effects ∧
        effects.filterMap madeCall = transactions.map Transaction.call := by
  induction transactions with
  | nil => exact fun _ _ _ => ⟨[], rfl, rfl⟩
  | cons transaction transactions ih =>
      intro index gasleft hgas hsum hspent
      rw [List.map_cons, List.sum_cons] at hsum
      have hfirst : (outcome index).spent ≤ callTerm transaction := hspent 0 transaction rfl
      obtain ⟨effects, hrest, hmade⟩ := @ih (index + 1) (gasleft - (outcome index).spent) (by omega) (by omega)
        (fun i later hlater => by
          have := hspent (i + 1) later hlater
          rwa [Nat.add_comm i 1, ← Nat.add_assoc] at this)
      refine ⟨.called transaction.call ::
        (if (outcome index).success then [] else [.callFailed index (outcome index).result]) ++ effects, ?_, ?_⟩
      · refine bind_eq_ok.mpr ⟨⟨⟩, check_passes hgas (by omega), ?_⟩
        refine bind_eq_ok.mpr ⟨_, (if_pos (by omega) : checkedSub gasleft _ _ = .ok _), ?_⟩
        exact bind_eq_ok.mpr ⟨effects, hrest, rfl⟩
      · have hcall : madeCall (.called transaction.call) = some transaction.call := rfl
        rw [List.cons_append, List.filterMap_cons_some hcall, List.filterMap_append, hmade]
        cases (outcome index).success <;> rfl

/--
**Batches are maximal and funded.**

The bundle holds the longest part of what was pushed that its limit allows, and at least the first
transaction.  Its gas is that of the formula, and with it the executor makes every call, if none costs
more than its terms.
-/
theorem batches_are_funded :
    (∀ (account : Address) (maxBatchGas : Nat) (authorization : Option Authorization)
      (transactions : List Transaction),
      estimate transactions + authorizationGas authorization < 2 ^ 64 → transactions ≠ [] →
      let pushed := (Bundler.batched account maxBatchGas authorization).pushAll transactions
      ∃ k, IsGreatest (Fits maxBatchGas transactions) k ∧
        let taken := transactions.take k
        let calls := taken.map Transaction.call
        let gas := 26000 + 16 * (executeCall calls).length + (taken.map callTerm).sum
        pushed.2 = List.replicate k true ++ List.replicate (transactions.length - k) false ∧
        pushed.1 = ⟨.batched account maxBatchGas calls gas (decide (k < transactions.length)), authorization⟩ ∧
        ∀ nonce, ∃ sent, pushed.1.finish nonce = some sent ∧ sent.nonce = nonce ∧
          sent.authorization = authorization ∧
          sent.transaction = ⟨account, 0, executeCall calls, gas + authorizationGas authorization⟩ ∧
          ∀ (outcome : Nat → Outcome) (before : Nat),
            before ≤ 26000 + 16 * (executeCall calls).length + authorizationGas authorization →
            (∀ i transaction, taken[i]? = some transaction →
              (outcome i).spent ≤ callTerm transaction) →
              ∃ effects, execute account account outcome (sent.transaction.gas - before) calls = .ok effects ∧
                effects.filterMap madeCall = calls) ∧
    (∀ (transactions : List Transaction) (i gasleft : Nat) (transaction : Transaction),
      transactions[i]? = some transaction → gasleft < 2 ^ 64 →
        ((transactions.drop i).map callTerm).sum ≤ gasleft →
          checkGas i gasleft transaction.call.gasLimit = .ok ⟨⟩) := by
  constructor
  · intro account maxBatchGas authorization transactions hsum hne pushed
    have hlimit : estimate ([] ++ transactions) < 2 ^ 64 := (Nat.le_add_right _ _).trans_lt hsum
    obtain ⟨k, hgreatest, -, hpushed⟩ := @pushAll_batch account maxBatchGas authorization transactions []
      hlimit (fun h => absurd rfl h) hne
    refine ⟨k, hgreatest, congrArg Prod.snd hpushed, congrArg Prod.fst hpushed, ?_⟩
    intro nonce
    have htaken : transactions.take k ≠ [] := by
      have hk := hgreatest.1.1
      exact fun h => (List.take_eq_nil_iff.mp h).elim (by omega) hne
    have hle : estimate (transactions.take k) ≤ estimate transactions := by
      conv_rhs => rw [← List.take_append_drop k transactions]
      exact estimate_append_le _
    have hbatch : pushed.1 = batch account maxBatchGas authorization (transactions.take k)
        (decide (k < transactions.length)) := congrArg Prod.fst hpushed
    have hfinish := @finish_batch account maxBatchGas authorization _
      (decide (k < transactions.length)) nonce htaken ((Nat.add_le_add_right hle _).trans_lt hsum)
    rw [← hbatch] at hfinish
    refine ⟨_, hfinish, rfl, rfl, rfl, ?_⟩
    intro outcome before hbefore hspent
    have hleft : ((transactions.take k).map callTerm).sum ≤
        estimate (transactions.take k) + authorizationGas authorization - before := by
      unfold estimate
      omega
    obtain ⟨effects, heffects, hmade⟩ := @executeFrom_ok outcome (transactions.take k) 0 _ (by omega) hleft
      fun i transaction h => (Nat.zero_add i).symm ▸ hspent i transaction h
    exact ⟨effects, bind_eq_ok.mpr ⟨⟨⟩, require_eq_ok.mpr (decide_eq_true rfl), heffects⟩, hmade⟩
  · intro transactions i gasleft transaction hi hgas hsum
    obtain ⟨hlt, rfl⟩ := List.getElem?_eq_some_iff.mp hi
    rw [List.drop_eq_getElem_cons hlt, List.map_cons, List.sum_cons] at hsum
    exact check_passes hgas (by omega)

/-- With a limit of zero, each transaction is a batch. -/
theorem second_transaction_refused :
    ((Bundler.batched 7 0 none).pushAll [⟨1, 0, [0x5a], 50000⟩, ⟨2, 5, [], 1000⟩]).2 = [true, false] := by
  obtain ⟨k, hgreatest, hadded, -⟩ := batches_are_funded.1 7 0 none
    [⟨1, 0, [0x5a], 50000⟩, ⟨2, 5, [], 1000⟩] (by decide +kernel) nofun
  obtain ⟨-, -, rfl | hle⟩ := hgreatest.1
  · exact hadded
  · exact absurd hle (by unfold estimate; omega)

end Executor

end Safenet.Core.Tx
