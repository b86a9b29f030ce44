/-
Runs of the secret store: any calls, in any order and with any repetition.

A row of either table has a life: a store call inserts it, and only a collection removes it
(`Removes`).  In between a key generation answers with the secrets it was inserted with, and a signing
ceremony holds the pair it was inserted with until the pair is taken.  So a pair is held by one row, and
by none once it was taken (`Spent`).

A row is collected at the block of the first accepted reconciliation that did not retain it, if none
has retained it since (`Scheduled`).
-/
import Safenet.Proofs.Reconciliation
import Safenet.Lib.Trace

namespace Safenet.Validator

open Contracts.Coordinator (SignNonces)
open Trace

/-- The calls of `SecretStore`. -/
inductive StoreCall where
  | storeKeygenSecrets (group : B256) (me : Address) (secrets : Secrets)
  | storeSigningNonces (group signatureId : B256) (me : Address) (nonces : SigningNonces)
  | takeSigningNonces (signatureId : B256)
  | scheduleGroupSecretsDeletion (block : Nat) (retained : Table B256 RetainedSecrets)
  | pruneScheduledSecrets (safe : Nat)

/-- What they return. -/
inductive StoreAnswer where
  | secrets (secrets : Secrets)
  | commitments (nonces : Option SignNonces)
  | taken (nonces : Option SigningNonces)
  | scheduled (accepted : Bool)
  | pruned (pruned : Pruned)
  | failed (error : StoreError)
deriving DecidableEq

/-- The pair that was sampled for a call. -/
def StoreCall.sampled? : StoreCall → Option SigningNonces
  | .storeSigningNonces _ _ _ nonces => some nonces
  | _ => none

/-- The pair that a call has handed out. -/
def StoreAnswer.taken? : StoreAnswer → Option SigningNonces
  | .taken nonces => nonces
  | _ => none

namespace SecretStore

/-- A call; one that fails changes nothing. -/
def call (store : SecretStore) : StoreCall → SecretStore × StoreAnswer
  | .storeKeygenSecrets group me secrets =>
      let result := store.storeKeygenSecrets group me secrets
      (result.1, .secrets result.2)
  | .storeSigningNonces group signatureId me nonces =>
      let result := store.storeSigningNonces group signatureId me nonces
      (result.1, .commitments result.2)
  | .takeSigningNonces signatureId =>
      let result := store.takeSigningNonces signatureId
      (result.1, .taken result.2)
  | .scheduleGroupSecretsDeletion block retained =>
      match store.scheduleGroupSecretsDeletion block retained with
      | .ok result => (result.1, .scheduled result.2)
      | .error error => (store, .failed error)
  | .pruneScheduledSecrets safe =>
      match store.pruneScheduledSecrets safe with
      | .ok result => (result.1, .pruned result.2)
      | .error error => (store, .failed error)

/-- A call with what it returned. -/
abbrev Step := Trace.Step SecretStore StoreCall StoreAnswer

variable {store : SecretStore} {c : StoreCall}

/-! ### What the two calls on whole tables do -/

theorem call_schedule (store : SecretStore) (rec : Reconciliation) :
    store.call (.scheduleGroupSecretsDeletion rec.block rec.retained) =
      if rec.block < 2 ^ 63 then
        if store.accepts rec then (store.reconciled rec, .scheduled true) else (store, .scheduled false)
      else (store, .failed .overflow) := by
  simp only [call, scheduleGroupSecretsDeletion_eq]
  split_ifs <;> rfl

/-- The rows that are not due. -/
def collected (store : SecretStore) (safe : Nat) : SecretStore :=
  { store with
    keygenSecrets := store.keygenSecrets.filter fun _ row => !row.deleteAtBlock.any (· ≤ safe)
    signingNonces := store.signingNonces.filter fun _ row => !row.deleteAtBlock.any (· ≤ safe) }

theorem call_prune (store : SecretStore) (safe : Nat) :
    (store.call (.pruneScheduledSecrets safe)).1 = if safe < 2 ^ 63 then store.collected safe else store := by
  simp only [call, pruneScheduledSecrets, storedBlock, Fallible.require]
  by_cases hsafe : safe < 2 ^ 63
  · simp only [hsafe, decide_true, if_true]
    rfl
  · simp only [hsafe, decide_false, if_false]
    rfl

/-! ### The nonces of one signing ceremony -/

/-- What the row of a signature id holds: nothing without a row, no pair once it was taken. -/
def held (store : SecretStore) (signatureId : B256) : Option (Option SigningNonces) :=
  (store.signingNonces.lookup signatureId).map NonceRow.nonces

theorem storeSigningNonces_eq (group signatureId : B256) (me : Address) (nonces : SigningNonces) :
    (store.storeSigningNonces group signatureId me nonces).2 =
      ((store.held signatureId).getD (some nonces)).map SigningNonces.published := by
  unfold storeSigningNonces held
  split
  · next h => rw [h]; rfl
  · next h => rw [h]; rfl

theorem takeSigningNonces_eq (signatureId : B256) :
    (store.takeSigningNonces signatureId).2 = (store.held signatureId).join := by
  unfold takeSigningNonces held
  split
  · next row h =>
    rw [h]
    cases hnonces : row.nonces with
    | none => simp [hnonces]
    | some nonces => simp [hnonces]
  · next h => rw [h]; rfl

/-- What a call does to the row of a signature id. -/
inductive HeldMove (store : SecretStore) (c : StoreCall) (signatureId : B256) (after : SecretStore) : Prop
  | same (h : after.held signatureId = store.held signatureId)
      (hcall : c = .takeSigningNonces signatureId → (store.held signatureId).join = none)
  | inserted {group : B256} {me : Address} {nonces : SigningNonces}
      (hcall : c = .storeSigningNonces group signatureId me nonces) (hbefore : store.held signatureId = none)
      (hafter : after.held signatureId = some (some nonces))
  | taken {nonces : SigningNonces} (hcall : c = .takeSigningNonces signatureId)
      (hbefore : store.held signatureId = some (some nonces)) (hafter : after.held signatureId = some none)
  | pruned {safe : Nat} (hcall : c = .pruneScheduledSecrets safe)
      (hafter : after.held signatureId = none)

theorem held_call (store : SecretStore) (c : StoreCall) (signatureId : B256) :
    HeldMove store c signatureId (store.call c).1 := by
  cases c with
  | storeKeygenSecrets group me secrets =>
    refine .same ?_ (by simp)
    show (store.storeKeygenSecrets group me secrets).1.held signatureId = _
    unfold storeKeygenSecrets
    dsimp only
    split <;> rfl
  | storeSigningNonces group sid me nonces =>
    show HeldMove store _ signatureId (store.storeSigningNonces group sid me nonces).1
    unfold storeSigningNonces
    split
    · exact .same rfl (by simp)
    · next hrow =>
      by_cases hsid : signatureId = sid
      · subst hsid
        refine .inserted rfl (by rw [held, hrow]; rfl) ?_
        rw [held, Table.lookup_insert_self]
        rfl
      · refine .same ?_ (by simp)
        rw [held, Table.lookup_insert, if_neg hsid]
        rfl
  | takeSigningNonces sid =>
    have hsame : sid ≠ signatureId ∨ (store.held signatureId).join = none →
        (StoreCall.takeSigningNonces sid = .takeSigningNonces signatureId →
          (store.held signatureId).join = none) := by
      rintro (hne | hnone) hcall
      · cases hcall
        exact absurd rfl hne
      · exact hnone
    show HeldMove store _ signatureId (store.takeSigningNonces sid).1
    unfold takeSigningNonces
    split
    · next row hrow =>
      split
      · next nonces hnonces =>
        by_cases hsid : signatureId = sid
        · subst hsid
          have hheld : store.held signatureId = some (some nonces) := by
            rw [held, hrow, ← hnonces]
            rfl
          refine .taken rfl hheld ?_
          rw [held, Table.lookup_insert_self]
          rfl
        · refine .same ?_ (hsame (.inl fun h => hsid h.symm))
          rw [held, Table.lookup_insert, if_neg hsid]
          rfl
      · next hnonces =>
        refine .same rfl fun hcall => ?_
        cases hcall
        rw [held, hrow]
        simpa using hnonces
    · next hrow =>
      refine .same rfl fun hcall => ?_
      cases hcall
      rw [held, hrow]
      rfl
  | scheduleGroupSecretsDeletion block retained =>
    refine .same ?_ (by simp)
    rw [call_schedule store ⟨block, retained⟩]
    split_ifs
    · simp only [held, reconciled, Table.lookup_update, Option.map_map]
      rfl
    · rfl
    · rfl
  | pruneScheduledSecrets safe =>
    rw [call_prune]
    split_ifs
    · cases hrow : store.signingNonces.lookup signatureId with
      | none => exact .pruned rfl (by simp [held, collected, Table.lookup_filter, hrow])
      | some row =>
        by_cases hdue : row.deleteAtBlock.any (· ≤ safe) = true
        · exact .pruned rfl (by simp [held, collected, Table.lookup_filter, hrow, hdue])
        · refine .same ?_ (by simp)
          simp only [Bool.not_eq_true] at hdue
          simp [held, collected, Table.lookup_filter, hrow, hdue]
    · exact .same rfl (by simp)

/-! ### A pair is handed out once -/

/-- The pairs that were sampled in a run. -/
def sampledPairs (steps : List Step) : List SigningNonces := steps.filterMap fun x => x.input.sampled?

/-- The pairs that were handed out. -/
def takenPairs (steps : List Step) : List SigningNonces := steps.filterMap fun x => x.out.taken?

/-- Each stored pair was sampled for its row alone, and not handed out so far. -/
structure Spent (sampled taken : List SigningNonces) (store : SecretStore) : Prop where
  stored : ∀ signatureId nonces, store.held signatureId = some (some nonces) →
    nonces ∈ sampled ∧ nonces ∉ taken
  distinct : ∀ signatureId signatureId' nonces, store.held signatureId = some (some nonces) →
    store.held signatureId' = some (some nonces) → signatureId = signatureId'
  subset : ∀ nonces ∈ taken, nonces ∈ sampled
  nodup : taken.Nodup

namespace Spent

variable {sampled taken : List SigningNonces}

/-- Where a pair is held after a call. -/
theorem held_after {signatureId : B256} {nonces : SigningNonces}
    (h : (store.call c).1.held signatureId = some (some nonces)) :
    (store.held signatureId = some (some nonces) ∧ c ≠ .takeSigningNonces signatureId) ∨
      ∃ group me, c = .storeSigningNonces group signatureId me nonces := by
  cases held_call store c signatureId with
  | same hsame hcall =>
    rw [hsame] at h
    refine .inl ⟨h, fun htake => ?_⟩
    have hnone := hcall htake
    rw [h] at hnone
    cases hnone
  | inserted hcall hbefore hafter =>
    rw [hafter] at h
    cases h
    exact .inr ⟨_, _, hcall⟩
  | taken hcall hbefore hafter =>
    rw [hafter] at h
    cases h
  | pruned hcall hafter =>
    rw [hafter] at h
    cases h

/-- A pair is handed out by its row. -/
theorem held_of_taken {nonces : SigningNonces} (h : (store.call c).2.taken? = some nonces) :
    ∃ signatureId, c = .takeSigningNonces signatureId ∧ store.held signatureId = some (some nonces) := by
  cases c with
  | storeKeygenSecrets group me secrets => cases h
  | storeSigningNonces group signatureId me nonces => cases h
  | takeSigningNonces signatureId =>
    change (store.takeSigningNonces signatureId).2 = some nonces at h
    rw [takeSigningNonces_eq, Option.join_eq_some_iff] at h
    exact ⟨signatureId, rfl, h⟩
  | scheduleGroupSecretsDeletion block retained =>
    rw [call_schedule store ⟨block, retained⟩] at h
    split_ifs at h <;> cases h
  | pruneScheduledSecrets safe =>
    simp only [SecretStore.call] at h
    split at h <;> cases h

/-- **A call with a fresh pair keeps it so.** -/
theorem step (h : Spent sampled taken store) (hfresh : ∀ nonces, c.sampled? = some nonces → nonces ∉ sampled) :
    Spent (sampled ++ c.sampled?.toList) (taken ++ (store.call c).2.taken?.toList) (store.call c).1 where
  stored := by
    intro signatureId nonces hheld
    simp only [List.mem_append, Option.mem_toList]
    rcases held_after hheld with ⟨hbefore, htake⟩ | ⟨group, me, rfl⟩
    · obtain ⟨hsampled, htaken⟩ := h.stored signatureId nonces hbefore
      refine ⟨.inl hsampled, ?_⟩
      rintro (hmem | hmem)
      · exact htaken hmem
      · -- no other row holds the pair
        obtain ⟨signatureId', rfl, hheld'⟩ := held_of_taken hmem
        rw [h.distinct signatureId signatureId' nonces hbefore hheld'] at htake
        exact htake rfl
    · refine ⟨.inr rfl, ?_⟩
      rintro (hmem | hmem)
      · exact hfresh nonces rfl (h.subset nonces hmem)
      · cases hmem
  distinct := by
    intro signatureId signatureId' nonces hheld hheld'
    rcases held_after hheld with ⟨hbefore, -⟩ | ⟨group, me, rfl⟩
    · rcases held_after hheld' with ⟨hbefore', -⟩ | ⟨group, me, rfl⟩
      · exact h.distinct signatureId signatureId' nonces hbefore hbefore'
      · exact absurd (h.stored signatureId nonces hbefore).1 (hfresh nonces rfl)
    · rcases held_after hheld' with ⟨hbefore', -⟩ | ⟨group', me', hcall⟩
      · exact absurd (h.stored signatureId' nonces hbefore').1 (hfresh nonces rfl)
      · cases hcall
        rfl
  subset := by
    intro nonces hmem
    simp only [List.mem_append, Option.mem_toList] at hmem ⊢
    rcases hmem with hmem | hmem
    · exact .inl (h.subset nonces hmem)
    · obtain ⟨signatureId, -, hheld⟩ := held_of_taken hmem
      exact .inl (h.stored signatureId nonces hheld).1
  nodup := by
    cases htaken : (store.call c).2.taken? with
    | none => simpa using h.nodup
    | some nonces =>
      obtain ⟨signatureId, -, hheld⟩ := held_of_taken htaken
      show (taken ++ [nonces]).Nodup
      rw [← List.concat_eq_append]
      exact List.Nodup.concat (h.stored signatureId nonces hheld).2 h.nodup

end Spent

theorem sampledPairs_concat (steps : List Step) (x : Step) :
    sampledPairs (steps ++ [x]) = sampledPairs steps ++ x.input.sampled?.toList := by
  rw [sampledPairs, List.filterMap_append]
  cases hx : x.input.sampled? <;> simp [hx, sampledPairs]

theorem takenPairs_concat (steps : List Step) (x : Step) :
    takenPairs (steps ++ [x]) = takenPairs steps ++ x.out.taken?.toList := by
  rw [takenPairs, List.filterMap_append]
  cases hx : x.out.taken? <;> simp [hx, takenPairs]

/-- **No pair is handed out twice in a run that samples none twice.** -/
theorem nodup_takenPairs {calls : List StoreCall} (h : (sampledPairs (trace call .empty calls)).Nodup) :
    (takenPairs (trace call .empty calls)).Nodup := by
  have hrun : (sampledPairs (trace call .empty calls)).Nodup →
      Spent (sampledPairs (trace call .empty calls)) (takenPairs (trace call .empty calls))
        (final call .empty calls) := by
    refine history_invariant (I := fun steps store => (sampledPairs steps).Nodup →
      Spent (sampledPairs steps) (takenPairs steps) store) (E := fun _ => True) ?_ ?_ calls
      fun _ _ => trivial
    · intro _
      exact ⟨nofun, nofun, nofun, List.nodup_nil⟩
    · intro steps store c ih _ hnodup
      rw [sampledPairs_concat] at hnodup ⊢
      rw [takenPairs_concat]
      obtain ⟨hbefore, -, hdisjoint⟩ := List.nodup_append.mp hnodup
      refine (ih hbefore).step fun nonces hsampled hmem => ?_
      exact hdisjoint nonces hmem nonces (Option.mem_toList.mpr hsampled) rfl
  exact (hrun h).nodup

/-! ### The life of a row -/

/-- A step after which the row of a signature id is gone. -/
def RemovesNonces (signatureId : B256) (x : Step) : Prop :=
  (x.pre.held signatureId).isSome ∧ x.post.held signatureId = none

/-- Only a collection removes a row. -/
theorem prune_of_removesNonces {signatureId : B256} (h : RemovesNonces signatureId (take call store c)) :
    ∃ safe, c = .pruneScheduledSecrets safe := by
  obtain ⟨hbefore, hafter⟩ := h
  change (store.held signatureId).isSome = true at hbefore
  change (store.call c).1.held signatureId = none at hafter
  cases held_call store c signatureId with
  | same hsame hcall => rw [← hsame, hafter] at hbefore; cases hbefore
  | inserted hcall hnone hsome => rw [hnone] at hbefore; cases hbefore
  | taken hcall hsome hnone => rw [hafter] at hnone; cases hnone
  | pruned hcall hnone => exact ⟨_, hcall⟩

/-- The row has this pair, or its pair was taken. -/
def Holds (signatureId : B256) (nonces : SigningNonces) (store : SecretStore) : Prop :=
  store.held signatureId = some (some nonces) ∨ store.held signatureId = some none

theorem holds_call {signatureId : B256} {nonces : SigningNonces} (h : Holds signatureId nonces store)
    (hrow : ¬RemovesNonces signatureId (take call store c)) :
    Holds signatureId nonces (store.call c).1 := by
  cases held_call store c signatureId with
  | same hsame hcall => rwa [Holds, hsame]
  | inserted hcall hbefore hafter =>
    rcases h with h | h <;> rw [hbefore] at h <;> cases h
  | taken hcall hbefore hafter => exact .inr hafter
  | pruned hcall hafter =>
    refine absurd ⟨?_, hafter⟩ hrow
    rcases h with h | h <;> exact Option.isSome_of_eq_some h

theorem spent_call {signatureId : B256} (h : store.held signatureId = some none)
    (hrow : ¬RemovesNonces signatureId (take call store c)) :
    (store.call c).1.held signatureId = some none := by
  cases held_call store c signatureId with
  | same hsame hcall => rwa [hsame]
  | inserted hcall hbefore hafter => rw [hbefore] at h; cases h
  | taken hcall hbefore hafter => exact hafter
  | pruned hcall hafter => exact absurd ⟨Option.isSome_of_eq_some h, hafter⟩ hrow

/-- A new row has the sampled pair and answers with it. -/
theorem call_inserted {group signatureId : B256} {me : Address} {nonces : SigningNonces}
    (h : store.held signatureId = none) :
    (store.call (.storeSigningNonces group signatureId me nonces)).2 = .commitments (some nonces.published) ∧
      Holds signatureId nonces (store.call (.storeSigningNonces group signatureId me nonces)).1 := by
  constructor
  · show StoreAnswer.commitments (store.storeSigningNonces group signatureId me nonces).2 = _
    rw [storeSigningNonces_eq, h]
    rfl
  · left
    have hrow : store.signingNonces.lookup signatureId = none := Option.map_eq_none_iff.mp h
    simp only [call, storeSigningNonces, hrow, held, Table.lookup_insert_self]
    rfl

/-- What a row with a pair answers. -/
theorem call_of_holds {signatureId : B256} {nonces : SigningNonces} (h : Holds signatureId nonces store) :
    (∀ group me sampled,
      (store.call (.storeSigningNonces group signatureId me sampled)).2 =
          .commitments (some nonces.published) ∨
        (store.call (.storeSigningNonces group signatureId me sampled)).2 = .commitments none) ∧
      ((store.call (.takeSigningNonces signatureId)).2 = .taken (some nonces) ∨
        (store.call (.takeSigningNonces signatureId)).2 = .taken none) := by
  constructor
  · intro group me sampled
    simp only [call, storeSigningNonces_eq]
    rcases h with h | h
    · left
      rw [h]
      rfl
    · right
      rw [h]
      rfl
  · simp only [call, takeSigningNonces_eq]
    rcases h with h | h
    · left
      rw [h]
      rfl
    · right
      rw [h]
      rfl

/-- A row whose pair was taken has none left. -/
theorem spent_of_taken {signatureId : B256} {nonces : SigningNonces}
    (h : (store.call (.takeSigningNonces signatureId)).2 = .taken (some nonces)) :
    (store.call (.takeSigningNonces signatureId)).1.held signatureId = some none := by
  have hjoin : (store.held signatureId).join = some nonces := by
    rw [← takeSigningNonces_eq]
    exact StoreAnswer.taken.inj h
  cases held_call store (.takeSigningNonces signatureId) signatureId with
  | same hsame hcall =>
    rw [hcall rfl] at hjoin
    cases hjoin
  | inserted hcall hbefore hafter => cases hcall
  | taken hcall hbefore hafter => exact hafter
  | pruned hcall hafter => cases hcall

/-- It answers a store call with nothing. -/
theorem call_of_spent {group signatureId : B256} {me : Address} {sampled : SigningNonces}
    (h : store.held signatureId = some none) :
    (store.call (.storeSigningNonces group signatureId me sampled)).2 = .commitments none := by
  simp only [call, storeSigningNonces_eq, h]
  rfl

/-! ### The secrets of one key generation -/

/-- What a call does to the row of a group and an address. -/
inductive KeygenMove (store : SecretStore) (c : StoreCall) (key : B256 ×ₗ Address) (after : SecretStore) : Prop
  | same (h : after.keygenSecrets.lookup key = store.keygenSecrets.lookup key)
      (hstores : ∀ secrets, c ≠ .storeKeygenSecrets (ofLex key).1 (ofLex key).2 secrets)
      (haccepts : (store.call c).2 ≠ .scheduled true)
  | stored {secrets : Secrets} (hcall : c = .storeKeygenSecrets (ofLex key).1 (ofLex key).2 secrets)
      (hafter : after.keygenSecrets.lookup key =
        some ⟨((store.keygenSecrets.lookup key).map KeygenRow.secrets).getD secrets, none⟩)
      (hanswer : (store.call c).2 =
        .secrets (((store.keygenSecrets.lookup key).map KeygenRow.secrets).getD secrets))
  | reconciled {rec : Reconciliation}
      (hcall : c = .scheduleGroupSecretsDeletion rec.block rec.retained)
      (hanswer : (store.call c).2 = .scheduled true)
      (hafter : after.keygenSecrets.lookup key = (store.keygenSecrets.lookup key).map fun row =>
        { row with
          deleteAtBlock := rec.reschedule (Reconciliation.retainsKeygen · (ofLex key).1) row.deleteAtBlock })
  | pruned {safe : Nat} (hcall : c = .pruneScheduledSecrets safe)
      (hafter : after.keygenSecrets.lookup key =
        (store.keygenSecrets.lookup key).filter fun row => !row.deleteAtBlock.any (· ≤ safe))

theorem keygen_call (store : SecretStore) (c : StoreCall) (key : B256 ×ₗ Address) :
    KeygenMove store c key (store.call c).1 := by
  cases c with
  | storeKeygenSecrets group me secrets =>
    by_cases hkey : key = toLex (group, me)
    · subst hkey
      refine .stored rfl ?_ ?_
      · simp only [call, storeKeygenSecrets]
        cases hrow : store.keygenSecrets.lookup (toLex (group, me)) <;> simp
      · simp only [call, storeKeygenSecrets]
        cases hrow : store.keygenSecrets.lookup (toLex (group, me)) <;> simp
    · refine .same ?_ ?_ nofun
      · simp only [call, storeKeygenSecrets]
        cases hrow : store.keygenSecrets.lookup (toLex (group, me)) <;>
          simp [Table.lookup_insert, hkey]
      · intro other hcall
        cases hcall
        exact hkey rfl
  | storeSigningNonces group signatureId me nonces =>
    refine .same ?_ nofun nofun
    simp only [call, storeSigningNonces]
    split <;> rfl
  | takeSigningNonces signatureId =>
    refine .same ?_ nofun nofun
    simp only [call, takeSigningNonces]
    split
    · split <;> rfl
    · rfl
  | scheduleGroupSecretsDeletion block retained =>
    obtain ⟨rec, rfl, rfl⟩ : ∃ rec : Reconciliation, block = rec.block ∧ retained = rec.retained :=
      ⟨⟨block, retained⟩, rfl, rfl⟩
    have hcall := call_schedule store rec
    split_ifs at hcall
    · refine .reconciled rfl (by rw [hcall]) ?_
      rw [hcall]
      exact Table.lookup_update _ _ _
    · exact .same (by rw [hcall]) nofun (by rw [hcall]; nofun)
    · exact .same (by rw [hcall]) nofun (by rw [hcall]; nofun)
  | pruneScheduledSecrets safe =>
    have hanswer : (store.call (.pruneScheduledSecrets safe)).2 ≠ .scheduled true := by
      simp only [call]
      split <;> nofun
    have hcall := call_prune store safe
    split_ifs at hcall
    · refine .pruned rfl ?_
      rw [hcall]
      exact Table.lookup_filter _ _ _
    · exact .same (by rw [hcall]) nofun hanswer

/-- A step after which the row of a group and an address is gone. -/
def RemovesSecrets (key : B256 ×ₗ Address) (x : Step) : Prop :=
  (x.pre.keygenSecrets.lookup key).isSome ∧ x.post.keygenSecrets.lookup key = none

/-- The row has these secrets. -/
def HasSecrets (key : B256 ×ₗ Address) (secrets : Secrets) (store : SecretStore) : Prop :=
  (store.keygenSecrets.lookup key).map KeygenRow.secrets = some secrets

/-- A row keeps its secrets until it is removed. -/
theorem hasSecrets_call {key : B256 ×ₗ Address} {secrets : Secrets} (h : HasSecrets key secrets store)
    (hrow : ¬RemovesSecrets key (take call store c)) : HasSecrets key secrets (store.call c).1 := by
  cases keygen_call store c key with
  | same hsame hstores haccepts => rwa [HasSecrets, hsame]
  | stored hcall hafter hanswer =>
    rw [HasSecrets] at h
    rw [HasSecrets, hafter, h]
    rfl
  | reconciled hcall hanswer hafter =>
    rw [HasSecrets, hafter, Option.map_map]
    exact h
  | pruned hcall hafter =>
    obtain ⟨row, hlookup, rfl⟩ := Option.map_eq_some_iff.mp h
    rw [hlookup, Option.filter_some] at hafter
    split_ifs at hafter with hdue
    · rw [HasSecrets, hafter]
      rfl
    · exact absurd ⟨Option.isSome_of_eq_some hlookup, hafter⟩ hrow

/-- A store call leaves the secrets that it answers. -/
theorem hasSecrets_of_stored {group : B256} {me : Address} {sampled secrets : Secrets}
    (h : (store.call (.storeKeygenSecrets group me sampled)).2 = .secrets secrets) :
    HasSecrets (toLex (group, me)) secrets (store.call (.storeKeygenSecrets group me sampled)).1 := by
  cases keygen_call store (.storeKeygenSecrets group me sampled) (toLex (group, me)) with
  | same hsame hstores haccepts => exact absurd rfl (hstores sampled)
  | stored hcall hafter hanswer =>
    rw [hanswer] at h
    cases h
    rw [HasSecrets, hafter]
    rfl
  | reconciled hcall hanswer hafter => cases hcall
  | pruned hcall hafter => cases hcall

/-- A store call answers the secrets that are there. -/
theorem stored_of_hasSecrets {group : B256} {me : Address} {sampled secrets : Secrets}
    (h : HasSecrets (toLex (group, me)) secrets store) :
    (store.call (.storeKeygenSecrets group me sampled)).2 = .secrets secrets := by
  cases keygen_call store (.storeKeygenSecrets group me sampled) (toLex (group, me)) with
  | same hsame hstores haccepts => exact absurd rfl (hstores sampled)
  | stored hcall hafter hanswer =>
    cases hcall
    rw [hanswer, h]
    rfl
  | reconciled hcall hanswer hafter => cases hcall
  | pruned hcall hafter => cases hcall

/-! ### When a row is collected -/

/-- The step stores the row, or is an accepted reconciliation that retains it. -/
def Keeps (key : B256 ×ₗ Address) (x : Step) : Prop :=
  (∃ secrets, x.input = .storeKeygenSecrets (ofLex key).1 (ofLex key).2 secrets) ∨
    ∃ rec : Reconciliation, x.input = .scheduleGroupSecretsDeletion rec.block rec.retained ∧
      x.out = .scheduled true ∧ rec.retainsKeygen (ofLex key).1 = true

/-- The step is an accepted reconciliation of the block that does not retain the row. -/
def Drops (key : B256 ×ₗ Address) (block : Nat) (x : Step) : Prop :=
  ∃ rec : Reconciliation, x.input = .scheduleGroupSecretsDeletion rec.block rec.retained ∧
    x.out = .scheduled true ∧ rec.retainsKeygen (ofLex key).1 = false ∧ rec.block = block

/-- The row was kept, and there was no accepted reconciliation after that. -/
def Kept (key : B256 ×ₗ Address) (steps : List Step) : Prop :=
  Since (Keeps key) (fun x => x.out ≠ .scheduled true) steps

/-- The row was kept until a reconciliation of the block dropped it, and not again since. -/
def Dropped (key : B256 ×ₗ Address) (block : Nat) (steps : List Step) : Prop :=
  ∃ before x after, steps = before ++ x :: after ∧ Kept key before ∧ Drops key block x ∧
    ∀ y ∈ after, ¬Keeps key y

/-- What the deadline of a row says about the run so far. -/
def Scheduled (key : B256 ×ₗ Address) (steps : List Step) : Option Nat → Prop
  | none => Kept key steps
  | some block => Dropped key block steps

theorem Dropped.concat {key : B256 ×ₗ Address} {block : Nat} {steps : List Step} {x : Step}
    (h : Dropped key block steps) (hx : ¬Keeps key x) : Dropped key block (steps ++ [x]) := by
  obtain ⟨before, y, after, rfl, hbefore, hy, hafter⟩ := h
  refine ⟨before, y, after ++ [x], by simp, hbefore, hy, fun z hz => ?_⟩
  rcases List.mem_append.mp hz with hz | hz
  · exact hafter z hz
  · rwa [List.mem_singleton.mp hz]

theorem Scheduled.concat {key : B256 ×ₗ Address} {steps : List Step} {x : Step} {deadline : Option Nat}
    (h : Scheduled key steps deadline) (hkeeps : ¬Keeps key x) (haccepts : x.out ≠ .scheduled true) :
    Scheduled key (steps ++ [x]) deadline := by
  cases deadline with
  | none => exact Since.concat h haccepts
  | some block => exact Dropped.concat h hkeeps

/-- **After every call the deadline of a row says what has become of it.** -/
theorem scheduled_call {key : B256 ×ₗ Address} {steps : List Step}
    (h : ∀ row, store.keygenSecrets.lookup key = some row → Scheduled key steps row.deleteAtBlock)
    {row : KeygenRow} (hrow : (store.call c).1.keygenSecrets.lookup key = some row) :
    Scheduled key (steps ++ [take call store c]) row.deleteAtBlock := by
  cases keygen_call store c key with
  | same hsame hstores haccepts =>
    rw [hsame] at hrow
    refine (h row hrow).concat ?_ haccepts
    rintro (⟨secrets, hcall⟩ | ⟨rec, -, hanswer, -⟩)
    · exact hstores secrets hcall
    · exact haccepts hanswer
  | stored hcall hafter hanswer =>
    rw [hafter] at hrow
    cases hrow
    exact since_last steps (.inl ⟨_, hcall⟩)
  | reconciled hcall hanswer hafter =>
    rw [hafter] at hrow
    obtain ⟨before, hbefore, rfl⟩ := Option.map_eq_some_iff.mp hrow
    have hscheduled := h before hbefore
    rename_i rec
    simp only [Reconciliation.reschedule]
    split
    · next hretains => exact since_last steps (.inr ⟨rec, hcall, hanswer, hretains⟩)
    · next hretains =>
      have hretains : rec.retainsKeygen (ofLex key).1 = false := eq_false_of_ne_true hretains
      cases hdeadline : before.deleteAtBlock with
      | none =>
        rw [hdeadline] at hscheduled
        exact ⟨steps, _, [], rfl, hscheduled, ⟨rec, hcall, hanswer, hretains, rfl⟩, by simp⟩
      | some block =>
        rw [hdeadline] at hscheduled
        refine Dropped.concat hscheduled ?_
        rintro (⟨secrets, hstore⟩ | ⟨other, hother, -, hkeeps⟩)
        · rw [take_input, hcall] at hstore
          cases hstore
        · rw [take_input, hcall] at hother
          simp only [StoreCall.scheduleGroupSecretsDeletion.injEq] at hother
          rw [Reconciliation.retainsKeygen, ← hother.2] at hkeeps
          exact Bool.false_ne_true (hretains.symm.trans hkeeps)
  | pruned hcall hafter =>
    rw [hafter] at hrow
    obtain ⟨hbefore, -⟩ := Option.filter_eq_some_iff.mp hrow
    refine (h row hbefore).concat ?_ ?_
    · rintro (⟨secrets, hstore⟩ | ⟨rec, hschedule, -⟩)
      · rw [take_input, hcall] at hstore
        cases hstore
      · rw [take_input, hcall] at hschedule
        cases hschedule
    · rw [hcall]
      show (store.call (.pruneScheduledSecrets _)).2 ≠ _
      simp only [call]
      split <;> simp

/-- **A row is removed once the block at which it was dropped is safe.** -/
theorem dropped_of_removesSecrets {key : B256 ×ₗ Address} {calls : List StoreCall}
    {before after : List Step} {x : Step} (h : trace call .empty calls = before ++ x :: after)
    (hrow : RemovesSecrets key x) :
    ∃ safe block, x.input = .pruneScheduledSecrets safe ∧ block ≤ safe ∧ Dropped key block before := by
  have hempty : ∀ row, SecretStore.empty.keygenSecrets.lookup key = some row →
      Scheduled key [] row.deleteAtBlock := by
    intro row hlookup
    cases hlookup
  have hinvariant := split_invariant
    (I := fun steps store => ∀ row, store.keygenSecrets.lookup key = some row →
      Scheduled key steps row.deleteAtBlock) (E := fun _ => True)
    hempty (fun steps store c ih _ row hrow => scheduled_call ih hrow)
    (fun _ _ => trivial) h
  obtain ⟨hscheduled, hx⟩ := hinvariant
  obtain ⟨hbefore, hafter⟩ := hrow
  obtain ⟨row, hlookup⟩ := Option.isSome_iff_exists.mp hbefore
  have hnext := hscheduled row hlookup
  rw [hx] at hafter
  change (x.pre.call x.input).1.keygenSecrets.lookup key = none at hafter
  cases keygen_call x.pre x.input key with
  | same hsame hstores haccepts =>
    rw [hsame, hlookup] at hafter
    cases hafter
  | stored hcall hstored hanswer =>
    rw [hafter] at hstored
    cases hstored
  | reconciled hcall hanswer hreconciled =>
    rw [hreconciled, hlookup] at hafter
    cases hafter
  | pruned hcall hpruned =>
    rw [hpruned, hlookup, Option.filter_some] at hafter
    split_ifs at hafter with hdue
    simp only [Bool.not_eq_true', Bool.not_eq_false, Option.any_eq_true, decide_eq_true_eq] at hdue
    obtain ⟨block, hblock, hsafe⟩ := hdue
    rw [hblock] at hnext
    exact ⟨_, block, hcall, hsafe, hnext⟩

end SecretStore

end Safenet.Validator
