/-
The store of locally generated secrets, `validator/src/secrets/store.rs`, and the effect handler that is
the only one to use it, `validator/src/service/effect.rs`.

It is not rolled back with the state.  A key generation keeps the first secrets stored for it, and a
signing ceremony the first nonces; taking nonces clears them but keeps the row.  A block is stored as a
signed integer, so that one from `2 ^ 63` on is an error.

What the handler samples is an argument: the secrets and the nonces that the generators return.
-/
import Safenet.Validator.Transition
import Mathlib.Data.Prod.Lex

namespace Safenet.Validator

open Fallible (require)

/-- A row of `keygen_secrets`. -/
structure KeygenRow where
  secrets : Secrets
  deleteAtBlock : Option Nat
deriving DecidableEq

/-- A row of `signing_nonces`; the nonces are gone once they were taken. -/
structure NonceRow where
  groupId : B256
  address : Address
  nonces : Option SigningNonces
  deleteAtBlock : Option Nat
deriving DecidableEq

@[ext] structure SecretStore where
  /-- By group and address. -/
  keygenSecrets : Table (B256 ×ₗ Address) KeygenRow
  /-- By signature id. -/
  signingNonces : Table B256 NonceRow
  /-- The block of the last accepted reconciliation. -/
  reconciliation : Option Nat
deriving DecidableEq

/-- `secrets::store::Error`. -/
inductive StoreError where
  | overflow
deriving DecidableEq, Repr

/-- The secrets a collection removed. -/
structure Pruned where
  keygen : Nat
  signingNonces : Nat
deriving DecidableEq, Repr

/-- `i64::try_from`. -/
def storedBlock (block : Nat) : Except StoreError Nat := do
  require (block < 2 ^ 63) .overflow
  return block

/-- The public commitments of a nonce pair. -/
def SigningNonces.published (nonces : SigningNonces) : Contracts.Coordinator.SignNonces where
  d := nonces.commitments.hidingPoint
  e := nonces.commitments.bindingPoint

namespace SecretStore

def empty : SecretStore := ⟨.empty, .empty, none⟩

/-- Stores the secrets unless there are some, and returns those that are stored. -/
def storeKeygenSecrets (store : SecretStore) (group : B256) (me : Address) (secrets : Secrets) :
    SecretStore × Secrets :=
  let key := toLex (group, me)
  match store.keygenSecrets.lookup key with
  | some existing =>
      ({ store with
          keygenSecrets := store.keygenSecrets.insert key { existing with deleteAtBlock := none } },
        existing.secrets)
  | none => ({ store with keygenSecrets := store.keygenSecrets.insert key ⟨secrets, none⟩ }, secrets)

/-- Stores the nonces unless there is a row, and returns the commitments of those that are stored. -/
def storeSigningNonces (store : SecretStore) (group signatureId : B256) (me : Address)
    (nonces : SigningNonces) : SecretStore × Option Contracts.Coordinator.SignNonces :=
  match store.signingNonces.lookup signatureId with
  | some existing => (store, existing.nonces.map SigningNonces.published)
  | none =>
      ({ store with signingNonces := store.signingNonces.insert signatureId ⟨group, me, some nonces, none⟩ },
        some nonces.published)

/-- Takes the nonces, which clears them. -/
def takeSigningNonces (store : SecretStore) (signatureId : B256) : SecretStore × Option SigningNonces :=
  match store.signingNonces.lookup signatureId with
  | some row =>
      match row.nonces with
      | some nonces =>
          ({ store with
              signingNonces := store.signingNonces.insert signatureId { row with nonces := none } },
            some nonces)
      | none => (store, none)
  | none => (store, none)

/-- The block at which a row of the group is to be deleted; a row keeps the one it has. -/
def scheduleAbsentGroups (block : Nat) (retained : List B256) (groupId : B256)
    (deleteAtBlock : Option Nat) : Option Nat :=
  if retained = [] then deleteAtBlock.or (some block)
  else if groupId ∈ retained then none
  else deleteAtBlock.or (some block)

/-- Schedules the secrets of all groups that are not retained, unless a later block was accepted. -/
def scheduleGroupSecretsDeletion (store : SecretStore) (block : Nat)
    (retained : Table B256 RetainedSecrets) : Except StoreError (SecretStore × Bool) := do
  let block ← storedBlock block
  let keygen := (retained.rows.filter fun row => row.2 = .all).map Prod.fst
  let nonces := retained.rows.map Prod.fst
  if store.reconciliation.all (· ≤ block) then
    return ({ keygenSecrets := store.keygenSecrets.update fun key row =>
                { row with
                  deleteAtBlock := scheduleAbsentGroups block keygen (ofLex key).1 row.deleteAtBlock }
              signingNonces := store.signingNonces.update fun _ row =>
                { row with
                  deleteAtBlock := scheduleAbsentGroups block nonces row.groupId row.deleteAtBlock }
              reconciliation := some block }, true)
  else return (store, false)

/-- Deletes the rows that are due. -/
def pruneScheduledSecrets (store : SecretStore) (safe : Nat) : Except StoreError (SecretStore × Pruned) := do
  let safe ← storedBlock safe
  let keygenSecrets := store.keygenSecrets.filter fun _ row => !row.deleteAtBlock.any (· ≤ safe)
  let signingNonces := store.signingNonces.filter fun _ row => !row.deleteAtBlock.any (· ≤ safe)
  return ({ store with keygenSecrets, signingNonces },
    { keygen := store.keygenSecrets.rows.length - keygenSecrets.rows.length
      signingNonces := store.signingNonces.rows.length - signingNonces.rows.length })

end SecretStore

/-! ### The effect handler -/

/-- What the generators of one effect return: the secrets of a key generation, which can fail, or a nonce
pair. -/
structure Sampled where
  secrets : Except Error Secrets
  nonces : SigningNonces

/-- `Handler::perform_effect`: an effect that fails is answered like one without an answer. -/
def performEffect (account : Address) (sampled : Sampled) (store : SecretStore) :
    Effect → SecretStore × Resume
  | .keyGenSetup groupId _ _ =>
      match sampled.secrets with
      | .ok secrets =>
          let stored := store.storeKeygenSecrets groupId account secrets
          (stored.1, .setup groupId stored.2)
      | .error _ => (store, .noop)
  | .generateNonces groupId signatureId _ =>
      let stored := store.storeSigningNonces groupId signatureId account sampled.nonces
      match stored.2 with
      | some nonces => (stored.1, .nonceCommitments signatureId nonces)
      | none => (stored.1, .noop)
  | .useNonces message signatureId =>
      let taken := store.takeSigningNonces signatureId
      match taken.2 with
      | some nonces => (taken.1, .nonces message nonces)
      | none => (taken.1, .noop)
  | .reconcileGroupSecrets block groups =>
      match store.scheduleGroupSecretsDeletion block groups with
      | .ok scheduled => (scheduled.1, .noop)
      | .error _ => (store, .noop)

/-- `Handler::housekeeping`. -/
def housekeeping (safe : Nat) (store : SecretStore) : SecretStore :=
  match store.pruneScheduledSecrets safe with
  | .ok pruned => pruned.1
  | .error _ => store

end Safenet.Validator
