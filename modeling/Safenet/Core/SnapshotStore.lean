/-
The per-block state snapshots of `core/src/state/storage.rs`.

The store is one table keyed by block number.  Block numbers are stored as `i64`,
so a number from `2^63` on is refused before anything is written; a failed
statement leaves the table as it was.
-/
import Safenet.Lib.Fallible
import Safenet.Lib.Table
import Safenet.Core.Index

namespace Safenet.Core

open Fallible (require)

namespace SnapshotStore

/-- Why a snapshot operation failed. -/
inductive Error where
  /-- An arithmetic overflow in block number computations. -/
  | blockNumberOverflow
  /-- A rollback targeted a block with no snapshot. -/
  | missingSnapshot (block : Nat)
deriving DecidableEq, Repr

end SnapshotStore

/-- The `snapshots` table: `block_number INTEGER PRIMARY KEY, state TEXT`. -/
structure SnapshotStore (S : Type) where
  snapshots : Table Nat S

namespace SnapshotStore

variable {S : Type}

/-- A database without snapshots. -/
def empty : SnapshotStore S := ⟨Table.empty⟩

/-- `i64::try_from`. -/
def toI64 (n : Nat) : Except Error Nat :=
  if n < 2 ^ 63 then .ok n else .error .blockNumberOverflow

/-- The snapshot with the highest block number: the resume point on startup. -/
def current (store : SnapshotStore S) : Option (Nat × S) := store.snapshots.last?

/-- The bounds of the retained snapshots. -/
def status (store : SnapshotStore S) : Option BlockStatus :=
  match store.snapshots.first?, store.snapshots.last? with
  | some (safe, _), some (latest, _) => some { latest, safe }
  | _, _ => none

/-- Records `state` as the snapshot for `blockNumber`, replacing the one there. -/
def commit (store : SnapshotStore S) (blockNumber : Nat) (state : S) :
    Except Error (SnapshotStore S) := do
  let blockNumber ← toI64 blockNumber
  return ⟨store.snapshots.insert blockNumber state⟩

/--
Discards `uncle` and every snapshot above it and returns the parent block with its
state.  The deletion and the read are one transaction, so a missing parent leaves
the store unchanged.
-/
def reorg (store : SnapshotStore S) (uncle : Nat) :
    Except Error (SnapshotStore S × Nat × S) := do
  require (uncle ≠ 0) .blockNumberOverflow
  let parent := uncle - 1
  let uncle ← toI64 uncle
  let kept := store.snapshots.filter fun n _ => ¬ n ≥ uncle
  match kept.lookup parent with
  | none => throw (.missingSnapshot parent)
  | some state => return (⟨kept⟩, parent, state)

/-- Removes the snapshots below `safeBlock`, but never the latest one. -/
def prune (store : SnapshotStore S) (safeBlock : Nat) : Except Error (SnapshotStore S) := do
  let safeBlock ← toI64 safeBlock
  match store.snapshots.last? with
  | none => return store
  | some (latest, _) =>
      return ⟨store.snapshots.filter fun n _ => ¬ (n < safeBlock ∧ n < latest)⟩

end SnapshotStore

end Safenet.Core
