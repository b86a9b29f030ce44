/-
The reads of the delayed parameters, and the bond configuration as it lies in its storage slot:
`contracts/src/libraries/DelayedUint96.sol`, `DelayedAddress.sol` and `BondConfig.sol`.

The oracle is modelled with both multipliers as one value (`BondConfig`).  Here they are the fields they
are in the source, read and written one by one.
-/
import Safenet.Contracts.SentinelOracleRequests

namespace Safenet.Contracts

open SentinelOracle (Error)

namespace Delayed

variable {α : Type} [Zero α]

/-- The value in force. -/
def current (self : Delayed α) (number : Nat) : α :=
  if self.pendingActiveAt ≠ 0 ∧ self.pendingActiveAt ≤ number then self.pendingValue else self.value

/-- The scheduled value and the block it becomes active at, whether it is due or not; zeros if there is
none. -/
def pending (self : Delayed α) : α × Nat :=
  if self.pendingActiveAt = 0 then (0, 0) else (self.pendingValue, self.pendingActiveAt)

end Delayed

namespace BondConfig

/-- The storage slot of `BondConfig.T`. -/
structure Slot where
  pendingActiveAt : BitVec 64
  bondMultiplier : BitVec 32
  slashingMultiplier : BitVec 32
  pendingBondMultiplier : BitVec 32
  pendingSlashingMultiplier : BitVec 32
deriving DecidableEq, Repr

namespace Slot

/-- A slot that was never written. -/
def zero : Slot := ⟨0, 0, 0, 0, 0⟩

def init (self : Slot) (initialBondMultiplier initialSlashingMultiplier : BitVec 32) :
    Except Error Slot := do
  check initialBondMultiplier.toNat initialSlashingMultiplier.toNat
  let self := { self with bondMultiplier := initialBondMultiplier }
  return { self with slashingMultiplier := initialSlashingMultiplier }

/-- Applies a change that is due; answers the multipliers in force. -/
def applyPending (self : Slot) (number : Nat) : Slot × BitVec 32 × BitVec 32 :=
  let config := self
  if config.pendingActiveAt = 0 ∨ number < config.pendingActiveAt.toNat then
    (self, config.bondMultiplier, config.slashingMultiplier)
  else
    let bondMultiplier := config.pendingBondMultiplier
    let slashingMultiplier := config.pendingSlashingMultiplier
    let self := { self with bondMultiplier }
    let self := { self with slashingMultiplier }
    let self := { self with pendingBondMultiplier := 0 }
    let self := { self with pendingSlashingMultiplier := 0 }
    ({ self with pendingActiveAt := 0 }, bondMultiplier, slashingMultiplier)

/-- Schedules a change; answers the block it becomes active at. -/
def schedule (self : Slot) (number : Nat)
    (newBondMultiplier newSlashingMultiplier governanceDelay : BitVec 32) :
    Except Error (Slot × BitVec 64) := do
  check newBondMultiplier.toNat newSlashingMultiplier.toNat
  let self := (self.applyPending number).1
  let wide ← checkedAdd 256 number governanceDelay.toNat Error.arithmetic
  let narrow ← toUint 64 wide .safeCast
  let activeAt := BitVec.ofNat 64 narrow
  let self := { self with pendingBondMultiplier := newBondMultiplier }
  let self := { self with pendingSlashingMultiplier := newSlashingMultiplier }
  return ({ self with pendingActiveAt := activeAt }, activeAt)

def currentMultiplier (self : Slot) (number : Nat) : BitVec 32 :=
  let config := self
  if config.pendingActiveAt ≠ 0 ∧ config.pendingActiveAt.toNat ≤ number then config.pendingBondMultiplier
  else config.bondMultiplier

def currentSlashingMultiplier (self : Slot) (number : Nat) : BitVec 32 :=
  let config := self
  if config.pendingActiveAt ≠ 0 ∧ config.pendingActiveAt.toNat ≤ number then
    config.pendingSlashingMultiplier
  else config.slashingMultiplier

/-- The scheduled multipliers and the block they become active at, whether they are due or not; zeros
if there are none. -/
def pending (self : Slot) : BitVec 32 × BitVec 32 × BitVec 64 :=
  let config := self
  if config.pendingActiveAt = 0 then (0, 0, 0)
  else (config.pendingBondMultiplier, config.pendingSlashingMultiplier, config.pendingActiveAt)

end Slot

end BondConfig

end Safenet.Contracts
