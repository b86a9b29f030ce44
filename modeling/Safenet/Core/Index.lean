/-
What the indexer hands to the rest of a service: block updates, pages of decoded
event logs, and the two bounds of the indexed range.

Block numbers, log indices and timestamps are `u64` in the source.  They are `Nat`
here, and every place where the source can overflow or narrows the width says so
explicitly.
-/
import Safenet.Basic

namespace Safenet.Core

/-- A header's 2048 bit log filter. -/
abbrev Bloom := BitVec 2048

/-- The block an event log was emitted in. -/
structure EventBlock where
  number : Nat
  timestamp : Nat
deriving DecidableEq, Repr

/-- A decoded event together with its position in the chain. -/
structure EventLog (Event : Type) where
  block : EventBlock
  index : Nat
  address : Address
  data : Event
deriving DecidableEq, Repr

/-- An inclusive range of blocks. -/
structure BlockRange where
  start : Nat
  last : Nat
deriving DecidableEq, Repr

namespace BlockRange

/-- `range.contains(&block)`. -/
def contains (range : BlockRange) (block : Nat) : Bool :=
  range.start ≤ block && block ≤ range.last

/-- The blocks of the range, in order; none when the range is empty. -/
def blocks (range : BlockRange) : List Nat := List.range' range.start (range.last + 1 - range.start)

end BlockRange

/-- A page of logs with the range of blocks it was fetched for. -/
structure EventUpdate (Event : Type) where
  blocks : BlockRange
  logs : List (EventLog Event)
deriving DecidableEq, Repr

/-- What the block watcher reports. -/
inductive BlockUpdate where
  /-- Skip ahead over a range that can no longer be reorged. -/
  | warp (first last : Nat)
  /-- The block was removed from the canonical chain. -/
  | uncle (number : Nat)
  /-- A new canonical block. -/
  | new (number : Nat) (hash : B256) (timestamp : Nat) (logsBloom : Bloom)
deriving DecidableEq, Repr

/-- An update produced by the indexer. -/
inductive Update (Event : Type) where
  | block (update : BlockUpdate)
  | logs (update : EventUpdate Event)
deriving DecidableEq, Repr

/-- The latest block and the highest block outside the reorg window. -/
structure BlockStatus where
  latest : Nat
  safe : Nat
deriving DecidableEq, Repr

end Safenet.Core
