/-
Memory with a journal of the writes to it.

The memory is what the journal makes of the memory it began with.  Where all that is written between two
points lies in a region (`Confined`), what is outside of it reads the same at both (`Confined.read`).
-/
import Safenet.Lib.Memory

/-- The memory a computation began with, and what it wrote since, the last write first. -/
structure Journal where
  initial : Memory
  writes : List (Nat × Bytes)

namespace Journal

/-- Nothing is written yet. -/
def start (memory : Memory) : Journal := ⟨memory, []⟩

/-- The memory now. -/
def memory (journal : Journal) : Memory :=
  journal.writes.foldr (fun write memory => memory.write write.1 write.2) journal.initial

/-- Overwrites the bytes at an address. -/
def write (journal : Journal) (address : Nat) (bytes : Bytes) : Journal :=
  { journal with writes := (address, bytes) :: journal.writes }

/-- Writes a word. -/
def mstore (journal : Journal) (address : Nat) (word : BitVec 256) : Journal :=
  journal.write address (Bytes.word word)

/-- Writes the low byte of a number. -/
def mstore8 (journal : Journal) (address value : Nat) : Journal :=
  journal.write address [BitVec.ofNat 8 value]

/-- Copies bytes from one address to another. -/
def mcopy (journal : Journal) (destination source length : Nat) : Journal :=
  journal.write destination (journal.memory.read source length)

@[simp] theorem memory_start (memory : Memory) : (start memory).memory = memory := rfl

@[simp] theorem memory_write (journal : Journal) (address : Nat) (bytes : Bytes) :
    (journal.write address bytes).memory = journal.memory.write address bytes := rfl

/-! ### Where a computation writes -/

/-- From one journal to another, every write lies in the region, given by address and length. -/
inductive Confined (region : Nat → Nat → Prop) (journal : Journal) : Journal → Prop where
  | refl : Confined region journal journal
  | write {journal' : Journal} {address : Nat} {bytes : Bytes} (h : Confined region journal journal')
      (hregion : region address bytes.length) : Confined region journal (journal'.write address bytes)

namespace Confined

variable {region region' : Nat → Nat → Prop} {journal journal' journal'' : Journal}

theorem mono (h : Confined region journal journal') (hregion : ∀ a n, region a n → region' a n) :
    Confined region' journal journal' := by
  induction h with
  | refl => exact .refl
  | write _ hwrite ih => exact .write ih (hregion _ _ hwrite)

theorem trans (h : Confined region journal journal') (h' : Confined region journal' journal'') :
    Confined region journal journal'' := by
  induction h' with
  | refl => exact h
  | write _ hwrite ih => exact .write ih hwrite

/-- What the region does not touch is as it was. -/
theorem read (h : Confined region journal journal') {address length : Nat}
    (hapart : ∀ a n, region a n → address + length ≤ a ∨ a + n ≤ address) :
    journal'.memory.read address length = journal.memory.read address length := by
  induction h with
  | refl => rfl
  | write _ hwrite ih => exact (Memory.read_write_of_disjoint (hapart _ _ hwrite)).trans ih

theorem initial_eq (h : Confined region journal journal') : journal'.initial = journal.initial := by
  induction h with
  | refl => rfl
  | write _ _ ih => exact ih

/-- All the writes of a computation that begins with an empty journal. -/
theorem of_mem {memory : Memory} (h : Confined region (start memory) journal) {w : Nat × Bytes}
    (hw : w ∈ journal.writes) : region w.1 w.2.length := by
  induction h with
  | refl => cases hw
  | write _ hwrite ih =>
    cases hw with
    | head => exact hwrite
    | tail _ hw => exact ih hw

end Confined

end Journal
