/-
`_hashToField` and `_expandMessageXmd` of `contracts/src/libraries/FROST.sol`, as their assembly computes
them, with the functions that fix a domain separation tag.

The memory is a journal, so that what is written, and where, can be told from what is there.  A message is
an object in memory below the free memory pointer.  Pointers do not wrap around (`Argument.room`).  The
precompile for SHA-256 is a parameter, which may fail.
-/
import Safenet.Lib.Journal
import Safenet.Contracts.Assembly
import Safenet.Contracts.FROST

namespace Safenet.Contracts.Assembly

open Fallible (require)

/-- Why the expansion of a message stopped. -/
inductive ExpandError where
  /-- The `assert`. -/
  | assertion
  /-- `revert(0x00, 0x00)`. -/
  | reverted
deriving DecidableEq, Repr

/-- A string literal of 32 bytes or less, as a word: it is aligned to the left. -/
def literal (s : String) : B256 :=
  BitVec.ofNat 256 (Bytes.ascii s ++ Bytes.zeros (32 - (Bytes.ascii s).length)).value

/-- A domain separation tag of at most 31 bytes, with its length in the last byte. -/
def packed (tag : Bytes) : B256 :=
  BitVec.ofNat 256 (tag ++ Bytes.zeros (31 - tag.length) ++ [BitVec.ofNat 8 tag.length]).value

/-- A message in memory, above the words that Solidity reserves.  No pointer that is computed from it
is past the end of the address space. -/
structure Argument (memory : Memory) (message : Bytes) where
  object : BytesObject memory message
  reserved : freeMemoryPointer + 0x20 ≤ object.address
  room : memory.mload freeMemoryPointer + message.length + 2 ^ 14 ≤ 2 ^ 256

/-- `byte(31, word)`. -/
def lastByte (word : B256) : Nat := word.toNat % 256

variable (staticcall : Bytes → Option Bytes)

/-- `_sha256`: the call of the precompile has to succeed, with a word. -/
def sha256 (journal : Journal) (inputPtr inputLen outputPtr : Nat) : Except ExpandError Journal :=
  match staticcall (journal.memory.read inputPtr inputLen) with
  | none => .error .reverted
  | some returndata => do
      require (returndata.length = 0x20) .reverted
      return journal.write outputPtr returndata

/-- What is hashed first, and where its parts are. -/
structure Layout where
  prime : Nat
  bPtr : Nat
  iPtr : Nat
  ptr : Nat
  journal : Journal

/-- The lines that write what is hashed first. -/
def layout (journal : Journal) (message : Nat) (dst : B256) (len : Nat) : Layout :=
  let prime := journal.memory.mload freeMemoryPointer
  let ptr := prime
  let journal := journal.mstore ptr 0
  let ptr := ptr + 0x20
  let journal := journal.mstore ptr 0
  let ptr := ptr + 0x20
  let journal := journal.mcopy ptr (message + 0x20) (journal.memory.mload message)
  let ptr := ptr + journal.memory.mload message
  let journal := journal.mstore ptr (BitVec.ofNat 256 len <<< 240)
  let ptr := ptr + 0x03
  let bPtr := ptr - 0x21
  let iPtr := ptr - 0x01
  let journal := journal.mstore ptr dst
  let dstLen := lastByte dst
  let ptr := ptr + dstLen
  let journal := journal.mstore8 ptr dstLen
  let ptr := ptr + 0x01
  { prime, bPtr, iPtr, ptr, journal }

/-- The loop over the blocks that follow the first, with the counter it ends with. -/
def expandLoop (uniform bPtr iPtr bLen : Nat) (b0 : B256) (i len : Nat) (journal : Journal) :
    Except ExpandError (Nat × Journal) :=
  if 0x20 < len then do
    let uPtr := uniform + i <<< 5
    let journal := journal.mstore bPtr (b0 ^^^ BitVec.ofNat 256 (journal.memory.mload (uPtr - 0x20)))
    let journal := journal.mstore8 iPtr i
    let journal ← sha256 staticcall journal bPtr bLen uPtr
    expandLoop uniform bPtr iPtr bLen b0 (i + 1) (len - 32) journal
  else return (i, journal)
termination_by len

/-- An expanded message. -/
structure Expanded where
  uniform : Nat
  /-- How often the loop ran. -/
  rounds : Nat
  journal : Journal

/-- `_expandMessageXmd`. -/
def expandMessageXmd (journal : Journal) (message : Nat) (dst : B256) (len : Nat) :
    Except ExpandError Expanded := do
  require (len ≤ 8160) .assertion
  let uniform := journal.memory.mload freeMemoryPointer
  let journal := journal.mstore freeMemoryPointer (BitVec.ofNat 256 (uniform + ((0x3f + len) &&& 0xffe0)))
  let journal := journal.mstore uniform (BitVec.ofNat 256 len)
  let { prime, bPtr, iPtr, ptr, journal } := layout journal message dst len
  let bLen := ptr - bPtr
  let journal ← sha256 staticcall journal prime (ptr - prime) bPtr
  let b0 := BitVec.ofNat 256 (journal.memory.mload bPtr)
  let journal := journal.mstore8 iPtr 1
  let journal ← sha256 staticcall journal bPtr bLen (uniform + 0x20)
  let (i, journal) ← expandLoop staticcall uniform bPtr iPtr bLen b0 2 len journal
  return { uniform, rounds := i - 2, journal }

/-- `_hashToField`. -/
def hashToField (journal : Journal) (message : Nat) (dst : B256) : Except ExpandError Nat := do
  let { uniform, journal, .. } ← expandMessageXmd staticcall journal message dst 48
  let n := Secp256k1.N
  let e := Secp256k1.mulmod (journal.memory.mload (uniform + 0x20)) 0x100000000000000000000000000000000 n
  return Secp256k1.addmod e (journal.memory.mload (uniform + 0x40) >>> 128) n

/-- `_h1`. -/
def h1 (journal : Journal) (input : Nat) : Except ExpandError Nat :=
  hashToField staticcall journal input (literal "FROST-secp256k1-SHA256-v1rho\x00\x00\x00\x1c")

/-- `_h2`. -/
def h2 (journal : Journal) (input : Nat) : Except ExpandError Nat :=
  hashToField staticcall journal input (literal "FROST-secp256k1-SHA256-v1chal\x00\x00\x1d")

/-- `_h3`. -/
def h3 (journal : Journal) (input : Nat) : Except ExpandError Nat :=
  hashToField staticcall journal input (literal "FROST-secp256k1-SHA256-v1nonce\x00\x1e")

/-- `_hdkg`. -/
def hdkg (journal : Journal) (input : Nat) : Except ExpandError Nat :=
  hashToField staticcall journal input (literal "FROST-secp256k1-SHA256-v1dkg\x00\x00\x00\x1c")

/-- `_hid`. -/
def hid (journal : Journal) (input : Nat) : Except ExpandError Nat :=
  hashToField staticcall journal input (literal "FROST-secp256k1-SHA256-v1id\x00\x00\x00\x00\x1b")

end Safenet.Contracts.Assembly
