/-
The assembly of `_expandMessageXmd` and `_hashToField` computes what RFC 9380 specifies.

The first preimage is written from left to right, each write over the end of the one before, so what
is in memory after a write is what was there followed by the part that the next write leaves
(`read_write_append`).  The other preimages end where the first one does: only the 33 bytes before the tag
are written again, and `Running` says that the rest is still there.  Its other facts are those of the
output, of which each round of the loop adds a block.
-/
import Safenet.Lib.ExpandMessage
import Safenet.Contracts.HashToField

namespace Safenet.Contracts.Assembly

open ExpandMessage (HashFunction dstPrime msgPrime block blocks)
open Fallible (bind_eq_ok pure_eq_ok)
open Memory (read_add read_write_append read_write_of_disjoint take_read)

/-- SHA-256 as a hash function of the RFC. -/
def sha256Function (sha : Bytes → B256) : HashFunction where
  hash input := Bytes.word (sha input)
  outputSize := 32
  blockSize := 64
  length_hash _ := Bytes.word_length _
  outputSize_pos := by decide

/-! ### Tags and lengths as words -/

theorem word_packed {tag : Bytes} (h : tag.length ≤ 31) :
    Bytes.word (packed tag) = tag ++ Bytes.zeros (31 - tag.length) ++ [BitVec.ofNat 8 tag.length] := by
  refine Bytes.word_value ?_
  rw [List.length_append, List.length_append, Bytes.zeros_length, List.length_singleton]
  omega

theorem take_packed {tag : Bytes} (h : tag.length ≤ 31) :
    (Bytes.word (packed tag)).take tag.length = tag := by
  rw [word_packed h, List.append_assoc, List.take_left' rfl]

theorem lastByte_packed {tag : Bytes} (h : tag.length ≤ 31) : lastByte (packed tag) = tag.length := by
  have hvalue := congrArg Bytes.value (word_packed h)
  rw [Bytes.value_word, Bytes.value_concat, BitVec.toNat_ofNat] at hvalue
  rw [lastByte, hvalue]
  omega

/-- The length of the output, aligned to the left. -/
theorem take_length {len : Nat} (h : len < 2 ^ 16) :
    (Bytes.word (BitVec.ofNat 256 len <<< 240)).take 3 = Bytes.digits 2 len ++ Bytes.digits 1 0 := by
  have hvalue : (Bytes.digits 2 len ++ Bytes.zeros 30).value = len * 2 ^ 240 := by
    rw [Bytes.value_append_zeros, Bytes.value_digits, Nat.mod_eq_of_lt (by omega),
      show 256 ^ 30 = 2 ^ 240 from rfl]
  have hword : BitVec.ofNat 256 len <<< 240 =
      BitVec.ofNat 256 (Bytes.digits 2 len ++ Bytes.zeros 30).value := by
    refine BitVec.eq_of_toNat_eq ?_
    rw [hvalue, BitVec.toNat_shiftLeft, BitVec.toNat_ofNat, BitVec.toNat_ofNat, Nat.shiftLeft_eq,
      Nat.mod_eq_of_lt (show len < 2 ^ 256 by omega)]
  have hsplit : Bytes.digits 2 len ++ Bytes.zeros 30 =
      Bytes.digits 2 len ++ Bytes.digits 1 0 ++ Bytes.zeros 29 := rfl
  rw [hword, Bytes.word_value (by simp), hsplit, List.take_left' (by simp)]

/-! ### What is hashed first -/

section Layout

variable {journal : Journal} {message tag : Bytes} {address len : Nat}

/-- The zeros before the message. -/
def zPad (journal : Journal) (prime : Nat) : Journal := (journal.mstore prime 0).mstore (prime + 0x20) 0

/-- What is hashed first, with all of its parts. -/
def preimage (journal : Journal) (prime address : Nat) (message tag : Bytes) (len : Nat) : Journal :=
  let ptr := prime + 0x20 + 0x20
  let journal := (zPad journal prime).mcopy ptr (address + 0x20) message.length
  let journal := journal.mstore (ptr + message.length) (BitVec.ofNat 256 len <<< 240)
  let journal := journal.mstore (ptr + message.length + 0x03) (packed tag)
  journal.mstore8 (ptr + message.length + 0x03 + tag.length) tag.length

/-- They change nothing below them. -/
theorem read_zPad {prime count : Nat} (h : address + count ≤ prime) :
    (zPad journal prime).memory.read address count = journal.memory.read address count := by
  have hword : ∀ w, (Bytes.word w).length = 32 := Bytes.word_length
  calc (zPad journal prime).memory.read address count
      = (journal.mstore prime 0).memory.read address count :=
        read_write_of_disjoint (.inl (by omega))
    _ = journal.memory.read address count := read_write_of_disjoint (.inl h)

theorem layout_eq (hlength : journal.memory.mload address = message.length)
    (hbelow : address + 0x20 + message.length ≤ journal.memory.mload freeMemoryPointer)
    (htag : tag.length ≤ 31) :
    layout journal address (packed tag) len =
      let prime := journal.memory.mload freeMemoryPointer
      { prime
        bPtr := prime + message.length + 34
        iPtr := prime + message.length + 34 + 32
        ptr := prime + message.length + 34 + (tag.length + 34)
        journal := preimage journal prime address message tag len } := by
  generalize hprime : journal.memory.mload freeMemoryPointer = prime at hbelow
  -- the length of the message is read twice, after the zeros and after the copy
  have hcopied : ((journal.mstore prime 0).mstore (prime + 32) 0).memory.mload address = message.length := by
    rw [Memory.mload]
    exact (congrArg Bytes.value (read_zPad (by omega))).trans hlength
  have hstill : (((journal.mstore prime 0).mstore (prime + 32) 0).mcopy (prime + 32 + 32) (address + 32)
      message.length).memory.mload address = message.length := by
    rw [Memory.mload]
    exact (congrArg Bytes.value (read_write_of_disjoint (.inl (by omega)))).trans hcopied
  unfold layout
  rw [hprime]
  dsimp only
  rw [hcopied, hstill, lastByte_packed htag]
  congr 1
  · omega
  · omega
  · omega

/-- **It reads as `msg_prime`.** -/
theorem read_preimage {sha : Bytes → B256} {prime : Nat}
    (hmessage : journal.memory.read (address + 0x20) message.length = message)
    (hbelow : address + 0x20 + message.length ≤ prime) (htag : tag.length ≤ 31) (hlen : len < 2 ^ 16) :
    (preimage journal prime address message tag len).memory.read prime
        (64 + message.length + 3 + tag.length + 1) =
      msgPrime (sha256Function sha) message tag len := by
  have hzero : (journal.mstore prime 0).memory.read prime 32 = Bytes.word 0 := Memory.read_mstore_self _ _ _
  have hzPad : (zPad journal prime).memory.read prime (32 + 32) = _ :=
    read_write_append (prime + 0x20) (Bytes.word 0) 32 hzero rfl (by simp)
  -- the copy takes the message from below the zeros
  have hsource : (zPad journal prime).memory.read (address + 0x20) message.length = message :=
    (read_zPad hbelow).trans hmessage
  have hmsg := read_write_append (prime + 0x20 + 0x20)
    ((zPad journal prime).memory.read (address + 0x20) message.length) message.length hzPad rfl (by simp)
  have hlength := read_write_append (prime + 0x20 + 0x20 + message.length)
    (Bytes.word (BitVec.ofNat 256 len <<< 240)) 3 hmsg (by omega) (by simp)
  have hdst := read_write_append (prime + 0x20 + 0x20 + message.length + 0x03) (Bytes.word (packed tag))
    tag.length hlength (by omega) (by rw [Bytes.word_length]; omega)
  have hall : (preimage journal prime address message tag len).memory.read prime
      (32 + 32 + message.length + 3 + tag.length + 1) = _ :=
    read_write_append (prime + 0x20 + 0x20 + message.length + 0x03 + tag.length)
      [BitVec.ofNat 8 tag.length] 1 hdst (by omega) (by simp)
  have hzeros : Bytes.digits 64 0 = Bytes.word 0 ++ (Bytes.word 0).take 32 := rfl
  rw [take_length hlen, take_packed htag, hsource, List.take_length] at hall
  rw [hall, msgPrime, dstPrime, show (sha256Function sha).blockSize = 64 from rfl, hzeros]
  simp [Bytes.digits]

/-- Nothing is written below it. -/
theorem confined_preimage {region : Nat → Nat → Prop} {prime : Nat}
    (hregion : ∀ a n, prime ≤ a → region a n) :
    journal.Confined region (preimage journal prime address message tag len) := by
  refine .write (.write (.write (.write (.write (.write .refl ?_) ?_) ?_) ?_) ?_) ?_
  all_goals exact hregion _ _ (by omega)

end Layout

/-! ### Blocks -/

section Blocks

variable {staticcall : Bytes → Option Bytes} {sha : Bytes → B256}
variable (hsha : ∀ input, staticcall input = some (Bytes.word (sha input)))

include hsha in
theorem sha256_eq (journal : Journal) (inputPtr inputLen outputPtr : Nat) :
    sha256 staticcall journal inputPtr inputLen outputPtr =
      .ok (journal.write outputPtr (Bytes.word (sha (journal.memory.read inputPtr inputLen)))) := by
  rw [sha256, hsha]
  simp only [Bytes.word_length, Fallible.require, decide_true, if_true]
  rfl

/-- Where blocks are computed: in the memory they are written to, and in what is not allocated. -/
def Working (uniform finish address count : Nat) : Prop :=
  uniform + 0x20 ≤ address ∧ address + count ≤ finish ∨ finish ≤ address

/-- The state with `n` blocks. -/
structure Running (sha : Bytes → B256) (base : Journal) (uniform finish bPtr : Nat) (b₀ : B256) (tag : Bytes)
    (n : Nat) (journal : Journal) : Prop where
  output : journal.memory.read (uniform + 0x20) (n * 32) = blocks (sha256Function sha) (Bytes.word b₀) tag n
  /-- The tag is still behind the place of the counter. -/
  tag : journal.memory.read (bPtr + 33) (tag.length + 1) = dstPrime tag
  confined : base.Confined (Working uniform finish) journal

variable {base journal : Journal} {uniform finish bPtr n : Nat} {b₀ : B256} {tag : Bytes}

/-- The word and the counter are written before the tag. -/
theorem read_tag (h : journal.memory.read (bPtr + 33) (tag.length + 1) = dstPrime tag) (w : B256) :
    ((journal.mstore bPtr w).mstore8 (bPtr + 32) n).memory.read (bPtr + 33) (tag.length + 1) =
      dstPrime tag := by
  have hword : (journal.mstore bPtr w).memory.read (bPtr + 33) (tag.length + 1) = dstPrime tag :=
    (read_write_of_disjoint (.inr (by rw [Bytes.word_length]; omega))).trans h
  exact (read_write_of_disjoint (.inr (Nat.le_refl _))).trans hword

/-- What is hashed for a block. -/
theorem read_scratch (h : journal.memory.read (bPtr + 33) (tag.length + 1) = dstPrime tag) (w : B256) :
    ((journal.mstore bPtr w).mstore8 (bPtr + 32) n).memory.read bPtr (tag.length + 34) =
      Bytes.word w ++ Bytes.digits 1 n ++ dstPrime tag := by
  have hword : (journal.mstore bPtr w).memory.read bPtr 32 = Bytes.word w := Memory.read_mstore_self _ _ _
  have hcounter : ((journal.mstore bPtr w).mstore8 (bPtr + 32) n).memory.read bPtr (32 + 1) =
      Bytes.word w ++ Bytes.digits 1 n :=
    read_write_append (bPtr + 32) [BitVec.ofNat 8 n] 1 hword rfl (Nat.le_refl _)
  rw [show tag.length + 34 = 32 + 1 + (tag.length + 1) by omega, read_add, hcounter,
    read_tag h w]

include hsha in
/-- **The next block**, from the word that is hashed with the counter. -/
theorem Running.next (h : Running sha base uniform finish bPtr b₀ tag n journal) {w : B256}
    (hblock : Bytes.word (sha (Bytes.word w ++ Bytes.digits 1 (n + 1) ++ dstPrime tag)) =
      block (sha256Function sha) (Bytes.word b₀) tag n)
    (hfinish : finish ≤ bPtr) (hout : uniform + 0x20 + n * 32 + 32 ≤ bPtr)
    (hworking : Working uniform finish (uniform + 0x20 + n * 32) 32) :
    ∃ journal', sha256 staticcall ((journal.mstore bPtr w).mstore8 (bPtr + 32) (n + 1)) bPtr (tag.length + 34)
        (uniform + 0x20 + n * 32) = .ok journal' ∧
      Running sha base uniform finish bPtr b₀ tag (n + 1) journal' := by
  refine ⟨_, sha256_eq hsha _ _ _ _, ?_⟩
  rw [read_scratch h.tag, hblock]
  have hlength : (block (sha256Function sha) (Bytes.word b₀) tag n).length = 32 := ExpandMessage.length_block _ _ _
  have hscratch : base.Confined (Working uniform finish) ((journal.mstore bPtr w).mstore8 (bPtr + 32) (n + 1)) :=
    .write (.write h.confined (.inr hfinish)) (.inr (by omega))
  constructor
  case output =>
    have hbefore : ((journal.mstore bPtr w).mstore8 (bPtr + 32) (n + 1)).memory.read (uniform + 0x20) (n * 32) =
        blocks (sha256Function sha) (Bytes.word b₀) tag n :=
      (read_write_of_disjoint (.inl (by omega))).trans
        ((read_write_of_disjoint (.inl (by omega))).trans h.output)
    rw [Nat.succ_mul, ExpandMessage.blocks_succ]
    refine (read_write_append _ _ 32 hbefore rfl hlength.ge).trans ?_
    rw [List.take_of_length_le hlength.le]
  case tag =>
    refine (read_write_of_disjoint (.inr ?_)).trans (read_tag h.tag w)
    rw [hlength]
    omega
  case confined => exact .write hscratch (by rwa [hlength])

/-- The last of the blocks. -/
theorem Running.mload_last (h : Running sha base uniform finish bPtr b₀ tag (n + 1) journal) :
    journal.memory.read (uniform + 0x20 + n * 32) 32 = block (sha256Function sha) (Bytes.word b₀) tag n := by
  have houtput := h.output
  rw [Nat.succ_mul, read_add, ExpandMessage.blocks_succ] at houtput
  exact (List.append_inj houtput (by simp [sha256Function])).2

include hsha in
/-- **The loop** adds a block in every round. -/
theorem expandLoop_eq {len rounds : Nat} (hfinish : finish ≤ bPtr)
    (hend : uniform + 0x20 + (n + 1 + rounds) * 32 ≤ finish ∨ rounds = 0)
    (hle : len ≤ 32 * (rounds + 1)) (hlt : 32 * rounds < len ∨ rounds = 0)
    (h : Running sha base uniform finish bPtr b₀ tag (n + 1) journal) :
    ∃ journal', expandLoop staticcall uniform bPtr (bPtr + 32) (tag.length + 34) b₀ (n + 2) len journal =
        .ok (n + 2 + rounds, journal') ∧
      Running sha base uniform finish bPtr b₀ tag (n + 1 + rounds) journal' := by
  induction rounds generalizing n len journal with
  | zero =>
    refine ⟨journal, ?_, h⟩
    rw [expandLoop, if_neg (by omega)]
    rfl
  | succ rounds ih =>
    have hblock : Bytes.word (b₀ ^^^ BitVec.ofNat 256 (journal.memory.mload (uniform + 0x20 + n * 32))) =
        ExpandMessage.strxor (Bytes.word b₀) (block (sha256Function sha) (Bytes.word b₀) tag n) := by
      rw [← ExpandMessage.strxor_word, Memory.mload, Bytes.word_value (Memory.length_read ..), h.mload_last]
    have hptr : uniform + (n + 2) <<< 5 = uniform + 0x20 + (n + 1) * 32 := by
      rw [Nat.shiftLeft_eq]
      omega
    have hprevious : uniform + 0x20 + (n + 1) * 32 - 0x20 = uniform + 0x20 + n * 32 := by omega
    obtain ⟨journal', hnext, hrunning⟩ := h.next hsha (by rw [hblock]; rfl) hfinish (by omega) (.inl (by omega))
    obtain ⟨journal'', hrest, hrunning⟩ :=
      ih (by omega) (show len - 32 ≤ 32 * (rounds + 1) by omega) (by omega) hrunning
    refine ⟨journal'', ?_, by rwa [show n + 1 + (rounds + 1) = n + 1 + 1 + rounds by omega]⟩
    rw [expandLoop, if_pos (by omega), hptr]
    dsimp only
    rw [hprevious, hnext]
    exact hrest.trans (by rw [show n + 1 + 2 + rounds = n + 2 + (rounds + 1) by omega])

end Blocks

/-! ### Expanded messages -/

/-- What is allocated for an output. -/
theorem allocated_eq {len : Nat} (h : len ≤ 8160) : (0x3f + len) &&& 0xffe0 = 0x20 * ((len + 31) / 32 + 1) := by
  have hdiv : ((0x3f + len) &&& 0xffe0) / 2 ^ 5 = (0x3f + len) / 2 ^ 5 := by
    rw [Nat.and_div_two_pow, show 0xffe0 / 2 ^ 5 = 2 ^ 11 - 1 from rfl, Nat.and_two_pow_sub_one_eq_mod]
    omega
  have hmod : ((0x3f + len) &&& 0xffe0) % 2 ^ 5 = 0 := by
    rw [Nat.and_mod_two_pow, show 0xffe0 % 2 ^ 5 = 0 from rfl, Nat.and_zero]
  omega

/-- Where an expansion may write: the free memory pointer, the memory it allocates, and what is not
allocated. -/
def Writable (uniform finish address count : Nat) : Prop :=
  address = freeMemoryPointer ∧ count = 0x20 ∨ uniform ≤ address ∧ address + count ≤ finish ∨
    finish ≤ address

/-- What a call leaves behind, for the bytes it should return. -/
structure Expands (memory : Memory) (len : Nat) (bytes : Bytes) (expanded : Expanded) : Prop where
  uniform : expanded.uniform = memory.mload freeMemoryPointer
  content : expanded.journal.memory.read expanded.uniform (0x20 + len) =
    Bytes.word (BitVec.ofNat 256 len) ++ bytes
  free : expanded.journal.memory.mload freeMemoryPointer = expanded.uniform + 0x20 * ((len + 31) / 32 + 1)
  /-- The loop runs for the blocks after the first. -/
  rounds : expanded.rounds = (len + 31) / 32 - 1
  initial : expanded.journal.initial = memory
  writes : ∀ w ∈ expanded.journal.writes,
    Writable expanded.uniform (expanded.journal.memory.mload freeMemoryPointer) w.1 w.2.length
  /-- Memory that was allocated before, with the message, is as it was. -/
  kept : ∀ address count, freeMemoryPointer + 0x20 ≤ address →
    address + count ≤ memory.mload freeMemoryPointer →
    expanded.journal.memory.read address count = memory.read address count

/-- The memory once the output is allocated. -/
def allocated (memory : Memory) (len : Nat) : Journal :=
  let uniform := memory.mload freeMemoryPointer
  let journal := (Journal.start memory).mstore freeMemoryPointer
    (BitVec.ofNat 256 (uniform + ((0x3f + len) &&& 0xffe0)))
  journal.mstore uniform (BitVec.ofNat 256 len)

section Expansion

variable {memory : Memory} {message tag : Bytes} {len : Nat}

theorem read_allocated {address count : Nat} (hreserved : freeMemoryPointer + 0x20 ≤ address)
    (hbelow : address + count ≤ memory.mload freeMemoryPointer) :
    (allocated memory len).memory.read address count = memory.read address count :=
  (read_write_of_disjoint (.inl hbelow)).trans
    (read_write_of_disjoint (.inr (by rwa [Bytes.word_length])))

theorem size_allocated (memory : Memory) (len : Nat) :
    (allocated memory len).memory.read (memory.mload freeMemoryPointer) 32 =
      Bytes.word (BitVec.ofNat 256 len) := Memory.read_mstore_self _ _ _

theorem confined_allocated {finish : Nat} (hfinish : memory.mload freeMemoryPointer + 0x20 ≤ finish) :
    (Journal.start memory).Confined (Writable (memory.mload freeMemoryPointer) finish)
      (allocated memory len) := by
  refine .write (.write .refl ?_) ?_
  · exact .inl ⟨rfl, Bytes.word_length _⟩
  · rw [Bytes.word_length]
    exact .inr (.inl ⟨Nat.le_refl _, hfinish⟩)

variable (argument : Argument memory message) (hlen : len ≤ 8160)

include argument in
theorem Argument.length_lt : message.length < 2 ^ 256 := by
  have hroom := argument.room
  omega

/-- The message is above the reserved words and below the free memory pointer. -/
theorem Argument.below : argument.object.address + 0x20 + message.length ≤ memory.mload freeMemoryPointer := by
  have hbelow := argument.object.below
  rw [List.length_append, Bytes.word_length] at hbelow
  omega

theorem Argument.mload : memory.mload argument.object.address = message.length := by
  have hlength := argument.object.read_within (show 0 + 32 ≤ _ by simp)
  rw [List.drop_zero, List.take_left' (Bytes.word_length _)] at hlength
  rw [Memory.mload, ← Nat.add_zero argument.object.address, hlength, Bytes.value_word, BitVec.toNat_ofNat,
    Nat.mod_eq_of_lt argument.length_lt]

theorem Argument.read : memory.read (argument.object.address + 0x20) message.length = message := by
  have hmessage := argument.object.read_within (show 32 + message.length ≤ _ by simp)
  rwa [List.drop_left' (Bytes.word_length _), List.take_length] at hmessage

include argument hlen in
theorem free_allocated : (allocated memory len).memory.mload freeMemoryPointer =
    memory.mload freeMemoryPointer + 0x20 * ((len + 31) / 32 + 1) := by
  have hroom := argument.room
  have hreserved := argument.reserved
  have hbelow := argument.below
  have hread : (allocated memory len).memory.read freeMemoryPointer 32 =
      Bytes.word (BitVec.ofNat 256 (memory.mload freeMemoryPointer + 0x20 * ((len + 31) / 32 + 1))) := by
    rw [← allocated_eq hlen]
    exact (read_write_of_disjoint (.inl (by omega))).trans (Memory.read_mstore_self _ _ _)
  rw [Memory.mload, hread, Bytes.value_word, BitVec.toNat_ofNat, Nat.mod_eq_of_lt (by omega)]

variable {staticcall : Bytes → Option Bytes} {sha : Bytes → B256}
variable (hsha : ∀ input, staticcall input = some (Bytes.word (sha input)))

/-- The state before the first block. -/
theorem running_preimage {base : Journal} {uniform prime address : Nat} {b₀ : B256}
    (hmessage : base.memory.read (address + 0x20) message.length = message)
    (hbelow : address + 0x20 + message.length ≤ prime) (htag : tag.length ≤ 31) (hlen : len < 2 ^ 16) :
    Running sha base uniform prime (prime + message.length + 34) b₀ tag 0
      (preimage base prime address message tag len) := by
  constructor
  case output => rw [Nat.zero_mul, Memory.read_zero, ExpandMessage.blocks_zero]
  case tag =>
    have hall : _ = msgPrime (sha256Function sha) message tag len := read_preimage hmessage hbelow htag hlen
    rw [show 64 + message.length + 3 + tag.length + 1 = (message.length + 67) + (tag.length + 1) by omega,
      read_add, msgPrime] at hall
    have htail := (List.append_inj hall (by simp [sha256Function]; omega)).2
    rwa [show prime + message.length + 34 + 33 = prime + (message.length + 67) by omega]
  case confined => exact confined_preimage fun a n ha => .inr ha

include hlen in
/-- The function, once the layout is known. -/
theorem expandMessageXmd_eq {address : Nat} {dst : B256} {l : Layout}
    (hlayout : layout (allocated memory len) address dst len = l) :
    expandMessageXmd staticcall (.start memory) address dst len = (do
      let journal ← sha256 staticcall l.journal l.prime (l.ptr - l.prime) l.bPtr
      let b0 := BitVec.ofNat 256 (journal.memory.mload l.bPtr)
      let journal ← sha256 staticcall (journal.mstore8 l.iPtr 1) l.bPtr (l.ptr - l.bPtr)
        (memory.mload freeMemoryPointer + 0x20)
      let (i, journal) ← expandLoop staticcall (memory.mload freeMemoryPointer) l.bPtr l.iPtr (l.ptr - l.bPtr) b0
        2 len journal
      return ⟨memory.mload freeMemoryPointer, i - 2, journal⟩) := by
  unfold expandMessageXmd
  rw [show Fallible.require (decide (len ≤ 8160)) ExpandError.assertion = .ok ⟨⟩ from
    if_pos (decide_eq_true hlen), ← hlayout]
  rfl

include hlen hsha in
/-- **The run of the function.** -/
theorem expandMessageXmd_running (htag : tag.length ≤ 31) :
    ∃ journal,
      expandMessageXmd staticcall (.start memory) argument.object.address (packed tag) len =
        .ok ⟨memory.mload freeMemoryPointer, (len + 31) / 32 - 1, journal⟩ ∧
      Running sha (allocated memory len) (memory.mload freeMemoryPointer)
        (memory.mload freeMemoryPointer + 0x20 * ((len + 31) / 32 + 1))
        (memory.mload freeMemoryPointer + 0x20 * ((len + 31) / 32 + 1) + message.length + 34)
        (sha (msgPrime (sha256Function sha) message tag len)) tag (0 + 1 + ((len + 31) / 32 - 1)) journal := by
  have hbelow := argument.below
  have hreserved := argument.reserved
  have hlength : (allocated memory len).memory.mload argument.object.address = message.length := by
    rw [Memory.mload, read_allocated (by omega) (by omega)]
    exact argument.mload
  have hmessage : (allocated memory len).memory.read (argument.object.address + 0x20) message.length = message :=
    (read_allocated (by omega) (by omega)).trans argument.read
  have hfree := free_allocated argument hlen
  have hlayout : layout (allocated memory len) argument.object.address (packed tag) len = _ :=
    layout_eq hlength (by omega) htag
  rw [hfree] at hlayout
  generalize hfinish : memory.mload freeMemoryPointer + 0x20 * ((len + 31) / 32 + 1) = finish at hfree hlayout ⊢
  have hpreimage : (preimage (allocated memory len) finish argument.object.address message tag len).memory.read
      finish (64 + message.length + 3 + tag.length + 1) = msgPrime (sha256Function sha) message tag len :=
    read_preimage hmessage (by omega) htag (by omega)
  generalize hb₀ : sha (msgPrime (sha256Function sha) message tag len) = b₀
  have hstart : Running sha (allocated memory len) (memory.mload freeMemoryPointer) finish
      (finish + message.length + 34) b₀ tag 0
      (preimage (allocated memory len) finish argument.object.address message tag len) :=
    running_preimage hmessage (by omega) htag (by omega)
  -- the first block, from `b_0` itself
  obtain ⟨journal, hfirst, hrunning⟩ := hstart.next hsha (w := b₀) rfl (by omega) (by omega) (by
    unfold Working
    omega)
  have hrounds : len ≤ 32 * ((len + 31) / 32 - 1 + 1) ∧
      (32 * ((len + 31) / 32 - 1) < len ∨ (len + 31) / 32 - 1 = 0) := by omega
  obtain ⟨journal', hloop, hrunning⟩ := expandLoop_eq hsha (by omega) (by omega) hrounds.1 hrounds.2 hrunning
  refine ⟨journal', ?_, hrunning⟩
  have hzeroth : sha256 staticcall (preimage (allocated memory len) finish argument.object.address message tag len)
      finish (finish + message.length + 34 + (tag.length + 34) - finish) (finish + message.length + 34) =
      .ok ((preimage (allocated memory len) finish argument.object.address message tag len).mstore
        (finish + message.length + 34) b₀) := by
    have hcount' : finish + message.length + 34 + (tag.length + 34) - finish =
        64 + message.length + 3 + tag.length + 1 := by omega
    rw [sha256_eq hsha, hcount', hpreimage, hb₀]
    rfl
  have hb0 : BitVec.ofNat 256 (((preimage (allocated memory len) finish argument.object.address message tag
      len).mstore (finish + message.length + 34) b₀).memory.mload (finish + message.length + 34)) = b₀ := by
    refine (congrArg (BitVec.ofNat 256) (Memory.mload_mstore_self _ _ _)).trans ?_
    rw [BitVec.ofNat_toNat, BitVec.setWidth_eq]
  rw [expandMessageXmd_eq hlen hlayout]
  refine bind_eq_ok.mpr ⟨_, hzeroth, ?_⟩
  dsimp only
  rw [hb0, Nat.add_sub_cancel_left]
  refine bind_eq_ok.mpr ⟨journal, hfirst, bind_eq_ok.mpr ⟨_, hloop, ?_⟩⟩
  refine pure_eq_ok.mpr ?_
  rw [show 0 + 2 + ((len + 31) / 32 - 1) - 2 = (len + 31) / 32 - 1 by omega]

/-- What is written for the output lies where an expansion may write. -/
theorem Working.writable {uniform finish address count : Nat} (h : Working uniform finish address count) :
    Writable uniform finish address count := by
  obtain ⟨hlow, hhigh⟩ | hhigh := h
  · exact .inr (.inl ⟨by omega, hhigh⟩)
  · exact .inr (.inr hhigh)

include hlen hsha in
/-- **The result of the function.** -/
theorem expandMessageXmd_expands (htag : tag.length ≤ 31) :
    ∃ expanded bytes,
      expandMessageXmd staticcall (.start memory) argument.object.address (packed tag) len = .ok expanded ∧
      ExpandMessage.expandMessageXmd (sha256Function sha) message tag len = some bytes ∧
      Expands memory len bytes expanded := by
  have hbelow := argument.below
  have hreserved := argument.reserved
  have hfree := free_allocated argument hlen
  obtain ⟨journal, hrun, hrunning⟩ := expandMessageXmd_running argument hlen hsha htag
  have hspec : ExpandMessage.expandMessageXmd (sha256Function sha) message tag len = some
      ((blocks (sha256Function sha) (Bytes.word (sha (msgPrime (sha256Function sha) message tag len))) tag
        ((len + 31) / 32)).take len) := if_neg (by
    show ¬ (255 < (len + 31) / 32 ∨ _)
    omega)
  refine ⟨_, _, hrun, hspec, ?_⟩
  generalize hfinish : memory.mload freeMemoryPointer + 0x20 * ((len + 31) / 32 + 1) = finish at hfree hrunning
  have hwritten : (Journal.start memory).Confined (Writable (memory.mload freeMemoryPointer) finish) journal :=
    (confined_allocated (by omega)).trans (hrunning.confined.mono fun _ _ => Working.writable)
  have hpointer : journal.memory.mload freeMemoryPointer = finish := by
    rw [← hfree, Memory.mload, Memory.mload, hrunning.confined.read]
    unfold Working
    omega
  constructor
  case uniform => rfl
  case content =>
    have hsize : journal.memory.read (memory.mload freeMemoryPointer) 0x20 = Bytes.word (BitVec.ofNat 256 len) := by
      rw [hrunning.confined.read (fun a n h => ?_), size_allocated]
      unfold Working at h
      omega
    have houtput := congrArg (List.take len) hrunning.output
    rw [take_read _ (by omega)] at houtput
    rw [read_add, hsize, houtput]
    by_cases hzero : len = 0
    · rw [hzero, List.take_zero, List.take_zero]
    · rw [show 0 + 1 + ((len + 31) / 32 - 1) = (len + 31) / 32 by omega]
  case free => exact hpointer.trans hfinish.symm
  case rounds => rfl
  case initial => exact hwritten.initial_eq
  case writes =>
    intro w hw
    show Writable _ (journal.memory.mload freeMemoryPointer) _ _
    rw [hpointer]
    exact hwritten.of_mem hw
  case kept =>
    intro address count haddress hend
    refine hwritten.read fun a n h => ?_
    unfold Writable at h
    omega

end Expansion

/-! ### Hashing to a scalar -/

theorem addmod_mulmod (a b n : Nat) :
    Secp256k1.addmod (Secp256k1.mulmod a (2 ^ 128) n) b n = (a * 2 ^ 128 + b) % n := by
  rw [Secp256k1.addmod, Secp256k1.mulmod, Nat.mod_add_mod]

/-- The two reads of `_hashToField` cover the 48 bytes. -/
theorem Expands.value {memory : Memory} {bytes : Bytes} {expanded : Expanded} (h : Expands memory 48 bytes expanded) :
    bytes.value = expanded.journal.memory.mload (expanded.uniform + 0x20) * 2 ^ 128 +
      expanded.journal.memory.mload (expanded.uniform + 0x40) >>> 128 := by
  have hcontent := h.content
  rw [read_add] at hcontent
  have hbytes := (List.append_inj hcontent (by simp)).2
  rw [show 48 = 32 + 16 from rfl, read_add] at hbytes
  have hhigh : expanded.journal.memory.mload (expanded.uniform + 0x40) >>> 128 =
      (expanded.journal.memory.read (expanded.uniform + 0x40) 16).value := by
    have hlt := Bytes.value_lt (expanded.journal.memory.read (expanded.uniform + 0x40 + 16) 16)
    rw [Memory.length_read] at hlt
    rw [Memory.mload, show 32 = 16 + 16 from rfl, read_add, Bytes.value_append, Memory.length_read,
      Nat.shiftRight_eq_div_pow]
    omega
  rw [← hbytes, Bytes.value_append, Memory.length_read, hhigh]
  rfl

section HashToField

variable {memory : Memory} {message tag : Bytes} {staticcall : Bytes → Option Bytes} {sha : Bytes → B256}
variable (argument : Argument memory message)
variable (hsha : ∀ input, staticcall input = some (Bytes.word (sha input)))

include hsha in
theorem hashToField_eq (htag : tag.length ≤ 31) :
    ∃ bytes, ExpandMessage.expandMessageXmd (sha256Function sha) message tag 48 = some bytes ∧
      hashToField staticcall (.start memory) argument.object.address (packed tag) =
        .ok (bytes.value % Secp256k1.N) := by
  obtain ⟨expanded, bytes, hrun, hspec, hexpands⟩ :=
    expandMessageXmd_expands argument (show 48 ≤ 8160 by omega) hsha htag
  refine ⟨bytes, hspec, bind_eq_ok.mpr ⟨expanded, hrun, pure_eq_ok.mpr ?_⟩⟩
  rw [hexpands.value]
  exact addmod_mulmod _ _ _

/-- The two blocks that the verification of signatures is modelled with are the first two. -/
theorem blocks_two (precompiles : FROST.Precompiles) (message tag : Bytes) :
    blocks (sha256Function precompiles.sha256)
        ((sha256Function precompiles.sha256).hash (msgPrime (sha256Function precompiles.sha256) message tag 48))
        tag 2 =
      Bytes.word (FROST.expandMessageXmd precompiles message tag).1 ++
        Bytes.word (FROST.expandMessageXmd precompiles message tag).2 := by
  have hmsgPrime : msgPrime (sha256Function precompiles.sha256) message tag 48 =
      List.replicate 64 0 ++ message ++ [0, 48, 0] ++ (tag ++ [BitVec.ofNat 8 tag.length]) := by
    have hzeros : Bytes.digits (sha256Function precompiles.sha256).blockSize 0 = List.replicate 64 0 :=
      Bytes.digits_zero 64
    rw [msgPrime, hzeros, List.append_assoc (List.replicate 64 0 ++ message)]
    rfl
  generalize hb₀ : precompiles.sha256 (List.replicate 64 0 ++ message ++ [0, 48, 0] ++
    (tag ++ [BitVec.ofNat 8 tag.length])) = b₀
  have hfirst : block (sha256Function precompiles.sha256) (Bytes.word b₀) tag 0 =
      Bytes.word (FROST.expandMessageXmd precompiles message tag).1 := by
    rw [FROST.expandMessageXmd, hb₀]
    rfl
  have hsecond : block (sha256Function precompiles.sha256) (Bytes.word b₀) tag 1 =
      Bytes.word (FROST.expandMessageXmd precompiles message tag).2 := by
    rw [block, hfirst, ExpandMessage.strxor_word, FROST.expandMessageXmd, hb₀]
    rfl
  have hhash : (sha256Function precompiles.sha256).hash
      (msgPrime (sha256Function precompiles.sha256) message tag 48) = Bytes.word b₀ := by
    rw [hmsgPrime, ← hb₀]
    rfl
  rw [hhash, ExpandMessage.blocks_succ, ExpandMessage.blocks_succ, ExpandMessage.blocks_zero,
    List.nil_append, hfirst, hsecond]

theorem frost_hashToField_eq {precompiles : FROST.Precompiles} {bytes : Bytes}
    (h : ExpandMessage.expandMessageXmd (sha256Function precompiles.sha256) message tag 48 = some bytes) :
    FROST.hashToField precompiles message tag = bytes.value % Secp256k1.N := by
  have hcount : ExpandMessage.ell (sha256Function precompiles.sha256) 48 = 2 := by
    show (48 + 32 - 1) / 32 = 2
    decide
  have hbytes := ExpandMessage.eq_of_expandMessageXmd h
  rw [hcount, blocks_two] at hbytes
  have hhigh : ∀ w : B256, w.toNat / 256 ^ 16 % 256 ^ 16 = w.toNat / 2 ^ 128 := by
    intro w
    have hlt := w.isLt
    omega
  rw [hbytes, List.take_append, List.take_of_length_le (by simp), Bytes.word_length,
    Bytes.value_append, Bytes.value_word, Bytes.word, Bytes.take_digits 16 16, Bytes.value_digits,
    Bytes.digits_length, hhigh]
  exact addmod_mulmod _ _ _

theorem hash_literal {precompiles : FROST.Precompiles}
    (hprecompile : ∀ input, staticcall input = some (Bytes.word (precompiles.sha256 input)))
    {packedTag tag : String} (htag : literal packedTag = packed (Bytes.ascii tag))
    (hlength : (Bytes.ascii tag).length ≤ 31) :
    hashToField staticcall (.start memory) argument.object.address (literal packedTag) =
      .ok (FROST.hashToField precompiles message (Bytes.ascii tag)) := by
  obtain ⟨bytes, hspec, hrun⟩ := hashToField_eq argument hprecompile hlength
  rw [htag, hrun, frost_hashToField_eq hspec]

/-- **The hash functions on memory are those on bytes**, which the verification of signatures is
modelled with. -/
theorem hashes_refine {precompiles : FROST.Precompiles}
    (hprecompile : ∀ input, staticcall input = some (Bytes.word (precompiles.sha256 input))) :
    let scalar := fun tag => Except.ok (FROST.hashToField precompiles message (Bytes.ascii tag))
    h1 staticcall (.start memory) argument.object.address = scalar "FROST-secp256k1-SHA256-v1rho" ∧
      h2 staticcall (.start memory) argument.object.address = scalar "FROST-secp256k1-SHA256-v1chal" ∧
      h3 staticcall (.start memory) argument.object.address = scalar "FROST-secp256k1-SHA256-v1nonce" ∧
      hdkg staticcall (.start memory) argument.object.address = scalar "FROST-secp256k1-SHA256-v1dkg" ∧
      hid staticcall (.start memory) argument.object.address = scalar "FROST-secp256k1-SHA256-v1id" :=
  ⟨hash_literal argument hprecompile (by decide) (by decide),
    hash_literal argument hprecompile (by decide) (by decide),
    hash_literal argument hprecompile (by decide) (by decide),
    hash_literal argument hprecompile (by decide) (by decide),
    hash_literal argument hprecompile (by decide) (by decide)⟩

/-- More than 255 blocks are refused, as by the specification. -/
theorem expandMessageXmd_aborts (journal : Journal) (address : Nat) (dst : B256) {len : Nat} (hlen : 8160 < len) :
    expandMessageXmd staticcall journal address dst len = .error .assertion ∧
      ExpandMessage.expandMessageXmd (sha256Function sha) message tag len = none := by
  constructor
  · unfold expandMessageXmd
    rw [show Fallible.require (decide (len ≤ 8160)) ExpandError.assertion = .error .assertion from
      if_neg (by simpa using hlen)]
    rfl
  · exact if_pos (.inl (show 255 < (len + 31) / 32 by omega))

end HashToField

/-- **Hashing to the field meets its specification**: the expansion returns the bytes of the RFC for every
message, tag and length, with as many rounds as there are blocks after the first, and writes nothing but
its output and memory that is not allocated; the hash is the number of 48 such bytes, modulo the order. -/
theorem hash_to_field_meets_specification {staticcall : Bytes → Option Bytes} {sha : Bytes → B256}
    (hsha : ∀ input, staticcall input = some (Bytes.word (sha input))) {memory : Memory} {message tag : Bytes}
    (argument : Argument memory message) (htag : tag.length ≤ 31) :
    (∀ len ≤ 8160, ∃ expanded bytes,
      expandMessageXmd staticcall (.start memory) argument.object.address (packed tag) len = .ok expanded ∧
      ExpandMessage.expandMessageXmd (sha256Function sha) message tag len = some bytes ∧
      Expands memory len bytes expanded) ∧
    ∃ bytes, ExpandMessage.expandMessageXmd (sha256Function sha) message tag 48 = some bytes ∧
      bytes.length = 48 ∧
      hashToField staticcall (.start memory) argument.object.address (packed tag) =
        .ok (bytes.value % Secp256k1.N) := by
  refine ⟨fun len hlen => expandMessageXmd_expands argument hlen hsha htag, ?_⟩
  obtain ⟨bytes, hspec, hrun⟩ := hashToField_eq argument hsha htag
  exact ⟨bytes, hspec, ExpandMessage.length_expandMessageXmd hspec, hrun⟩

/-- SHA-256 of what is hashed for `abc` under the tag of challenges. -/
def abcSha256 (input : Bytes) : B256 :=
  if input.value = 0x61626300300046524f53542d736563703235366b312d5348413235362d76316368616c1d then
    0x5adece6c2ad4e20a887a00c81f6d8f968bf4053cc93e497f0699a99c19a9bf94#256
  else if input.value =
      0x5adece6c2ad4e20a887a00c81f6d8f968bf4053cc93e497f0699a99c19a9bf940146524f53542d736563703235366b312d5348413235362d76316368616c1d then
    0xf002c3475919f591a88d9a39f39670ef7057f182b0c83bb60e0ea615d5805a48#256
  else if input.value =
      0xaadc0d2b73cd179b20f79af1ecfbff79fba3f4be79f672c908970f89cc29e5dc0246524f53542d736563703235366b312d5348413235362d76316368616c1d then
    0xe8f1dd76eb1674cc223ac67ed2d74039eeba266ffab9673a12b464b0877ee5fa#256
  else 0

/-- The memory with `abc` at the first address that Solidity allocates. -/
def abcMemory : Memory :=
  (Memory.mstore (Memory.mstore (fun _ => 0) freeMemoryPointer 0xc0) 0x80 3).write 0xa0 (Bytes.ascii "abc")

def abcArgument : Argument abcMemory (Bytes.ascii "abc") where
  object := { address := 0x80, read := by decide, below := by decide, fits := by decide }
  reserved := by decide
  room := by decide

theorem hash_to_field_of_abc :
    hashToField (fun input => some (Bytes.word (abcSha256 input))) (.start abcMemory) 0x80
        (literal "FROST-secp256k1-SHA256-v1chal\x00\x00\x1d") =
      .ok 0xa15785342b1dfd9dd4d5e89cd4779a9c1e6cc136a45dcdb89b5c662ff457a349 := by
  have htag : literal "FROST-secp256k1-SHA256-v1chal\x00\x00\x1d" =
      packed (Bytes.ascii "FROST-secp256k1-SHA256-v1chal") := by decide
  have hvalue : (ExpandMessage.expandMessageXmd (sha256Function abcSha256) (Bytes.ascii "abc")
      (Bytes.ascii "FROST-secp256k1-SHA256-v1chal") 48).map (fun bytes => bytes.value % Secp256k1.N) =
      some 0xa15785342b1dfd9dd4d5e89cd4779a9c1e6cc136a45dcdb89b5c662ff457a349 := by decide +kernel
  have hsha : ∀ input, some (Bytes.word (abcSha256 input)) = some (Bytes.word (abcSha256 input)) := fun _ => rfl
  obtain ⟨bytes, hspec, -, hrun⟩ := (hash_to_field_meets_specification hsha abcArgument
    (show (Bytes.ascii "FROST-secp256k1-SHA256-v1chal").length ≤ 31 by decide)).2
  rw [hspec, Option.map_some, Option.some.injEq] at hvalue
  rw [htag, ← hvalue]
  exact hrun

end Safenet.Contracts.Assembly
