/-
Byte-addressed memory, and buffers that are filled piece by piece.

Both are ways to lay out a byte string before it is hashed.  `read` gives the string at an address, and
the rules below say what it is after a write: the written bytes (`read_write_within`), or what was there
(`read_write_of_disjoint`).  A string is read in pieces (`read_add`).

A buffer is a list whose pieces are overwritten in place; one that is filled from the left keeps what is
already there (`fill_append`).
-/
import Mathlib.Data.List.GetD
import Safenet.Lib.Bytes

/-- The memory of a machine with addresses without bound. -/
abbrev Memory := Nat → BitVec 8

namespace Memory

/-- The bytes at an address. -/
def read (mem : Memory) (address length : Nat) : Bytes := (List.range length).map fun i => mem (address + i)

/-- Overwrites the bytes at an address. -/
def write (mem : Memory) (address : Nat) (bytes : Bytes) : Memory := fun i =>
  if address ≤ i then bytes.getD (i - address) (mem i) else mem i

/-- The word at an address. -/
def mload (mem : Memory) (address : Nat) : Nat := (mem.read address 32).value

/-- Writes a word. -/
def mstore (mem : Memory) (address : Nat) (word : BitVec 256) : Memory := mem.write address (Bytes.word word)

/-- Copies bytes from one address to another. -/
def mcopy (mem : Memory) (destination source length : Nat) : Memory :=
  mem.write destination (mem.read source length)

variable {mem : Memory}

@[simp] theorem length_read (mem : Memory) (address length : Nat) : (mem.read address length).length = length := by
  simp [read]

theorem getElem?_read {address length i : Nat} (h : i < length) :
    (mem.read address length)[i]? = some (mem (address + i)) := by
  simp [read, h]

@[simp] theorem read_zero (mem : Memory) (address : Nat) : mem.read address 0 = [] := rfl

theorem read_add (mem : Memory) (address m n : Nat) :
    mem.read address (m + n) = mem.read address m ++ mem.read (address + m) n := by
  simp only [read, List.range_add, List.map_append, List.map_map]
  refine congrArg _ (List.map_congr_left fun i _ => ?_)
  simp only [Function.comp_apply, Nat.add_assoc]

/-- The first bytes of a string. -/
theorem take_read (mem : Memory) {address count length : Nat} (h : count ≤ length) :
    (mem.read address length).take count = mem.read address count := by
  obtain ⟨rest, rfl⟩ := Nat.exists_eq_add_of_le h
  rw [read_add, List.take_left' (length_read ..)]

/-- A part of what was written. -/
theorem read_write_within {bytes : Bytes} {address start length : Nat} (h : start + length ≤ bytes.length) :
    (mem.write address bytes).read (address + start) length = (bytes.drop start).take length := by
  refine List.ext_getElem? fun i => ?_
  by_cases hi : i < length
  · have hlt : start + i < bytes.length := by omega
    rw [getElem?_read hi, List.getElem?_take_of_lt hi, List.getElem?_drop, List.getElem?_eq_getElem hlt]
    have hindex : address + start + i - address = start + i := by omega
    rw [write, if_pos (by omega), hindex, List.getD_eq_getElem _ _ hlt]
  · rw [List.getElem?_eq_none (by simpa using hi), List.getElem?_eq_none (by
      rw [List.length_take]
      omega)]

/-- The first bytes of what was written. -/
theorem read_write_take {bytes : Bytes} {address length : Nat} (h : length ≤ bytes.length) :
    (mem.write address bytes).read address length = bytes.take length := by
  have hread : (mem.write address bytes).read (address + 0) length = (bytes.drop 0).take length :=
    read_write_within (by omega)
  rwa [List.drop_zero] at hread

/-- What was written. -/
theorem read_write_self (mem : Memory) (address : Nat) (bytes : Bytes) :
    (mem.write address bytes).read address bytes.length = bytes := by
  rw [read_write_take (Nat.le_refl _), List.take_length]

/-- A write elsewhere. -/
theorem read_write_of_disjoint {bytes : Bytes} {address address' length : Nat}
    (h : address' + length ≤ address ∨ address + bytes.length ≤ address') :
    (mem.write address bytes).read address' length = mem.read address' length := by
  refine List.map_congr_left fun i hi => ?_
  rw [List.mem_range] at hi
  unfold write
  split
  · rw [List.getD_eq_default _ _ (by omega)]
  · rfl

/-- A string that goes on with the first bytes of what was written behind it. -/
theorem read_write_append {content : Bytes} {address length : Nat} (address' : Nat) (bytes : Bytes)
    (count : Nat) (h : mem.read address length = content) (haddress : address' = address + length)
    (hcount : count ≤ bytes.length) :
    (mem.write address' bytes).read address (length + count) = content ++ bytes.take count := by
  subst haddress
  rw [read_add, read_write_of_disjoint (.inl (Nat.le_refl _)), h, read_write_take hcount]

theorem read_mstore_self (mem : Memory) (address : Nat) (word : BitVec 256) :
    (mem.mstore address word).read address 32 = Bytes.word word := by
  have h := read_write_self mem address (Bytes.word word)
  rwa [Bytes.word_length] at h

theorem mload_mstore_self (mem : Memory) (address : Nat) (word : BitVec 256) :
    (mem.mstore address word).mload address = word.toNat := by
  rw [mload, read_mstore_self, Bytes.value_word]

theorem read_mstore_of_disjoint {word : BitVec 256} {address address' length : Nat}
    (h : address' + length ≤ address ∨ address + 32 ≤ address') :
    (mem.mstore address word).read address' length = mem.read address' length :=
  read_write_of_disjoint (by rwa [Bytes.word_length])

theorem read_mcopy_self (mem : Memory) (destination source length : Nat) :
    (mem.mcopy destination source length).read destination length = mem.read source length := by
  have h := read_write_self mem destination (mem.read source length)
  rwa [length_read] at h

theorem read_mcopy_of_disjoint {destination source length address' length' : Nat}
    (h : address' + length' ≤ destination ∨ destination + length ≤ address') :
    (mem.mcopy destination source length).read address' length' = mem.read address' length' :=
  read_write_of_disjoint (by rwa [length_read])

/-- Writes words one after the other. -/
def mstores (mem : Memory) (address : Nat) : List (BitVec 256) → Memory
  | [] => mem
  | word :: words => (mem.mstore address word).mstores (address + 32) words

/-- What is below the words stays as it was. -/
theorem read_mstores_below {words : List (BitVec 256)} {address address' length : Nat}
    (h : address' + length ≤ address) :
    (mem.mstores address words).read address' length = mem.read address' length := by
  induction words generalizing mem address with
  | nil => rfl
  | cons word words ih =>
    show ((mem.mstore address word).mstores (address + 32) words).read address' length = _
    rw [ih (by omega), read_mstore_of_disjoint (.inl h)]

theorem read_mstores (words : List (BitVec 256)) : ∀ (mem : Memory) (address : Nat),
    (mem.mstores address words).read address (32 * words.length) = words.flatMap Bytes.word := by
  induction words with
  | nil => intro mem address; rfl
  | cons word words ih =>
    intro mem address
    show ((mem.mstore address word).mstores (address + 32) words).read address (32 * (words.length + 1)) = _
    have hlength : 32 * (words.length + 1) = 32 + 32 * words.length := by omega
    rw [hlength, read_add, ih, read_mstores_below (Nat.le_refl _), read_mstore_self, List.flatMap_cons]

/-- Overwrites one of several words. -/
theorem read_mstore_set {words : List (BitVec 256)} {address length : Nat} (i : Nat) (word : BitVec 256)
    (h : mem.read address (32 * length) = words.flatMap Bytes.word) (hi : i < length) :
    (mem.mstore (address + 32 * i) word).read address (32 * length) =
      (words.set i word).flatMap Bytes.word := by
  obtain rfl : length = words.length := by
    have hlengths := congrArg List.length h
    rw [length_read, Bytes.flatMap_word_length] at hlengths
    omega
  have hlength : 32 * words.length = 32 * i + (32 + 32 * (words.length - i - 1)) := by omega
  have hbefore := congrArg (List.take (32 * i)) h
  have hafter := congrArg (List.drop (32 * (i + 1))) h
  rw [Bytes.take_flatMap_word, hlength, read_add, List.take_left' (length_read ..)] at hbefore
  rw [Bytes.drop_flatMap_word, hlength, read_add, read_add, ← List.append_assoc,
    List.drop_left' (by simp; omega)] at hafter
  rw [hlength, read_add, read_add, read_mstore_of_disjoint (.inl (Nat.le_refl _)), hbefore,
    read_mstore_self, read_mstore_of_disjoint (.inr (Nat.le_refl _)), hafter,
    List.set_eq_take_append_cons_drop, if_pos hi, List.flatMap_append, List.flatMap_cons]

/-- An object in memory, below the free memory pointer that is stored at an address. -/
structure Object (mem : Memory) (free : Nat) (content : Bytes) where
  address : Nat
  read : mem.read address content.length = content
  below : address + content.length ≤ mem.mload free
  fits : address < 2 ^ 256

/-- A part of an object. -/
theorem Object.read_within {free : Nat} {content : Bytes} (object : mem.Object free content)
    {start length : Nat} (h : start + length ≤ content.length) :
    mem.read (object.address + start) length = (content.drop start).take length := by
  have hsplit : content.length = start + (length + (content.length - start - length)) := by omega
  have hread := object.read
  rw [hsplit, read_add, read_add] at hread
  have hpart := congrArg (fun bytes => (bytes.drop start).take length) hread
  simp only [List.drop_left' (length_read mem object.address start),
    List.take_left' (length_read mem (object.address + start) length)] at hpart
  exact hpart

end Memory

namespace Bytes

/-- Overwrites the bytes of a buffer from `start` on: `buffer[start..].copy_from_slice(bytes)`. -/
def copyFrom (buffer : Bytes) (start : Nat) (bytes : Bytes) : Bytes :=
  buffer.take start ++ bytes ++ buffer.drop (start + bytes.length)

/-- A buffer of zeros. -/
def zeros (length : Nat) : Bytes := List.replicate length 0

@[simp] theorem zeros_length (length : Nat) : (zeros length).length = length := List.length_replicate

@[simp] theorem zeros_zero : zeros 0 = [] := rfl

theorem zeros_add (m n : Nat) : zeros (m + n) = zeros m ++ zeros n := List.replicate_add ..

/-- Fills the next piece of a buffer, after a gap. -/
theorem copyFrom_append {filled bytes : Bytes} {start total : Nat} (gap rest : Nat)
    (hstart : filled.length + gap = start) (htotal : gap + (bytes.length + rest) = total) :
    copyFrom (filled ++ zeros total) start bytes = (filled ++ (zeros gap ++ bytes)) ++ zeros rest := by
  subst hstart htotal
  have htake : (filled ++ zeros (gap + (bytes.length + rest))).take (filled.length + gap) =
      filled ++ zeros gap := by
    rw [zeros_add, ← List.append_assoc, List.take_left' (by simp)]
  have hdrop : (filled ++ zeros (gap + (bytes.length + rest))).drop (filled.length + gap + bytes.length) =
      zeros rest := by
    rw [zeros_add, zeros_add, ← List.append_assoc, ← List.append_assoc, List.drop_left' (by simp; omega)]
  rw [copyFrom, htake, hdrop, List.append_assoc filled]

/-- Fills the next word of a buffer. -/
theorem copyFrom_word {words : List (BitVec 256)} {bytes : Bytes} {start total gap : Nat}
    (v : BitVec 256) (rest : Nat) (hbytes : zeros gap ++ bytes = word v)
    (hstart : 32 * words.length + gap = start) (htotal : 32 + rest = total) :
    copyFrom (words.flatMap word ++ zeros total) start bytes = (words ++ [v]).flatMap word ++ zeros rest := by
  have hlength := congrArg List.length hbytes
  rw [List.length_append, zeros_length, word_length] at hlength
  rw [copyFrom_append gap rest (by rw [flatMap_word_length]; exact hstart) (by omega), hbytes,
    List.flatMap_append, List.flatMap_singleton]

theorem digits_zero (k : Nat) : digits k 0 = zeros k := by
  induction k with
  | zero => rfl
  | succ k ih =>
    show digits k (0 / 256) ++ [0] = zeros (k + 1)
    rw [Nat.zero_div, ih, zeros_add]
    rfl

/-- A number with leading zeros. -/
theorem digits_add (j k : Nat) : ∀ {n : Nat}, n < 256 ^ k → digits (j + k) n = zeros j ++ digits k n := by
  induction k with
  | zero =>
    intro n h
    obtain rfl : n = 0 := by simpa using h
    simp [digits_zero, digits]
  | succ k ih =>
    intro n h
    show digits (j + k) (n / 256) ++ [BitVec.ofNat 8 n] = zeros j ++ (digits k (n / 256) ++ [BitVec.ofNat 8 n])
    rw [ih (by rw [Nat.div_lt_iff_lt_mul (by omega)]; rwa [pow_succ] at h), List.append_assoc]

/-- The most significant digits. -/
theorem take_digits (j k : Nat) : ∀ n : Nat, (digits (j + k) n).take j = digits j (n / 256 ^ k) := by
  induction k with
  | zero =>
    intro n
    rw [Nat.add_zero, pow_zero, Nat.div_one, List.take_of_length_le (by simp)]
  | succ k ih =>
    intro n
    show (digits (j + k) (n / 256) ++ [BitVec.ofNat 8 n]).take j = _
    rw [List.take_append_of_le_length (by simp), ih, Nat.div_div_eq_div_mul, pow_succ']

theorem value_append_zeros (bytes : Bytes) (k : Nat) : value (bytes ++ zeros k) = value bytes * 256 ^ k := by
  induction k with
  | zero => simp [zeros]
  | succ k ih =>
    rw [zeros_add, ← List.append_assoc, value, List.foldl_append]
    show value (bytes ++ zeros k) * 256 + 0 = _
    rw [ih, pow_succ, Nat.mul_assoc, Nat.add_zero]

end Bytes
