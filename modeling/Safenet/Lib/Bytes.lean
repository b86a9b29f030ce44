/-
Big-endian byte strings.

A fixed-width encoding can be read back (`value_digits`), so it loses nothing, and a
concatenation of fixed-width words is as good as the list of the words
(`flatMap_word_injective`).  That is all the injectivity an ABI encoding of static
fields needs.
-/
import Mathlib.Data.BitVec
import Mathlib.Data.List.Induction

/-- A byte string. -/
abbrev Bytes := List (BitVec 8)

namespace Bytes

/-- The `k` low bytes of a number, most significant first. -/
def digits : Nat → Nat → Bytes
  | 0, _ => []
  | k + 1, n => digits k (n / 256) ++ [BitVec.ofNat 8 n]

/-- The number a byte string stands for. -/
def value (bytes : Bytes) : Nat := bytes.foldl (fun n b => n * 256 + b.toNat) 0

/-- A 32 byte word. -/
def word (v : BitVec 256) : Bytes := digits 32 v.toNat

/-- The characters of an ASCII string. -/
def ascii (s : String) : Bytes := s.toList.map fun c => BitVec.ofNat 8 c.toNat

@[simp] theorem digits_length (k : Nat) : ∀ n : Nat, (digits k n).length = k := by
  induction k with
  | zero => intro n; rfl
  | succ k ih => intro n; simp [digits, ih]

theorem value_digits (k : Nat) : ∀ n : Nat, value (digits k n) = n % 256 ^ k := by
  induction k with
  | zero => intro n; simp [digits, value, Nat.mod_one]
  | succ k ih =>
      intro n
      have hih : List.foldl (fun n (b : BitVec 8) => n * 256 + b.toNat) 0 (digits k (n / 256)) =
          n / 256 % 256 ^ k := ih (n / 256)
      simp only [digits, value, List.foldl_append, List.foldl_cons, List.foldl_nil, hih,
        BitVec.toNat_ofNat]
      have hmod : n % 256 ^ (k + 1) = n % 256 + 256 * (n / 256 % 256 ^ k) := by
        rw [pow_succ', Nat.mod_mul]
      omega

theorem value_concat (bytes : Bytes) (b : BitVec 8) :
    value (bytes ++ [b]) = value bytes * 256 + b.toNat := by
  rw [value, List.foldl_append]
  rfl

theorem value_append (bytes bytes' : Bytes) :
    value (bytes ++ bytes') = value bytes * 256 ^ bytes'.length + value bytes' := by
  induction bytes' using List.reverseRecOn with
  | nil => simp [value]
  | append_singleton bytes' b ih =>
      rw [← List.append_assoc, value_concat, ih, value_concat, List.length_append, List.length_singleton,
        pow_succ, Nat.add_mul, Nat.mul_assoc, Nat.add_assoc]

theorem value_lt (bytes : Bytes) : value bytes < 256 ^ bytes.length := by
  induction bytes using List.reverseRecOn with
  | nil => exact Nat.one_pos
  | append_singleton bytes b ih =>
      have hb := b.isLt
      rw [value_concat, List.length_append, List.length_singleton, pow_succ]
      omega

/-- **Every byte string is the encoding of its value.** -/
theorem digits_value (bytes : Bytes) : digits bytes.length (value bytes) = bytes := by
  induction bytes using List.reverseRecOn with
  | nil => rfl
  | append_singleton bytes b ih =>
      have hb := b.isLt
      have hdiv : (value bytes * 256 + b.toNat) / 256 = value bytes := by omega
      have hlast : BitVec.ofNat 8 (value bytes * 256 + b.toNat) = b := by
        apply BitVec.eq_of_toNat_eq
        rw [BitVec.toNat_ofNat]
        omega
      rw [value_concat, List.length_append, List.length_singleton, digits, hdiv, ih, hlast]

@[simp] theorem word_length (v : BitVec 256) : (word v).length = 32 := digits_length 32 _

theorem value_word (v : BitVec 256) : value (word v) = v.toNat := by
  rw [word, value_digits]
  exact Nat.mod_eq_of_lt v.isLt

/-- 32 bytes are a word. -/
theorem word_value {bytes : Bytes} (h : bytes.length = 32) :
    word (BitVec.ofNat 256 (value bytes)) = bytes := by
  have hlt : value bytes < 2 ^ 256 := by
    have hvalue := value_lt bytes
    rw [h] at hvalue
    omega
  rw [word, BitVec.toNat_ofNat, Nat.mod_eq_of_lt hlt, ← h]
  exact digits_value bytes

theorem word_injective {v w : BitVec 256} (h : word v = word w) : v = w := by
  have hval := congrArg value h
  rw [value_word, value_word] at hval
  exact BitVec.eq_of_toNat_eq hval

theorem flatMap_word_length (l : List (BitVec 256)) : (l.flatMap word).length = 32 * l.length := by
  induction l with
  | nil => rfl
  | cons v l ih =>
      rw [List.flatMap_cons, List.length_append, word_length, ih, List.length_cons]
      omega

/-- **A concatenation of words determines the words.** -/
theorem flatMap_word_injective (l : List (BitVec 256)) : ∀ l' : List (BitVec 256),
    l.length = l'.length → l.flatMap word = l'.flatMap word → l = l' := by
  induction l with
  | nil =>
      intro l' hlen _
      exact (List.eq_nil_of_length_eq_zero hlen.symm).symm
  | cons v l ih =>
      intro l' hlen h
      cases l' with
      | nil => cases hlen
      | cons w l' =>
          rw [List.flatMap_cons, List.flatMap_cons] at h
          obtain ⟨hword, hrest⟩ := List.append_inj h (by simp)
          rw [word_injective hword, ih l' (by simpa using hlen) hrest]

theorem flatMap_word_inj {l l' : List (BitVec 256)} (h : l.flatMap word = l'.flatMap word) :
    l = l' := by
  have hlength := congrArg List.length h
  rw [flatMap_word_length, flatMap_word_length] at hlength
  exact flatMap_word_injective l l' (by omega) h

theorem drop_flatMap_word (words : List (BitVec 256)) (n : Nat) :
    (words.flatMap word).drop (32 * n) = (words.drop n).flatMap word := by
  induction n generalizing words with
  | zero => rfl
  | succ n ih =>
    cases words with
    | nil => simp
    | cons v words =>
      rw [List.flatMap_cons, List.drop_succ_cons, ← ih, Nat.mul_add, Nat.mul_one, Nat.add_comm,
        ← List.drop_drop, List.drop_left' (word_length v)]

theorem take_flatMap_word (words : List (BitVec 256)) (n : Nat) :
    (words.flatMap word).take (32 * n) = (words.take n).flatMap word := by
  induction n generalizing words with
  | zero => rfl
  | succ n ih =>
    cases words with
    | nil => simp
    | cons v words =>
      rw [List.flatMap_cons, List.take_succ_cons, List.flatMap_cons, ← ih, Nat.mul_add, Nat.mul_one,
        Nat.add_comm, List.take_add, List.take_left' (word_length v), List.drop_left' (word_length v)]

/-- A byte string that can be cut into words. -/
theorem eq_flatMap_word (n : Nat) : ∀ bytes : Bytes, bytes.length = 32 * n →
    bytes = ((List.range n).map fun i =>
      BitVec.ofNat 256 (value ((bytes.drop (32 * i)).take 32))).flatMap word := by
  induction n with
  | zero =>
      intro bytes h
      exact List.eq_nil_of_length_eq_zero h
  | succ n ih =>
      intro bytes h
      have hrest := ih (bytes.drop 32) (by rw [List.length_drop]; omega)
      simp only [List.drop_drop] at hrest
      have hfirst : word (BitVec.ofNat 256 (value (bytes.take 32))) = bytes.take 32 := by
        refine word_value ?_
        rw [List.length_take]
        omega
      have hindex : ∀ i, 32 + 32 * i = 32 * (i + 1) := by
        intro i
        omega
      rw [List.range_succ_eq_map, List.map_cons, List.flatMap_cons, List.map_map]
      conv_lhs => rw [← List.take_append_drop 32 bytes, hrest]
      simp only [Nat.mul_zero, List.drop_zero, hfirst, Function.comp_def, Nat.succ_eq_add_one, hindex]

end Bytes
