/-
`expand_message_xmd` of RFC 9380, section 5.3.1, for any hash function.

The names are those of the RFC.  Its `I2OSP` is `Bytes.digits`.
-/
import Safenet.Lib.Bytes

namespace ExpandMessage

/-- A hash function with `b_in_bytes` bytes of output, on blocks of `s_in_bytes` bytes. -/
structure HashFunction where
  hash : Bytes → Bytes
  outputSize : Nat
  blockSize : Nat
  length_hash : ∀ input, (hash input).length = outputSize
  outputSize_pos : 0 < outputSize

/-- `strxor`. -/
def strxor (a b : Bytes) : Bytes := List.zipWith (· ^^^ ·) a b

/-- `DST_prime`. -/
def dstPrime (dst : Bytes) : Bytes := dst ++ Bytes.digits 1 dst.length

variable (H : HashFunction)

/-- `msg_prime`. -/
def msgPrime (msg dst : Bytes) (length : Nat) : Bytes :=
  Bytes.digits H.blockSize 0 ++ msg ++ Bytes.digits 2 length ++ Bytes.digits 1 0 ++ dstPrime dst

/-- `b_1`, `b_2` and so on, from `b_0`: `block b₀ dst n` is `b_(n + 1)`. -/
def block (b₀ dst : Bytes) : Nat → Bytes
  | 0 => H.hash (b₀ ++ Bytes.digits 1 1 ++ dstPrime dst)
  | n + 1 => H.hash (strxor b₀ (block b₀ dst n) ++ Bytes.digits 1 (n + 2) ++ dstPrime dst)

/-- `b_1 || ... || b_n`. -/
def blocks (b₀ dst : Bytes) (n : Nat) : Bytes := (List.range n).flatMap (block H b₀ dst)

/-- `ell`, the quotient of the two lengths, rounded up. -/
def ell (length : Nat) : Nat := (length + H.outputSize - 1) / H.outputSize

/-- `expand_message_xmd`, nothing where the RFC aborts. -/
def expandMessageXmd (msg dst : Bytes) (length : Nat) : Option Bytes :=
  if 255 < ell H length ∨ 65535 < length ∨ 255 < dst.length then none
  else some ((blocks H (H.hash (msgPrime H msg dst length)) dst (ell H length)).take length)

variable {H}

@[simp] theorem length_dstPrime (dst : Bytes) : (dstPrime dst).length = dst.length + 1 := by simp [dstPrime]

@[simp] theorem length_msgPrime (msg dst : Bytes) (length : Nat) :
    (msgPrime H msg dst length).length = H.blockSize + msg.length + dst.length + 4 := by
  simp only [msgPrime, List.length_append, Bytes.digits_length, length_dstPrime]
  omega

@[simp] theorem length_block (b₀ dst : Bytes) (n : Nat) : (block H b₀ dst n).length = H.outputSize := by
  cases n with
  | zero => exact H.length_hash _
  | succ n => exact H.length_hash _

@[simp] theorem blocks_zero (b₀ dst : Bytes) : blocks H b₀ dst 0 = [] := rfl

theorem blocks_succ (b₀ dst : Bytes) (n : Nat) :
    blocks H b₀ dst (n + 1) = blocks H b₀ dst n ++ block H b₀ dst n := by
  rw [blocks, List.range_succ, List.flatMap_append, List.flatMap_singleton]
  rfl

@[simp] theorem length_blocks (b₀ dst : Bytes) (n : Nat) :
    (blocks H b₀ dst n).length = n * H.outputSize := by
  induction n with
  | zero => simp
  | succ n ih => rw [blocks_succ, List.length_append, ih, length_block, Nat.succ_mul]

/-- As many blocks as are asked for hold as many bytes. -/
theorem le_ell_mul (length : Nat) : length ≤ ell H length * H.outputSize := by
  have hpos := H.outputSize_pos
  have hdiv := Nat.div_add_mod (length + H.outputSize - 1) H.outputSize
  have hmod := Nat.mod_lt (length + H.outputSize - 1) hpos
  rw [ell, Nat.mul_comm]
  omega

theorem eq_of_expandMessageXmd {msg dst uniform : Bytes} {length : Nat}
    (h : expandMessageXmd H msg dst length = some uniform) :
    uniform = (blocks H (H.hash (msgPrime H msg dst length)) dst (ell H length)).take length := by
  unfold expandMessageXmd at h
  by_cases habort : 255 < ell H length ∨ 65535 < length ∨ 255 < dst.length
  · rw [if_pos habort] at h
    cases h
  · rw [if_neg habort, Option.some.injEq] at h
    exact h.symm

theorem length_expandMessageXmd {msg dst uniform : Bytes} {length : Nat}
    (h : expandMessageXmd H msg dst length = some uniform) : uniform.length = length := by
  rw [eq_of_expandMessageXmd h, List.length_take, length_blocks]
  exact Nat.min_eq_left (le_ell_mul length)

/-! ### Exclusive or -/

theorem strxor_append {a b c d : Bytes} (h : a.length = c.length) :
    strxor (a ++ b) (c ++ d) = strxor a c ++ strxor b d := List.zipWith_append h

theorem strxor_digits (k : Nat) : ∀ m n : Nat,
    strxor (Bytes.digits k m) (Bytes.digits k n) = Bytes.digits k (m ^^^ n) := by
  induction k with
  | zero => intro m n; rfl
  | succ k ih =>
    intro m n
    have hdiv : (m ^^^ n) / 256 = m / 256 ^^^ n / 256 := Nat.xor_div_two_pow (n := 8)
    rw [Bytes.digits, Bytes.digits, strxor_append (by simp), ih, Bytes.digits, hdiv]
    simp [strxor, BitVec.ofNat_xor]

/-- On words, it is that of the words. -/
theorem strxor_word (v w : BitVec 256) : strxor (Bytes.word v) (Bytes.word w) = Bytes.word (v ^^^ w) := by
  rw [Bytes.word, Bytes.word, strxor_digits, Bytes.word, BitVec.toNat_xor]

end ExpandMessage
