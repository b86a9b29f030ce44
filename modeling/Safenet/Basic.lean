/-
The words that every part of the system shares.
-/
import Mathlib.Data.BitVec
import Mathlib.Order.Defs.LinearOrder

namespace Safenet

/-- A 20 byte account address. -/
abbrev Address := BitVec 160

/-- A 32 byte word: a hash, an identifier or a `uint256`. -/
abbrev B256 := BitVec 256

/-- Words are ordered as numbers. -/
instance instLinearOrderBitVec {w : Nat} : LinearOrder (BitVec w) where
  le_refl _ := Nat.le_refl _
  le_trans _ _ _ := Nat.le_trans
  le_antisymm _ _ h h' := BitVec.eq_of_toNat_eq (Nat.le_antisymm h h')
  le_total _ _ := Nat.le_total _ _
  lt_iff_le_not_ge _ _ := Nat.lt_iff_le_and_not_ge
  toDecidableLE := inferInstance
  toDecidableEq := inferInstance
  toDecidableLT := inferInstance

instance instLawfulBEqAddress : LawfulBEq Address := inferInstance

instance instLawfulBEqB256 : LawfulBEq B256 := inferInstance

/-- `u64::saturating_add`. -/
def saturatingAdd (a b : Nat) : Nat := min (a + b) (2 ^ 64 - 1)

/-- `u64::saturating_mul`. -/
def saturatingMul (a b : Nat) : Nat := min (a * b) (2 ^ 64 - 1)

end Safenet
