/-
The affine curve arithmetic of `contracts/src/libraries/Secp256k1.sol`.

Coordinates are words; `addmod` and `mulmod` work on unbounded intermediate results,
and the `unchecked` differences `P - x` are only taken of validated coordinates.
-/
import Safenet.Contracts.Evm

namespace Safenet.Contracts

open Fallible (require)

namespace Secp256k1

/-- A point; the zero value is the point at infinity. -/
structure Point where
  x : B256
  y : B256
deriving DecidableEq, Repr

/-- Why a curve operation reverted. -/
inductive Error where
  | notOnCurve
  /-- The `assert` in `_divmod`: division by zero. -/
  | assertion
deriving DecidableEq, Repr

/-- The coefficient `b` of the curve. -/
def B : Nat := 7

/-- The field modulus. -/
def P : Nat := 0xfffffffffffffffffffffffffffffffffffffffffffffffffffffffefffffc2f

/-- The point at infinity. -/
def zero : Point := ⟨0, 0⟩

def addmod (a b m : Nat) : Nat := (a + b) % m

def mulmod (a b m : Nat) : Nat := a * b % m

/-- The `modexp` precompile, by repeated squaring over the bits of the exponent. -/
def modexp (fuel base exponent m : Nat) : Nat :=
  match fuel with
  | 0 => 1 % m
  | fuel + 1 =>
      if exponent = 0 then 1 % m
      else
        let half := modexp fuel (base * base % m) (exponent / 2) m
        if exponent % 2 = 1 then base * half % m else half

/-- Both coordinates are in the field and satisfy the curve equation. -/
def satisfiesCurveEquation (x y : Nat) : Bool :=
  mulmod y y P = addmod (mulmod x (mulmod x x P) P) B P && (x < P && y < P)

/-- The point is on the curve and is not the point at infinity. -/
def requireNonZero (p : Point) : Except Error PUnit :=
  require (satisfiesCurveEquation p.x.toNat p.y.toNat) .notOnCurve

/-- The coordinates of a point that is on the curve or zero. -/
def unpack (p : Point) : Except Error (Nat × Nat) := do
  require ((p.x = 0 && p.y = 0) || satisfiesCurveEquation p.x.toNat p.y.toNat) .notOnCurve
  return (p.x.toNat, p.y.toNat)

/-- Division in the field, by Fermat's little theorem. -/
def divmod (x y p : Nat) : Except Error Nat := do
  require (y ≠ 0) .assertion
  return mulmod x (modexp 256 y (p - 2) p) p

/-- The point with the given coordinates. -/
def point (x y : Nat) : Point := ⟨BitVec.ofNat 256 x, BitVec.ofNat 256 y⟩

/-- The third point on the line with slope `l` through `P` and `Q`, mirrored. -/
def chord (px py qx l : Nat) : Point :=
  let x := addmod (mulmod l l P) (P - addmod px qx P) P
  point x (addmod (mulmod (addmod px (P - x) P) l P) (P - py) P)

/-- `P + Q`. -/
def add (p q : Point) : Except Error Point := do
  let (px, py) ← unpack p
  let (qx, qy) ← unpack q
  if px = 0 ∧ py = 0 then return point qx qy
  else if qx = 0 ∧ qy = 0 then return point px py
  else if px ≠ qx then do
    let l ← divmod (addmod qy (P - py) P) (addmod qx (P - px) P) P
    return chord px py qx l
  else if py = qy then do
    let l ← divmod (mulmod 3 (mulmod px px P) P) (addmod py py P) P
    return chord px py qx l
  else return zero

end Secp256k1

namespace FROST

/-- A group signature. -/
structure Signature where
  r : Secp256k1.Point
  z : B256
deriving DecidableEq, Repr

end FROST

end Safenet.Contracts
