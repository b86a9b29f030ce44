/-
Verification in `contracts/src/libraries/FROST.sol`, with `mulmuladd`, `eq` and `serialize`
of `contracts/src/libraries/Secp256k1.sol`.

The hash functions and `ecrecover` are precompiles of the EVM and stay parameters.
-/
import Safenet.Contracts.Secp256k1

namespace Safenet.Contracts

open Fallible (require)

namespace FROST

/-- The precompiles that verification rests on. -/
structure Precompiles where
  keccak256 : Keccak
  sha256 : Bytes → B256
  /-- `ecrecover(hash, v, r, s)`, zero if nothing is recovered. -/
  ecrecover : B256 → Nat → B256 → B256 → Address

/-- Why a verification reverted. -/
inductive Error where
  | curve (error : Secp256k1.Error)
  | unsupportedMulMulAddInput
  | invalidMulMulAddWitness
  | invalidScalar
  /-- The `assert` in `identifier`. -/
  | assertion
deriving DecidableEq, Repr

/-- A participant's part of a group signature, with its Lagrange coefficient. -/
structure SignatureShare where
  r : Secp256k1.Point
  z : B256
  l : B256
deriving DecidableEq, Repr

end FROST

namespace Secp256k1

/-- The order of the generator. -/
def N : Nat := 0xfffffffffffffffffffffffffffffffebaaedce6af48a03bbfd25e8cd0364141

/-- Compares two points that are on the curve or zero. -/
def eq (p q : Point) : Except Error Bool := do
  let (px, py) ← unpack p
  let (qx, qy) ← unpack q
  return px = qx && py = qy

/-- The compressed form: a byte for the parity of `y`, then `x`. -/
def serialize (p : Point) : Except Error Bytes := do
  let _ ← requireNonZero p
  return BitVec.ofNat 8 (2 + p.y.toNat % 2) :: Bytes.word p.x

/-- The address of a public key. -/
def toAddress (keccak256 : Keccak) (x y : Nat) : Address :=
  (keccak256 (Bytes.word (BitVec.ofNat 256 x) ++ Bytes.word (BitVec.ofNat 256 y))).setWidth 160

/-- Checks `z⋅G - e⋅P = R`, through `ecrecover(z⋅Px, v, Px, e⋅Px) = address(-R)`. -/
def mulmuladd (precompiles : FROST.Precompiles) (z e : Nat) (p r : Point) :
    Except FROST.Error PUnit := do
  let _ ← (requireNonZero p).mapError FROST.Error.curve
  let _ ← (requireNonZero r).mapError FROST.Error.curve
  let minusR := precompiles.ecrecover (BitVec.ofNat 256 (mulmod z p.x.toNat N)) (p.y.toNat % 2 + 27)
    p.x (BitVec.ofNat 256 (mulmod e p.x.toNat N))
  require (minusR ≠ 0) .unsupportedMulMulAddInput
  require (minusR = toAddress precompiles.keccak256 r.x.toNat (P - r.y.toNat))
    .invalidMulMulAddWitness

end Secp256k1

namespace FROST

open Secp256k1 (N)

/-- The first two blocks of `expand_message_xmd`, which cover the 48 bytes `_hashToField` asks for. -/
def expandMessageXmd (precompiles : Precompiles) (message dst : Bytes) : B256 × B256 :=
  let dst := dst ++ [BitVec.ofNat 8 dst.length]
  let b₀ := precompiles.sha256 (List.replicate 64 0 ++ message ++ [0, 48, 0] ++ dst)
  let b₁ := precompiles.sha256 (Bytes.word b₀ ++ [1] ++ dst)
  let b₂ := precompiles.sha256 (Bytes.word (b₀ ^^^ b₁) ++ [2] ++ dst)
  (b₁, b₂)

/-- Hashes a message to a scalar. -/
def hashToField (precompiles : Precompiles) (message dst : Bytes) : Nat :=
  let (b₁, b₂) := expandMessageXmd precompiles message dst
  let e := Secp256k1.mulmod b₁.toNat (2 ^ 128) N
  Secp256k1.addmod e (b₂.toNat / 2 ^ 128) N

/-- The challenge of a signature with commitment `r` under key `y`. -/
def challenge (precompiles : Precompiles) (r y : Secp256k1.Point) (message : B256) :
    Except Error Nat := do
  let r ← (Secp256k1.serialize r).mapError Error.curve
  let y ← (Secp256k1.serialize y).mapError Error.curve
  return hashToField precompiles (r ++ y ++ Bytes.word message)
    (Bytes.ascii "FROST-secp256k1-SHA256-v1chal")

/-- Verifies a group signature. -/
def verify (precompiles : Precompiles) (y : Secp256k1.Point) (signature : Signature)
    (message : B256) : Except Error PUnit := do
  require (signature.z.toNat < N) .invalidScalar
  let c ← challenge precompiles signature.r y message
  Secp256k1.mulmuladd precompiles signature.z.toNat c y signature.r

/-- Verifies a signature share. -/
def verifyShare (precompiles : Precompiles) (group r participant : Secp256k1.Point)
    (share : SignatureShare) (message : B256) : Except Error PUnit := do
  require (share.z.toNat < N) .invalidScalar
  let c ← challenge precompiles r group message
  let cl := Secp256k1.mulmod c share.l.toNat N
  Secp256k1.mulmuladd precompiles share.z.toNat cl participant share.r

/-- The identifier of a participant; a hash that gives zero is taken to be infeasible. -/
def identifier (precompiles : Precompiles) (participant : Address) : Except Error Nat := do
  let id := hashToField precompiles (Bytes.digits 20 participant.toNat)
    (Bytes.ascii "FROST-secp256k1-SHA256-v1id")
  require (id ≠ 0) .assertion
  return id

/-- The challenge of a proof of knowledge. -/
def keyGenChallenge (precompiles : Precompiles) (participant : Address) (phi r : Secp256k1.Point) :
    Except Error Nat := do
  let id ← identifier precompiles participant
  let phi ← (Secp256k1.serialize phi).mapError Error.curve
  let r ← (Secp256k1.serialize r).mapError Error.curve
  return hashToField precompiles (Bytes.word (BitVec.ofNat 256 id) ++ phi ++ r)
    (Bytes.ascii "FROST-secp256k1-SHA256-v1dkg")

/-- Verifies a participant's proof that it knows the discrete logarithm of `phi`. -/
def verifyProofOfKnowledge (precompiles : Precompiles) (participant : Address)
    (phi : Secp256k1.Point) (proof : Signature) : Except Error PUnit := do
  require (proof.z.toNat < N) .invalidScalar
  let c ← keyGenChallenge precompiles participant phi proof.r
  Secp256k1.mulmuladd precompiles proof.z.toNat c phi proof.r

end FROST

end Safenet.Contracts
