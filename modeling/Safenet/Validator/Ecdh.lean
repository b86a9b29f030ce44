/-
The encryption of secret shares, `validator/src/frost/ecdh.rs`.

The curve arithmetic is that of the crate `k256`; a point has its affine coordinates, and those of the
identity are zero.  The 32 bytes of a share and of a coordinate are words, most significant byte first.
-/
import Safenet.Validator.Frost

namespace Safenet.Validator

/-- The curve arithmetic of `k256`. -/
structure Curve where
  generator : Point
  /-- A point times a scalar. -/
  mul : Point → Scalar → Point

/-- `EncryptionKey::public_key`. -/
def Curve.publicKey (curve : Curve) (encryptionKey : Scalar) : Point :=
  curve.mul curve.generator encryptionKey

/-- Encrypts or decrypts a message: the coordinate of the shared point is XORed into it. -/
def Curve.ecdh (curve : Curve) (senderPrivkey : Scalar) (receiverPubkey : Point) (msg : B256) : B256 :=
  let sharedSecret := (curve.mul receiverPubkey senderPrivkey).x
  msg ^^^ sharedSecret

/-- A key generation that has come to its secret shares: the commitments of all participants, and what
those of them have computed and published that run this code. -/
structure Ceremony where
  crate : FrostCrate
  curve : Curve
  ecdh_eq : crate.ecdh = curve.ecdh
  commitments : Table Address VerifiedCommitment
  /-- A group is counted in 16 bits. -/
  count : commitments.rows.length < 2 ^ 16
  /-- The participants that run this code. -/
  members : Finset Address
  secrets : Address → Secrets
  sharing : Address → SharingState
  share : Address → Contracts.FROSTCoordinator.KeyGenSecretShare
  /-- They have committed to the keys that they use. -/
  committed : ∀ a ∈ members, ∃ v, commitments.lookup a = some v ∧
    v.encryptionPublicKey = curve.publicKey (secrets a).encryptionKey
  identified : ∀ a ∈ members, (secrets a).secretPackage.identifier = crate.identifier a
  generated : ∀ a ∈ members,
    generateSecretShares crate (secrets a) commitments = .ok (sharing a, share a)

namespace Ceremony

/-- What the sender has published for the receiver: its shares are for the others, by ascending address. -/
def ciphertext (ceremony : Ceremony) (sender receiver : Address) : Option B256 :=
  (((ceremony.commitments.rows.map Prod.fst).filter (· ≠ sender)).findIdx? (· = receiver)).bind
    fun index => (ceremony.share sender).f[index]?

/-- The share itself, as the sender reveals it when it is asked to. -/
def plaintext (ceremony : Ceremony) (sender receiver : Address) : Option B256 :=
  (revealSecretShare ceremony.crate (ceremony.sharing sender) receiver).toOption

/-- The 32 bytes that were XORed into the share. -/
def keystream (ceremony : Ceremony) (sender receiver : Address) : Option B256 := do
  let ciphertext ← ceremony.ciphertext sender receiver
  let plaintext ← ceremony.plaintext sender receiver
  return ciphertext ^^^ plaintext

/-- The Diffie-Hellman value of two participants. -/
def diffieHellman (ceremony : Ceremony) (sender receiver : Address) : B256 :=
  (ceremony.curve.mul (ceremony.curve.publicKey (ceremony.secrets receiver).encryptionKey)
    (ceremony.secrets sender).encryptionKey).x

end Ceremony

end Safenet.Validator
