/-
The FROST wrappers of the validator, `validator/src/frost`.

The arithmetic is in the crates `frost_secp256k1`, `frost_core` and `k256`.  Their functions
are the fields of `FrostCrate`, on records that have the fields the crates document; the ECDH
of `frost/ecdh.rs` is two more.  What the wrappers make of them is embedded here: which values
are decoded and refused, which packages are looked up, and which error is reported.

A curve point has its affine coordinates, and zero coordinates are the identity, as in
`frost/marshal.rs`.
-/
import Safenet.Contracts.Coordinator
import Safenet.Lib.Table
import Safenet.Validator.Group

namespace Safenet.Validator

open Contracts (Secp256k1.Point FROST.Signature FROST.SignatureShare Keccak)
open Contracts.FROSTCoordinator (KeyGenCommitment KeyGenSecretShare)
open Contracts.Coordinator (SignNonces SignSelection)
open Fallible (require)

abbrev Point := Secp256k1.Point

abbrev Signature := FROST.Signature

abbrev Scalar := B256

abbrev Identifier := B256

/-- `VerifiableSecretSharingCommitment`: the coefficients, lowest first. -/
abbrev VssCommitment := List Point

/-! ### The records of the crates -/

/-- An error of the crates. -/
inductive FrostError where
  | unknownIdentifier
  | incorrectCommitment
  | incorrectNumberOfShares
  | incorrectPackage
  | malformedVerifyingKey
  | malformedScalar
  | malformedElement
  | other
deriving DecidableEq, Repr

/-- Whose fault an error is. -/
inductive Error where
  | unexpected (cause : FrostError)
  | participant (cause : FrostError) (culprit : Address)
deriving DecidableEq, Repr

namespace Round1

structure SecretPackage where
  identifier : Identifier
  coefficients : List Scalar
  commitment : VssCommitment
  minSigners : Nat
  maxSigners : Nat
deriving DecidableEq, Repr

structure Package where
  commitment : VssCommitment
  proofOfKnowledge : Signature
deriving DecidableEq, Repr

end Round1

namespace Round2

structure SecretPackage where
  identifier : Identifier
  commitment : VssCommitment
  secretShare : Scalar
  minSigners : Nat
  maxSigners : Nat
deriving DecidableEq, Repr

structure Package where
  signingShare : Scalar
deriving DecidableEq, Repr

end Round2

structure KeyPackage where
  identifier : Identifier
  signingShare : Scalar
  verifyingShare : Point
  verifyingKey : Point
  minSigners : Nat
deriving DecidableEq, Repr

structure SigningCommitments where
  hidingPoint : Point
  bindingPoint : Point
deriving DecidableEq, Repr

/-- A secret nonce pair, with its commitments. -/
structure SigningNonces where
  hidingNonce : Scalar
  bindingNonce : Scalar
  commitments : SigningCommitments
deriving DecidableEq, Repr

structure SigningPackage where
  commitments : Table Identifier SigningCommitments
  message : B256
deriving DecidableEq

/-- `ecdh::Package`: an encryption key with the proof of its possession. -/
structure EncryptionPackage where
  publicKey : Point
  proofOfPossession : Signature
deriving DecidableEq, Repr

/-- The functions of the crates. -/
structure FrostCrate where
  /-- `Identifier::derive`. -/
  identifier : Address → Identifier
  /-- `ecdh::Package::verified_public_key`. -/
  verifiedPublicKey : EncryptionPackage → Identifier → Except FrostError Point
  /-- `EncryptionKey::ecdh`. -/
  ecdh : Scalar → Point → B256 → B256
  /-- `keys::dkg::verify_proof_of_knowledge`. -/
  verifyProofOfKnowledge : Identifier → VssCommitment → Signature → Except FrostError PUnit
  /-- `keys::dkg::part2`. -/
  part2 : Round1.SecretPackage → Table Identifier Round1.Package →
    Except FrostError (Round2.SecretPackage × Table Identifier Round2.Package)
  /-- `keys::dkg::part3`. -/
  part3 : Round2.SecretPackage → Table Identifier Round1.Package → Table Identifier Round2.Package →
    Except FrostError KeyPackage
  /-- `keys::sum_commitments`. -/
  sumCommitments : List VssCommitment → Except FrostError VssCommitment
  /-- `VerifyingKey::from_commitment`. -/
  verifyingKey : VssCommitment → Except FrostError Point
  /-- `VerifyingShare::from_commitment`. -/
  verifyingShare : Identifier → VssCommitment → Point
  /-- `SecretShare::verify`. -/
  verifySecretShare : Identifier → Scalar → VssCommitment → Except FrostError PUnit
  /-- `round2::sign`. -/
  sign : SigningPackage → SigningNonces → KeyPackage → Except FrostError Scalar
  /-- `compute_binding_factor_list`. -/
  bindingFactors : SigningPackage → Point → Except FrostError (Table Identifier Scalar)
  /-- `derive_interpolating_value`. -/
  interpolatingValue : Identifier → SigningPackage → Except FrostError Scalar
  /-- `hiding + binding * factor`. -/
  commitmentShare : SigningCommitments → Scalar → Point
  /-- `compute_group_commitment`. -/
  signingCommitment : SigningPackage → Table Identifier Scalar → Except FrostError Point

/-! ### Decoding, `marshal.rs` -/

/-- A point on the curve, or the identity. -/
def frostPoint (point : Point) : Except FrostError Point := do
  require ((point.x = 0 && point.y = 0) ||
    Contracts.Secp256k1.satisfiesCurveEquation point.x.toNat point.y.toNat) .malformedElement
  return point

/-- A canonical scalar. -/
def frostScalar (scalar : B256) : Except FrostError Scalar := do
  require (scalar.toNat < Contracts.Secp256k1.N) .malformedScalar
  return scalar

def frostSignature (signature : Signature) : Except FrostError Signature := do
  let r ← frostPoint signature.r
  let z ← frostScalar signature.z
  return { r, z }

def frostCommitment (commitment : KeyGenCommitment) :
    Except FrostError (EncryptionPackage × Round1.Package) := do
  let publicKey ← frostPoint commitment.q
  let proofOfPossession ← frostSignature commitment.pop
  let coefficients ← commitment.c.mapM frostPoint
  let proofOfKnowledge ← frostSignature commitment.pok
  return ({ publicKey, proofOfPossession }, { commitment := coefficients, proofOfKnowledge })

def frostSigningCommitments (nonces : SignNonces) : Except FrostError SigningCommitments := do
  let hidingPoint ← frostPoint nonces.d
  let bindingPoint ← frostPoint nonces.e
  require (hidingPoint ≠ Contracts.Secp256k1.zero && bindingPoint ≠ Contracts.Secp256k1.zero)
    .malformedElement
  return { hidingPoint, bindingPoint }

/-! ### Key generation, `keygen.rs` -/

/-- What a participant samples. -/
structure Secrets where
  encryptionKey : Scalar
  encryptionPackage : EncryptionPackage
  secretPackage : Round1.SecretPackage
  proofOfKnowledge : Signature
deriving DecidableEq, Repr

/-- The commitment to publish. -/
def Secrets.commitment (secrets : Secrets) : KeyGenCommitment where
  q := secrets.encryptionPackage.publicKey
  pop := secrets.encryptionPackage.proofOfPossession
  c := secrets.secretPackage.commitment
  pok := secrets.proofOfKnowledge

/-- A verified public commitment of a participant. -/
structure VerifiedCommitment where
  encryptionPublicKey : Point
  package : Round1.Package
deriving DecidableEq, Repr

structure GroupCommitments where
  commitments : Table Address VerifiedCommitment
  groupCommitment : VssCommitment
  verifyingKey : Point
deriving DecidableEq

def GroupCommitments.groupKey (commitments : GroupCommitments) : Point := commitments.verifyingKey

/-- A participant's own state after sharing. -/
structure SharingState where
  encryptionKey : Scalar
  secretPackage : Round2.SecretPackage
  peerPackages : Table Identifier Round2.Package
  groupCommitments : GroupCommitments
deriving DecidableEq

/-- A validated signing share from a participant. -/
structure VerifiedShare where
  package : Round2.Package
deriving DecidableEq, Repr

/-- A participant's share of the group signing key. -/
structure KeyShare where
  package : KeyPackage
deriving DecidableEq, Repr

def KeyShare.groupThreshold (share : KeyShare) : Nat := share.package.minSigners

section Keygen

variable (crate : FrostCrate)

def verifyCommitment (participant : Address) (commitment : KeyGenCommitment) :
    Except Error VerifiedCommitment :=
  let identifier := crate.identifier participant
  (do
    let (encryptionPackage, package) ← frostCommitment commitment
    let encryptionPublicKey ← crate.verifiedPublicKey encryptionPackage identifier
    crate.verifyProofOfKnowledge identifier package.commitment package.proofOfKnowledge
    return VerifiedCommitment.mk encryptionPublicKey package).mapError (Error.participant · participant)

/-- The sum of all commitments. -/
def groupCommitment (commitments : Table Address VerifiedCommitment) : Except FrostError VssCommitment :=
  crate.sumCommitments (commitments.rows.map fun row => row.2.package.commitment)

def groupCommitments (commitments : Table Address VerifiedCommitment) :
    Except Error GroupCommitments := do
  let groupCommitment ← (groupCommitment crate commitments).mapError Error.unexpected
  let verifyingKey ← (crate.verifyingKey groupCommitment).mapError Error.unexpected
  return { commitments, groupCommitment, verifyingKey }

/-- The items by identifier. -/
def byIdentifier {T P : Type} (items : Table Address T) (select : T → P) : Table Identifier P :=
  items.rows.foldl (fun peers row => peers.insert (crate.identifier row.1) (select row.2)) Table.empty

/-- The items by identifier without the one of `me`, and that one. -/
def peerPackages {T P : Type} (me : Identifier) (items : Table Address T) (select : T → P) :
    Except Error (Table Identifier P × P) :=
  match (byIdentifier crate items select).lookup me with
  | some mine => .ok ((byIdentifier crate items select).erase me, mine)
  | none => .error (.unexpected .unknownIdentifier)

/-- A share encrypted for a peer. -/
def encryptShare (encryptionKey : Scalar) (round2Packages : Table Identifier Round2.Package)
    (peer : Identifier × Point) : Except FrostError B256 :=
  match round2Packages.lookup peer.1 with
  | some package => .ok (crate.ecdh encryptionKey peer.2 package.signingShare)
  | none => .error .unknownIdentifier

/-- The peers with their encryption keys, by ascending address. -/
def encryptionPeers (me : Identifier) (commitments : Table Address VerifiedCommitment) :
    List (Identifier × Point) :=
  (commitments.rows.map fun row => (crate.identifier row.1, row.2.encryptionPublicKey)).filter
    fun peer => peer.1 ≠ me

/-- The part of `generate_secret_shares` whose errors are nobody's fault. -/
def sharesFor (secrets : Secrets) (commitments : Table Address VerifiedCommitment)
    (peers : Table Identifier Round1.Package) (mine : Round1.Package) :
    Except FrostError (SharingState × KeyGenSecretShare) := do
  let round2 ← crate.part2 secrets.secretPackage peers
  require (mine.commitment = round2.1.commitment) .incorrectCommitment
  let groupCommitment ← groupCommitment crate commitments
  let verifyingKey ← crate.verifyingKey groupCommitment
  let encryptedShares ← (encryptionPeers crate round2.1.identifier commitments).mapM
    (encryptShare crate secrets.encryptionKey round2.2)
  return (SharingState.mk secrets.encryptionKey round2.1 round2.2
      { commitments, groupCommitment, verifyingKey },
    KeyGenSecretShare.mk (crate.verifyingShare secrets.secretPackage.identifier groupCommitment)
      encryptedShares)

def generateSecretShares (secrets : Secrets) (commitments : Table Address VerifiedCommitment) :
    Except Error (SharingState × KeyGenSecretShare) := do
  let packages ← peerPackages crate secrets.secretPackage.identifier commitments
    VerifiedCommitment.package
  (sharesFor crate secrets commitments packages.1 packages.2).mapError Error.unexpected

/-- Checks the public part of a share broadcast, and returns its encrypted shares. -/
def verifySecretShare (commitments : GroupCommitments) (participant : Address)
    (share : KeyGenSecretShare) : Except Error (List B256) := do
  require (commitments.commitments.lookup participant).isSome (.unexpected .unknownIdentifier)
  (do
    let y ← frostPoint share.y
    require (y = crate.verifyingShare (crate.identifier participant) commitments.groupCommitment)
      FrostError.malformedVerifyingKey).mapError (Error.participant · participant)
  return share.f

/-- `VerifiedShare::new`. -/
def newVerifiedShare (me : Identifier) (peer : Address) (commitment : VssCommitment)
    (secretShare : B256) : Except Error VerifiedShare :=
  (do
    let secretShare ← frostScalar secretShare
    crate.verifySecretShare me secretShare commitment
    return VerifiedShare.mk ⟨secretShare⟩).mapError (Error.participant · peer)

/-- The share a participant encrypted for `me`, with the commitment to check it against. -/
def decryptShare (sharing : SharingState) (participant : Address) (encryptedShares : List B256) :
    Except FrostError (VssCommitment × B256) :=
  let me := sharing.secretPackage.identifier
  let commitments := sharing.groupCommitments.commitments
  if crate.identifier participant = me then
    .ok (sharing.secretPackage.commitment, sharing.secretPackage.secretShare)
  else
    match commitments.lookup participant with
    | none => .error .unknownIdentifier
    | some round1 =>
        -- the shares of a participant are for the others, by ascending address
        match ((commitments.rows.map Prod.fst).filter (· ≠ participant)).findIdx?
            fun address => crate.identifier address = me with
        | none => .error .unknownIdentifier
        | some index =>
            match encryptedShares[index]? with
            | none => .error .incorrectNumberOfShares
            | some encryptedShare => .ok (round1.package.commitment,
                crate.ecdh sharing.encryptionKey round1.encryptionPublicKey encryptedShare)

def verifyEncryptedSecretShare (sharing : SharingState) (participant : Address)
    (encryptedShares : List B256) : Except Error VerifiedShare := do
  let share ← (decryptShare crate sharing participant encryptedShares).mapError Error.unexpected
  newVerifiedShare crate sharing.secretPackage.identifier participant share.1 share.2

def verifyRevealedSecretShare (commitments : GroupCommitments) (plaintiff accused : Address)
    (secretShare : B256) : Except Error VerifiedShare :=
  match commitments.commitments.lookup accused with
  | none => .error (.unexpected .unknownIdentifier)
  | some commitment => newVerifiedShare crate (crate.identifier plaintiff) accused
      commitment.package.commitment secretShare

def revealSecretShare (sharing : SharingState) (peer : Address) : Except Error B256 :=
  match sharing.peerPackages.lookup (crate.identifier peer) with
  | some package => .ok package.signingShare
  | none => .error (.unexpected .unknownIdentifier)

/-- `keygen::finalize`. -/
def finalizeKeyShare (sharing : SharingState) (shares : Table Address VerifiedShare) :
    Except Error KeyShare := do
  let me := sharing.secretPackage.identifier
  let round1 ← peerPackages crate me sharing.groupCommitments.commitments VerifiedCommitment.package
  let round2 ← peerPackages crate me shares VerifiedShare.package
  require (round2.2.signingShare = sharing.secretPackage.secretShare) (.unexpected .incorrectPackage)
  let package ← (crate.part3 sharing.secretPackage round1.1 round2.1).mapError Error.unexpected
  return { package }

end Keygen

/-! ### Signing, `sign.rs` -/

/-- A signer's validated nonce commitments. -/
structure CommittedNonces where
  commitments : SigningCommitments
deriving DecidableEq, Repr

def verifyCommittedNonces (participant : Address) (nonces : SignNonces) :
    Except Error CommittedNonces :=
  (do
    let commitments ← frostSigningCommitments nonces
    return CommittedNonces.mk commitments).mapError (Error.participant · participant)

/-- What a participant submits to `signShare`. -/
structure SignatureShare where
  selection : SignSelection
  share : FROST.SignatureShare
  proof : List B256
deriving DecidableEq, Repr

/-- The leaf of a participant in the tree of the signers. -/
def signerLeaf (keccak : Keccak) (participant : Address) (r : Point) (l : B256) (groupR : Point) :
    B256 :=
  Contracts.hashWords keccak
    [Contracts.toWord participant, r.x, r.y, l, groupR.x, groupR.y]

section Sign

variable (crate : FrostCrate) (keccak : Keccak)

/-- A signer's commitment share and Lagrange coefficient. -/
structure Signer where
  address : Address
  r : Point
  l : Scalar
deriving DecidableEq

def signerOf (package : SigningPackage) (factors : Table Identifier Scalar)
    (row : Address × CommittedNonces) : Except FrostError Signer :=
  match factors.lookup (crate.identifier row.1) with
  | none => .error .unknownIdentifier
  | some factor => do
      let l ← crate.interpolatingValue (crate.identifier row.1) package
      return Signer.mk row.1 (crate.commitmentShare row.2.commitments factor) l

/-- The signers by identifier. -/
def signersTable (signers : List Signer) : Table Identifier Signer :=
  signers.foldl (fun t signer => t.insert (crate.identifier signer.address) signer) Table.empty

/-- This participant among the signers. -/
def ownSigner (signers : Table Identifier Signer) (me : Identifier) : Except FrostError Signer :=
  match signers.lookup me with
  | none => .error .unknownIdentifier
  | some signer => .ok signer

/-- The part of `signature_share` whose errors are nobody's fault. -/
def signPackage (key : KeyPackage) (nonces : SigningNonces) (committed : Table Address CommittedNonces)
    (package : SigningPackage) : Except FrostError SignatureShare := do
  let z ← crate.sign package nonces key
  let factors ← crate.bindingFactors package key.verifyingKey
  let rows ← committed.rows.mapM (signerOf crate package factors)
  let signers := signersTable crate rows
  let groupR ← crate.signingCommitment package factors
  let tree := MerkleTree.build keccak
    (signers.rows.map fun row => signerLeaf keccak row.2.address row.2.r row.2.l groupR)
  let own ← ownSigner signers key.identifier
  let index := (signers.rows.filter fun row => row.1 < key.identifier).length
  return SignatureShare.mk ⟨groupR, tree.root⟩ ⟨own.r, z, own.l⟩ (tree.proof index)

def signatureShare (keyShare : KeyShare) (nonces : SigningNonces)
    (committed : Table Address CommittedNonces) (message : B256) : Except Error SignatureShare :=
  (signPackage crate keccak keyShare.package nonces committed
    ⟨byIdentifier crate committed CommittedNonces.commitments, message⟩).mapError Error.unexpected

end Sign

end Safenet.Validator
