/-
Which encrypted shares have a keystream in common.

A share is encrypted with the Diffie-Hellman value of the sender and the receiver
(`keystream_eq_diffieHellman`), and that value is the same the other way round.  So the shares that two
participants send each other are encrypted with the same bytes, although a shared secret is meant for one
value only; any two other shares are not, as long as different pairs have different values.  What is
learnt from one plaintext about another is the same: an observer that knows neither key can explain the
ciphertexts by any symmetric assignment of values to pairs (`Explains`).
-/
import Safenet.Validator.Ecdh

namespace Safenet.Validator

open Fallible

/-! ### Symmetric values of pairs -/

/-- Only the two orders of a pair have the same value. -/
def Separated (members : Finset Address) (value : Address → Address → B256) : Prop :=
  ∀ a ∈ members, ∀ b ∈ members, ∀ c ∈ members, ∀ d ∈ members, a ≠ b → c ≠ d →
    value a b = value c d → (c = a ∧ d = b) ∨ (c = b ∧ d = a)

/-- What the values can be for all that an observer knows: one for every two members. -/
structure Explains (members : Finset Address) (value : Address → Address → B256) : Prop where
  symmetric : ∀ a ∈ members, ∀ b ∈ members, value a b = value b a
  separated : Separated members value

/-- The plaintext for one pair determines that for another, whatever the values are. -/
def Determines (members : Finset Address) (ciphertext : Address → Address → B256)
    (p q : Address × Address) : Prop :=
  ∀ value value', Explains members value → Explains members value' →
    ciphertext p.1 p.2 ^^^ value p.1 p.2 = ciphertext p.1 p.2 ^^^ value' p.1 p.2 →
    ciphertext q.1 q.2 ^^^ value q.1 q.2 = ciphertext q.1 q.2 ^^^ value' q.1 q.2

/-- There are more words than pairs. -/
theorem exists_unused {members : Finset Address} (hcount : members.card < 2 ^ 16)
    (value : Address → Address → B256) : ∃ fresh, ∀ a ∈ members, ∀ b ∈ members, value a b ≠ fresh := by
  let used : Finset Nat := (members ×ˢ members).image fun pair => (value pair.1 pair.2).toNat
  have hpairs : used.card ≤ members.card * members.card := by
    rw [← Finset.card_product]
    exact Finset.card_image_le
  have hsquare : members.card * members.card < 2 ^ 16 * 2 ^ 16 :=
    Nat.mul_lt_mul_of_lt_of_lt hcount hcount
  have hcard : used.card < (Finset.range (2 ^ 256)).card := by
    rw [Finset.card_range]
    omega
  obtain ⟨fresh, hword, hfresh⟩ := Finset.exists_mem_notMem_of_card_lt_card hcard
  refine ⟨BitVec.ofNat 256 fresh, fun a ha b hb heq => hfresh ?_⟩
  refine Finset.mem_image.mpr ⟨(a, b), Finset.mem_product.mpr ⟨ha, hb⟩, ?_⟩
  rw [heq, BitVec.toNat_ofNat]
  exact Nat.mod_eq_of_lt (Finset.mem_range.mp hword)

/-- The value of one pair, in both orders, replaced by another one. -/
def reassign (value : Address → Address → B256) (q : Address × Address) (fresh : B256)
    (a b : Address) : B256 :=
  if (a = q.1 ∧ b = q.2) ∨ (a = q.2 ∧ b = q.1) then fresh else value a b

theorem explains_reassign {members : Finset Address} {value : Address → Address → B256}
    (h : Explains members value) (q : Address × Address) {fresh : B256}
    (hfresh : ∀ a ∈ members, ∀ b ∈ members, value a b ≠ fresh) :
    Explains members (reassign value q fresh) := by
  constructor
  · intro a ha b hb
    have hpair : ((a = q.1 ∧ b = q.2) ∨ (a = q.2 ∧ b = q.1)) ↔ ((b = q.1 ∧ a = q.2) ∨ (b = q.2 ∧ a = q.1)) := by
      tauto
    simp only [reassign, hpair, h.symmetric a ha b hb]
  · intro a ha b hb c hc d hd hab hcd heq
    simp only [reassign] at heq
    split at heq
    · next hq =>
      split at heq
      · next hq' => grind
      · exact absurd heq.symm (hfresh c hc d hd)
    · split at heq
      · exact absurd heq (hfresh a ha b hb)
      · exact h.separated a ha b hb c hc d hd hab hcd heq

/-- A plaintext determines the one in the other direction, and no other. -/
theorem determines_iff {members : Finset Address} (hcount : members.card < 2 ^ 16)
    {value : Address → Address → B256} (hvalue : Explains members value)
    (ciphertext : Address → Address → B256) {p q : Address × Address} (hp : p.1 ∈ members)
    (hp' : p.2 ∈ members) (hq : q.1 ∈ members) (hq' : q.2 ∈ members) (hne : p ≠ q) :
    Determines members ciphertext p q ↔ q = p.swap := by
  constructor
  · intro hdetermines
    by_contra hswap
    obtain ⟨fresh, hfresh⟩ := exists_unused hcount value
    have hother : ¬ ((p.1 = q.1 ∧ p.2 = q.2) ∨ (p.1 = q.2 ∧ p.2 = q.1)) := by
      rintro (⟨h1, h2⟩ | ⟨h1, h2⟩)
      · exact hne (Prod.ext h1 h2)
      · exact hswap (Prod.ext h2.symm h1.symm)
    have hsame := hdetermines value (reassign value q fresh) hvalue (explains_reassign hvalue q hfresh)
      (by simp only [reassign, hother, if_false])
    simp only [reassign, true_and, true_or, if_true, BitVec.xor_right_inj] at hsame
    exact hfresh q.1 hq q.2 hq' hsame
  · rintro rfl value value' h h' heq
    rw [BitVec.xor_right_inj] at heq ⊢
    show value p.2 p.1 = value' p.2 p.1
    rw [h.symmetric p.2 hp' p.1 hp, h'.symmetric p.2 hp' p.1 hp, heq]

/-! ### The keystream of a share -/

namespace Ceremony

/-- What is relied on of the crates. -/
structure Lawful (ceremony : Ceremony) : Prop where
  /-- The participants have different identifiers. -/
  injective : ∀ a b v w, ceremony.commitments.lookup a = some v → ceremony.commitments.lookup b = some w →
    ceremony.crate.identifier a = ceremony.crate.identifier b → a = b
  /-- The second round keeps the identifier. -/
  keeps : ∀ secret packages result, ceremony.crate.part2 secret packages = .ok result →
    result.1.identifier = secret.identifier
  /-- Multiples of the generator commute. -/
  commutes : ∀ a ∈ ceremony.members, ∀ b ∈ ceremony.members,
    ceremony.curve.mul (ceremony.curve.publicKey (ceremony.secrets b).encryptionKey)
        (ceremony.secrets a).encryptionKey =
      ceremony.curve.mul (ceremony.curve.publicKey (ceremony.secrets a).encryptionKey)
        (ceremony.secrets b).encryptionKey

variable {ceremony : Ceremony}

theorem encryptionPeers_eq (hlawful : ceremony.Lawful) {a : Address} {v : VerifiedCommitment}
    (ha : ceremony.commitments.lookup a = some v) :
    encryptionPeers ceremony.crate (ceremony.crate.identifier a) ceremony.commitments =
      (ceremony.commitments.rows.filter fun row => row.1 ≠ a).map fun row =>
        (ceremony.crate.identifier row.1, row.2.encryptionPublicKey) := by
  unfold encryptionPeers
  rw [List.filter_map]
  refine congrArg (List.map _) (List.filter_congr fun row hrow => ?_)
  have hlookup : ceremony.commitments.lookup row.1 = some row.2 := Table.lookup_eq_some.mpr hrow
  have hiff : ceremony.crate.identifier row.1 = ceremony.crate.identifier a ↔ row.1 = a :=
    ⟨hlawful.injective row.1 a row.2 v hlookup ha, fun h => h ▸ rfl⟩
  simp [hiff]

/-- Another participant has a place among the receivers. -/
theorem exists_index {a b : Address} {w : VerifiedCommitment}
    (hb : ceremony.commitments.lookup b = some w) (hne : b ≠ a) :
    ∃ index, ((ceremony.commitments.rows.map Prod.fst).filter (· ≠ a)).findIdx? (· = b) = some index ∧
      (ceremony.commitments.rows.filter fun row => row.1 ≠ a)[index]? = some (b, w) := by
  have hmap : (ceremony.commitments.rows.map Prod.fst).filter (· ≠ a) =
      (ceremony.commitments.rows.filter fun row => row.1 ≠ a).map Prod.fst := by
    rw [List.filter_map]
    rfl
  have hmem : (b, w) ∈ ceremony.commitments.rows.filter fun row => row.1 ≠ a :=
    List.mem_filter.mpr ⟨Table.lookup_eq_some.mp hb, by simpa using hne⟩
  rw [hmap]
  cases hindex : ((ceremony.commitments.rows.filter fun row => row.1 ≠ a).map Prod.fst).findIdx? (· = b) with
  | none =>
    have hnone := List.findIdx?_eq_none_iff.mp hindex b (List.mem_map.mpr ⟨(b, w), hmem, rfl⟩)
    simp at hnone
  | some index =>
    refine ⟨index, rfl, ?_⟩
    obtain ⟨hlt, hfound, -⟩ := List.findIdx?_eq_some_iff_getElem.mp hindex
    rw [List.length_map] at hlt
    rw [List.getElem_map, decide_eq_true_eq] at hfound
    have hrow : (ceremony.commitments.rows.filter fun row => row.1 ≠ a)[index] ∈ ceremony.commitments.rows :=
      (List.mem_filter.mp (List.getElem_mem hlt)).1
    rw [List.getElem?_eq_getElem hlt]
    generalize (ceremony.commitments.rows.filter fun row => row.1 ≠ a)[index] = row at hfound hrow
    obtain ⟨address, commitment⟩ := row
    obtain rfl : address = b := hfound
    rw [Table.lookup_eq_some.mpr hrow] at hb
    rw [Option.some.inj hb]

/-- **A share is encrypted with the Diffie-Hellman value of its sender and its receiver.** -/
theorem ciphertext_eq (hlawful : ceremony.Lawful) {a b : Address} (ha : a ∈ ceremony.members)
    (hb : b ∈ ceremony.members) (hne : a ≠ b) :
    ∃ share, ceremony.plaintext a b = some share ∧
      ceremony.ciphertext a b = some (share ^^^ ceremony.diffieHellman a b) := by
  obtain ⟨v, hv, -⟩ := ceremony.committed a ha
  obtain ⟨w, hw, hkey⟩ := ceremony.committed b hb
  obtain ⟨packages, -, hgenerate⟩ := bind_eq_ok.mp (ceremony.generated a ha)
  have hgenerate := mapError_eq_ok.mp hgenerate
  obtain ⟨round2, hround2, hgenerate⟩ := bind_eq_ok.mp hgenerate
  obtain ⟨-, -, hgenerate⟩ := bind_eq_ok.mp hgenerate
  obtain ⟨sum, -, hgenerate⟩ := bind_eq_ok.mp hgenerate
  obtain ⟨key, -, hgenerate⟩ := bind_eq_ok.mp hgenerate
  obtain ⟨encrypted, hencrypted, hgenerate⟩ := bind_eq_ok.mp hgenerate
  have hresult := pure_eq_ok.mp hgenerate
  have hsharing : (ceremony.sharing a).peerPackages = round2.2 :=
    (congrArg (fun result => result.1.peerPackages) hresult).symm
  have hshare : (ceremony.share a).f = encrypted :=
    (congrArg (fun result => result.2.f) hresult).symm
  rw [hlawful.keeps _ _ _ hround2, ceremony.identified a ha, encryptionPeers_eq hlawful hv] at hencrypted
  obtain ⟨index, hindex, hrow⟩ := exists_index hw hne.symm
  have hpeer : ((ceremony.commitments.rows.filter fun row => row.1 ≠ a).map fun row =>
      (ceremony.crate.identifier row.1, row.2.encryptionPublicKey))[index]? =
        some (ceremony.crate.identifier b, w.encryptionPublicKey) := by
    rw [List.getElem?_map, hrow]
    rfl
  obtain ⟨ciphertext, hencrypt, hciphertext⟩ := mapM_getElem? hencrypted hpeer
  unfold encryptShare at hencrypt
  split at hencrypt
  · next package hpackage =>
    refine ⟨package.signingShare, ?_, ?_⟩
    · simp only [plaintext, revealSecretShare, hsharing, hpackage]
      rfl
    · simp only [Ceremony.ciphertext, hindex, hshare, Option.bind_some, hciphertext]
      rw [← Except.ok.inj hencrypt, ceremony.ecdh_eq, hkey]
      rfl
  · cases hencrypt

theorem keystream_eq_diffieHellman (hlawful : ceremony.Lawful) {a b : Address} (ha : a ∈ ceremony.members)
    (hb : b ∈ ceremony.members) (hne : a ≠ b) :
    ceremony.keystream a b = some (ceremony.diffieHellman a b) := by
  obtain ⟨share, hplaintext, hciphertext⟩ := ciphertext_eq hlawful ha hb hne
  simp only [keystream, hplaintext, hciphertext, Option.bind_eq_bind, Option.bind_some, Option.pure_def,
    Option.some.injEq]
  rw [BitVec.xor_comm share, BitVec.xor_assoc, BitVec.xor_self, BitVec.xor_zero]

theorem diffieHellman_symm (hlawful : ceremony.Lawful) {a b : Address} (ha : a ∈ ceremony.members)
    (hb : b ∈ ceremony.members) : ceremony.diffieHellman a b = ceremony.diffieHellman b a := by
  unfold diffieHellman
  rw [hlawful.commutes a ha b hb]

theorem card_members (ceremony : Ceremony) : ceremony.members.card < 2 ^ 16 := by
  refine lt_of_le_of_lt ?_ ceremony.count
  rw [← Table.card_keys]
  refine Finset.card_le_card fun a ha => ?_
  obtain ⟨v, hv, -⟩ := ceremony.committed a ha
  exact Table.mem_keys.mpr ⟨v, hv⟩

theorem xor_cancel {m n k : B256} : (m ^^^ k) ^^^ (n ^^^ k) = m ^^^ n := by
  rw [BitVec.xor_assoc, BitVec.xor_comm n k, ← BitVec.xor_assoc k, BitVec.xor_self, BitVec.zero_xor]

theorem xor_eq_xor_iff {m n k l : B256} : (m ^^^ k) ^^^ (n ^^^ l) = m ^^^ n ↔ k = l := by
  constructor
  · intro h
    have hright : (m ^^^ k) ^^^ (n ^^^ l) = (m ^^^ k) ^^^ (n ^^^ k) := h.trans xor_cancel.symm
    exact ((BitVec.xor_right_inj _).mp ((BitVec.xor_right_inj _).mp hright)).symm
  · rintro rfl
    exact xor_cancel

/-- **Two shares have different keystreams exactly if they are not sent in both directions between the same
two participants.**  So it is with the XOR of their ciphertexts, and with what is learnt from one of
them about the other. -/
theorem keystreams_differ_iff (ceremony : Ceremony) (hlawful : ceremony.Lawful)
    (hdistinct : Separated ceremony.members ceremony.diffieHellman) (p q : Address × Address)
    (hp : p.1 ∈ ceremony.members ∧ p.2 ∈ ceremony.members ∧ p.1 ≠ p.2)
    (hq : q.1 ∈ ceremony.members ∧ q.2 ∈ ceremony.members ∧ q.1 ≠ q.2) (hne : p ≠ q) :
    ∃ ciphertext ciphertext' share share', ceremony.ciphertext p.1 p.2 = some ciphertext ∧
      ceremony.ciphertext q.1 q.2 = some ciphertext' ∧ ceremony.plaintext p.1 p.2 = some share ∧
      ceremony.plaintext q.1 q.2 = some share' ∧
      (ceremony.keystream p.1 p.2 ≠ ceremony.keystream q.1 q.2 ↔ q ≠ p.swap) ∧
      (ciphertext ^^^ ciphertext' ≠ share ^^^ share' ↔ q ≠ p.swap) ∧
      (¬ Determines ceremony.members (fun a b => (ceremony.ciphertext a b).getD 0) p q ↔ q ≠ p.swap) := by
  obtain ⟨hp1, hp2, hpne⟩ := hp
  obtain ⟨hq1, hq2, hqne⟩ := hq
  obtain ⟨share, hplaintext, hciphertext⟩ := ciphertext_eq hlawful hp1 hp2 hpne
  obtain ⟨share', hplaintext', hciphertext'⟩ := ciphertext_eq hlawful hq1 hq2 hqne
  have hsame : ceremony.diffieHellman p.1 p.2 = ceremony.diffieHellman q.1 q.2 ↔ q = p.swap := by
    constructor
    · intro heq
      rcases hdistinct p.1 hp1 p.2 hp2 q.1 hq1 q.2 hq2 hpne hqne heq with ⟨h1, h2⟩ | ⟨h1, h2⟩
      · exact absurd (Prod.ext h1.symm h2.symm) hne
      · exact Prod.ext h1 h2
    · rintro rfl
      exact diffieHellman_symm hlawful hp1 hp2
  have hexplains : Explains ceremony.members ceremony.diffieHellman :=
    ⟨fun a ha b hb => diffieHellman_symm hlawful ha hb, hdistinct⟩
  refine ⟨_, _, share, share', hciphertext, hciphertext', hplaintext, hplaintext', ?_, ?_, ?_⟩
  · rw [keystream_eq_diffieHellman hlawful hp1 hp2 hpne, keystream_eq_diffieHellman hlawful hq1 hq2 hqne,
      ne_eq, Option.some.injEq, hsame]
  · rw [ne_eq, xor_eq_xor_iff, hsame]
  · rw [determines_iff ceremony.card_members hexplains _ hp1 hp2 hq1 hq2 hne]

/-! ### Three participants -/

namespace Trio

def alice : Address := 0x70997970C51812dc3A010C7d01b50e0d17dc79C8
def bob : Address := 0xf39Fd6e51aad88F6F4ce6aB8827279cffFb92266
def charlie : Address := 0x3C44CdDdB6a900fa2b585dd299e03d12FA4293BC

/-- The first multiples of the generator of secp256k1. -/
def multiples : List Point :=
  [Contracts.Secp256k1.zero,
    ⟨0x79be667ef9dcbbac55a06295ce870b07029bfcdb2dce28d959f2815b16f81798,
      0x483ada7726a3c4655da4fbfc0e1108a8fd17b448a68554199c47d08ffb10d4b8⟩,
    ⟨0xc6047f9441ed7d6d3045406e95c07cd85c778e4b8cef3ca7abac09b95c709ee5,
      0x1ae168fea63dc339a3c58419466ceaeef7f632653266d0e1236431a950cfe52a⟩,
    ⟨0xf9308a019258c31049344f85f89d5229b531c845836f99b08601f113bce036f9,
      0x388f7b0f632de8140fe337e62a37f3566500a99934c2231b6cb9fd7584b8e672⟩,
    ⟨0xe493dbf1c10d80f3581e4904930b1404cc6c13900ee0758474fa94abe8c4cd13,
      0x51ed993ea0d455b75642e2098ea51448d967ae33bfbdfe40cfe97bdc47739922⟩,
    ⟨0x2f8bde4d1a07209355b4a7250a5c5128e88b84bddc619ab7cba8d569b240efe4,
      0xd8ac222636e5e3d6d4dba9dda6c9c426f788271bab0d6840dca87d3aa6ac62d6⟩,
    ⟨0xfff97bd5755eeea420453a14355235d382f6472f8568a18b2f057a1460297556,
      0xae12777aacfbb620f3be96017f45c560de80f0f6518fe4a03c870c36b075f297⟩,
    ⟨0x5cbdf0646e5db4eaa398f365f2ea7a0e3d419b7e0330e39ce92bddedcac4f9bc,
      0x6aebca40ba255960a3178d6d861a54dba813d0b813fde7b5a5082628087264da⟩,
    ⟨0x2f01e5e15cca351daff3843fb70f3c2f0a1bdd05e5af888a67784ef3e10a2a01,
      0x5c4da8a741539949293d082a132d13b4c2e213d6ba5b7617b5da2cb76cbde904⟩,
    ⟨0xacd484e2f0c7f65309ad178a9f559abde09796974c57e714c35f110dfc27ccbe,
      0xcc338921b0a7d9fd64380971763b61e9add888a4375f8e0f05cc262ac64f9c37⟩,
    ⟨0xa0434d9e47f3c86235477c7b1ae6ae5d3442d49b1943c2b752a68e2a47e247c7,
      0x893aba425419bc27a3b6c7e693a24c696f794c2ed877a1593cbee53b037368d7⟩,
    ⟨0x774ae7f858a9411e5ef4246b70c65aac5649980be5c17891bbec17895da008cb,
      0xd984a032eb6b5e190243dd56d7b7b365372db1e2dff9d6a8301d74c9c953c61b⟩,
    ⟨0xd01115d548e7561b15c38f004d734633687cf4419620095bc5b0f47070afe85a,
      0xa9f34ffdc815e0d7a8b64537e17bd81579238c5dd9a86d526b051b13f4062327⟩]

def multiple (scalar : Nat) : Point := multiples.getD scalar Contracts.Secp256k1.zero

/-- The curve, as far as its first multiples go. -/
def secp256k1 : Curve where
  generator := multiple 1
  mul := fun point scalar => multiple (multiples.idxOf point * scalar.toNat)

/-- A polynomial with the coefficients, lowest first, at an identifier. -/
def evaluate (coefficients : List Scalar) (identifier : Identifier) : Scalar :=
  BitVec.ofNat 256 (coefficients.foldr
    (fun coefficient sum => (coefficient.toNat + sum * identifier.toNat) % Contracts.Secp256k1.N) 0)

/-- The crates, as far as the shares of the three need them. -/
def crate : FrostCrate where
  identifier := fun participant =>
    if participant = alice then 0xb05ca4923b84f58b0ed260ad04df4159a32187729ce1f12f4ee4e73c44516564
    else if participant = bob then 0xd6e4a68ad6c418bb8cdbe0379873f5774dc4d6ecc5e3f373d4c18cec2a4f3c17
    else if participant = charlie then 0x65789d905b85644bac5a7213026cb34f9e9f4e3483f1327efb2ecf3d4c8b483e
    else 0
  verifiedPublicKey := fun package _ => .ok package.publicKey
  ecdh := secp256k1.ecdh
  verifyProofOfKnowledge := fun _ _ _ => .ok ⟨⟩
  part2 := fun secret packages =>
    .ok (⟨secret.identifier, secret.commitment, evaluate secret.coefficients secret.identifier,
        secret.minSigners, secret.maxSigners⟩,
      packages.rows.foldl (fun shares row => shares.insert row.1 ⟨evaluate secret.coefficients row.1⟩)
        Table.empty)
  part3 := fun _ _ _ => .error .other
  sumCommitments := fun commitments =>
    .ok (commitments.foldr (fun commitment sum =>
      if sum = [] then commitment
      else List.zipWith (fun a b => multiple (multiples.idxOf a + multiples.idxOf b)) commitment sum) [])
  verifyingKey := fun commitment =>
    match commitment.head? with
    | some key => if key = Contracts.Secp256k1.zero then .error .other else .ok key
    | none => .error .other
  verifyingShare := fun identifier _ =>
    if identifier = 0xb05ca4923b84f58b0ed260ad04df4159a32187729ce1f12f4ee4e73c44516564 then
      ⟨0x0c60ace5a1553c1f378c937986aaa4d0279610ee82ff9fa817aa9f0bc04edebf,
        0xb27ace533da4823d060fef638cd376693c71e1b37264be6c02adc67eb5742fc0⟩
    else if identifier = 0xd6e4a68ad6c418bb8cdbe0379873f5774dc4d6ecc5e3f373d4c18cec2a4f3c17 then
      ⟨0xb18b199762cfd69c200bc31fd8cd4ea2d76e50626acf1854529b97858ea9837c,
        0xcbae140628dc5c85636c87d7092010b59edba9e00f3bdf5d67927a83208ac6e5⟩
    else
      ⟨0x8908dcd9116ee5b50f0b65f4d2c5ddf1a2cac47039cf87bcd7059fda49d7d7f2,
        0x6c96f93af9e56caf1111ec2d30142a7b92995ca08ab16bcd076272d7b17a0321⟩
  verifySecretShare := fun _ _ _ => .error .other
  sign := fun _ _ _ => .error .other
  bindingFactors := fun _ _ => .error .other
  interpolatingValue := fun _ _ => .error .other
  commitmentShare := fun _ _ => Contracts.Secp256k1.zero
  signingCommitment := fun _ _ => .error .other

/-- The secrets with an encryption key, a polynomial of degree one, and the answers of the proofs. -/
def secretsOf (participant : Address) (encryptionKey a b pop pok : Scalar) : Secrets where
  encryptionKey := encryptionKey
  encryptionPackage := ⟨secp256k1.publicKey encryptionKey, ⟨multiple 7, pop⟩⟩
  secretPackage := ⟨crate.identifier participant, [a, b], [secp256k1.publicKey a, secp256k1.publicKey b], 2, 3⟩
  proofOfKnowledge := ⟨multiple 8, pok⟩

def secrets (participant : Address) : Secrets :=
  if participant = alice then
    secretsOf alice 2 1 2 0xf9ff3f259326552a279587bf9759fb6c50835477b66395dd63e4572a50cc8f03
      0x75ffe34ecf75e0fe5b2234aac723d0d343cd79a2f43682f0152ad2fd1141f68e
  else if participant = bob then
    secretsOf bob 3 3 4 0x23a80cccc746048c48a92ffeb6cffa2474548731eae407d318403121561cb917
      0x00b6f207f21ab7ec841efcfb199d475737b88d3140c0079c198459ffd0bbeaf8
  else
    secretsOf charlie 4 5 6 0x083c602dc05ae5037a039dfcca90d3f6497cce84689df824f645d005aa80a72f
      0x3ff7d39baa03a8b8c3f57327a155832fc4d62c10f9e460436c96a34a53957012

def commitmentOf (participant : Address) : VerifiedCommitment :=
  ⟨(secrets participant).encryptionPackage.publicKey,
    ⟨(secrets participant).secretPackage.commitment, (secrets participant).proofOfKnowledge⟩⟩

def commitments : Table Address VerifiedCommitment :=
  ((Table.empty.insert alice (commitmentOf alice)).insert bob (commitmentOf bob)).insert charlie
    (commitmentOf charlie)

def members : Finset Address := {alice, bob, charlie}

/-- What a participant generates. -/
def generate (participant : Address) : SharingState × Contracts.FROSTCoordinator.KeyGenSecretShare :=
  match generateSecretShares crate (secrets participant) commitments with
  | .ok result => result
  | .error _ => (⟨0, ⟨0, [], 0, 0, 0⟩, .empty, ⟨.empty, [], Contracts.Secp256k1.zero⟩⟩,
      ⟨Contracts.Secp256k1.zero, []⟩)

theorem forall_members {Q : Address → Prop} (h : Q alice ∧ Q bob ∧ Q charlie) : ∀ a ∈ members, Q a := by
  intro a ha
  simp only [members, Finset.mem_insert, Finset.mem_singleton] at ha
  obtain ⟨halice, hbob, hcharlie⟩ := h
  rcases ha with rfl | rfl | rfl
  · exact halice
  · exact hbob
  · exact hcharlie

theorem generate_ok : ∀ a ∈ members,
    generateSecretShares crate (secrets a) commitments = .ok ((generate a).1, (generate a).2) := by
  intro a ha
  have hok : ∀ a ∈ members, (generateSecretShares crate (secrets a) commitments).isOk = true :=
    forall_members (by decide +kernel)
  have hoka := hok a ha
  unfold generate
  split
  · next result hresult => exact hresult
  · next error herror =>
    rw [herror] at hoka
    cases hoka

/-- Three participants that generate a key. -/
def trio : Ceremony where
  crate := crate
  curve := secp256k1
  ecdh_eq := rfl
  commitments := commitments
  count := by decide +kernel
  members := members
  secrets := secrets
  sharing := fun participant => (generate participant).1
  share := fun participant => (generate participant).2
  committed := by
    have hlookup : ∀ a ∈ members, commitments.lookup a = some (commitmentOf a) :=
      forall_members (by decide +kernel)
    exact fun a ha => ⟨commitmentOf a, hlookup a ha, by
      unfold commitmentOf secrets
      split_ifs <;> rfl⟩
  identified := forall_members (by decide +kernel)
  generated := generate_ok

theorem lawful : trio.Lawful where
  injective := by
    have hkeys : ∀ a v, commitments.lookup a = some v → a ∈ members := by
      intro a v ha
      have hmem : a ∈ commitments.rows.map Prod.fst :=
        List.mem_map.mpr ⟨(a, v), Table.lookup_eq_some.mp ha, rfl⟩
      have hrows : commitments.rows.map Prod.fst = [charlie, alice, bob] := by decide +kernel
      rw [hrows] at hmem
      simp only [List.mem_cons, List.not_mem_nil, or_false] at hmem
      simp only [members, Finset.mem_insert, Finset.mem_singleton]
      tauto
    have hinjective : ∀ a ∈ members, ∀ b ∈ members, crate.identifier a = crate.identifier b → a = b :=
      forall_members ⟨forall_members (by decide +kernel), forall_members (by decide +kernel),
        forall_members (by decide +kernel)⟩
    intro a b v w ha hb
    exact hinjective a (hkeys a v ha) b (hkeys b w hb)
  keeps := by
    intro secret packages result h
    cases h
    rfl
  commutes := forall_members ⟨forall_members (by decide +kernel), forall_members (by decide +kernel),
    forall_members (by decide +kernel)⟩

theorem separated : Separated trio.members trio.diffieHellman := by
  intro a ha b hb c hc d hd
  change a ∈ members at ha
  change b ∈ members at hb
  change c ∈ members at hc
  change d ∈ members at hd
  simp only [members, Finset.mem_insert, Finset.mem_singleton] at ha hb hc hd
  rcases ha with rfl | rfl | rfl <;> rcases hb with rfl | rfl | rfl <;>
    rcases hc with rfl | rfl | rfl <;> rcases hd with rfl | rfl | rfl <;> decide +kernel

end Trio

/-- Alice and Bob encrypt what they send each other with the same bytes. -/
theorem same_keystream_both_ways :
    ¬ ∀ (ceremony : Ceremony), ceremony.Lawful → Separated ceremony.members ceremony.diffieHellman →
      ∀ p q : Address × Address, p.1 ∈ ceremony.members ∧ p.2 ∈ ceremony.members ∧ p.1 ≠ p.2 →
        q.1 ∈ ceremony.members ∧ q.2 ∈ ceremony.members ∧ q.1 ≠ q.2 → p ≠ q →
        ceremony.keystream p.1 p.2 ≠ ceremony.keystream q.1 q.2 := by
  intro hclaim
  have halice : Trio.alice ∈ Trio.trio.members := by simp [Trio.trio, Trio.members]
  have hbob : Trio.bob ∈ Trio.trio.members := by simp [Trio.trio, Trio.members]
  have hne : Trio.alice ≠ Trio.bob := by decide
  refine hclaim Trio.trio Trio.lawful Trio.separated (Trio.alice, Trio.bob) (Trio.bob, Trio.alice)
    ⟨halice, hbob, hne⟩ ⟨hbob, halice, hne.symm⟩ (fun h => hne (congrArg Prod.fst h)) ?_
  show Trio.trio.keystream Trio.alice Trio.bob = Trio.trio.keystream Trio.bob Trio.alice
  rw [keystream_eq_diffieHellman Trio.lawful halice hbob hne,
    keystream_eq_diffieHellman Trio.lawful hbob halice hne.symm, diffieHellman_symm Trio.lawful halice hbob]

/-- What Alice sends to the two others is encrypted with different bytes. -/
theorem different_receivers_differ :
    Trio.trio.keystream Trio.alice Trio.bob ≠ Trio.trio.keystream Trio.alice Trio.charlie := by
  have halice : Trio.alice ∈ Trio.trio.members := by simp [Trio.trio, Trio.members]
  have hbob : Trio.bob ∈ Trio.trio.members := by simp [Trio.trio, Trio.members]
  have hcharlie : Trio.charlie ∈ Trio.trio.members := by simp [Trio.trio, Trio.members]
  obtain ⟨-, -, -, -, -, -, -, -, hdiffer, -⟩ := keystreams_differ_iff Trio.trio Trio.lawful Trio.separated
    (Trio.alice, Trio.bob) (Trio.alice, Trio.charlie) ⟨halice, hbob, by decide⟩
    ⟨halice, hcharlie, by decide⟩ (by decide)
  exact hdiffer.mpr (by decide)

end Ceremony

end Safenet.Validator
