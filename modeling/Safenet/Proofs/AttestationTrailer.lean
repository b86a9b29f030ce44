/-
Signature extensions are parsed exactly.

`SignatureExtension.payload` takes the blobs that end in an extension and no others, and returns the
payload that was put in (`payload_eq_ok`); `AttestationTrailer.decode` takes those whose payload is the
encoding of an attestation.  The model cuts lists, where the code checks every index: `payloadChecked`
has these checks, and they never fail (`payloadChecked_eq`).
-/
import Safenet.Proofs.SafenetGuard

namespace Safenet.Contracts

open Fallible

/-! ### Signature extensions -/

namespace SignatureExtension

open SafenetGuard (Error)

variable {signatures data : Bytes} {typeHash : B256}

/-- An extension: the payload, its length, and the type. -/
def encode (data : Bytes) (typeHash : B256) : Bytes :=
  data ++ Bytes.word (BitVec.ofNat 256 data.length) ++ Bytes.word typeHash

theorem encode_length (data : Bytes) (typeHash : B256) :
    (encode data typeHash).length = data.length + 64 := by
  simp only [encode, List.length_append, Bytes.word_length]

theorem lastWord_append (front : Bytes) (typeHash : B256) :
    lastWord (front ++ Bytes.word typeHash) = typeHash := by
  have hlength : (front ++ Bytes.word typeHash).length - 32 = front.length := by
    rw [List.length_append, Bytes.word_length]
    omega
  rw [lastWord, hlength, List.drop_left, Bytes.value_word, BitVec.ofNat_toNat, BitVec.setWidth_eq]

/-- A payload that was put in is taken out again. -/
theorem payload_encode (front : Bytes) (hdata : data.length < 2 ^ 256) :
    payload (front ++ encode data typeHash) typeHash = .ok data := by
  have hlength : (front ++ encode data typeHash).length = front.length + data.length + 64 := by
    rw [List.length_append, encode_length]
    omega
  have hlast : lastWord (front ++ encode data typeHash) = typeHash := by
    rw [encode, ← List.append_assoc]
    exact lastWord_append _ typeHash
  have hstop : front.length + data.length + 64 - 64 = (front ++ data).length := by
    rw [List.length_append]
    omega
  have hdrop : (front ++ encode data typeHash).drop (front ++ data).length =
      Bytes.word (BitVec.ofNat 256 data.length) ++ Bytes.word typeHash := by
    rw [encode, List.append_assoc, ← List.append_assoc front, List.drop_left]
  have hword : Bytes.value (((front ++ encode data typeHash).drop (front ++ data).length).take 32) =
      data.length := by
    rw [hdrop, List.take_left' (Bytes.word_length _), Bytes.value_word, BitVec.toNat_ofNat,
      Nat.mod_eq_of_lt hdata]
  have hfront : (front ++ data).length - data.length = front.length := by
    rw [List.length_append]
    omega
  unfold payload
  simp only [hlength, hlast, hstop, hword, hfront]
  have hfits : data.length ≤ (front ++ data).length := by
    rw [List.length_append]
    omega
  rw [decide_eq_true (show 64 ≤ front.length + data.length + 64 by omega), decide_true,
    decide_eq_true hfits, encode, List.drop_left, List.append_assoc, List.take_left]
  rfl

/-- **A payload is taken out of exactly the blobs that end with it as an extension.** -/
theorem payload_eq_ok : payload signatures typeHash = .ok data ↔
    data.length < 2 ^ 256 ∧ ∃ front, signatures = front ++ encode data typeHash := by
  constructor
  · intro h
    obtain ⟨u, hguard, h⟩ := bind_eq_ok.mp h
    obtain ⟨u, hfits, h⟩ := bind_eq_ok.mp h
    have hdata := pure_eq_ok.mp h
    obtain ⟨hlong, htype⟩ := Bool.and_eq_true_iff.mp (require_eq_ok.mp hguard)
    have hlong := of_decide_eq_true hlong
    have htype := of_decide_eq_true htype
    have hfits := of_decide_eq_true (require_eq_ok.mp hfits)
    -- the blob is cut before the payload, before its length and before the type
    have hwordLength : ((signatures.drop (signatures.length - 64)).take 32).length = 32 := by
      rw [List.length_take, List.length_drop]
      omega
    have hlastLength : (signatures.drop (signatures.length - 32)).length = 32 := by
      rw [List.length_drop]
      omega
    have hlength : data.length =
        Bytes.value ((signatures.drop (signatures.length - 64)).take 32) := by
      rw [← hdata, List.length_take, List.length_drop]
      omega
    have hvalue := Bytes.value_lt ((signatures.drop (signatures.length - 64)).take 32)
    rw [hwordLength] at hvalue
    refine ⟨by omega, signatures.take (signatures.length - 64 - data.length), ?_⟩
    have hlengthWord : Bytes.word (BitVec.ofNat 256 data.length) =
        (signatures.drop (signatures.length - 64)).take 32 := by
      rw [hlength]
      exact Bytes.word_value hwordLength
    have htypeWord : Bytes.word typeHash = signatures.drop (signatures.length - 32) := by
      rw [← htype]
      exact Bytes.word_value hlastLength
    have hcut : data = (signatures.drop (signatures.length - 64 - data.length)).take data.length := by
      rw [hlength]
      exact hdata.symm
    have hafter : signatures.length - 64 - data.length + data.length = signatures.length - 64 := by omega
    have hend : signatures.length - 64 + 32 = signatures.length - 32 := by omega
    calc signatures
        = signatures.take (signatures.length - 64 - data.length) ++
            signatures.drop (signatures.length - 64 - data.length) := (List.take_append_drop _ _).symm
      _ = signatures.take (signatures.length - 64 - data.length) ++
            (data ++ signatures.drop (signatures.length - 64)) := by
          conv_lhs => rw [← List.take_append_drop data.length
            (signatures.drop (signatures.length - 64 - data.length)), ← hcut, List.drop_drop, hafter]
      _ = signatures.take (signatures.length - 64 - data.length) ++ encode data typeHash := by
          rw [encode, hlengthWord, htypeWord, List.append_assoc, ← hend, ← List.drop_drop,
            List.take_append_drop]
  · rintro ⟨hlength, front, rfl⟩
    exact payload_encode front hlength

/-- A blob ends with one payload only, and there is one way to cut it. -/
theorem encode_inj {front front' data' : Bytes} (hdata : data.length < 2 ^ 256)
    (hdata' : data'.length < 2 ^ 256)
    (h : front ++ encode data typeHash = front' ++ encode data' typeHash) :
    front = front' ∧ data = data' := by
  have hpayload : payload (front ++ encode data typeHash) typeHash = .ok data :=
    payload_encode front hdata
  rw [h, payload_encode front' hdata'] at hpayload
  cases hpayload
  exact ⟨List.append_cancel_right h, rfl⟩

/-- There is one reason to revert. -/
theorem payload_error {error : Error} (h : payload signatures typeHash = .error error) :
    error = .malformedSignatureExtension := by
  have havoids : Avoids (· ≠ .malformedSignatureExtension) (payload signatures typeHash) := by
    refine avoids_bind (avoids_require fun hne => hne rfl) fun _ _ => ?_
    exact avoids_bind (avoids_require fun hne => hne rfl) fun _ _ => avoids_ok
  exact not_not.mp (havoids error h)

/-- A blob of another form reverts. -/
theorem payload_eq_error (h : ¬∃ front data, data.length < 2 ^ 256 ∧
    signatures = front ++ encode data typeHash) :
    payload signatures typeHash = .error .malformedSignatureExtension := by
  cases hpayload : payload signatures typeHash with
  | error error => rw [payload_error hpayload]
  | ok data =>
      obtain ⟨hdata, front, heq⟩ := payload_eq_ok.mp hpayload
      exact absurd ⟨front, data, hdata, heq⟩ h

/-! ### The checks of the compiler -/

/-- Why the compiled code stops. -/
inductive Stop where
  | revert (error : Error)
  /-- An overflow or underflow in checked arithmetic. -/
  | arithmetic
  | outOfBounds
deriving DecidableEq, Repr

/-- `data[start:stop]`. -/
def slice (data : Bytes) (start stop : Nat) : Except Stop Bytes :=
  if start ≤ stop ∧ stop ≤ data.length then .ok ((data.drop start).take (stop - start))
  else .error .outOfBounds

/-- `signatures.length >= least && bytes32(signatures[signatures.length - 32:]) == typeHash`. -/
def endsChecked (signatures : Bytes) (least : Nat) (typeHash : B256) : Except Stop Bool :=
  if least ≤ signatures.length then do
    let start ← checkedSub signatures.length 32 .arithmetic
    let last ← slice signatures start signatures.length
    return BitVec.ofNat 256 (Bytes.value last) = typeHash
  else return false

/-- `has`, with every check. -/
def hasChecked (signatures : Bytes) (typeHash : B256) : Except Stop Bool :=
  endsChecked signatures 32 typeHash

/-- `payload`, with every check. -/
def payloadChecked (signatures : Bytes) (typeHash : B256) : Except Stop Bytes := do
  let present ← endsChecked signatures 64 typeHash
  require present (.revert .malformedSignatureExtension)
  let stop ← checkedSub signatures.length 64 .arithmetic
  let wordStop ← checkedAdd 256 stop 32 .arithmetic
  let lengthWord ← slice signatures stop wordStop
  let payloadLength := Bytes.value lengthWord
  require (payloadLength ≤ stop) (.revert .malformedSignatureExtension)
  let start ← checkedSub stop payloadLength .arithmetic
  slice signatures start stop

theorem slice_eq {start stop : Nat} (hstart : start ≤ stop) (hstop : stop ≤ data.length) :
    slice data start stop = .ok ((data.drop start).take (stop - start)) := if_pos ⟨hstart, hstop⟩

theorem checkedSub_eq {a b : Nat} {error : Stop} (h : b ≤ a) : checkedSub a b error = .ok (a - b) :=
  if_pos h

theorem endsChecked_eq {least : Nat} (hleast : 32 ≤ least) :
    endsChecked signatures least typeHash =
      .ok (least ≤ signatures.length && lastWord signatures = typeHash) := by
  unfold endsChecked
  split
  · next h =>
    have htake : (signatures.drop (signatures.length - 32)).take
        (signatures.length - (signatures.length - 32)) =
          signatures.drop (signatures.length - 32) := by
      refine List.take_of_length_le ?_
      rw [List.length_drop]
    rw [checkedSub_eq (by omega)]
    show (slice signatures (signatures.length - 32) signatures.length >>= _) = _
    rw [slice_eq (by omega) le_rfl, htake, decide_eq_true h, Bool.true_and]
    rfl
  · next h =>
    rw [decide_eq_false h, Bool.false_and]
    rfl

/-- The recogniser never fails. -/
theorem hasChecked_eq : hasChecked signatures typeHash = .ok (has signatures typeHash) :=
  endsChecked_eq le_rfl

/-- **No index is out of bounds, whatever the length word says.** -/
theorem payloadChecked_eq (hlength : signatures.length < 2 ^ 256) :
    payloadChecked signatures typeHash = (payload signatures typeHash).mapError Stop.revert := by
  unfold payloadChecked payload
  rw [endsChecked_eq (by decide)]
  cases hpresent : (decide (64 ≤ signatures.length) && decide (lastWord signatures = typeHash)) with
  | false => rfl
  | true =>
      have hlong := of_decide_eq_true (Bool.and_eq_true_iff.mp hpresent).1
      show (checkedSub signatures.length 64 Stop.arithmetic >>= _) = _
      rw [checkedSub_eq hlong]
      show (checkedAdd 256 (signatures.length - 64) 32 Stop.arithmetic >>= _) = _
      rw [checkedAdd_ok.mpr ⟨by omega, rfl⟩]
      show (slice signatures (signatures.length - 64) (signatures.length - 64 + 32) >>= _) = _
      rw [slice_eq (by omega) (by omega), Nat.add_sub_cancel_left]
      dsimp only [bind, Except.bind]
      generalize Bytes.value ((signatures.drop (signatures.length - 64)).take 32) = payloadLength
      by_cases hfits : payloadLength ≤ signatures.length - 64
      · have hcut : signatures.length - 64 - (signatures.length - 64 - payloadLength) = payloadLength := by
          omega
        rw [decide_eq_true hfits, checkedSub_eq hfits]
        show slice signatures (signatures.length - 64 - payloadLength) (signatures.length - 64) = _
        rw [slice_eq (by omega) (by omega), hcut]
        rfl
      · rw [decide_eq_false hfits]
        rfl

end SignatureExtension

/-! ### Attestations -/

namespace AttestationTrailer

open SafenetGuard (Error)

variable {keccak : Keccak} {signatures data : Bytes} {attestation : Attestation}

/-- The words of an attestation. -/
def Attestation.words (attestation : Attestation) : List B256 :=
  [toWord attestation.epoch, toWord attestation.oracle, attestation.oracleDataHash,
    attestation.groupKey.x, attestation.groupKey.y, attestation.signature.r.x,
    attestation.signature.r.y, attestation.signature.z]

/-- `abi.encode(epoch, oracle, oracleDataHash, groupKey, signature)`. -/
@[irreducible] def Attestation.encode (attestation : Attestation) : Bytes := attestation.words.flatMap Bytes.word

theorem Attestation.encode_length (attestation : Attestation) : attestation.encode.length = 256 := by
  rw [encode, Bytes.flatMap_word_length]
  rfl

theorem wordAt_flatMap {words : List B256} {i : Nat} {w : B256} (h : words[i]? = some w) :
    wordAt (words.flatMap Bytes.word) i = w.toNat := by
  obtain ⟨hlt, rfl⟩ := List.getElem?_eq_some_iff.mp h
  rw [wordAt, Bytes.drop_flatMap_word, List.drop_eq_getElem_cons hlt, List.flatMap_cons,
    List.take_left' (Bytes.word_length _), Bytes.value_word]

theorem toWord_ofNat {n k : Nat} (hn : n < 2 ^ k) :
    toWord (BitVec.ofNat k n) = BitVec.ofNat 256 n := by
  rw [toWord, BitVec.toNat_ofNat, Nat.mod_eq_of_lt hn]

theorem toWord_toNat {k : Nat} (hk : k ≤ 256) (v : BitVec k) : (toWord v).toNat = v.toNat := by
  have hlt : v.toNat < 2 ^ 256 := v.isLt.trans_le (Nat.pow_le_pow_right (by decide) hk)
  rw [toWord, BitVec.toNat_ofNat, Nat.mod_eq_of_lt hlt]

/-- **256 bytes decode to an attestation exactly if they are its encoding.** -/
theorem decodePayload_eq_ok (hlength : data.length = 256) :
    decodePayload data = .ok attestation ↔ data = attestation.encode := by
  constructor
  · intro h
    obtain ⟨u, hepoch, h⟩ := bind_eq_ok.mp h
    obtain ⟨u, horacle, h⟩ := bind_eq_ok.mp h
    cases pure_eq_ok.mp h
    have hepoch := of_decide_eq_true (require_eq_ok.mp hepoch)
    have horacle := of_decide_eq_true (require_eq_ok.mp horacle)
    rw [Attestation.encode]
    refine (Bytes.eq_flatMap_word 8 data hlength).trans (congrArg (List.flatMap Bytes.word) ?_)
    simp only [Attestation.words, toWord_ofNat hepoch, toWord_ofNat horacle]
    rfl
  · rintro rfl
    have hwords : ∀ {i : Nat} {w : B256}, attestation.words[i]? = some w →
        wordAt attestation.encode i = w.toNat := by
      intro i w hw
      rw [Attestation.encode]
      exact wordAt_flatMap hw
    have hepoch : wordAt attestation.encode 0 = attestation.epoch.toNat :=
      (hwords rfl).trans (toWord_toNat (by decide) _)
    have horacle : wordAt attestation.encode 1 = attestation.oracle.toNat :=
      (hwords rfl).trans (toWord_toNat (by decide) _)
    have hdata : wordAt attestation.encode 2 = attestation.oracleDataHash.toNat := hwords rfl
    have hkeyx : wordAt attestation.encode 3 = attestation.groupKey.x.toNat := hwords rfl
    have hkeyy : wordAt attestation.encode 4 = attestation.groupKey.y.toNat := hwords rfl
    have hrx : wordAt attestation.encode 5 = attestation.signature.r.x.toNat := hwords rfl
    have hry : wordAt attestation.encode 6 = attestation.signature.r.y.toNat := hwords rfl
    have hz : wordAt attestation.encode 7 = attestation.signature.z.toNat := hwords rfl
    unfold decodePayload
    dsimp only
    rw [hepoch, horacle, hdata, hkeyx, hkeyy, hrx, hry, hz, decide_eq_true attestation.epoch.isLt,
      decide_eq_true attestation.oracle.isLt]
    simp only [BitVec.ofNat_toNat, BitVec.setWidth_eq]
    rfl

/-- **The attestations are those that a blob ends with.** -/
theorem decode_eq_ok : decode keccak signatures = .ok attestation ↔
    ∃ front, signatures =
      front ++ SignatureExtension.encode attestation.encode (TYPE_HASH keccak) := by
  unfold decode
  generalize TYPE_HASH keccak = typeHash
  constructor
  · intro h
    obtain ⟨data, hpayload, h⟩ := bind_eq_ok.mp h
    obtain ⟨u, hlength, h⟩ := bind_eq_ok.mp h
    obtain ⟨-, front, heq⟩ := SignatureExtension.payload_eq_ok.mp hpayload
    cases (decodePayload_eq_ok (of_decide_eq_true (require_eq_ok.mp hlength))).mp h
    exact ⟨front, heq⟩
  · rintro ⟨front, rfl⟩
    have hlength := attestation.encode_length
    have hpayload : SignatureExtension.payload
        (front ++ SignatureExtension.encode attestation.encode typeHash) typeHash =
          .ok attestation.encode := SignatureExtension.payload_encode front (by omega)
    refine bind_eq_ok.mpr ⟨_, hpayload, ?_⟩
    refine bind_eq_ok.mpr ⟨⟨⟩, require_eq_ok.mpr (decide_eq_true hlength), ?_⟩
    exact (decodePayload_eq_ok hlength).mpr rfl

end AttestationTrailer

/-! ### The guard -/

namespace SafenetGuard

variable {crypto : Crypto} {imm : Immutables} {state : State} {env : Env} {args : CheckArgs}
  {safeNonce : Option B256}

/-- The attestation path does not end in the error of the announcement path. -/
theorem checkAttestation_avoids :
    Avoids (· = .attestationNotFound) (checkAttestation crypto imm state env args safeNonce) := by
  unfold checkAttestation
  refine avoids_bind ?_ fun attestation _ => ?_
  · unfold AttestationTrailer.decode
    refine avoids_bind ?_ fun data _ => ?_
    · intro error herror
      rw [SignatureExtension.payload_error herror]
      exact nofun
    refine avoids_bind (avoids_require nofun) fun _ _ => ?_
    refine avoids_bind (avoids_require nofun) fun _ _ => ?_
    exact avoids_bind (avoids_require nofun) fun _ _ => avoids_ok
  refine avoids_bind (avoids_require nofun) fun _ _ => ?_
  cases safeNonce with
  | none => exact avoids_error nofun
  | some next =>
      refine avoids_bind ?_ fun nonce _ => avoids_require nofun
      unfold checkedSub
      split
      · exact avoids_ok
      · exact avoids_error nofun

/-- **With a trailer there is only the attestation path.** -/
theorem checkTransaction_trailer (htrailer : AttestationTrailer.hasTrailer crypto.keccak256 args.signatures = true)
    (hauto : isAutoAllowed crypto imm args.tx = false) :
    (checkTransaction crypto imm state env args safeNonce = .ok (state, []) ∧
        Attested crypto imm state env args safeNonce) ∨
      ∃ error, checkTransaction crypto imm state env args safeNonce = .error error ∧
        error ≠ .attestationNotFound := by
  unfold checkTransaction
  rw [hauto, htrailer, if_neg Bool.false_ne_true, if_pos rfl]
  cases h : checkAttestation crypto imm state env args safeNonce with
  | ok u => exact .inl ⟨rfl, checkAttestation_ok h⟩
  | error error => exact .inr ⟨error, rfl, fun heq => checkAttestation_avoids error h heq⟩

/-- A trailer without a length word reverts. -/
theorem checkTransaction_short (htrailer : AttestationTrailer.hasTrailer crypto.keccak256 args.signatures = true)
    (hauto : isAutoAllowed crypto imm args.tx = false) (hshort : args.signatures.length < 64) :
    checkTransaction crypto imm state env args safeNonce = .error .malformedSignatureExtension := by
  have hpayload : SignatureExtension.payload args.signatures (AttestationTrailer.TYPE_HASH crypto.keccak256) =
      .error .malformedSignatureExtension := by
    refine SignatureExtension.payload_eq_error ?_
    rintro ⟨front, data, -, heq⟩
    rw [heq, List.length_append, SignatureExtension.encode_length] at hshort
    omega
  unfold checkTransaction
  rw [hauto, htrailer, if_neg Bool.false_ne_true, if_pos rfl]
  unfold checkAttestation AttestationTrailer.decode
  rw [hpayload]
  rfl

/--
**Attestation trailers are parsed exactly.**

A payload is found behind any signatures.  The blobs that `payload` accepts are those that end in an
extension, in one way only; all others revert, and no index is out of bounds.  `decode` accepts those
whose payload is the encoding of an attestation.  A transaction with a trailer that is not allowed
anyway is authorised by its attestation or not at all.
-/
theorem trailer_parsed_exactly :
    (∀ (front data : Bytes) (typeHash : B256), data.length < 2 ^ 256 →
      SignatureExtension.payload
        (front ++ data ++ Bytes.word (BitVec.ofNat 256 data.length) ++ Bytes.word typeHash) typeHash =
          .ok data) ∧
    (∀ (signatures : Bytes) (typeHash : B256),
      (∃ form : Bytes × Bytes, form.2.length < 2 ^ 256 ∧ signatures = form.1 ++ form.2 ++
          Bytes.word (BitVec.ofNat 256 form.2.length) ++ Bytes.word typeHash ∧
        SignatureExtension.payload signatures typeHash = .ok form.2 ∧
        ∀ front data : Bytes, data.length < 2 ^ 256 → signatures = front ++ data ++
          Bytes.word (BitVec.ofNat 256 data.length) ++ Bytes.word typeHash → (front, data) = form) ∨
      (¬∃ front data : Bytes, data.length < 2 ^ 256 ∧ signatures = front ++ data ++
          Bytes.word (BitVec.ofNat 256 data.length) ++ Bytes.word typeHash) ∧
        SignatureExtension.payload signatures typeHash = .error .malformedSignatureExtension) ∧
    (∀ (signatures : Bytes) (typeHash : B256), signatures.length < 2 ^ 256 →
      SignatureExtension.payloadChecked signatures typeHash =
          (SignatureExtension.payload signatures typeHash).mapError SignatureExtension.Stop.revert ∧
        SignatureExtension.hasChecked signatures typeHash =
          .ok (SignatureExtension.has signatures typeHash)) ∧
    (∀ (keccak : Keccak) (signatures : Bytes) (attestation : AttestationTrailer.Attestation),
      AttestationTrailer.decode keccak signatures = .ok attestation ↔
        attestation.encode.length = 256 ∧
          SignatureExtension.payload signatures (AttestationTrailer.TYPE_HASH keccak) =
            .ok attestation.encode) ∧
    (∀ (crypto : Crypto) (imm : Immutables) (state : State) (env : Env) (args : CheckArgs)
      (safeNonce : Option B256),
      AttestationTrailer.hasTrailer crypto.keccak256 args.signatures = true →
      isAutoAllowed crypto imm args.tx = false →
        ((checkTransaction crypto imm state env args safeNonce = .ok (state, []) ∧
            Attested crypto imm state env args safeNonce) ∨
          ∃ error, checkTransaction crypto imm state env args safeNonce = .error error ∧
            error ≠ .attestationNotFound) ∧
        (args.signatures.length < 64 → checkTransaction crypto imm state env args safeNonce =
          .error .malformedSignatureExtension)) := by
  have hassoc : ∀ (front data : Bytes) (typeHash : B256),
      front ++ data ++ Bytes.word (BitVec.ofNat 256 data.length) ++ Bytes.word typeHash =
        front ++ SignatureExtension.encode data typeHash := by
    intro front data typeHash
    simp only [SignatureExtension.encode, List.append_assoc]
  simp only [hassoc]
  refine ⟨fun front data typeHash => SignatureExtension.payload_encode front, ?_, ?_, ?_, ?_⟩
  · intro signatures typeHash
    by_cases hform : ∃ front data, data.length < 2 ^ 256 ∧
        signatures = front ++ SignatureExtension.encode data typeHash
    · obtain ⟨front, data, hdata, rfl⟩ := hform
      refine .inl ⟨(front, data), hdata, rfl, SignatureExtension.payload_encode front hdata, ?_⟩
      intro front' data' hdata' heq
      obtain ⟨rfl, rfl⟩ := SignatureExtension.encode_inj hdata hdata' heq
      rfl
    · exact .inr ⟨hform, SignatureExtension.payload_eq_error hform⟩
  · intro signatures typeHash hlength
    exact ⟨SignatureExtension.payloadChecked_eq hlength, SignatureExtension.hasChecked_eq⟩
  · intro keccak signatures attestation
    rw [AttestationTrailer.decode_eq_ok, SignatureExtension.payload_eq_ok]
    have hlength := attestation.encode_length
    constructor
    · exact fun hfront => ⟨hlength, by omega, hfront⟩
    · exact fun h => h.2.2
  · intro crypto imm state env args safeNonce htrailer hauto
    exact ⟨checkTransaction_trailer htrailer hauto, checkTransaction_short htrailer hauto⟩

/-- A payload of two bytes behind one byte of signatures. -/
theorem short_payload_parsed : SignatureExtension.payload
    ([1] ++ [2, 3] ++ Bytes.word (BitVec.ofNat 256 2) ++ Bytes.word 7) 7 = .ok [2, 3] :=
  trailer_parsed_exactly.1 [1] [2, 3] 7 (by decide)

end SafenetGuard

end Safenet.Contracts
