/-
MultiSend batches are decoded and flattened as the Safe executes them.

An entry is packed as its operation, target, value and length, each of a fixed width, and its data.  The
decoder reads exactly such entries (`decodes_entry`), so that it accepts exactly the concatenations of
packed entries.

The reference execution is a tree: a delegate call to a known deployment with a payload that decodes runs
its entries in order, and everything else is a leaf (`Nesting.Describes`).  Flattening finds the tree and
lists its leaves if it is not too deep (`flatten_eq_ok_iff`), and otherwise there is a chain of batches that
are nested in one another (`flatten_eq_error_iff`).
-/
import Safenet.Lib.Format
import Safenet.Lib.Nesting
import Safenet.Proofs.SecureVerdict

namespace Safenet.SentinelEngine

open Contracts (Operation SafeTransaction.T)

/-! ### Packed entries -/

/-- `operation as u8`. -/
def operationByte : Operation → BitVec 8
  | .call => 0
  | .delegateCall => 1

/-- A packed entry. -/
def pack (call : MetaTransaction) : Bytes :=
  operationByte call.operation ::
    (Bytes.digits 20 call.target.toNat ++ (Bytes.word call.value ++
      (Bytes.word (BitVec.ofNat 256 call.data.length) ++ call.data)))

/-- Packed entries, one after the other. -/
def packAll (calls : List MetaTransaction) : Bytes := calls.flatMap pack

/-- An entry as it is executed: a zero target may stand for the Safe. -/
def resolve (safe : Address) (version : MultiSendVersion) (call : MetaTransaction) : MetaTransaction :=
  { call with target := if version = .v150Plus ∧ call.target = 0 then safe else call.target }

/-- The data fit into memory. -/
def FitsMemory (call : MetaTransaction) : Prop := call.data.length < 2 ^ 64

instance : DecidablePred FitsMemory := fun call => inferInstanceAs (Decidable (call.data.length < 2 ^ 64))

section Entries

variable {safe : Address} {version : MultiSendVersion}

/-- What is read is the front of the data, as long as was asked for. -/
theorem read_eq_some_iff {len : Nat} {data front rest : Bytes} :
    read len data = some (front, rest) ↔ front.length = len ∧ data = front ++ rest := by
  unfold read
  constructor
  · intro h
    split at h
    · next hle =>
        cases h
        exact ⟨List.length_take_of_le hle, (List.take_append_drop len data).symm⟩
    · cases h
  · rintro ⟨rfl, rfl⟩
    rw [if_pos (by simp), List.take_left, List.drop_left]

theorem operationOf_eq_some_iff {byte : BitVec 8} {operation : Operation} :
    operationOf byte = some operation ↔ byte = operationByte operation := by
  unfold operationOf
  constructor
  · intro h
    split at h
    · next hzero =>
        cases h
        exact hzero
    · split at h
      · next hone =>
          cases h
          exact hone
      · cases h
  · rintro rfl
    cases operation <;> rfl

/-- The address in 20 bytes. -/
theorem address_digits (target : Address) :
    BitVec.ofNat 160 (Bytes.value (Bytes.digits 20 target.toNat)) = target := by
  have hlt : target.toNat < 256 ^ 20 := target.isLt
  rw [Bytes.value_digits, Nat.mod_eq_of_lt hlt, BitVec.ofNat_toNat, BitVec.setWidth_eq]

theorem digits_address {bytes : Bytes} (h : bytes.length = 20) :
    Bytes.digits 20 (BitVec.ofNat 160 (Bytes.value bytes)).toNat = bytes := by
  have hlt : Bytes.value bytes < 2 ^ 160 := by
    have hvalue := Bytes.value_lt bytes
    rw [h] at hvalue
    exact hvalue
  rw [BitVec.toNat_ofNat, Nat.mod_eq_of_lt hlt, ← h]
  exact Bytes.digits_value bytes

/-- The length of the data, if these fit into memory. -/
theorem value_length {call : MetaTransaction} (h : FitsMemory call) :
    Bytes.value (Bytes.word (BitVec.ofNat 256 call.data.length)) = call.data.length := by
  have hlt : call.data.length < 2 ^ 256 := Nat.lt_trans h (by decide)
  rw [Bytes.value_word, BitVec.toNat_ofNat, Nat.mod_eq_of_lt hlt]

/-- **A packed entry is read as it is executed.** -/
theorem decodeEntry_pack {call : MetaTransaction} (h : FitsMemory call) (rest : Bytes) :
    decodeEntry safe version call.operation ((pack call).tail ++ rest) =
      some (resolve safe version call, rest) := by
  have htarget : read 20 ((pack call).tail ++ rest) = some (Bytes.digits 20 call.target.toNat,
      Bytes.word call.value ++ (Bytes.word (BitVec.ofNat 256 call.data.length) ++ (call.data ++ rest))) :=
    read_eq_some_iff.mpr ⟨Bytes.digits_length 20 _, by simp [pack]⟩
  have hvalue : read 32 (Bytes.word call.value ++
      (Bytes.word (BitVec.ofNat 256 call.data.length) ++ (call.data ++ rest))) =
        some (Bytes.word call.value, Bytes.word (BitVec.ofNat 256 call.data.length) ++ (call.data ++ rest)) :=
    read_eq_some_iff.mpr ⟨Bytes.word_length _, rfl⟩
  have hlength : read 32 (Bytes.word (BitVec.ofNat 256 call.data.length) ++ (call.data ++ rest)) =
      some (Bytes.word (BitVec.ofNat 256 call.data.length), call.data ++ rest) :=
    read_eq_some_iff.mpr ⟨Bytes.word_length _, rfl⟩
  have hdata : read call.data.length (call.data ++ rest) = some (call.data, rest) :=
    read_eq_some_iff.mpr ⟨rfl, rfl⟩
  have hfits : ¬2 ^ 64 ≤ call.data.length := Nat.not_le.mpr h
  unfold decodeEntry
  simp only [htarget, hvalue, hlength, value_length h, hdata, hfits, if_false, address_digits,
    Bytes.value_word, BitVec.ofNat_toNat, BitVec.setWidth_eq, Option.bind_eq_bind, Option.bind_some]
  rfl

/-- **What is read of an entry was packed.** -/
theorem of_decodeEntry {operation : Operation} {data rest : Bytes} {entry : MetaTransaction}
    (h : decodeEntry safe version operation data = some (entry, rest)) :
    ∃ call, FitsMemory call ∧ entry = resolve safe version call ∧
      operationByte operation :: data = pack call ++ rest := by
  obtain ⟨⟨target, afterTarget⟩, htarget, hentry⟩ := Option.bind_eq_some_iff.mp h
  obtain ⟨⟨value, afterValue⟩, hvalue, hentry⟩ := Option.bind_eq_some_iff.mp hentry
  obtain ⟨⟨length, afterLength⟩, hlength, hentry⟩ := Option.bind_eq_some_iff.mp hentry
  dsimp only at hentry
  split at hentry
  · cases hentry
  · next hfits =>
      obtain ⟨⟨payload, afterPayload⟩, hpayload, hentry⟩ := Option.bind_eq_some_iff.mp hentry
      cases hentry
      obtain ⟨htargetLength, rfl⟩ := read_eq_some_iff.mp htarget
      obtain ⟨hvalueLength, rfl⟩ := read_eq_some_iff.mp hvalue
      obtain ⟨hlengthLength, rfl⟩ := read_eq_some_iff.mp hlength
      obtain ⟨hpayloadLength, rfl⟩ := read_eq_some_iff.mp hpayload
      have hword : Bytes.word (BitVec.ofNat 256 payload.length) = length := by
        rw [hpayloadLength, Bytes.word_value hlengthLength]
      refine ⟨⟨BitVec.ofNat 160 (Bytes.value target), BitVec.ofNat 256 (Bytes.value value), payload, operation⟩,
        ?_, rfl, ?_⟩
      · show payload.length < 2 ^ 64
        omega
      · unfold pack
        dsimp only
        rw [digits_address htargetLength, Bytes.word_value hvalueLength, hword]
        simp

/-- The format of an entry, by how it is executed. -/
def EntryFormat (safe : Address) (version : MultiSendVersion) (entry : MetaTransaction) (word : Bytes) : Prop :=
  ∃ call, FitsMemory call ∧ entry = resolve safe version call ∧ word = pack call

/-- The decoder of one entry, with its operation. -/
def decodeOne (safe : Address) (version : MultiSendVersion) : Bytes → Option (MetaTransaction × Bytes)
  | [] => none
  | byte :: data => do
      let operation ← operationOf byte
      decodeEntry safe version operation data

/-- **The decoder of an entry reads packed entries, and nothing else.** -/
theorem decodes_entry (safe : Address) (version : MultiSendVersion) :
    Format.Decodes (decodeOne safe version) (EntryFormat safe version) := by
  intro data entry rest
  constructor
  · intro h
    cases data with
    | nil => cases h
    | cons byte data =>
        obtain ⟨operation, hoperation, hentry⟩ := Option.bind_eq_some_iff.mp h
        obtain ⟨call, hfits, hresolve, hdata⟩ := of_decodeEntry hentry
        rw [operationOf_eq_some_iff.mp hoperation]
        exact ⟨pack call, ⟨call, hfits, hresolve, rfl⟩, hdata⟩
  · rintro ⟨word, ⟨call, hfits, rfl, rfl⟩, rfl⟩
    have hoperation : operationOf (operationByte call.operation) = some call.operation :=
      operationOf_eq_some_iff.mpr rfl
    have hentry : decodeOne safe version (pack call ++ rest) =
        (operationOf (operationByte call.operation)).bind fun operation =>
          decodeEntry safe version operation ((pack call).tail ++ rest) := rfl
    rw [hentry, hoperation, Option.bind_some, decodeEntry_pack hfits rest]

theorem entry_ne_nil (entry : MetaTransaction) (word : Bytes) (h : EntryFormat safe version entry word) :
    word ≠ [] := by
  obtain ⟨call, -, -, rfl⟩ := h
  exact List.cons_ne_nil _ _

theorem decodeEntries_eq_many (fuel : Nat) : ∀ data : Bytes,
    decodeEntries safe version fuel data = Format.many (decodeOne safe version) fuel data := by
  induction fuel with
  | zero => intro data; cases data <;> rfl
  | succ fuel ih =>
      intro data
      cases data with
      | nil => rfl
      | cons byte data =>
          have hone : decodeOne safe version (byte :: data) =
              (operationOf byte).bind fun operation => decodeEntry safe version operation data := rfl
          unfold decodeEntries Format.many
          simp only [ih, hone, Option.bind_eq_bind, Option.bind_assoc]

/-- A sequence of entries is a list of calls, packed and as they are executed. -/
theorem sequence_iff {entries : List MetaTransaction} {data : Bytes} :
    Format.Sequence (EntryFormat safe version) entries data ↔
      ∃ calls, (∀ call ∈ calls, FitsMemory call) ∧ entries = calls.map (resolve safe version) ∧
        data = packAll calls := by
  constructor
  · intro h
    induction h with
    | nil => exact ⟨[], nofun, rfl, rfl⟩
    | cons hword _ ih =>
        obtain ⟨call, hfits, rfl, rfl⟩ := hword
        obtain ⟨calls, hall, rfl, rfl⟩ := ih
        exact ⟨call :: calls, List.forall_mem_cons.mpr ⟨hfits, hall⟩, rfl, rfl⟩
  · rintro ⟨calls, hall, rfl, rfl⟩
    induction calls with
    | nil => exact .nil
    | cons call calls ih =>
        obtain ⟨hfits, hrest⟩ := List.forall_mem_cons.mp hall
        exact .cons ⟨call, hfits, rfl, rfl⟩ (ih hrest)

/-- **What is accepted is a concatenation of packed calls, and the result is these calls.** -/
theorem decodeMultiSend_eq_some_iff {data : Bytes} {entries : List MetaTransaction} :
    decodeMultiSend safe data version = some entries ↔
      ∃ calls, (∀ call ∈ calls, FitsMemory call) ∧ entries = calls.map (resolve safe version) ∧
        data = packAll calls := by
  rw [decodeMultiSend, decodeEntries_eq_many,
    Format.many_eq_some_iff (decodes_entry safe version) entry_ne_nil (Nat.le_refl _), sequence_iff]

/-- The rounds are never used up. -/
theorem decodeEntries_fuel {fuel : Nat} {data : Bytes} (hfuel : data.length ≤ fuel) :
    decodeEntries safe version fuel data = decodeMultiSend safe data version := by
  rw [decodeMultiSend, decodeEntries_eq_many, decodeEntries_eq_many]
  exact Format.many_fuel (decodes_entry safe version) entry_ne_nil hfuel

end Entries

/-! ### Flattening -/

/-- The entries of a batch and whether these may be batches, where delegate calls are allowed. -/
def expansion (abi : Abi) (safe : Address) (allowsDelegateCalls : Bool) (call : MetaTransaction) :
    Option (List MetaTransaction × Bool) :=
  if call.operation = .delegateCall && !allowsDelegateCalls then none else decodeMultiSendCall abi safe call

/-- The error of a transaction that is nested too deep. -/
def tooDeep : ParseError := ⟨"multisend batch nested deeper than the maximum recursion depth"⟩

section Flattening

variable {abi : Abi} {safe : Address} {call : MetaTransaction}

theorem expansion_true : expansion abi safe true call = decodeMultiSendCall abi safe call := by
  unfold expansion
  rw [Bool.not_true, Bool.and_false, if_neg Bool.false_ne_true]

/-- **A batch is flattened by expanding it.** -/
theorem flatten_eq_expandWithin (n : Nat) : ∀ call,
    flatten abi safe n call = Nesting.expandWithin (expansion abi safe) tooDeep n true call := by
  -- an entry that is not a batch is one that does not expand
  have hentry : ∀ n, (∀ call, flatten abi safe n call =
      Nesting.expandWithin (expansion abi safe) tooDeep n true call) → ∀ allowsDelegateCalls call,
        (if call.operation = .delegateCall && !allowsDelegateCalls then .ok [call] else flatten abi safe n call) =
          Nesting.expandWithin (expansion abi safe) tooDeep n allowsDelegateCalls call := by
    intro n hflatten allowsDelegateCalls call
    cases hrefused : (decide (call.operation = .delegateCall) && !allowsDelegateCalls) with
    | true =>
        have hnone : expansion abi safe allowsDelegateCalls call = none := if_pos hrefused
        rw [if_pos rfl, Nesting.expandWithin_none hnone]
    | false =>
        have hsame : expansion abi safe allowsDelegateCalls call = expansion abi safe true call := by
          rw [expansion_true]
          exact if_neg (Bool.eq_false_iff.mp hrefused)
        rw [if_neg Bool.false_ne_true, hflatten]
        unfold Nesting.expandWithin
        rw [hsame]
  induction n with
  | zero =>
      intro call
      unfold flatten Nesting.expandWithin
      rw [expansion_true]
      cases decodeMultiSendCall abi safe call with
      | none => rfl
      | some expanded => rfl
  | succ n ih =>
      intro call
      cases hexpand : decodeMultiSendCall abi safe call with
      | none =>
          rw [Nesting.expandWithin_none (expansion_true.trans hexpand)]
          unfold flatten
          rw [hexpand]
      | some expanded =>
          obtain ⟨entries, allowsDelegateCalls⟩ := expanded
          rw [Nesting.expandWithin_succ (expansion_true.trans hexpand), ← funext (hentry n ih allowsDelegateCalls)]
          conv_lhs => unfold flatten
          rw [hexpand]

variable {transaction : SafeTransaction.T} {proposal : Proposal} {error : ParseError}

theorem parse_eq_ok_iff : parse abi transaction = .ok proposal ↔
    ∃ tree : Nesting.Tree MetaTransaction,
      tree.Describes (expansion abi transaction.safe) true (asMetaTransaction transaction) ∧
        tree.depth ≤ MAX_BATCH_DEPTH ∧ proposal = ⟨transaction, tree.leaves⟩ := by
  unfold parse
  rw [Fallible.bind_eq_ok, flatten_eq_expandWithin]
  constructor
  · rintro ⟨calls, hcalls, hproposal⟩
    obtain ⟨tree, hdescribes, hdepth, rfl⟩ := Nesting.expandWithin_eq_ok_iff.mp hcalls
    exact ⟨tree, hdescribes, hdepth, (Fallible.pure_eq_ok.mp hproposal).symm⟩
  · rintro ⟨tree, hdescribes, hdepth, rfl⟩
    exact ⟨tree.leaves, Nesting.expandWithin_eq_ok_iff.mpr ⟨tree, hdescribes, hdepth, rfl⟩, rfl⟩

theorem parse_eq_error_iff : parse abi transaction = .error error ↔
    error = tooDeep ∧ ∃ chain, Nesting.Chain (expansion abi transaction.safe) true chain ∧
      chain.head? = some (asMetaTransaction transaction) ∧ MAX_BATCH_DEPTH < chain.length := by
  rw [← Nesting.expandWithin_eq_error_iff, ← flatten_eq_expandWithin]
  unfold parse
  cases flatten abi transaction.safe MAX_BATCH_DEPTH (asMetaTransaction transaction) with
  | ok calls => exact ⟨nofun, nofun⟩
  | error error' =>
      constructor
      · intro h
        cases h
        rfl
      · intro h
        cases h
        rfl

/-- A delegate call among the entries of a batch that does not allow them. -/
def Refused (abi : Abi) (transaction : SafeTransaction.T) (call : MetaTransaction) : Prop :=
  call.operation = .delegateCall ∧ ∃ chain batch entries,
    Nesting.Chain (expansion abi transaction.safe) true chain ∧
      chain.head? = some (asMetaTransaction transaction) ∧ chain.getLast? = some batch ∧
        decodeMultiSendCall abi transaction.safe batch = some (entries, false) ∧ call ∈ entries

/-- **What is left is no batch, but for entries that are refused.** -/
theorem not_batch_or_refused (h : parse abi transaction = .ok proposal) (hcall : call ∈ proposal.calls) :
    decodeMultiSendCall abi transaction.safe call = none ∨ Refused abi transaction call := by
  obtain ⟨tree, hdescribes, -, rfl⟩ := parse_eq_ok_iff.mp h
  rcases Nesting.mem_leaves_of_describes tree.depth (Nat.le_refl _) hdescribes hcall with ⟨rfl, hnone⟩ |
    ⟨chain, batch, before, entries, allowsDelegateCalls, hchain, hhead, hlast, hexpand, hmem, hnone⟩
  · exact .inl (expansion_true.symm.trans hnone)
  · have hbatch : decodeMultiSendCall abi transaction.safe batch = some (entries, allowsDelegateCalls) := by
      unfold expansion at hexpand
      split at hexpand
      · cases hexpand
      · exact hexpand
    cases allowsDelegateCalls with
    | true => exact .inl (expansion_true.symm.trans hnone)
    | false =>
        unfold expansion at hnone
        split at hnone
        · next hrefused =>
            rw [Bool.not_false, Bool.and_true] at hrefused
            exact .inr ⟨of_decide_eq_true hrefused, chain, batch, entries, hchain, hhead, hlast, hbatch, hmem⟩
        · exact .inl hnone

theorem known_not_allowed : ∀ d ∈ DEPLOYMENTS, d.address ∉ MIGRATION_CONTRACTS ∧
    d.address ∉ SIGN_MESSAGE_LIBS ∧ d.address ∉ CREATE_CALL_CONTRACTS := by
  decide

/-- A delegate call to a known deployment is not one that the base check allows. -/
theorem not_checkDelegateCalls (h : decodeMultiSendCall abi safe call ≠ none) :
    call.operation = .delegateCall ∧ checkDelegateCalls call = false := by
  obtain ⟨expanded, hexpand⟩ := Option.ne_none_iff_exists'.mp h
  unfold decodeMultiSendCall at hexpand
  have hoperation : call.operation = .delegateCall := by
    by_contra hother
    rw [if_pos hother] at hexpand
    cases hexpand
  rw [if_neg (not_not.mpr hoperation)] at hexpand
  obtain ⟨⟨version, allowsDelegateCalls⟩, hknown, -⟩ := Option.bind_eq_some_iff.mp hexpand
  obtain ⟨d, hfind, -⟩ := Option.map_eq_some_iff.mp hknown
  have haddress : d.address = call.target := of_decide_eq_true (List.find?_some hfind :)
  obtain ⟨hmigration, hsign, hcreate⟩ := known_not_allowed d (List.mem_of_find?_eq_some hfind)
  rw [haddress] at hmigration hsign hcreate
  refine ⟨hoperation, ?_⟩
  unfold checkDelegateCalls
  rw [if_neg (not_not.mpr hoperation), if_neg hmigration, if_neg hsign, if_neg hcreate]

theorem checkCall_batch (h : decodeMultiSendCall abi safe call ≠ none) :
    checkCall abi safe call = .error .delegatecallIntegrity := by
  obtain ⟨hoperation, hdenied⟩ := not_checkDelegateCalls h
  unfold checkCall checkSettingsChange checkDelegatecallIntegrity
  simp [hoperation, hdenied]

/-- **The base check denies a batch that is left.** -/
theorem base_denies (context : CheckContext) (hcall : call ∈ proposal.calls)
    (h : decodeMultiSendCall abi proposal.transaction.safe call ≠ none) :
    ∃ rule, baseChecker abi proposal context = .insecure rule := by
  by_contra hnever
  have hok := checkCall_of_base (fun rule heq => hnever ⟨rule, heq⟩) call hcall
  rw [checkCall_batch h] at hok
  cases hok

end Flattening

/--
**MultiSend batches are decoded and flattened as they are executed.**  What is decoded is exactly a
concatenation of packed calls whose data fit into memory, and the result is these calls, with the Safe for
a zero target where the version says so; everything else is rejected, and the rounds are never used up.
What is read is within the data.  A transaction is parsed into the leaves of its nesting, from left to
right, and there is only one nesting; it fails exactly if more than four batches are nested in one another.
A call of the result is not a batch itself, unless it is an entry that its batch does not allow, and then
the base check denies the transaction.
-/
theorem batches_run_as_parsed (abi : Abi) :
    (∀ safe version calls, (∀ call ∈ calls, FitsMemory call) →
      decodeMultiSend safe (packAll calls) version = some (calls.map (resolve safe version))) ∧
    (∀ safe version data entries, decodeMultiSend safe data version = some entries →
      ∃ calls, (∀ call ∈ calls, FitsMemory call) ∧ entries = calls.map (resolve safe version) ∧
        data = packAll calls ∧ (version = .legacy → data = packAll entries)) ∧
    (∀ safe version data, decodeMultiSend safe data version = none ↔
      ¬∃ calls, (∀ call ∈ calls, FitsMemory call) ∧ data = packAll calls) ∧
    (∀ safe version fuel (data : Bytes), data.length ≤ fuel →
      decodeEntries safe version fuel data = decodeMultiSend safe data version) ∧
    (∀ len data front rest, read len data = some (front, rest) ↔ front.length = len ∧ data = front ++ rest) ∧
    (∀ transaction proposal, parse abi transaction = .ok proposal ↔
      ∃ tree : Nesting.Tree MetaTransaction,
        tree.Describes (expansion abi transaction.safe) true (asMetaTransaction transaction) ∧
          tree.depth ≤ MAX_BATCH_DEPTH ∧ proposal = ⟨transaction, tree.leaves⟩) ∧
    (∀ safe call (tree tree' : Nesting.Tree MetaTransaction), tree.Describes (expansion abi safe) true call →
      tree'.Describes (expansion abi safe) true call → tree = tree') ∧
    (∀ transaction error, parse abi transaction = .error error ↔
      error = tooDeep ∧ ∃ chain, Nesting.Chain (expansion abi transaction.safe) true chain ∧
        chain.head? = some (asMetaTransaction transaction) ∧ 4 < chain.length) ∧
    ∀ transaction proposal, parse abi transaction = .ok proposal → ∀ call ∈ proposal.calls,
      decodeMultiSendCall abi transaction.safe call ≠ none →
        Refused abi transaction call ∧
          checkCall abi transaction.safe call = .error .delegatecallIntegrity ∧
            ∀ context, ∃ rule, baseChecker abi proposal context = .insecure rule := by
  refine ⟨fun safe version calls hfits => ?_, fun safe version data entries h => ?_,
    fun safe version data => ?_, fun safe version fuel data hfuel => decodeEntries_fuel hfuel,
    fun len data front rest => read_eq_some_iff, fun transaction proposal => parse_eq_ok_iff,
    fun safe call tree tree' h h' => Nesting.Tree.Describes.unique h h',
    fun transaction error => parse_eq_error_iff, fun transaction proposal h call hcall hbatch => ?_⟩
  · exact decodeMultiSend_eq_some_iff.mpr ⟨calls, hfits, rfl, rfl⟩
  · obtain ⟨calls, hfits, rfl, rfl⟩ := decodeMultiSend_eq_some_iff.mp h
    refine ⟨calls, hfits, rfl, rfl, ?_⟩
    rintro rfl
    have hsame : calls.map (resolve safe .legacy) = calls := List.map_id'' (fun call => rfl) calls
    rw [hsame]
  · rw [Option.eq_none_iff_forall_ne_some]
    constructor
    · rintro h ⟨calls, hfits, hdata⟩
      exact h _ (decodeMultiSend_eq_some_iff.mpr ⟨calls, hfits, rfl, hdata⟩)
    · intro h entries hentries
      obtain ⟨calls, hfits, -, hdata⟩ := decodeMultiSend_eq_some_iff.mp hentries
      exact h ⟨calls, hfits, hdata⟩
  · have htransaction : proposal.transaction = transaction := by
      obtain ⟨tree, -, -, rfl⟩ := parse_eq_ok_iff.mp h
      rfl
    refine ⟨(not_batch_or_refused h hcall).resolve_left hbatch, checkCall_batch hbatch, fun context => ?_⟩
    rw [← htransaction] at hbatch
    exact base_denies context hcall hbatch

/-- The decoders of batches and transfers; the bytes of a batch follow their offset and length. -/
def batchAbi : Abi where
  decode := fun
    | .multiSend, data =>
        let length := Bytes.value ((data.drop 36).take 32)
        if Function.multiSend.selects data ∧ 68 + length ≤ data.length then some ((data.drop 68).take length)
        else none
    | f, data => transferAbi.decode f data
  twapData := transferAbi.twapData
  encodeTransfer := transferAbi.encodeTransfer
  transferLog := transferAbi.transferLog
  approvalLog := transferAbi.approvalLog
  orderDigest := transferAbi.orderDigest
  decode_selector := by
    intro f data args h
    cases f with
    | multiSend =>
        dsimp only at h
        split at h
        · next hselects => exact selects_iff.mp hselects.1
        · cases h
    | _ => exact transferAbi.decode_selector _ data args h
  decode_encodeTransfer := transferAbi.decode_encodeTransfer

/-- A batch of packed calls. -/
def batchOf (deployment : Address) (entries : List MetaTransaction) : MetaTransaction where
  target := deployment
  value := 0
  data := Function.multiSend.selector ++ (Bytes.word 32 ++
    (Bytes.word (BitVec.ofNat 256 (packAll entries).length) ++ (packAll entries ++
      List.replicate ((32 - (packAll entries).length % 32) % 32) 0)))
  operation := .delegateCall

/-- A batch that calls the Safe itself, and sends another batch. -/
def sendsBatch : SafeTransaction.T :=
  let inner := batchOf 0x38869bf66a61cF6bDB996A6aE40D5853Fd43B526 [⟨9, 0, [], .call⟩]
  let outer := batchOf 0x218543288004CD07832472D464648173c77D7eB7 [⟨0, 1, [0xaa], .call⟩, inner]
  ⟨1, 7, outer.target, outer.value, outer.data, outer.operation, 0, 0, 0, 0, 0, 4⟩

theorem sendsBatch_is_parsed :
    decodeMultiSend 7 (packAll [⟨0, 1, [0xaa], .call⟩, ⟨9, 0, [], .call⟩]) .v150Plus =
      some [⟨7, 1, [0xaa], .call⟩, ⟨9, 0, [], .call⟩] ∧
    parse batchAbi sendsBatch = .ok ⟨sendsBatch, [⟨7, 1, [0xaa], .call⟩, ⟨9, 0, [], .call⟩]⟩ ∧
    ∃ tree : Nesting.Tree MetaTransaction,
      tree.Describes (expansion batchAbi 7) true (asMetaTransaction sendsBatch) ∧ tree.depth ≤ 4 ∧
        tree.leaves = [⟨7, 1, [0xaa], .call⟩, ⟨9, 0, [], .call⟩] := by
  obtain ⟨hpack, -, -, -, -, hparse, -⟩ := batches_run_as_parsed batchAbi
  have hparsed : parse batchAbi sendsBatch =
      .ok ⟨sendsBatch, [⟨7, 1, [0xaa], .call⟩, ⟨9, 0, [], .call⟩]⟩ := by
    decide +kernel
  obtain ⟨tree, hdescribes, hdepth, heq⟩ := (hparse _ _).mp hparsed
  refine ⟨?_, hparsed, tree, hdescribes, hdepth, (congrArg Proposal.calls heq).symm⟩
  exact hpack 7 .v150Plus [⟨0, 1, [0xaa], .call⟩, ⟨9, 0, [], .call⟩] (by decide)

end Safenet.SentinelEngine
