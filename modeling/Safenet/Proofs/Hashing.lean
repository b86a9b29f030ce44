/-
The validators, the sentinels and the contracts hash the same bytes.

On each side a hash is brought to the words it is made of, which is how the rest of the development
defines it: the assembly by what its memory holds when it is read, the buffers by filling them from the
left, and the standard encoding by its definition.  The type hashes that the contracts have precomputed
are those of the types that the `sol!` structs declare (`Precomputed`).
-/
import Safenet.Contracts.Assembly
import Safenet.Contracts.Coordinator
import Safenet.Contracts.SentinelOracleRequests
import Safenet.Validator.Hashing
import Safenet.Sentinel.Hashing

namespace Safenet

open Contracts
open Contracts.Secp256k1 (Point)
open Memory

/-! ### The assembly -/

namespace Contracts.Assembly

variable {keccak : Keccak} {mem : Memory}

theorem domain_eq (chainId : B256) (verifyingContract : Address) :
    domain keccak mem chainId verifyingContract = ConsensusMessages.domain keccak chainId verifyingContract := by
  refine congrArg keccak ?_
  exact read_mstores [DOMAIN_TYPEHASH, chainId, toWord verifyingContract] mem _

/-- The last three writes of a consensus message. -/
theorem read_typedData (mem : Memory) (ptr : Nat) (domainSeparator structHash : B256) :
    (((mem.mstore (ptr + 0x22) structHash).mstore ptr typedDataHeader).mstore (ptr + 0x02)
        domainSeparator).read ptr 0x42 =
      [0x19#8, 0x01#8] ++ [domainSeparator, structHash].flatMap Bytes.word := by
  have hheader : ((mem.mstore (ptr + 0x22) structHash).mstore ptr typedDataHeader).read ptr 2 =
      (Bytes.word typedDataHeader).take 2 := read_write_take (by simp)
  have hbytes : (Bytes.word typedDataHeader).take 2 = [0x19#8, 0x01#8] := by decide +kernel
  have hhash : ((mem.mstore (ptr + 0x22) structHash).mstore ptr typedDataHeader).read (ptr + 2 + 32) 32 =
      Bytes.word structHash := by
    rw [read_mstore_of_disjoint (.inr (by omega))]
    exact read_mstore_self mem (ptr + 0x22) structHash
  rw [hbytes] at hheader
  rw [show (0x42 : Nat) = 2 + (32 + 32) from rfl, read_add, read_add, read_mstore_self,
    read_mstore_of_disjoint (.inl (Nat.le_refl _)), hheader,
    read_mstore_of_disjoint (.inr (Nat.le_refl _)), hhash]
  simp

theorem transactionProposal_eq (domainSeparator : B256) (epoch : BitVec 64) (oracle : Address)
    (oracleDataHash safeTxHash : B256) :
    transactionProposal keccak mem domainSeparator epoch oracle oracleDataHash safeTxHash =
      ConsensusMessages.transactionProposal keccak domainSeparator epoch oracle oracleDataHash safeTxHash := by
  unfold transactionProposal
  dsimp only
  rw [read_typedData]
  refine congrArg (fun h => typedDataHash keccak domainSeparator (keccak h)) ?_
  exact read_mstores [ConsensusMessages.TRANSACTION_PROPOSAL_TYPEHASH, toWord epoch, toWord oracle,
    oracleDataHash, safeTxHash] mem _

/-- A point in memory. -/
theorem read_point {point : Point} (object : PointObject mem point) :
    mem.read object.address 0x40 = [point.x, point.y].flatMap Bytes.word ∧
      object.address + 0x40 ≤ mem.mload freeMemoryPointer := by
  have hread := object.read
  have hbelow := object.below
  rw [Bytes.flatMap_word_length] at hread hbelow
  exact ⟨hread, hbelow⟩

theorem epochRollover_eq (domainSeparator : B256) (activeEpoch proposedEpoch rolloverBlock : BitVec 64)
    {groupKey : Point} (object : PointObject mem groupKey) :
    epochRollover keccak mem domainSeparator activeEpoch proposedEpoch rolloverBlock object.address =
      ConsensusMessages.epochRollover keccak domainSeparator activeEpoch proposedEpoch rolloverBlock
        groupKey := by
  unfold epochRollover
  dsimp only
  rw [read_typedData]
  refine congrArg (fun h => typedDataHash keccak domainSeparator (keccak h)) ?_
  obtain ⟨hkey, hbelow⟩ := read_point object
  generalize mem.mload freeMemoryPointer = ptr at hbelow ⊢
  have hwords : (mem.mstores ptr [ConsensusMessages.EPOCH_ROLLOVER_TYPEHASH, toWord activeEpoch,
      toWord proposedEpoch, toWord rolloverBlock]).read ptr 0x80 = _ := read_mstores _ mem ptr
  have hcopied : (mem.mstores ptr [ConsensusMessages.EPOCH_ROLLOVER_TYPEHASH, toWord activeEpoch,
      toWord proposedEpoch, toWord rolloverBlock]).read object.address 0x40 = _ :=
    (read_mstores_below hbelow).trans hkey
  show (mcopy (mem.mstores ptr [_, _, _, _]) _ _ _).read ptr (0x80 + 0x40) = _
  rw [read_add, read_mcopy_of_disjoint (.inl (Nat.le_refl _)), read_mcopy_self, hcopied, hwords,
    ← List.flatMap_append]
  rfl

/-- The last three writes of the hash of a transaction, whose header is aligned to the right. -/
theorem read_header (mem : Memory) (ptr : Nat) (domainSeparator structHash : B256) :
    (((mem.mstore ptr 0x1901).mstore (ptr + 0x20) domainSeparator).mstore (ptr + 0x40) structHash).read
        (ptr + 0x1e) 0x42 =
      [0x19#8, 0x01#8] ++ [domainSeparator, structHash].flatMap Bytes.word := by
  have hheader : (mem.mstore ptr 0x1901).read (ptr + 30) 2 = ((Bytes.word 0x1901).drop 30).take 2 :=
    read_write_within (by simp)
  have hbytes : ((Bytes.word 0x1901).drop 30).take 2 = [0x19#8, 0x01#8] := by decide +kernel
  have hseparator : ((mem.mstore ptr 0x1901).mstore (ptr + 0x20) domainSeparator).read (ptr + 30 + 2) 32 =
      Bytes.word domainSeparator := read_mstore_self _ _ _
  have hhash : (((mem.mstore ptr 0x1901).mstore (ptr + 0x20) domainSeparator).mstore (ptr + 0x40)
      structHash).read (ptr + 30 + 2 + 32) 32 = Bytes.word structHash := read_mstore_self _ _ _
  rw [hbytes] at hheader
  rw [show (0x42 : Nat) = 2 + (32 + 32) from rfl, read_add, read_add,
    read_mstore_of_disjoint (.inl (by omega)), read_mstore_of_disjoint (.inl (by omega)), hheader,
    read_mstore_of_disjoint (.inl (by omega)), hseparator, hhash]
  simp

theorem partialHash_eq (chainId : B256) (safe : Address) (structHash : B256) :
    partialHash keccak mem chainId safe structHash =
      SafeTransaction.partialHash keccak chainId safe structHash := by
  -- the domain separator is made of the same words as the one of the consensus
  have hdomain : domain keccak mem chainId safe = _ := domain_eq chainId safe
  unfold domain at hdomain
  unfold partialHash
  dsimp only at hdomain ⊢
  rw [hdomain, read_header]
  rfl

/-- The words of a transaction in memory. -/
theorem read_transaction {tx : SafeTransaction.T} (object : TransactionObject mem tx) {start length : Nat}
    (h : start + length ≤ 12) :
    mem.read (object.struct.address + 32 * start) (32 * length) =
      (((transactionWords tx object.data.address).drop start).take length).flatMap Bytes.word := by
  have hcontent : transactionContent tx object.data.address =
      (transactionWords tx object.data.address).flatMap Bytes.word := by rw [transactionContent]
  have hlength : (transactionContent tx object.data.address).length = 32 * 12 := by
    rw [hcontent, Bytes.flatMap_word_length]
    rfl
  rw [object.struct.read_within (by omega), hcontent, Bytes.drop_flatMap_word, Bytes.take_flatMap_word]

/-- The memory with the type hash and the fields of a transaction. -/
def copied (mem : Memory) (self : Nat) : Memory :=
  (mem.mstore (mem.mload freeMemoryPointer) SafeTransaction.SAFE_TX_TYPEHASH).mcopy
    (mem.mload freeMemoryPointer + 0x20) (self + 0x40) 0x140

section Copied

variable {tx : SafeTransaction.T} (object : TransactionObject mem tx)

theorem copied_below {self address length : Nat} (h : address + length ≤ mem.mload freeMemoryPointer) :
    (copied mem self).read address length = mem.read address length := by
  rw [copied, read_mcopy_of_disjoint (.inl (by omega)), read_mstore_of_disjoint (.inl h)]

include object in
theorem struct_below : object.struct.address + 384 ≤ mem.mload freeMemoryPointer := by
  have h := object.struct.below
  have hlength : (transactionContent tx object.data.address).length = 384 := by
    rw [transactionContent, Bytes.flatMap_word_length]
    rfl
  rwa [hlength] at h

include object in
theorem data_below : object.data.address + (32 + tx.data.length) ≤ mem.mload freeMemoryPointer := by
  have h := object.data.below
  rwa [List.length_append, Bytes.word_length] at h

theorem copied_pointer :
    (copied mem object.struct.address).mload (object.struct.address + 0x80) = object.data.address := by
  have hbelow := struct_below object
  have hread := read_transaction object (show 4 + 1 ≤ 12 by omega)
  have hwords : ((transactionWords tx object.data.address).drop 4).take 1 =
      [BitVec.ofNat 256 object.data.address] := rfl
  rw [hwords, List.flatMap_singleton] at hread
  rw [mload, copied_below (by omega)]
  exact (congrArg Bytes.value hread).trans (by
    rw [Bytes.value_word, BitVec.toNat_ofNat, Nat.mod_eq_of_lt object.data.fits])

theorem copied_length : (copied mem object.struct.address).mload object.data.address = tx.data.length := by
  have hbelow := data_below object
  have hread : mem.read (object.data.address + 0) 32 = _ := object.data.read_within (by simp)
  rw [List.drop_zero, List.take_left' (Bytes.word_length _)] at hread
  rw [mload, copied_below (by omega)]
  exact (congrArg Bytes.value hread).trans (by
    rw [Bytes.value_word, BitVec.toNat_ofNat, Nat.mod_eq_of_lt object.length])

theorem copied_data :
    (copied mem object.struct.address).read (object.data.address + 0x20) tx.data.length = tx.data := by
  have hbelow := data_below object
  rw [copied_below (by omega), object.data.read_within (by simp), List.drop_left' (Bytes.word_length _),
    List.take_length]

theorem copied_words :
    (copied mem object.struct.address).read (mem.mload freeMemoryPointer) (32 * 11) =
      (SafeTransaction.SAFE_TX_TYPEHASH :: (transactionWords tx object.data.address).drop 2).flatMap
        Bytes.word := by
  have hbelow := struct_below object
  have hread := read_transaction object (show 2 + 10 ≤ 12 by omega)
  have hwords : ((transactionWords tx object.data.address).drop 2).take 10 =
      (transactionWords tx object.data.address).drop 2 := rfl
  rw [hwords] at hread
  rw [show 32 * 11 = 0x20 + 0x140 from rfl, read_add, List.flatMap_cons, copied,
    read_mcopy_of_disjoint (.inl (Nat.le_refl _)), read_mstore_self, read_mcopy_self,
    read_mstore_of_disjoint (.inl (by omega))]
  exact congrArg _ hread

/-- The struct hash is that of the fields, and the fields are still there. -/
theorem safeTxStructHash_eq :
    (safeTxStructHash keccak mem object.struct.address).2 = hashWords keccak
        [SafeTransaction.SAFE_TX_TYPEHASH, toWord tx.target, tx.value, keccak tx.data, tx.operation.toWord,
          tx.safeTxGas, tx.baseGas, tx.gasPrice, toWord tx.gasToken, toWord tx.refundReceiver, tx.nonce] ∧
      ∀ start < 12, (safeTxStructHash keccak mem object.struct.address).1.read
          (object.struct.address + 32 * start) 32 =
        mem.read (object.struct.address + 32 * start) 32 := by
  have hbelow := struct_below object
  have hmemory : (safeTxStructHash keccak mem object.struct.address).1 =
      (copied mem object.struct.address).mstore (mem.mload freeMemoryPointer + 32 * 3) (keccak tx.data) := by
    show (copied mem object.struct.address).mstore _ (keccak ((copied mem object.struct.address).read
      ((copied mem object.struct.address).mload (object.struct.address + 0x80) + 0x20)
      ((copied mem object.struct.address).mload
        ((copied mem object.struct.address).mload (object.struct.address + 0x80))))) = _
    rw [copied_pointer, copied_length, copied_data]
  constructor
  · show keccak ((safeTxStructHash keccak mem object.struct.address).1.read _ (32 * 11)) = _
    rw [hmemory]
    rw [read_mstore_set 3 (keccak tx.data) (copied_words object) (by decide)]
    rfl
  · intro start hstart
    rw [hmemory, read_mstore_of_disjoint (.inl (by omega)), copied_below (by omega)]

theorem hash_eq : hash keccak mem object.struct.address = SafeTransaction.hash keccak tx := by
  obtain ⟨hstruct, hfields⟩ :
      (safeTxStructHash keccak mem object.struct.address).2 = _ ∧ _ := safeTxStructHash_eq object
  have hchain : (safeTxStructHash keccak mem object.struct.address).1.read object.struct.address 32 =
      Bytes.word tx.chainId := by
    have hwords : ((transactionWords tx object.data.address).drop 0).take 1 = [tx.chainId] := rfl
    have hread := read_transaction object (show 0 + 1 ≤ 12 by omega)
    rw [hwords, List.flatMap_singleton] at hread
    exact (hfields 0 (by omega)).trans hread
  have hsafe : (safeTxStructHash keccak mem object.struct.address).1.read (object.struct.address + 0x20) 32 =
      Bytes.word (toWord tx.safe) := by
    have hwords : ((transactionWords tx object.data.address).drop 1).take 1 = [toWord tx.safe] := rfl
    have hread := read_transaction object (show 1 + 1 ≤ 12 by omega)
    rw [hwords, List.flatMap_singleton] at hread
    exact (hfields 1 (by omega)).trans hread
  unfold hash
  dsimp only
  rw [mload, mload, hchain, hsafe, Bytes.value_word, Bytes.value_word, hstruct, partialHash_eq,
    BitVec.ofNat_toNat, BitVec.setWidth_eq]
  refine congrArg (fun safe => SafeTransaction.partialHash keccak tx.chainId safe _) ?_
  have hlt := tx.safe.isLt
  refine BitVec.eq_of_toNat_eq ?_
  rw [toWord, BitVec.toNat_ofNat, BitVec.toNat_ofNat]
  omega

end Copied

theorem create_eq (participants : B256) (count threshold : BitVec 16) (context : B256) :
    create keccak mem participants count threshold context =
      FROSTGroupId.create keccak participants count.toNat threshold.toNat context := by
  refine congrArg (fun bytes => FROSTGroupId.mask (keccak bytes)) ?_
  exact read_mstores [participants, toWord count, toWord threshold, context] mem _

theorem shareHash_eq (participant : Address) {share : FROST.SignatureShare} {r : Point}
    (ri : PointObject mem share.r) (object : PointObject mem r) :
    shareHash keccak mem participant ri.address share.l object.address =
      FROSTSignatureShares.hash keccak participant share r := by
  refine congrArg keccak ?_
  obtain ⟨hri, hriBelow⟩ := read_point ri
  obtain ⟨hr, hrBelow⟩ := read_point object
  generalize mem.mload freeMemoryPointer = ptr at hriBelow hrBelow ⊢
  -- the participant, the commitment and the coefficient, which the second copy leaves alone
  have hshare : (((mem.mstore ptr (toWord participant)).mcopy (ptr + 0x20) ri.address 0x40).mstore
      (ptr + 0x60) share.l).read ptr 0x80 =
        [toWord participant, share.r.x, share.r.y, share.l].flatMap Bytes.word := by
    have hl : (((mem.mstore ptr (toWord participant)).mcopy (ptr + 0x20) ri.address 0x40).mstore
        (ptr + 0x60) share.l).read (ptr + 0x20 + 0x40) 0x20 = Bytes.word share.l := read_mstore_self _ _ _
    rw [show 0x80 = 0x20 + (0x40 + 0x20) from rfl, read_add, read_add, hl,
      read_mstore_of_disjoint (.inl (by omega)), read_mcopy_of_disjoint (.inl (by omega)), read_mstore_self,
      read_mstore_of_disjoint (.inl (by omega)), read_mcopy_self, read_mstore_of_disjoint (.inl hriBelow),
      hri]
    simp
  have hsource : (((mem.mstore ptr (toWord participant)).mcopy (ptr + 0x20) ri.address 0x40).mstore
      (ptr + 0x60) share.l).read object.address 0x40 = [r.x, r.y].flatMap Bytes.word := by
    rw [read_mstore_of_disjoint (.inl (by omega)), read_mcopy_of_disjoint (.inl (by omega)),
      read_mstore_of_disjoint (.inl hrBelow), hr]
  rw [show 0xc0 = 0x80 + 0x40 from rfl, read_add, read_mcopy_of_disjoint (.inl (Nat.le_refl _)), hshare,
    read_mcopy_self, hsource, ← List.flatMap_append]
  rfl

end Contracts.Assembly

/-! ### The standard encoding -/

/-- The type hashes of the contracts are those of the types they are documented with. -/
structure Precomputed (keccak : Keccak) : Prop where
  domain : keccak (Bytes.ascii "EIP712Domain(uint256 chainId,address verifyingContract)") = DOMAIN_TYPEHASH
  safeTx : keccak (Bytes.ascii "SafeTx(address to,uint256 value,bytes data,uint8 operation,uint256 safeTxGas,uint256 baseGas,uint256 gasPrice,address gasToken,address refundReceiver,uint256 nonce)") =
    SafeTransaction.SAFE_TX_TYPEHASH
  epochRollover : keccak (Bytes.ascii "EpochRollover(uint64 activeEpoch,uint64 proposedEpoch,uint64 rolloverBlock,uint256 groupKeyX,uint256 groupKeyY)") =
    ConsensusMessages.EPOCH_ROLLOVER_TYPEHASH
  transactionProposal : keccak (Bytes.ascii "TransactionProposal(uint64 epoch,address oracle,bytes oracleData,bytes32 safeTxHash)") =
    ConsensusMessages.TRANSACTION_PROPOSAL_TYPEHASH

namespace Validator.Hashing

variable {keccak : Keccak}

theorem separator_eq (h : Precomputed keccak) (chainId : B256) (verifyingContract : Address) :
    (eip712Domain chainId verifyingContract).separator keccak =
      ConsensusMessages.domain keccak chainId verifyingContract := by
  have htype : (eip712Domain chainId verifyingContract).struct.encodeType =
      Bytes.ascii "EIP712Domain(uint256 chainId,address verifyingContract)" := by
    simp only [Eip712.Struct.encodeType, Eip712.Domain.struct, eip712Domain, Option.map_none, Option.map_some,
      Option.toList_none, Option.toList_some, List.nil_append, List.append_nil, List.cons_append,
      List.map_cons, List.map_nil, Eip712.Value.typeName]
    decide +kernel
  have hdata : (eip712Domain chainId verifyingContract).struct.encodeData keccak =
      [BitVec.ofNat 256 chainId.toNat, toWord verifyingContract] := rfl
  rw [Eip712.Domain.separator, Eip712.Struct.hashStruct, htype, hdata, h.domain, BitVec.ofNat_toNat,
    BitVec.setWidth_eq]
  rfl

theorem operation_eq (operation : Operation) :
    BitVec.ofNat 256 (operationValue operation).toNat = operation.toWord := by
  cases operation <;> rfl

theorem safeTxStructHash_eq (h : Precomputed keccak) (tx : Validator.SafeTransaction) :
    safeTxStructHash keccak tx = Validator.safeTxStructHash keccak tx := by
  have htype : (safeTx tx).encodeType = Bytes.ascii "SafeTx(address to,uint256 value,bytes data,uint8 operation,uint256 safeTxGas,uint256 baseGas,uint256 gasPrice,address gasToken,address refundReceiver,uint256 nonce)" := by
    simp only [Eip712.Struct.encodeType, safeTx, List.map_cons, List.map_nil, Eip712.Value.typeName]
    decide +kernel
  have hdata : (safeTx tx).encodeData keccak =
      [toWord tx.target, BitVec.ofNat 256 tx.value.toNat, keccak tx.data,
        BitVec.ofNat 256 (operationValue tx.operation).toNat, BitVec.ofNat 256 tx.safeTxGas.toNat,
        BitVec.ofNat 256 tx.baseGas.toNat, BitVec.ofNat 256 tx.gasPrice.toNat, toWord tx.gasToken,
        toWord tx.refundReceiver, BitVec.ofNat 256 tx.nonce.toNat] := rfl
  rw [operation_eq] at hdata
  simp only [safeTxStructHash, Eip712.Struct.hashStruct, htype, hdata, h.safeTx, BitVec.ofNat_toNat,
    BitVec.setWidth_eq]
  rfl

theorem safeTxHash_eq (h : Precomputed keccak) (tx : Validator.SafeTransaction) :
    safeTxHash keccak tx =
      SafeTransaction.partialHash keccak tx.chainId tx.safe (safeTxStructHash keccak tx) := by
  rw [safeTxHash, Eip712.Struct.signingHash, separator_eq h]
  rfl

theorem rollover_eq (h : Precomputed keccak) (activeEpoch : EpochId) (proposedEpoch : ℕ+)
    (rolloverBlock : BitVec 64) (groupKey : Point) :
    (rollover activeEpoch proposedEpoch rolloverBlock groupKey).hashStruct keccak = hashWords keccak
      [ConsensusMessages.EPOCH_ROLLOVER_TYPEHASH, toWord (BitVec.ofNat 64 activeEpoch.rawValue),
        toWord (BitVec.ofNat 64 proposedEpoch), toWord rolloverBlock, groupKey.x, groupKey.y] := by
  have htype : (rollover activeEpoch proposedEpoch rolloverBlock groupKey).encodeType = Bytes.ascii
      "EpochRollover(uint64 activeEpoch,uint64 proposedEpoch,uint64 rolloverBlock,uint256 groupKeyX,uint256 groupKeyY)" := by
    simp only [Eip712.Struct.encodeType, rollover, List.map_cons, List.map_nil, Eip712.Value.typeName]
    decide +kernel
  have hdata : (rollover activeEpoch proposedEpoch rolloverBlock groupKey).encodeData keccak =
      [toWord (BitVec.ofNat 64 activeEpoch.rawValue), toWord (BitVec.ofNat 64 proposedEpoch),
        toWord rolloverBlock, BitVec.ofNat 256 groupKey.x.toNat, BitVec.ofNat 256 groupKey.y.toNat] := rfl
  simp only [Eip712.Struct.hashStruct, htype, hdata, h.epochRollover, BitVec.ofNat_toNat,
    BitVec.setWidth_eq]
  rfl

theorem epochRolloverHash_eq (h : Precomputed keccak) (chain : BitVec 64) (consensus : Address)
    (activeEpoch : EpochId) (proposedEpoch : ℕ+) (rolloverBlock : BitVec 64) (groupKey : Point) :
    epochRolloverHash keccak (consensusDomain chain consensus) activeEpoch proposedEpoch rolloverBlock
        groupKey =
      ConsensusMessages.epochRollover keccak (ConsensusMessages.domain keccak (toWord chain) consensus)
        (BitVec.ofNat 64 activeEpoch.rawValue) (BitVec.ofNat 64 proposedEpoch) rolloverBlock groupKey := by
  rw [epochRolloverHash, Eip712.Struct.signingHash, consensusDomain, separator_eq h, rollover_eq h]
  rfl

/-! ### The buffers -/

/-- A narrow number in a word of its own. -/
theorem zeros_append_digits {gap bytes n : Nat} (h : gap + bytes = 32) (hn : n < 256 ^ bytes)
    (hword : n < 2 ^ 256) : Bytes.zeros gap ++ Bytes.digits bytes n = Bytes.word (BitVec.ofNat 256 n) := by
  rw [Bytes.word, BitVec.toNat_ofNat, Nat.mod_eq_of_lt hword, ← h, Bytes.digits_add gap bytes hn]

theorem wordBytes_eq (v : B256) : Bytes.zeros 0 ++ Bytes.word v = Bytes.word v := List.nil_append _

theorem addressBytes_eq (address : Address) :
    Bytes.zeros 12 ++ Bytes.digits 20 address.toNat = Bytes.word (toWord address) := by
  have hlt := address.isLt
  exact zeros_append_digits rfl (by omega) (by omega)

theorem countBytes_eq (count : BitVec 16) :
    Bytes.zeros 30 ++ Bytes.digits 2 count.toNat = Bytes.word (toWord count) := by
  have hlt := count.isLt
  exact zeros_append_digits rfl (by omega) (by omega)

/-- Clearing the last eight bytes. -/
theorem mask_eq (raw : B256) :
    ofBytes ((Bytes.word raw).copyFrom 24 (Bytes.zeros 8)) = FROSTGroupId.mask raw := by
  have hbytes : (Bytes.word raw).copyFrom 24 (Bytes.zeros 8) =
      Bytes.digits 24 (raw.toNat / 2 ^ 64) ++ Bytes.zeros 8 := by
    rw [Bytes.copyFrom, Bytes.zeros_length, List.drop_of_length_le (by simp), List.append_nil]
    exact congrArg (· ++ Bytes.zeros 8) (Bytes.take_digits 24 8 raw.toNat)
  have hvalue : (Bytes.digits 24 (raw.toNat / 2 ^ 64) ++ Bytes.zeros 8).value =
      raw.toNat / 2 ^ 64 * 2 ^ 64 := by
    have hlt := raw.isLt
    rw [Bytes.value_append_zeros, Bytes.value_digits, Nat.mod_eq_of_lt (by omega),
      show 256 ^ 8 = 2 ^ 64 from rfl]
  have hmask : FROSTGroupId.mask raw = (raw >>> 64) <<< 64 := by
    unfold FROSTGroupId.mask
    rw [show (0xffffffffffffffffffffffffffffffffffffffffffffffff0000000000000000#256 : B256) =
      BitVec.allOnes 256 <<< 64 from by decide +kernel]
    refine BitVec.eq_of_getLsbD_eq fun i hi => ?_
    simp only [BitVec.getLsbD_and, BitVec.getLsbD_shiftLeft, BitVec.getLsbD_ushiftRight,
      BitVec.getLsbD_allOnes]
    by_cases h64 : i < 64
    · simp [h64]
    · have hi' : 64 + (i - 64) = i := by omega
      have hlow : i - 64 < 256 := by omega
      simp [h64, hi, hi', hlow]
  rw [ofBytes, hbytes, hvalue, hmask]
  refine BitVec.eq_of_toNat_eq ?_
  have hlt := raw.isLt
  rw [BitVec.toNat_ofNat, BitVec.toNat_shiftLeft, BitVec.toNat_ushiftRight, Nat.shiftRight_eq_div_pow,
    Nat.shiftLeft_eq]

theorem groupId_eq (participants : B256) (count threshold : BitVec 16) (context : B256) :
    groupId keccak participants count threshold context =
      FROSTGroupId.create keccak participants count.toNat threshold.toNat context := by
  unfold groupId
  dsimp only
  rw [mask_eq, show Bytes.zeros 128 = ([] : List B256).flatMap Bytes.word ++ Bytes.zeros 128 from rfl,
    Bytes.copyFrom_word participants 96 (wordBytes_eq _) (by rfl) (by rfl),
    Bytes.copyFrom_word (toWord count) 64 (countBytes_eq count) (by rfl) (by rfl),
    Bytes.copyFrom_word (toWord threshold) 32 (countBytes_eq threshold) (by rfl) (by rfl),
    Bytes.copyFrom_word context 0 (wordBytes_eq _) (by rfl) (by rfl), Bytes.zeros_zero, List.append_nil]
  rfl

theorem signerLeaf_eq (participant : Address) (r : Point) (l : B256) (groupR : Point) :
    signerLeaf keccak participant r l groupR = Validator.signerLeaf keccak participant r l groupR := by
  unfold signerLeaf
  dsimp only
  rw [show Bytes.zeros 192 = ([] : List B256).flatMap Bytes.word ++ Bytes.zeros 192 from rfl,
    Bytes.copyFrom_word (toWord participant) 160 (addressBytes_eq participant) (by rfl) (by rfl),
    Bytes.copyFrom_word r.x 128 (wordBytes_eq _) (by rfl) (by rfl),
    Bytes.copyFrom_word r.y 96 (wordBytes_eq _) (by rfl) (by rfl),
    Bytes.copyFrom_word l 64 (wordBytes_eq _) (by rfl) (by rfl),
    Bytes.copyFrom_word groupR.x 32 (wordBytes_eq _) (by rfl) (by rfl),
    Bytes.copyFrom_word groupR.y 0 (wordBytes_eq _) (by rfl) (by rfl), Bytes.zeros_zero, List.append_nil]
  rfl

/-- The message of a hand-made typed data hash. -/
theorem message_eq (separator structHash : B256) :
    (((Bytes.zeros 66).copyFrom 0 [0x19, 0x01]).copyFrom 2 (Bytes.word separator)).copyFrom 34
        (Bytes.word structHash) =
      [0x19#8, 0x01#8] ++ [separator, structHash].flatMap Bytes.word := by
  rw [show Bytes.zeros 66 = [] ++ Bytes.zeros 66 from rfl,
    Bytes.copyFrom_append 0 64 (by rfl) (by rfl), Bytes.copyFrom_append 0 32 (by rfl) (by simp),
    Bytes.copyFrom_append 0 0 (by simp [Bytes.zeros]) (by simp)]
  simp [Bytes.zeros]

theorem proposalType_eq : proposalType =
    Bytes.ascii "TransactionProposal(uint64 epoch,address oracle,bytes oracleData,bytes32 safeTxHash)" := by
  decide +kernel

theorem rawValue_fromRaw (n : Nat) : (EpochId.fromRaw n).rawValue = n := by
  unfold EpochId.fromRaw
  split
  · rfl
  · next h => exact (Nat.eq_zero_of_not_pos h).symm

theorem transactionProposalHash_eq (h : Precomputed keccak) (chain : BitVec 64) (consensus : Address)
    (epoch : BitVec 64) (oracle : Address) (oracleDataHash safeTxHash : B256) :
    transactionProposalHash keccak (consensusDomain chain consensus) (.fromRaw epoch.toNat) oracle
        oracleDataHash safeTxHash =
      ConsensusMessages.transactionProposal keccak
        (ConsensusMessages.domain keccak (toWord chain) consensus) epoch oracle oracleDataHash safeTxHash := by
  have hepoch : Bytes.zeros 0 ++ Bytes.digits 32 epoch.toNat = Bytes.word (toWord epoch) := by
    have hlt := epoch.isLt
    exact zeros_append_digits rfl (by omega) (by omega)
  have horacle : Bytes.zeros 0 ++ (Bytes.zeros 12 ++ Bytes.digits 20 oracle.toNat) =
      Bytes.word (toWord oracle) := by
    rw [addressBytes_eq, wordBytes_eq]
  unfold transactionProposalHash
  dsimp only
  rw [message_eq, consensusDomain, separator_eq h, proposalType_eq, h.transactionProposal, rawValue_fromRaw,
    show Bytes.zeros 160 = ([] : List B256).flatMap Bytes.word ++ Bytes.zeros 160 from rfl,
    Bytes.copyFrom_word ConsensusMessages.TRANSACTION_PROPOSAL_TYPEHASH 128 (wordBytes_eq _) (by rfl) (by rfl),
    Bytes.copyFrom_word (toWord epoch) 96 hepoch (by rfl) (by rfl),
    Bytes.copyFrom_word (toWord oracle) 64 horacle (by rfl) (by rfl),
    Bytes.copyFrom_word oracleDataHash 32 (wordBytes_eq _) (by rfl) (by rfl),
    Bytes.copyFrom_word safeTxHash 0 (wordBytes_eq _) (by rfl) (by rfl), Bytes.zeros_zero, List.append_nil]
  rfl

end Validator.Hashing

namespace Sentinel

variable {keccak : Keccak}

theorem oracleTxProposalHash_eq (h : Precomputed keccak) (chainId : B256) (consensus : Address)
    (epoch : BitVec 64) (oracle : Address) (oracleData : Bytes) (stxHash : B256) :
    oracleTxProposalHash keccak chainId consensus epoch oracle oracleData stxHash =
      ConsensusMessages.transactionProposal keccak (ConsensusMessages.domain keccak chainId consensus) epoch
        oracle (keccak oracleData) stxHash := by
  have htype : (transactionProposal epoch oracle oracleData stxHash).encodeType = Bytes.ascii
      "TransactionProposal(uint64 epoch,address oracle,bytes oracleData,bytes32 safeTxHash)" := by
    simp only [Eip712.Struct.encodeType, transactionProposal, List.map_cons, List.map_nil,
      Eip712.Value.typeName]
    decide +kernel
  have hdata : (transactionProposal epoch oracle oracleData stxHash).encodeData keccak =
      [toWord epoch, toWord oracle, keccak oracleData, stxHash] := rfl
  have hstruct : (transactionProposal epoch oracle oracleData stxHash).hashStruct keccak = hashWords keccak
      [ConsensusMessages.TRANSACTION_PROPOSAL_TYPEHASH, toWord epoch, toWord oracle, keccak oracleData,
        stxHash] := by
    rw [Eip712.Struct.hashStruct, htype, hdata, h.transactionProposal]
    rfl
  have hseparator := Validator.Hashing.separator_eq h chainId consensus
  rw [oracleTxProposalHash, Eip712.Struct.signingHash, hstruct]
  refine congrArg (fun separator => typedDataHash keccak separator _) ?_
  exact hseparator

theorem commitHash_eq (sentinel : Address) (requestId : B256) (approve : Bool) (salt : B256)
    (reason : String) :
    commitHash keccak sentinel requestId approve salt reason =
      SentinelOracleCommitment.computeHash keccak sentinel requestId approve salt (utf8 reason) := by
  cases approve <;> rfl

end Sentinel

/-! ### Both sides -/

open Validator (EpochId)
open Contracts.Assembly (PointObject TransactionObject)

/-- **Identifiers are the same bytes off-chain and on-chain.** -/
theorem identifiers_agree (keccak : Keccak) (h : Precomputed keccak) :
    (∀ mem participants count threshold context,
      Validator.Hashing.groupId keccak participants count threshold context =
        Assembly.create keccak mem participants count threshold context) ∧
    (∀ mem tx (object : TransactionObject mem tx),
      Validator.Hashing.safeTxHash keccak tx = Assembly.hash keccak mem object.struct.address) ∧
    (∀ mem tx, Validator.Hashing.safeTxHash keccak tx = Assembly.partialHash keccak mem tx.chainId tx.safe
      (Validator.Hashing.safeTxStructHash keccak tx)) ∧
    (∀ mem mem' chain consensus (epoch : BitVec 64) oracle oracleDataHash safeTxHash,
      Validator.Hashing.transactionProposalHash keccak (Validator.Hashing.consensusDomain chain consensus)
          (.fromRaw epoch.toNat) oracle oracleDataHash safeTxHash =
        Assembly.transactionProposal keccak mem (Assembly.domain keccak mem' (toWord chain) consensus) epoch
          oracle oracleDataHash safeTxHash) ∧
    (∀ mem mem' mem'' chain consensus (epoch : BitVec 64) oracle oracleData tx
        (object : TransactionObject mem'' tx),
      Validator.Hashing.transactionPacketHash keccak (Validator.Hashing.consensusDomain chain consensus)
          (.fromRaw epoch.toNat) oracle oracleData tx =
        Assembly.transactionProposal keccak mem (Assembly.domain keccak mem' (toWord chain) consensus) epoch
          oracle (keccak oracleData) (Assembly.hash keccak mem'' object.struct.address)) ∧
    (∀ mem mem' chainId consensus epoch oracle oracleData stxHash,
      Sentinel.oracleTxProposalHash keccak chainId consensus epoch oracle oracleData stxHash =
        Assembly.transactionProposal keccak mem (Assembly.domain keccak mem' chainId consensus) epoch oracle
          (keccak oracleData) stxHash) ∧
    (∀ mem mem' chain consensus activeEpoch proposedEpoch rolloverBlock groupKey
        (object : PointObject mem groupKey),
      Validator.Hashing.epochRolloverHash keccak (Validator.Hashing.consensusDomain chain consensus)
          activeEpoch proposedEpoch rolloverBlock groupKey =
        Assembly.epochRollover keccak mem (Assembly.domain keccak mem' (toWord chain) consensus)
          (BitVec.ofNat 64 activeEpoch.rawValue) (BitVec.ofNat 64 proposedEpoch) rolloverBlock
          object.address) ∧
    (∀ mem participant (share : FROST.SignatureShare) r (ri : PointObject mem share.r)
        (object : PointObject mem r),
      Validator.Hashing.signerLeaf keccak participant share.r share.l r =
        Assembly.shareHash keccak mem participant ri.address share.l object.address) ∧
    ∀ sentinel requestId approve salt reason,
      Sentinel.commitHash keccak sentinel requestId approve salt reason =
        SentinelOracleCommitment.computeHash keccak sentinel requestId approve salt
          (Sentinel.utf8 reason) := by
  have hhash : ∀ mem tx (object : TransactionObject mem tx),
      Validator.Hashing.safeTxHash keccak tx = Assembly.hash keccak mem object.struct.address := by
    intro mem tx object
    rw [Validator.Hashing.safeTxHash_eq h, Validator.Hashing.safeTxStructHash_eq h, Assembly.hash_eq]
    rfl
  have hproposal : ∀ mem mem' chain consensus (epoch : BitVec 64) oracle oracleDataHash safeTxHash,
      Validator.Hashing.transactionProposalHash keccak (Validator.Hashing.consensusDomain chain consensus)
          (.fromRaw epoch.toNat) oracle oracleDataHash safeTxHash =
        Assembly.transactionProposal keccak mem (Assembly.domain keccak mem' (toWord chain) consensus) epoch
          oracle oracleDataHash safeTxHash := by
    intro mem mem' chain consensus epoch oracle oracleDataHash safeTxHash
    rw [Validator.Hashing.transactionProposalHash_eq h, Assembly.transactionProposal_eq, Assembly.domain_eq]
  refine ⟨?_, hhash, ?_, hproposal, ?_, ?_, ?_, ?_, ?_⟩
  · intro mem participants count threshold context
    rw [Validator.Hashing.groupId_eq, Assembly.create_eq]
  · intro mem tx
    rw [Validator.Hashing.safeTxHash_eq h, Assembly.partialHash_eq]
  · intro mem mem' mem'' chain consensus epoch oracle oracleData tx object
    rw [Validator.Hashing.transactionPacketHash, hproposal mem mem', hhash mem'' tx object]
  · intro mem mem' chainId consensus epoch oracle oracleData stxHash
    rw [Sentinel.oracleTxProposalHash_eq h, Assembly.transactionProposal_eq, Assembly.domain_eq]
  · intro mem mem' chain consensus activeEpoch proposedEpoch rolloverBlock groupKey object
    rw [Validator.Hashing.epochRolloverHash_eq h, Assembly.epochRollover_eq, Assembly.domain_eq]
  · intro mem participant share r ri object
    rw [Validator.Hashing.signerLeaf_eq, Assembly.shareHash_eq]
    rfl
  · intro sentinel requestId approve salt reason
    exact Sentinel.commitHash_eq sentinel requestId approve salt reason

/-- The hash function, on the four types, which start with `EI`, `Ep`, `S` and `T`, and on the parameters
of a group of three. -/
def tabulatedKeccak : Keccak
  | 0x45#8 :: 0x49#8 :: _ => DOMAIN_TYPEHASH
  | 0x45#8 :: 0x70#8 :: _ => ConsensusMessages.EPOCH_ROLLOVER_TYPEHASH
  | 0x53#8 :: _ => SafeTransaction.SAFE_TX_TYPEHASH
  | 0x54#8 :: _ => ConsensusMessages.TRANSACTION_PROPOSAL_TYPEHASH
  | 0x00#8 :: _ => 0x3d10be7e19bb353ee63548ba1ac13a3ddaa5b776190922e066dfa54b2075bbd9#256
  | _ => 0

theorem identifiers_agree_for_three :
    Precomputed tabulatedKeccak ∧
      Validator.Hashing.groupId tabulatedKeccak 1 3 2 0 =
        0x3d10be7e19bb353ee63548ba1ac13a3ddaa5b776190922e00000000000000000#256 ∧
      Assembly.create tabulatedKeccak (fun _ => 0) 1 3 2 0 =
        0x3d10be7e19bb353ee63548ba1ac13a3ddaa5b776190922e00000000000000000#256 := by
  have hprecomputed : Precomputed tabulatedKeccak :=
    ⟨by decide +kernel, by decide +kernel, by decide +kernel, by decide +kernel⟩
  have hgroup : Validator.Hashing.groupId tabulatedKeccak 1 3 2 0 =
      0x3d10be7e19bb353ee63548ba1ac13a3ddaa5b776190922e00000000000000000#256 := by decide +kernel
  refine ⟨hprecomputed, hgroup, ?_⟩
  exact ((identifiers_agree tabulatedKeccak hprecomputed).1 (fun _ => 0) 1 3 2 0).symm.trans hgroup

end Safenet
