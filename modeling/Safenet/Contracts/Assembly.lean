/-
The hash functions of the contracts as their assembly computes them: `ConsensusMessages.sol`,
`SafeTransaction.sol`, `FROSTGroupId.sol` and `FROSTSignatureShares.sol` of `contracts/src/libraries`.

The words are written from the free memory pointer on, in places over words that are no longer needed.
A struct argument is an object in memory below that pointer.  Pointers do not wrap around.
-/
import Safenet.Lib.Memory
import Safenet.Contracts.ConsensusMessages
import Safenet.Contracts.FROSTCoordinator

namespace Safenet.Contracts.Assembly

open Secp256k1 (Point)

/-- Where Solidity keeps the free memory pointer. -/
def freeMemoryPointer : Nat := 0x40

/-- A struct of two words. -/
abbrev PointObject (mem : Memory) (point : Point) :=
  mem.Object freeMemoryPointer ([point.x, point.y].flatMap Bytes.word)

/-- A `bytes` value: its length, then its content. -/
abbrev BytesObject (mem : Memory) (bytes : Bytes) :=
  mem.Object freeMemoryPointer (Bytes.word (BitVec.ofNat 256 bytes.length) ++ bytes)

/-- A word for each field of a transaction, which for `data` is a pointer. -/
def transactionWords (tx : SafeTransaction.T) (data : Nat) : List B256 :=
  [tx.chainId, toWord tx.safe, toWord tx.target, tx.value, BitVec.ofNat 256 data, tx.operation.toWord,
    tx.safeTxGas, tx.baseGas, tx.gasPrice, toWord tx.gasToken, toWord tx.refundReceiver, tx.nonce]

/-- The bytes of these words. -/
@[irreducible] def transactionContent (tx : SafeTransaction.T) (data : Nat) : Bytes :=
  (transactionWords tx data).flatMap Bytes.word

structure TransactionObject (mem : Memory) (tx : SafeTransaction.T) where
  data : BytesObject mem tx.data
  struct : mem.Object freeMemoryPointer (transactionContent tx data.address)
  length : tx.data.length < 2 ^ 256

variable (keccak : Keccak) (mem : Memory)

/-- `hex"1901"`, which is aligned to the left. -/
def typedDataHeader : B256 := 0x1901#256 <<< 240

/-- `ConsensusMessages.domain`. -/
def domain (chainId : B256) (verifyingContract : Address) : B256 :=
  let ptr := mem.mload freeMemoryPointer
  let mem := mem.mstore ptr DOMAIN_TYPEHASH
  let mem := mem.mstore (ptr + 0x20) chainId
  let mem := mem.mstore (ptr + 0x40) (toWord verifyingContract)
  keccak (mem.read ptr 0x60)

/-- `ConsensusMessages.epochRollover`. -/
def epochRollover (domainSeparator : B256) (activeEpoch proposedEpoch rolloverBlock : BitVec 64)
    (groupKey : Nat) : B256 :=
  let ptr := mem.mload freeMemoryPointer
  let mem := mem.mstore ptr ConsensusMessages.EPOCH_ROLLOVER_TYPEHASH
  let mem := mem.mstore (ptr + 0x20) (toWord activeEpoch)
  let mem := mem.mstore (ptr + 0x40) (toWord proposedEpoch)
  let mem := mem.mstore (ptr + 0x60) (toWord rolloverBlock)
  let mem := mem.mcopy (ptr + 0x80) groupKey 0x40
  let mem := mem.mstore (ptr + 0x22) (keccak (mem.read ptr 0xc0))
  let mem := mem.mstore ptr typedDataHeader
  let mem := mem.mstore (ptr + 0x02) domainSeparator
  keccak (mem.read ptr 0x42)

/-- `ConsensusMessages.transactionProposal`. -/
def transactionProposal (domainSeparator : B256) (epoch : BitVec 64) (oracle : Address)
    (oracleDataHash safeTxHash : B256) : B256 :=
  let ptr := mem.mload freeMemoryPointer
  let mem := mem.mstore ptr ConsensusMessages.TRANSACTION_PROPOSAL_TYPEHASH
  let mem := mem.mstore (ptr + 0x20) (toWord epoch)
  let mem := mem.mstore (ptr + 0x40) (toWord oracle)
  let mem := mem.mstore (ptr + 0x60) oracleDataHash
  let mem := mem.mstore (ptr + 0x80) safeTxHash
  let mem := mem.mstore (ptr + 0x22) (keccak (mem.read ptr 0xa0))
  let mem := mem.mstore ptr typedDataHeader
  let mem := mem.mstore (ptr + 0x02) domainSeparator
  keccak (mem.read ptr 0x42)

/-- `SafeTransaction.partialHash`. -/
def partialHash (chainId : B256) (safe : Address) (safeTxStructHash : B256) : B256 :=
  let ptr := mem.mload freeMemoryPointer
  let mem := mem.mstore ptr DOMAIN_TYPEHASH
  let mem := mem.mstore (ptr + 0x20) chainId
  let mem := mem.mstore (ptr + 0x40) (toWord safe)
  let domainSeparator := keccak (mem.read ptr 0x60)
  let mem := mem.mstore ptr 0x1901
  let mem := mem.mstore (ptr + 0x20) domainSeparator
  let mem := mem.mstore (ptr + 0x40) safeTxStructHash
  keccak (mem.read (ptr + 0x1e) 0x42)

/-- The struct hash in `SafeTransaction.hash`, with the memory it leaves behind. -/
def safeTxStructHash (self : Nat) : Memory × B256 :=
  let ptr := mem.mload freeMemoryPointer
  let mem := mem.mstore ptr SafeTransaction.SAFE_TX_TYPEHASH
  let mem := mem.mcopy (ptr + 0x20) (self + 0x40) 0x140
  let data := mem.mload (self + 0x80)
  let mem := mem.mstore (ptr + 0x60) (keccak (mem.read (data + 0x20) (mem.mload data)))
  (mem, keccak (mem.read ptr 0x160))

/-- `SafeTransaction.hash`. -/
def hash (self : Nat) : B256 :=
  let structHash := safeTxStructHash keccak mem self
  -- `self.chainId` and `self.safe` are read from memory
  partialHash keccak structHash.1 (BitVec.ofNat 256 (structHash.1.mload self))
    (BitVec.ofNat 160 (structHash.1.mload (self + 0x20))) structHash.2

/-- `FROSTGroupId.create`. -/
def create (participants : B256) (count threshold : BitVec 16) (context : B256) : B256 :=
  let ptr := mem.mload freeMemoryPointer
  let mem := mem.mstore ptr participants
  let mem := mem.mstore (ptr + 0x20) (toWord count)
  let mem := mem.mstore (ptr + 0x40) (toWord threshold)
  let mem := mem.mstore (ptr + 0x60) context
  FROSTGroupId.mask (keccak (mem.read ptr 0x80))

/-- `FROSTSignatureShares._hash`, with the pointers of `share.r` and `r`. -/
def shareHash (participant : Address) (ri : Nat) (l : B256) (r : Nat) : B256 :=
  let ptr := mem.mload freeMemoryPointer
  let mem := mem.mstore ptr (toWord participant)
  let mem := mem.mcopy (ptr + 0x20) ri 0x40
  let mem := mem.mstore (ptr + 0x60) l
  let mem := mem.mcopy (ptr + 0x80) r 0x40
  keccak (mem.read ptr 0xc0)

end Safenet.Contracts.Assembly
