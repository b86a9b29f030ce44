/-
The hash functions of the validator as they fill their buffers: `group_id` of
`validator/src/consensus/group.rs`, `validator/src/consensus/hashing.rs` and `signer_leaf` of
`validator/src/frost/sign.rs`.

The struct and domain hashes are the standard ones (`Eip712`), from the members that the `sol!` structs
declare.
-/
import Safenet.Lib.Memory
import Safenet.Lib.Eip712
import Safenet.Validator.Frost

namespace Safenet.Validator.Hashing

open Contracts (Keccak)
open Contracts.Secp256k1 (Point)
open Eip712 (Struct Domain)

variable (keccak : Keccak)

/-- A word from its bytes. -/
def ofBytes (bytes : Bytes) : B256 := BitVec.ofNat 256 bytes.value

/-- `group_id`. -/
def groupId (participants : B256) (count threshold : BitVec 16) (context : B256) : B256 :=
  let buffer := Bytes.zeros 128
  let buffer := buffer.copyFrom 0 (Bytes.word participants)
  let buffer := buffer.copyFrom 62 (Bytes.digits 2 count.toNat)
  let buffer := buffer.copyFrom 94 (Bytes.digits 2 threshold.toNat)
  let buffer := buffer.copyFrom 96 (Bytes.word context)
  let id := Bytes.word (keccak buffer)
  ofBytes (id.copyFrom 24 (Bytes.zeros 8))

/-- `Operation as u8`. -/
def operationValue : Contracts.Operation → BitVec 8
  | .call => 0
  | .delegateCall => 1

/-- The struct `SafeTx` of a transaction. -/
def safeTx (tx : SafeTransaction) : Struct where
  name := "SafeTx"
  members :=
    [("to", .address tx.target), ("value", .uint 256 tx.value), ("data", .bytes tx.data),
      ("operation", .uint 8 (operationValue tx.operation)), ("safeTxGas", .uint 256 tx.safeTxGas),
      ("baseGas", .uint 256 tx.baseGas), ("gasPrice", .uint 256 tx.gasPrice),
      ("gasToken", .address tx.gasToken), ("refundReceiver", .address tx.refundReceiver),
      ("nonce", .uint 256 tx.nonce)]

def safeTxStructHash (tx : SafeTransaction) : B256 := (safeTx tx).hashStruct keccak

/-- `Eip712Domain::new(None, None, Some(chain), Some(contract), None)`. -/
def eip712Domain (chainId : B256) (verifyingContract : Address) : Domain where
  name := none
  version := none
  chainId := some chainId
  verifyingContract := some verifyingContract
  salt := none

def safeTxHash (tx : SafeTransaction) : B256 :=
  (safeTx tx).signingHash keccak (eip712Domain tx.chainId tx.safe)

/-- `ConsensusDomain::new`. -/
def consensusDomain (chain : BitVec 64) (consensus : Address) : Domain :=
  eip712Domain (BitVec.ofNat 256 chain.toNat) consensus

/-- The struct `TransactionProposal`. -/
def proposal (epoch : BitVec 64) (oracle : Address) (oracleData : Bytes) (safeTxHash : B256) : Struct where
  name := "TransactionProposal"
  members :=
    [("epoch", .uint 64 epoch), ("oracle", .address oracle), ("oracleData", .bytes oracleData),
      ("safeTxHash", .bytes32 safeTxHash)]

/-- `TransactionProposal::eip712_encode_type`, which does not depend on the values. -/
def proposalType : Bytes := (proposal 0 0 [] 0).encodeType

def transactionProposalHash (domain : Domain) (epoch : EpochId) (oracle : Address)
    (oracleDataHash safeTxHash : B256) : B256 :=
  let typeHash := keccak proposalType
  let data := Bytes.zeros 160
  let data := data.copyFrom 0 (Bytes.word typeHash)
  let data := data.copyFrom 32 (Bytes.digits 32 epoch.rawValue)
  let data := data.copyFrom 64 (Bytes.zeros 12 ++ Bytes.digits 20 oracle.toNat)
  let data := data.copyFrom 96 (Bytes.word oracleDataHash)
  let data := data.copyFrom 128 (Bytes.word safeTxHash)
  let structHash := keccak data
  let message := Bytes.zeros 66
  let message := message.copyFrom 0 [0x19, 0x01]
  let message := message.copyFrom 2 (Bytes.word (domain.separator keccak))
  let message := message.copyFrom 34 (Bytes.word structHash)
  keccak message

def transactionPacketHash (domain : Domain) (epoch : EpochId) (oracle : Address) (oracleData : Bytes)
    (tx : SafeTransaction) : B256 :=
  transactionProposalHash keccak domain epoch oracle (keccak oracleData) (safeTxHash keccak tx)

/-- The struct `EpochRollover`; the epochs are `u64`. -/
def rollover (activeEpoch : EpochId) (proposedEpoch : ℕ+) (rolloverBlock : BitVec 64) (groupKey : Point) :
    Struct where
  name := "EpochRollover"
  members :=
    [("activeEpoch", .uint 64 (BitVec.ofNat 64 activeEpoch.rawValue)),
      ("proposedEpoch", .uint 64 (BitVec.ofNat 64 proposedEpoch)), ("rolloverBlock", .uint 64 rolloverBlock),
      ("groupKeyX", .uint 256 groupKey.x), ("groupKeyY", .uint 256 groupKey.y)]

def epochRolloverHash (domain : Domain) (activeEpoch : EpochId) (proposedEpoch : ℕ+)
    (rolloverBlock : BitVec 64) (groupKey : Point) : B256 :=
  (rollover activeEpoch proposedEpoch rolloverBlock groupKey).signingHash keccak domain

def signerLeaf (participant : Address) (r : Point) (l : B256) (groupR : Point) : B256 :=
  let buf := Bytes.zeros 192
  let buf := buf.copyFrom 12 (Bytes.digits 20 participant.toNat)
  let buf := buf.copyFrom 32 (Bytes.word r.x)
  let buf := buf.copyFrom 64 (Bytes.word r.y)
  let buf := buf.copyFrom 96 (Bytes.word l)
  let buf := buf.copyFrom 128 (Bytes.word groupR.x)
  let buf := buf.copyFrom 160 (Bytes.word groupR.y)
  keccak buf

end Safenet.Validator.Hashing
