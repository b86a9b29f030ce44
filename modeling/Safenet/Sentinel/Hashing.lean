/-
The hashes of a sentinel, `sentinel/src/hashing.rs`.  The salt of a reveal is derived from the account
key and is an argument here.
-/
import Safenet.Lib.Eip712
import Safenet.Contracts.Evm

namespace Safenet.Sentinel

open Contracts (Keccak)
open Eip712 (Struct)

variable (keccak : Keccak)

/-- The UTF-8 bytes of a string. -/
def utf8 (s : String) : Bytes := s.toUTF8.toList.map fun b => b.toBitVec

/-- `u8::from(approve)`. -/
def approveByte (approve : Bool) : BitVec 8 := if approve then 1 else 0

/-- The pieces go into the hasher one after the other. -/
def commitHash (sentinel : Address) (requestId : B256) (approve : Bool) (salt : B256) (reason : String) :
    B256 :=
  let hasher : Bytes := []
  let hasher := hasher ++ [approveByte approve]
  let hasher := hasher ++ Bytes.word salt
  let hasher := hasher ++ Bytes.digits 20 sentinel.toNat
  let hasher := hasher ++ Bytes.word requestId
  let hasher := hasher ++ utf8 reason
  keccak hasher

/-- The struct `TransactionProposal` of the sentinel's bindings. -/
def transactionProposal (epoch : BitVec 64) (oracle : Address) (oracleData : Bytes) (safeTxHash : B256) :
    Struct where
  name := "TransactionProposal"
  members :=
    [("epoch", .uint 64 epoch), ("oracle", .address oracle), ("oracleData", .bytes oracleData),
      ("safeTxHash", .bytes32 safeTxHash)]

def oracleTxProposalHash (chainId : B256) (consensus : Address) (epoch : BitVec 64) (oracle : Address)
    (oracleData : Bytes) (stxHash : B256) : B256 :=
  (transactionProposal epoch oracle oracleData stxHash).signingHash keccak
    { name := none
      version := none
      chainId := some chainId
      verifyingContract := some consensus
      salt := none }

end Safenet.Sentinel
