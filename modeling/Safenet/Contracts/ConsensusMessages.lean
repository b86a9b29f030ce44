/-
The EIP-712 hashes of `contracts/src/libraries/ConsensusMessages.sol` and
`contracts/src/libraries/SafeTransaction.sol`.

The assembly lays out words in memory and hashes them; here the words are listed and
concatenated.
-/
import Safenet.Contracts.Secp256k1

namespace Safenet.Contracts

/-- `keccak256("EIP712Domain(uint256 chainId,address verifyingContract)")`. -/
def DOMAIN_TYPEHASH : B256 := 0x47e79534a245952e8b16893a336b85a3d9ea9fa8c573f3d803afb92a79469218#256

/-- The hash of a sequence of words. -/
def hashWords (keccak : Keccak) (words : List B256) : B256 := keccak (words.flatMap Bytes.word)

/-- `keccak256(0x1901 ‖ domainSeparator ‖ structHash)`. -/
def typedDataHash (keccak : Keccak) (domainSeparator structHash : B256) : B256 :=
  keccak ([0x19#8, 0x01#8] ++ [domainSeparator, structHash].flatMap Bytes.word)

/-- How a Safe calls its target. -/
inductive Operation where
  | call
  | delegateCall
deriving DecidableEq, Repr

/-- The `uint8` value of the enumeration. -/
def Operation.toWord : Operation → B256
  | .call => 0
  | .delegateCall => 1

namespace SafeTransaction

/-- A Safe transaction with the domain of its account. -/
structure T where
  chainId : B256
  safe : Address
  target : Address
  value : B256
  data : Bytes
  operation : Operation
  safeTxGas : B256
  baseGas : B256
  gasPrice : B256
  gasToken : Address
  refundReceiver : Address
  nonce : B256
deriving DecidableEq, Repr

/-- The type hash of `SafeTx`. -/
def SAFE_TX_TYPEHASH : B256 :=
  0xbb8310d486368db6bd6f849402fdd73ad53d316b5a4b2644ad6efe0f941286d8#256

/-- The EIP-712 hash from the struct hash of the transaction. -/
def partialHash (keccak : Keccak) (chainId : B256) (safe : Address) (safeTxStructHash : B256) :
    B256 :=
  let domainSeparator := hashWords keccak [DOMAIN_TYPEHASH, chainId, toWord safe]
  typedDataHash keccak domainSeparator safeTxStructHash

/-- The EIP-712 hash of a Safe transaction. -/
def hash (keccak : Keccak) (self : T) : B256 :=
  let safeTxStructHash := hashWords keccak [SAFE_TX_TYPEHASH, toWord self.target, self.value,
    keccak self.data, self.operation.toWord, self.safeTxGas, self.baseGas, self.gasPrice,
    toWord self.gasToken, toWord self.refundReceiver, self.nonce]
  partialHash keccak self.chainId self.safe safeTxStructHash

end SafeTransaction

namespace ConsensusMessages

/-- The type hash of `EpochRollover`. -/
def EPOCH_ROLLOVER_TYPEHASH : B256 :=
  0x13de01993286119c9a7628720a5b7d7c32841dbf2d23752b59de86a7e03fe1bf#256

/-- The type hash of `TransactionProposal`. -/
def TRANSACTION_PROPOSAL_TYPEHASH : B256 :=
  0x9c6706f5afdb1de99f5ad39011e7770ce471f51d78380634f6cedb21a648b8d0#256

/-- The domain separator of the consensus contract. -/
def domain (keccak : Keccak) (chainId : B256) (verifyingContract : Address) : B256 :=
  hashWords keccak [DOMAIN_TYPEHASH, chainId, toWord verifyingContract]

/-- The message the active group signs to hand over to a new group. -/
def epochRollover (keccak : Keccak) (domainSeparator : B256)
    (activeEpoch proposedEpoch rolloverBlock : BitVec 64) (groupKey : Secp256k1.Point) : B256 :=
  typedDataHash keccak domainSeparator (hashWords keccak [EPOCH_ROLLOVER_TYPEHASH,
    toWord activeEpoch, toWord proposedEpoch, toWord rolloverBlock, groupKey.x, groupKey.y])

/-- The message the validators attest to for a transaction. -/
def transactionProposal (keccak : Keccak) (domainSeparator : B256) (epoch : BitVec 64)
    (oracle : Address) (oracleDataHash safeTxHash : B256) : B256 :=
  typedDataHash keccak domainSeparator (hashWords keccak [TRANSACTION_PROPOSAL_TYPEHASH,
    toWord epoch, toWord oracle, oracleDataHash, safeTxHash])

end ConsensusMessages

end Safenet.Contracts
