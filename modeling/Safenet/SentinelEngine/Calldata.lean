/-
What the sentinel engine reads from calldata, of `sentinel-engine/src/contracts` and
`sentinel-engine/src/engine/transaction.rs`.

The ABI decoders are generated code, so they are a parameter (`Abi`).  What is relied on is that calldata
only decodes as a call of a function if it starts with the selector of the function, and that an encoded
`transfer` decodes to its arguments.  The packed entries of a MultiSend batch are decoded by the engine
itself.
-/
import Safenet.Contracts.ConsensusMessages

namespace Safenet.SentinelEngine

open Contracts (Operation SafeTransaction.T)

/-- One call of a Safe transaction. -/
structure MetaTransaction where
  target : Address
  value : B256
  data : Bytes
  operation : Operation
deriving DecidableEq, Repr

/-- The action of a transaction. -/
def asMetaTransaction (transaction : SafeTransaction.T) : MetaTransaction :=
  ⟨transaction.target, transaction.value, transaction.data, transaction.operation⟩

/-! ### Bindings -/

/-- The functions whose calls the engine inspects. -/
inductive Function where
  | addOwnerWithThreshold | removeOwner | swapOwner | changeThreshold | setFallbackHandler | setGuard
  | enableModule | disableModule | setModuleGuard
  | migrateSingleton | migrateWithFallbackHandler | migrateL2Singleton | migrateL2WithFallbackHandler
  | signMessage | execTransaction | performCreate | performCreate2
  | announceTransaction | cancelAnnouncement
  | transfer | transferFrom | approve
  | setApprovalForAll | safeTransferFrom0 | safeTransferFrom1
  | erc1155SafeTransferFrom | safeBatchTransferFrom
  | multiSend
  | stake | claim
  | setPreSignature | createWithContext
deriving DecidableEq, Repr

/-- The first four bytes of the hash of the signature. -/
def Function.selector : Function → Bytes
  | .addOwnerWithThreshold => [0x0d, 0x58, 0x2f, 0x13]
  | .removeOwner => [0xf8, 0xdc, 0x5d, 0xd9]
  | .swapOwner => [0xe3, 0x18, 0xb5, 0x2b]
  | .changeThreshold => [0x69, 0x4e, 0x80, 0xc3]
  | .setFallbackHandler => [0xf0, 0x8a, 0x03, 0x23]
  | .setGuard => [0xe1, 0x9a, 0x9d, 0xd9]
  | .enableModule => [0x61, 0x0b, 0x59, 0x25]
  | .disableModule => [0xe0, 0x09, 0xcf, 0xde]
  | .setModuleGuard => [0xe0, 0x68, 0xdf, 0x37]
  | .migrateSingleton => [0xf6, 0x68, 0x2a, 0xb0]
  | .migrateWithFallbackHandler => [0xed, 0x00, 0x7f, 0xc6]
  | .migrateL2Singleton => [0x07, 0xf4, 0x64, 0xa4]
  | .migrateL2WithFallbackHandler => [0x68, 0xcb, 0x3d, 0x94]
  | .signMessage => [0x85, 0xa5, 0xaf, 0xfe]
  | .execTransaction => [0x6a, 0x76, 0x12, 0x02]
  | .performCreate => [0x4c, 0x8c, 0x9e, 0xa1]
  | .performCreate2 => [0x48, 0x47, 0xbe, 0x6f]
  | .announceTransaction => [0x7b, 0x32, 0x8c, 0x10]
  | .cancelAnnouncement => [0xdd, 0x46, 0x47, 0xa1]
  | .transfer => [0xa9, 0x05, 0x9c, 0xbb]
  | .transferFrom => [0x23, 0xb8, 0x72, 0xdd]
  | .approve => [0x09, 0x5e, 0xa7, 0xb3]
  | .setApprovalForAll => [0xa2, 0x2c, 0xb4, 0x65]
  | .safeTransferFrom0 => [0x42, 0x84, 0x2e, 0x0e]
  | .safeTransferFrom1 => [0xb8, 0x8d, 0x4f, 0xde]
  | .erc1155SafeTransferFrom => [0xf2, 0x42, 0x43, 0x2a]
  | .safeBatchTransferFrom => [0x2e, 0xb2, 0xc2, 0xd6]
  | .multiSend => [0x8d, 0x80, 0xff, 0x0a]
  | .stake => [0xad, 0xc9, 0x77, 0x2e]
  | .claim => [0x1d, 0x7d, 0x4e, 0xbc]
  | .setPreSignature => [0xec, 0x6c, 0xb1, 0x3f]
  | .createWithContext => [0x0d, 0x0d, 0x98, 0x00]

structure TransferCall where
  destination : Address
  amount : B256
deriving DecidableEq, Repr

structure TransferFromCall where
  source : Address
  destination : Address
  amount : B256
deriving DecidableEq, Repr

structure ApproveCall where
  spender : Address
  amount : B256
deriving DecidableEq, Repr

structure SetApprovalForAllCall where
  operator : Address
  approved : Bool
deriving DecidableEq, Repr

structure TokenTransferCall where
  destination : Address
  tokenId : B256
deriving DecidableEq, Repr

structure Erc1155TransferCall where
  destination : Address
  id : B256
  amount : B256
deriving DecidableEq, Repr

structure BatchTransferCall where
  destination : Address
  ids : List B256
  amounts : List B256
deriving DecidableEq, Repr

structure SetPreSignatureCall where
  orderUid : Bytes
  signed : Bool
deriving DecidableEq, Repr

structure CreateWithContextCall where
  handler : Address
  staticInput : Bytes
  factory : Address
deriving DecidableEq, Repr

/-- The arguments the engine reads of a call. -/
def Function.Args : Function → Type
  | .setFallbackHandler | .setGuard | .enableModule | .setModuleGuard => Address
  | .transfer => TransferCall
  | .transferFrom => TransferFromCall
  | .approve => ApproveCall
  | .setApprovalForAll => SetApprovalForAllCall
  | .safeTransferFrom0 | .safeTransferFrom1 => TokenTransferCall
  | .erc1155SafeTransferFrom => Erc1155TransferCall
  | .safeBatchTransferFrom => BatchTransferCall
  | .multiSend => Bytes
  | .stake => B256
  | .claim => Address
  | .setPreSignature => SetPreSignatureCall
  | .createWithContext => CreateWithContextCall
  | _ => Unit

/-- The terms of a TWAP order. -/
structure TwapData where
  sellToken : Address
  receiver : Address
  partSellAmount : B256
  n : B256
deriving DecidableEq, Repr

/-- An order as the API answers it. -/
structure CowOrder where
  owner : Address
  receiver : Option Address
  sellToken : Address
  buyToken : Address
  sellAmount : B256
  buyAmount : B256
  validTo : BitVec 32
  appData : B256
  feeAmount : B256
  kind : String
  partiallyFillable : Bool
  sellTokenBalance : String
  buyTokenBalance : String
deriving DecidableEq, Repr

/-- An event of a contract. -/
structure Log where
  block : Nat
  address : Address
  topics : List B256
  data : Bytes
deriving DecidableEq, Repr

/-- The generated decoders. -/
structure Abi where
  decode : (f : Function) → Bytes → Option f.Args
  twapData : Bytes → Option TwapData
  encodeTransfer : TransferCall → Bytes
  /-- The recipient and the amount of a `Transfer`, from its topics and data. -/
  transferLog : List B256 → Bytes → Option (Address × B256)
  /-- The spender and the amount of an `Approval`. -/
  approvalLog : List B256 → Bytes → Option (Address × B256)
  /-- The EIP-712 hash of an order on a chain. -/
  orderDigest : B256 → CowOrder → B256
  /-- A call decodes only as one of the function it selects. -/
  decode_selector : ∀ f data args, decode f data = some args → f.selector <+: data
  decode_encodeTransfer : ∀ call, decode .transfer (encodeTransfer call) = some call

/-- Whether the data selects the function. -/
def Function.selects (f : Function) (data : Bytes) : Bool := f.selector.isPrefixOf data

/-! ### MultiSend batches -/

inductive MultiSendVersion where
  | legacy
  /-- A call to the zero address is one to the Safe itself. -/
  | v150Plus
deriving DecidableEq, Repr

structure Deployment where
  address : Address
  version : MultiSendVersion
  allowsDelegateCalls : Bool

def DEPLOYMENTS : List Deployment :=
  [⟨0x218543288004CD07832472D464648173c77D7eB7, .v150Plus, true⟩,
    ⟨0xA83c336B20401Af773B6219BA5027174338D1836, .v150Plus, false⟩,
    ⟨0x38869bf66a61cF6bDB996A6aE40D5853Fd43B526, .legacy, true⟩,
    ⟨0x9641d764fc13c8B624c04430C7356C1C7C8102e2, .legacy, false⟩,
    ⟨0xA238CBeb142c10Ef7Ad8442C6D1f9E89e07e7761, .legacy, true⟩,
    ⟨0x40A2aCCbd92BCA938b02010E17A5b8929b49130D, .legacy, false⟩,
    ⟨0x998739BFdAAdde7C933B942a68053933098f9EDa, .legacy, true⟩,
    ⟨0xA1dabEF33b3B82c7814B6D82A79e50F4AC44102B, .legacy, false⟩]

def knownDeployment (address : Address) : Option (MultiSendVersion × Bool) :=
  (DEPLOYMENTS.find? (·.address = address)).map fun d => (d.version, d.allowsDelegateCalls)

/-- `Cursor::read`: so many bytes, and the rest. -/
def read (len : Nat) (data : Bytes) : Option (Bytes × Bytes) :=
  if len ≤ data.length then some (data.take len, data.drop len) else none

/-- The operation of an entry. -/
def operationOf (byte : BitVec 8) : Option Operation :=
  if byte = 0 then some .call else if byte = 1 then some .delegateCall else none

/-- One packed entry, after the byte of its operation, and the rest. -/
def decodeEntry (safe : Address) (version : MultiSendVersion) (operation : Operation) (data : Bytes) :
    Option (MetaTransaction × Bytes) := do
  let (target, data) ← read 20 data
  let (value, data) ← read 32 data
  let (length, data) ← read 32 data
  let length := Bytes.value length
  -- the length has to fit a `usize`
  if 2 ^ 64 ≤ length then none
  let (payload, data) ← read length data
  let target := BitVec.ofNat 160 (Bytes.value target)
  let target := if version = .v150Plus ∧ target = 0 then safe else target
  return (⟨target, BitVec.ofNat 256 (Bytes.value value), payload, operation⟩, data)

/-- The packed entries; each takes at least one byte, so their number is at most that of the bytes. -/
def decodeEntries (safe : Address) (version : MultiSendVersion) :
    Nat → Bytes → Option (List MetaTransaction)
  | _, [] => some []
  | 0, _ :: _ => none
  | fuel + 1, byte :: data => do
      let operation ← operationOf byte
      let (entry, data) ← decodeEntry safe version operation data
      let entries ← decodeEntries safe version fuel data
      return entry :: entries

def decodeMultiSend (safe : Address) (data : Bytes) (version : MultiSendVersion) :
    Option (List MetaTransaction) :=
  decodeEntries safe version data.length data

/-- A `DELEGATECALL` to a known deployment with a payload that decodes. -/
def decodeMultiSendCall (abi : Abi) (safe : Address) (call : MetaTransaction) :
    Option (List MetaTransaction × Bool) := do
  if call.operation ≠ .delegateCall then none
  let (version, allowsDelegateCalls) ← knownDeployment call.target
  let transactions ← abi.decode .multiSend call.data
  let calls ← decodeMultiSend safe transactions version
  return (calls, allowsDelegateCalls)

/-! ### Effects on other addresses -/

inductive EffectKind where
  | valueTransfer (amount : B256)
  | erc20Approval (amount : B256)
  | operatorApproval (approved : Bool)
  | erc721Transfer (tokenId : B256)
  | erc1155Transfer (id amount : B256)
  | erc1155BatchTransfer (ids amounts : List B256)
deriving DecidableEq, Repr

structure TargetEffect where
  recipient : Address
  kind : EffectKind
deriving DecidableEq, Repr

/-- The effect that the calldata decodes to. -/
def tokenEffect (abi : Abi) (data : Bytes) : Option TargetEffect :=
  match abi.decode .transfer data with
  | some call => some ⟨TransferCall.destination call, .valueTransfer (TransferCall.amount call)⟩
  | none =>
  match abi.decode .transferFrom data with
  | some call => some ⟨TransferFromCall.destination call, .valueTransfer (TransferFromCall.amount call)⟩
  | none =>
  match abi.decode .approve data with
  | some call => some ⟨ApproveCall.spender call, .erc20Approval (ApproveCall.amount call)⟩
  | none =>
  match abi.decode .setApprovalForAll data with
  | some call => some ⟨SetApprovalForAllCall.operator call,
      .operatorApproval (SetApprovalForAllCall.approved call)⟩
  | none =>
  match abi.decode .safeTransferFrom0 data with
  | some call => some ⟨TokenTransferCall.destination call, .erc721Transfer (TokenTransferCall.tokenId call)⟩
  | none =>
  match abi.decode .safeTransferFrom1 data with
  | some call => some ⟨TokenTransferCall.destination call, .erc721Transfer (TokenTransferCall.tokenId call)⟩
  | none =>
  match abi.decode .erc1155SafeTransferFrom data with
  | some call => some ⟨Erc1155TransferCall.destination call,
      .erc1155Transfer (Erc1155TransferCall.id call) (Erc1155TransferCall.amount call)⟩
  | none =>
  match abi.decode .safeBatchTransferFrom data with
  | some call => some ⟨BatchTransferCall.destination call,
      .erc1155BatchTransfer (BatchTransferCall.ids call) (BatchTransferCall.amounts call)⟩
  | none => none

/-- A native value transfer, and independently whatever the calldata decodes to. -/
def decodeTargetEffects (abi : Abi) (call : MetaTransaction) : List TargetEffect :=
  (if call.value ≠ 0 then [⟨call.target, .valueTransfer call.value⟩] else []) ++
    if call.data = [] then [] else (tokenEffect abi call.data).toList

end Safenet.SentinelEngine
