/-
The checks of the sentinel engine, of `sentinel-engine/src/checkers`, and how the engine composes them,
of `sentinel-engine/src/engine/mod.rs` and `sentinel-engine/src/main.rs`.

What the node and the order API answer is an input.  Every request for logs of one check has its own
answer, known by the call it is made for and by how many requests for that call came before, so that
the same request may succeed once and fail another time.
-/
import Safenet.SentinelEngine.Proposal

namespace Safenet.SentinelEngine

open Contracts (Operation SafeTransaction.T)

inductive RuleId where
  | settingsChange
  | delegatecallIntegrity
  | knownMaliciousTarget
  | excessiveApproval
  | valueTarget
  | authorizationTarget
deriving DecidableEq, Repr

/-- `RuleId::code`. -/
def RuleId.code : RuleId → String
  | .settingsChange => "R-4.1"
  | .delegatecallIntegrity => "R-4.2"
  | .knownMaliciousTarget => "R-4.6"
  | .excessiveApproval => "R-4.5"
  | .valueTarget => "R-4.3"
  | .authorizationTarget => "R-4.4"

/-- What a check concludes. -/
inductive Assessment where
  | insecure (rule : RuleId)
  | secure (coverage : Coverage)
  | abstain
deriving DecidableEq, Repr

/-- The block a check is made against. -/
inductive BlockLabel where
  | latest
  | number (number : BitVec 64)
deriving DecidableEq, Repr

structure CheckContext where
  block : BlockLabel
  proposalTimestamp : Option Nat
deriving DecidableEq, Repr

abbrev Checker := Proposal → CheckContext → Assessment

/-! ### Cancellation -/

/-- Whether the transaction is an empty call of the Safe to itself, with everything else zero. -/
def isCancellation (transaction : SafeTransaction.T) : Bool :=
  transaction = ⟨transaction.chainId, transaction.safe, transaction.safe, 0, [], .call, 0, 0, 0, 0, 0,
    transaction.nonce⟩

def cancellationChecker : Checker := fun proposal _ =>
  if isCancellation proposal.transaction then
    .secure ((proposal.checked .all).union proposal.refundChecked)
  else .abstain

/-! ### Escape hatch -/

/-- A call without value that announces or cancels. -/
def isEscapeHatchCall (call : MetaTransaction) : Bool :=
  if call.operation ≠ .call ∨ call.value ≠ 0 then false
  else Function.announceTransaction.selects call.data || Function.cancelAnnouncement.selects call.data

def escapeHatchChecker : Checker := fun proposal _ =>
  if proposal.calls.all isEscapeHatchCall then .secure (proposal.checked .all) else .abstain

/-! ### Base guarantees -/

def SUPPORTED_FALLBACK_HANDLERS : List Address :=
  [0, 0x85a8ca358D388530ad0fB95D0cb89Dd44Fc242c3, 0x2f55e8b20D0B9FEFA187AA7d00B6Cbe563605bF5,
    0x3EfCBb83A4A7AfcB4F68D501E2c2203a38be77f4, 0xfd0732Dc9E303f09fCEf3a7388Ad10A83459Ec99,
    0xf48f2B2d2a534e402487b3ee7C18c33Aec0Fe5e4, 0x017062a1dE2FE6b99BE3d9d37841FeD19F573804]

def SUPPORTED_GUARDS : List Address := [0]

def SUPPORTED_MODULES : List Address :=
  [0x691f59471Bfd2B7d639DCF74671a2d648ED1E331, 0x4Aa5Bf7D840aC607cb5BD3249e6Af6FC86C04897]

def SUPPORTED_MODULE_GUARDS : List Address := [0]

def MIGRATION_CONTRACTS : List Address :=
  [0x6439e7ABD8Bb915A5263094784C5CF561c4172AC, 0x526643F69b81B008F46d95CD5ced5eC0edFFDaC6]

def SIGN_MESSAGE_LIBS : List Address :=
  [0xA65387F16B013cf2Af4605Ad8aA5ec25a2cbA3a2, 0x98FFBBF51bb33A056B08ddf711f289936AafF717,
    0xd53cd0aB83D845Ac265BE939c57F53AD838012c9, 0x4FfeF8222648872B3dE295Ba1e49110E61f5b5aa]

def CREATE_CALL_CONTRACTS : List Address :=
  [0x7cbB62EaA69F79e6873cD1ecB2392971036cFAa4, 0xB19D6FFc2182150F8Eb585b79D4ABcd7C5640A9d,
    0x9b35Af71d77eaf8d7e40252370304687390A1A52, 0x2Ef5ECfbea521449E4De05EDB1ce63B75eDA90B4]

/-- A self-call has to be one of the allowed settings functions. -/
def checkSelfCalls (abi : Abi) (call : MetaTransaction) : Bool :=
  if Function.addOwnerWithThreshold.selects call.data then true
  else if Function.removeOwner.selects call.data then true
  else if Function.swapOwner.selects call.data then true
  else if Function.changeThreshold.selects call.data then true
  else if Function.disableModule.selects call.data then true
  else if Function.setFallbackHandler.selects call.data then
    (abi.decode .setFallbackHandler call.data).any fun (handler : Address) =>
      handler ∈ SUPPORTED_FALLBACK_HANDLERS
  else if Function.setGuard.selects call.data then
    (abi.decode .setGuard call.data).any fun (guard : Address) => guard ∈ SUPPORTED_GUARDS
  else if Function.enableModule.selects call.data then
    (abi.decode .enableModule call.data).any fun (module : Address) => module ∈ SUPPORTED_MODULES
  else if Function.setModuleGuard.selects call.data then
    (abi.decode .setModuleGuard call.data).any fun (guard : Address) => guard ∈ SUPPORTED_MODULE_GUARDS
  else false

/-- Calls to others are free, and so is an empty one to the Safe itself. -/
def checkCalls (abi : Abi) (safe : Address) (call : MetaTransaction) : Bool :=
  if call.operation ≠ .call then false
  else if safe ≠ call.target then true
  else if call.data = [] then true
  else checkSelfCalls abi call

/-- Delegate calls are restricted to known contracts and functions. -/
def checkDelegateCalls (call : MetaTransaction) : Bool :=
  if call.operation ≠ .delegateCall then false
  else if call.target ∈ MIGRATION_CONTRACTS then
    Function.migrateSingleton.selects call.data || Function.migrateWithFallbackHandler.selects call.data ||
      Function.migrateL2Singleton.selects call.data ||
      Function.migrateL2WithFallbackHandler.selects call.data
  else if call.target ∈ SIGN_MESSAGE_LIBS then Function.signMessage.selects call.data
  else if call.target ∈ CREATE_CALL_CONTRACTS then
    Function.performCreate.selects call.data || Function.performCreate2.selects call.data
  else false

def checkSettingsChange (abi : Abi) (safe : Address) (call : MetaTransaction) :
    Option (Except RuleId Unit) :=
  if call.operation ≠ .call then none
  else some (if checkCalls abi safe call then .ok () else .error .settingsChange)

def checkDelegatecallIntegrity (call : MetaTransaction) : Option (Except RuleId Unit) :=
  if call.operation ≠ .delegateCall then none
  else some (if checkDelegateCalls call then .ok () else .error .delegatecallIntegrity)

def checkCall (abi : Abi) (safe : Address) (call : MetaTransaction) : Except RuleId Unit :=
  ((checkSettingsChange abi safe call).or (checkDelegatecallIntegrity call)).getD (.error .settingsChange)

def baseChecker (abi : Abi) : Checker := fun proposal _ =>
  match proposal.calls.forM (checkCall abi proposal.transaction.safe) with
  | .ok () => .secure (proposal.checked (AspectSet.DESTINATION.union .OPERATION))
  | .error rule => .insecure rule

/-! ### Blocklist -/

def blocklistChecker (blocklist : List Address) : Checker := fun proposal _ =>
  if proposal.calls.any (·.target ∈ blocklist) then .insecure .knownMaliciousTarget else .abstain

/-! ### Nested Safes -/

/-- A call to another address with an `execTransaction`. -/
def isNestedExecTransaction (abi : Abi) (safe : Address) (call : MetaTransaction) : Bool :=
  call.operation = .call && call.target ≠ safe && Function.execTransaction.selects call.data &&
    (abi.decode .execTransaction call.data).isSome

def nestedSafeChecker (abi : Abi) : Checker := fun proposal _ =>
  if proposal.calls.all (isNestedExecTransaction abi proposal.transaction.safe) then
    .secure (proposal.checked ((AspectSet.DESTINATION.union .DATA).union .OPERATION))
  else .abstain

/-! ### Excessive approvals -/

/-- The largest amount. -/
def MAX : B256 := BitVec.allOnes 256

def isUnlimited (effect : TargetEffect) : Bool :=
  match effect.kind with
  | .erc20Approval amount => amount = MAX
  | .operatorApproval approved => approved
  | _ => false

def excessiveApprovalChecker (abi : Abi) : Checker := fun proposal _ =>
  if proposal.calls.any fun call => (decodeTargetEffects abi call).any isUnlimited then
    .insecure .excessiveApproval
  else .abstain

/-! ### CoW Protocol -/

def GP_V2_VAULT_RELAYER : Address := 0xC92E8bdf79f0507f65a392b0ab4667716BFE0110
def GP_V2_SETTLEMENT : Address := 0x9008D19f58AAbD9eD0D60971565AA8510560ab41
def COMPOSABLE_COW : Address := 0xfdaFc9d1902f4e0b84f65F49f244b32b31013b74
def TWAP_HANDLER : Address := 0x6cF1e9cA41f7611dEf408122793c358a3d11E5a5
def CURRENT_BLOCK_TIMESTAMP_FACTORY : Address := 0x52eD56Da04309Aca4c3FECC595298d80C2f16BAc

def SUPPORTED_CHAIN_IDS : List B256 := [1, 42161, 100]

def orderApiBaseUrl (chainId : B256) : Option String :=
  if chainId = 1 then some "https://api.cow.fi/mainnet"
  else if chainId = 100 then some "https://api.cow.fi/xdai"
  else if chainId = 42161 then some "https://api.cow.fi/arbitrum_one"
  else none

/-- The answer of the order API to a request for an order. -/
abbrev OrderApi := String → Bytes → Option CowOrder

/-- The digest of the order, its owner and its end. -/
def computeOrderUid (abi : Abi) (chainId : B256) (order : CowOrder) : Bytes :=
  Bytes.word (abi.orderDigest chainId order) ++ Bytes.digits 20 order.owner.toNat ++
    Bytes.digits 4 order.validTo.toNat

/-- Who the proceeds go to. -/
def CowOrder.effectiveReceiver (order : CowOrder) : Address :=
  match order.receiver with
  | some receiver => if receiver ≠ 0 then receiver else order.owner
  | none => order.owner

/-- The token and the amount of an approval of the vault relayer. -/
def vaultRelayerApprovalAmount (abi : Abi) (call : MetaTransaction) : Option (Address × B256) :=
  if call.operation ≠ .call ∨ call.value ≠ 0 then none
  else (abi.decode .approve call.data).bind fun (approval : ApproveCall) =>
    if approval.spender = GP_V2_VAULT_RELAYER then some (call.target, approval.amount) else none

def approvesVaultRelayer (abi : Abi) (call : MetaTransaction) : Bool :=
  (vaultRelayerApprovalAmount abi call).isSome

def isPresignature (abi : Abi) (call : MetaTransaction) : Bool :=
  call.operation = .call && call.value = 0 && call.target = GP_V2_SETTLEMENT &&
    (abi.decode .setPreSignature call.data).isSome

def isTwapCreate (abi : Abi) (call : MetaTransaction) : Bool :=
  call.operation = .call && call.value = 0 && call.target = COMPOSABLE_COW &&
    (abi.decode .createWithContext call.data).any fun (create : CreateWithContextCall) =>
      create.handler = TWAP_HANDLER && create.factory = CURRENT_BLOCK_TIMESTAMP_FACTORY

/-- `partSellAmount * n`, unless it overflows. -/
def checkedMul (a b : B256) : Option B256 :=
  if a.toNat * b.toNat < 2 ^ 256 then some (a * b) else none

/-- The sell token, the receiver, the total and the number of parts of a TWAP order. -/
def twapOrderTerms (abi : Abi) (call : MetaTransaction) : Option (Address × Address × B256 × B256) :=
  if call.operation ≠ .call ∨ call.value ≠ 0 ∨ call.target ≠ COMPOSABLE_COW then none
  else (abi.decode .createWithContext call.data).bind fun (create : CreateWithContextCall) =>
    if create.handler ≠ TWAP_HANDLER ∨ create.factory ≠ CURRENT_BLOCK_TIMESTAMP_FACTORY then none
    else (abi.twapData create.staticInput).bind fun order =>
      (checkedMul order.partSellAmount order.n).map fun total =>
        (order.sellToken, order.receiver, total, order.n)

/-- An approval and a TWAP order, in this order. -/
def decodeApprovalAndTwap (abi : Abi) (approval twap : MetaTransaction) :
    Option ((Address × B256) × (Address × Address × B256 × B256)) :=
  (vaultRelayerApprovalAmount abi approval).bind fun approved =>
    (twapOrderTerms abi twap).map fun terms => (approved, terms)

/-- The uid of an order that is presigned. -/
def presignatureOrderUid (abi : Abi) (call : MetaTransaction) : Option Bytes :=
  if call.operation ≠ .call ∨ call.value ≠ 0 ∨ call.target ≠ GP_V2_SETTLEMENT then none
  else (abi.decode .setPreSignature call.data).bind fun (presignature : SetPreSignatureCall) =>
    if presignature.signed then some presignature.orderUid else none

/-- An approval and a presignature, in this order. -/
def decodeApprovalAndPresignature (abi : Abi) (approval presignature : MetaTransaction) :
    Option ((Address × B256) × Bytes) :=
  (vaultRelayerApprovalAmount abi approval).bind fun approved =>
    (presignatureOrderUid abi presignature).map fun orderUid => (approved, orderUid)

/-- `U256::saturating_add`. -/
def saturatingAdd256 (a b : B256) : B256 := if a.toNat + b.toNat < 2 ^ 256 then a + b else MAX

/-- `U256::saturating_sub`. -/
def saturatingSub256 (a b : B256) : B256 := if b ≤ a then a - b else 0

/-- `U256::saturating_mul`. -/
def saturatingMul256 (a b : B256) : B256 := (checkedMul a b).getD MAX

def maxApprovalForTwapTotal (totalSellAmount n : B256) : B256 :=
  saturatingAdd256 totalSellAmount (saturatingSub256 n 1)

/-- What is concluded from the order that was fetched. -/
def assessOrder (abi : Abi) (safe : Address) (chainId : B256) (calls : List MetaTransaction)
    (approved : Address × B256) (orderUid : Bytes) (order : CowOrder) : Assessment :=
  if orderUid ≠ computeOrderUid abi chainId order then .abstain
  else if order.effectiveReceiver ≠ safe then .insecure .authorizationTarget
  else if approved.1 = order.sellToken ∧ approved.2 = order.sellAmount then
    .secure (.uniform calls.length .DATA)
  else .insecure .excessiveApproval

def checkPresignatureBatch (abi : Abi) (orderApi : OrderApi) (safe : Address) (chainId : B256)
    (calls : List MetaTransaction) : Assessment :=
  match orderApiBaseUrl chainId with
  | none => .abstain
  | some baseUrl =>
      match calls with
      | [first, second] =>
          match (decodeApprovalAndPresignature abi first second).or
              (decodeApprovalAndPresignature abi second first) with
          | none => .abstain
          | some (approved, orderUid) =>
              match orderApi baseUrl orderUid with
              | some order => assessOrder abi safe chainId calls approved orderUid order
              | none => .abstain
      | _ => .abstain

/-- What is concluded from the terms of a TWAP order. -/
def assessTwap (safe : Address) (calls : List MetaTransaction) (approved : Address × B256)
    (terms : Address × Address × B256 × B256) : Assessment :=
  let (sellToken, receiver, totalSellAmount, n) := terms
  if receiver ≠ safe ∧ receiver ≠ 0 then .insecure .authorizationTarget
  else if approved.1 ≠ sellToken ∨ maxApprovalForTwapTotal totalSellAmount n < approved.2 then
    .insecure .excessiveApproval
  else .secure (.uniform calls.length .DATA)

def checkTwapBatch (abi : Abi) (safe : Address) (calls : List MetaTransaction) : Assessment :=
  match calls with
  | [first, second] =>
      match (decodeApprovalAndTwap abi first second).or (decodeApprovalAndTwap abi second first) with
      | none => .abstain
      | some (approved, terms) => assessTwap safe calls approved terms
  | _ => .abstain

def checkDanglingApproval (abi : Abi) (calls : List MetaTransaction) : Assessment :=
  if !calls.any (approvesVaultRelayer abi) then .abstain
  else if calls.any fun call => isPresignature abi call || isTwapCreate abi call then .abstain
  else .insecure .authorizationTarget

/-- The first conclusion that is not an abstention. -/
def Assessment.orElse (first second : Assessment) : Assessment :=
  if first ≠ .abstain then first else second

def cowChecker (abi : Abi) (orderApi : OrderApi) : Checker := fun proposal _ =>
  let transaction := proposal.transaction
  if transaction.chainId ∉ SUPPORTED_CHAIN_IDS then .abstain
  else (checkDanglingApproval abi proposal.calls).orElse
    ((checkPresignatureBatch abi orderApi transaction.safe transaction.chainId proposal.calls).orElse
      (checkTwapBatch abi transaction.safe proposal.calls))

/-! ### Staking -/

def STAKING : Address := 0x115E78f160e1E3eF163B05C84562Fa16fA338509
def SAFE_TOKEN : Address := 0x5aFE3855358E112B5647B952709E6165e1c1eEEe
def REWARDS_DISTRIBUTOR : Address := 0xe5139fc0fb8eae81e30d8a85c22e88c6757120f2
def SUPPORTED_CHAIN_ID : B256 := 1

/-- Whom a claim of rewards pays. -/
def claimAccount (abi : Abi) (call : MetaTransaction) : Option Address :=
  if call.operation ≠ .call ∨ call.value ≠ 0 ∨ call.target ≠ REWARDS_DISTRIBUTOR then none
  else abi.decode .claim call.data

/-- The amount approved to the staking contract. -/
def stakingApprovalAmount (abi : Abi) (call : MetaTransaction) : Option B256 :=
  if call.operation ≠ .call ∨ call.value ≠ 0 ∨ call.target ≠ SAFE_TOKEN then none
  else (abi.decode .approve call.data).bind fun (approval : ApproveCall) =>
    if approval.spender = STAKING then some approval.amount else none

/-- The amount staked. -/
def stakeAmount (abi : Abi) (call : MetaTransaction) : Option B256 :=
  if call.operation ≠ .call ∨ call.value ≠ 0 ∨ call.target ≠ STAKING then none
  else abi.decode .stake call.data

def checkLoneCall (abi : Abi) (totalCalls : Nat) (call : MetaTransaction) : Assessment :=
  if (stakeAmount abi call).isSome then .secure (.uniform totalCalls .DATA) else .abstain

def checkPair (abi : Abi) (totalCalls : Nat) (first second : MetaTransaction) : Assessment :=
  match stakingApprovalAmount abi first, stakeAmount abi second with
  | some approved, some staked =>
      if staked < approved then .insecure .excessiveApproval else .secure (.uniform totalCalls .DATA)
  | _, _ => .abstain

/-- The calls that are no claims, and whether there was a claim; none if one pays somebody else. -/
def setAsideClaims (abi : Abi) (safe : Address) :
    List MetaTransaction → Option (List MetaTransaction × Bool)
  | [] => some ([], false)
  | call :: calls =>
      match claimAccount abi call with
      | some account =>
          if account ≠ safe then none
          else (setAsideClaims abi safe calls).map fun rest => (rest.1, true)
      | none => (setAsideClaims abi safe calls).map fun rest => (call :: rest.1, rest.2)

def stakingChecker (abi : Abi) : Checker := fun proposal _ =>
  let transaction := proposal.transaction
  let totalCalls := proposal.calls.length
  if transaction.chainId ≠ SUPPORTED_CHAIN_ID then .abstain
  else
    match setAsideClaims abi transaction.safe proposal.calls with
    | none => .insecure .valueTarget
    | some (remaining, claimed) =>
        match remaining with
        | [] => if claimed then .secure (.uniform totalCalls .DATA) else .abstain
        | [call] => checkLoneCall abi totalCalls call
        | [first, second] => checkPair abi totalCalls first second
        | _ => .abstain

/-! ### Address poisoning -/

/-- The hex digits of an address, most significant first. -/
def nibbles (address : Address) : List Nat :=
  (Bytes.digits 20 address.toNat).flatMap fun byte => [byte.toNat / 16, byte.toNat % 16]

/-- How many of the first elements are equal. -/
def commonLength (a b : List Nat) : Nat := ((a.zip b).takeWhile fun pair => pair.1 = pair.2).length

def isLookalike (established candidate : Address) : Bool :=
  if established = candidate then false
  else 4 ≤ commonLength (nibbles established) (nibbles candidate) &&
    4 ≤ commonLength (nibbles established).reverse (nibbles candidate).reverse

inductive TargetKind where
  | transfer
  | approval
deriving DecidableEq, Repr

def TargetKind.rule : TargetKind → RuleId
  | .transfer => .valueTarget
  | .approval => .authorizationTarget

/-- The recipient or the spender of an ERC-20 call. -/
def decodeTarget (abi : Abi) (safe : Address) (call : MetaTransaction) : Option (Address × TargetKind) :=
  if call.operation ≠ .call then none
  else
    match abi.decode .transfer call.data with
    | some decoded =>
        if TransferCall.amount decoded ≠ 0 then some (TransferCall.destination decoded, .transfer) else none
    | none =>
    match abi.decode .transferFrom call.data with
    | some decoded =>
        if TransferFromCall.source decoded = safe ∧ TransferFromCall.amount decoded ≠ 0 then
          some (TransferFromCall.destination decoded, .transfer)
        else none
    | none =>
    match abi.decode .approve call.data with
    | some decoded =>
        if ApproveCall.amount decoded ≠ 0 then some (ApproveCall.spender decoded, .approval) else none
    | none => none

/-- The signature hashes of the events. -/
def TRANSFER_HASH : B256 := 0xddf252ad1be2c89b69c2b068fc378daa952ba7f163c4a11628f55a4df523b3ef#256
def APPROVAL_HASH : B256 := 0x8c5be1e5ebec7d5bd14f71427d1e84f3dd0314c0f7b2291e5b200ac8c7c3b925#256

/-- What logs are asked for: the outbound events of a Safe on a token, in a range of blocks. -/
structure Filter where
  address : Address
  eventSignature : List B256
  topic1 : B256
  fromBlock : Nat
  toBlock : Nat
deriving DecidableEq, Repr

/-- Whether the filter selects the log. -/
def Filter.selects (filter : Filter) (log : Log) : Bool :=
  log.address = filter.address && log.topics[0]?.any (· ∈ filter.eventSignature) &&
    log.topics[1]? = some filter.topic1 && filter.fromBlock ≤ log.block && log.block ≤ filter.toBlock

def decodeTargetAndAmount (abi : Abi) (log : Log) : Option (Address × B256) :=
  match log.topics.head? with
  | some topic =>
      if topic = TRANSFER_HASH then abi.transferLog log.topics log.data
      else if topic = APPROVAL_HASH then abi.approvalLog log.topics log.data
      else none
  | none => none

/-- The ranges of blocks that are asked for, none wider than allowed. -/
def blockChunks (last maxRange : Nat) : Nat → Nat → List (Nat × Nat)
  | 0, _ => []
  | fuel + 1, start =>
      let stop := min (saturatingAdd start maxRange) last
      (start, stop) :: if last ≤ stop then [] else blockChunks last maxRange fuel (saturatingAdd stop 1)

/-- What is known of a recipient. -/
inductive RecipientLookup where
  | exactMatch
  | noExactMatch (recipients : List Address) (complete : Bool)
  /-- The first request failed. -/
  | failed
deriving DecidableEq, Repr

/-- Reads the logs of one range: the recipients so far, or none if the candidate is among them. -/
def scanLogs (abi : Abi) (candidate : Address) (recipients : List Address) :
    List Log → Option (List Address)
  | [] => some recipients
  | log :: logs =>
      match decodeTargetAndAmount abi log with
      | none => scanLogs abi candidate recipients logs
      | some (target, amount) =>
          if amount = 0 then scanLogs abi candidate recipients logs
          else if target = candidate then none
          else scanLogs abi candidate (target :: recipients) logs

/-- Reads range after range, until one fails. -/
def scanChunks (abi : Abi) (token safe candidate : Address) (getLogs : Nat → Filter → Option (List Log)) :
    Nat → List Address → List (Nat × Nat) → RecipientLookup
  | _, recipients, [] => .noExactMatch recipients true
  | index, recipients, (chunkFrom, chunkTo) :: chunks =>
      match getLogs index ⟨token, [TRANSFER_HASH, APPROVAL_HASH], Contracts.toWord safe, chunkFrom, chunkTo⟩ with
      | none => if recipients ≠ [] then .noExactMatch recipients false else .failed
      | some logs =>
          match scanLogs abi candidate recipients logs with
          | none => .exactMatch
          | some recipients => scanChunks abi token safe candidate getLogs (index + 1) recipients chunks

/-- What the node answers to the requests of one check. -/
structure Provider where
  blockNumber : Option (BitVec 64)
  /-- By the call and the number of requests made for it before. -/
  getLogs : Nat → Nat → Filter → Option (List Log)

structure PoisoningConfig where
  chainId : Nat
  lookbackBlocks : Nat
  /-- Not zero. -/
  maxBlockRange : Option Nat

def establishedRecipients (abi : Abi) (config : PoisoningConfig)
    (getLogs : Nat → Filter → Option (List Log)) (token safe candidate : Address) (currentBlock : Nat) :
    RecipientLookup :=
  let fromBlock := currentBlock - config.lookbackBlocks
  let maxRange := config.maxBlockRange.getD (2 ^ 64 - 1)
  scanChunks abi token safe candidate getLogs 0 []
    (blockChunks currentBlock maxRange (currentBlock - fromBlock + 1) fromBlock)

/-- Goes over the calls from the given index on; a lookalike denies whatever the other calls are. -/
def checkTargets (abi : Abi) (config : PoisoningConfig) (provider : Provider) (safe : Address)
    (currentBlock : Nat) : Nat → Bool → List MetaTransaction → Option RuleId × Bool
  | _, abstain, [] => (none, abstain)
  | index, abstain, call :: calls =>
      match decodeTarget abi safe call with
      | none => checkTargets abi config provider safe currentBlock (index + 1) true calls
      | some (candidate, kind) =>
          match establishedRecipients abi config (provider.getLogs index) call.target safe candidate
              currentBlock with
          | .exactMatch => checkTargets abi config provider safe currentBlock (index + 1) abstain calls
          | .noExactMatch recipients complete =>
              if recipients.any (isLookalike · candidate) && complete then (some kind.rule, abstain)
              else checkTargets abi config provider safe currentBlock (index + 1) true calls
          | .failed => checkTargets abi config provider safe currentBlock (index + 1) true calls

/-- The block a check is made against, if it is known. -/
def resolveBlock (provider : Provider) : BlockLabel → Option Nat
  | .number number => some number.toNat
  | .latest => provider.blockNumber.map BitVec.toNat

def addressPoisoningChecker (abi : Abi) (config : PoisoningConfig) (provider : Provider) : Checker :=
  fun proposal context =>
    let transaction := proposal.transaction
    if transaction.chainId ≠ BitVec.ofNat 256 config.chainId then .abstain
    else
      match resolveBlock provider context.block with
      | none => .abstain
      | some currentBlock =>
          match checkTargets abi config provider transaction.safe currentBlock 0 false proposal.calls with
          | (some rule, _) => .insecure rule
          | (none, true) => .abstain
          | (none, false) => .secure (proposal.checked (AspectSet.DESTINATION.union .DATA))

/-! ### Refunds -/

/-- The refund as a transfer, if there is one that can be checked. -/
def refundTransfer (abi : Abi) (transaction : SafeTransaction.T) : Option MetaTransaction :=
  if transaction.gasPrice = 0 ∨ transaction.gasToken = 0 ∨ transaction.refundReceiver = 0 then none
  else some
    { target := transaction.gasToken
      value := 0
      data := abi.encodeTransfer ⟨transaction.refundReceiver,
        saturatingMul256 transaction.gasPrice
          (saturatingAdd256 transaction.safeTxGas transaction.baseGas)⟩
      operation := .call }

def refundChecker (abi : Abi) (config : PoisoningConfig) (provider : Provider) : Checker :=
  fun proposal context =>
    match refundTransfer abi proposal.transaction with
    | none => .abstain
    | some refundCall =>
        match addressPoisoningChecker abi config provider ⟨proposal.transaction, [refundCall]⟩ context with
        | .secure _ => .secure proposal.refundChecked
        | assessment => assessment

/-! ### The engine -/

inductive Verdict where
  | secure
  | insecure (rule : RuleId)
  | abstain
deriving DecidableEq, Repr

/-- Goes over the checks; a denial ends it. -/
def composeFrom (proposal : Proposal) (context : CheckContext) (covered : Coverage) :
    List Checker → Verdict
  | [] => if covered.contains (.requiredFor proposal) then .secure else .abstain
  | checker :: checkers =>
      match checker proposal context with
      | .insecure rule => .insecure rule
      | .secure coverage => composeFrom proposal context (covered.union coverage) checkers
      | .abstain => composeFrom proposal context covered checkers

/-- The verdict on a proposal. -/
def compose (checkers : List Checker) (proposal : Proposal) (context : CheckContext) : Verdict :=
  composeFrom proposal context (.none proposal.calls.length) checkers

def securityCheck (abi : Abi) (checkers : List Checker) (transaction : SafeTransaction.T)
    (context : CheckContext) : Verdict :=
  match parse abi transaction with
  | .error _ => .abstain
  | .ok proposal => compose checkers proposal context

/-- What the engine is configured with, and what it is answered during one check. -/
structure Engine where
  blocklist : List Address
  poisoning : PoisoningConfig
  orderApi : OrderApi
  /-- The answers to the check of the refund. -/
  refundProvider : Provider
  /-- The answers to the check of the calls. -/
  callsProvider : Provider

/-- The checks in the order of `main`. -/
def Engine.checkers (abi : Abi) (engine : Engine) : List Checker :=
  [cancellationChecker, escapeHatchChecker, baseChecker abi, blocklistChecker engine.blocklist,
    nestedSafeChecker abi, excessiveApprovalChecker abi, cowChecker abi engine.orderApi,
    stakingChecker abi, refundChecker abi engine.poisoning engine.refundProvider,
    addressPoisoningChecker abi engine.poisoning engine.callsProvider]

end Safenet.SentinelEngine
