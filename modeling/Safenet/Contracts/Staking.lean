/-
`contracts/src/Staking.sol`: stakes per validator, and the queue of withdrawals of every
staker, a doubly linked list ordered by the time a withdrawal becomes claimable.

The two loops over a queue are bounded by the gas of the call: the scan of
`initiateWithdrawal` reverts when it runs out, `getPendingWithdrawals` answers nothing.
-/
import Safenet.Contracts.ERC20
import Safenet.Lib.Loop

namespace Safenet.Contracts.Staking

open Fallible (require)

/-- `amount` is a `uint256`, `claimableAt` a `uint128`, the links are `uint64`. -/
structure WithdrawalNode where
  amount : Nat
  claimableAt : Nat
  previous : Nat
  next : Nat
deriving DecidableEq, Repr

structure WithdrawalQueue where
  head : Nat
  tail : Nat
deriving DecidableEq, Repr

structure ConfigProposal where
  value : Nat
  executableAt : Nat
deriving DecidableEq, Repr

structure WithdrawalInfo where
  amount : Nat
  claimableAt : Nat
deriving DecidableEq, Repr

/-- `mapping(uint64 withdrawalId => WithdrawalNode node)`. -/
abbrev Nodes := Nat → WithdrawalNode

/-- A node that was never written, or deleted. -/
def emptyNode : WithdrawalNode := ⟨0, 0, 0, 0⟩

/-- The immutables, with the address of the contract. -/
structure Deployment where
  this : Address
  safeToken : Address
  configTimeDelay : Nat

structure State where
  owner : Address
  totalStakedAmount : Nat
  totalPendingWithdrawals : Nat
  withdrawDelay : Nat
  nextWithdrawalId : Nat
  isValidator : Address → Bool
  totalValidatorStakes : Address → Nat
  stakes : Address → Address → Nat
  totalStakerStakes : Address → Nat
  withdrawalQueues : Address → WithdrawalQueue
  withdrawalNodes : Address → Nodes
  pendingWithdrawDelayChange : ConfigProposal
  pendingValidatorChangeHash : B256

/-- The storage of the contract and of the token. -/
structure World where
  staking : State
  token : ERC20.T

inductive Event where
  | ownershipTransferred (previousOwner newOwner : Address)
  | stakeIncreased (staker validator : Address) (amount : Nat)
  | withdrawalInitiated (staker validator : Address) (withdrawalId amount : Nat)
  | withdrawalClaimed (staker : Address) (withdrawalId amount : Nat)
  | validatorsProposed (validatorsHash : B256) (validator : List Address)
      (isRegistration : List Bool) (executableAt : Nat)
  | validatorUpdated (validator : Address) (isRegistered : Bool)
  | withdrawDelayProposed (currentDelay proposedDelay executableAt : Nat)
  | withdrawDelayChanged (oldDelay newDelay : Nat)
  | tokensRecovered (token recipient : Address) (amount : Nat)
deriving DecidableEq, Repr

inductive Error where
  | invalidAmount
  | invalidAddress
  | notValidator
  | insufficientStake
  | proposalNotSet
  | invalidProposalHash
  | proposalNotExecutable
  | noProposalExists
  | insufficientRecoverableAmount
  | withdrawalQueueEmpty
  | noClaimableWithdrawal
  | arrayLengthMismatch
  | invalidParameter
  | invalidPreviousId
  | invalidOrdering
  | ownableUnauthorizedAccount
  | ownableInvalidOwner
  /-- `SafeCast` refused a value. -/
  | safeCastOverflow
  | token (error : ERC20.Error)
  /-- An overflow or underflow in checked arithmetic. -/
  | arithmetic
  /-- An index out of bounds. -/
  | outOfBounds
  | outOfGas
deriving DecidableEq, Repr

/-- The constructor. -/
def deploy (this initialOwner safeToken : Address) (initialWithdrawDelay configTimeDelay : Nat) :
    Except Error (Deployment × State × List Event) := do
  require (initialOwner ≠ 0) .ownableInvalidOwner
  require (safeToken ≠ 0) .invalidAddress
  require (initialWithdrawDelay ≠ 0) .invalidParameter
  require (configTimeDelay ≠ 0) .invalidParameter
  require (initialWithdrawDelay ≤ configTimeDelay) .invalidParameter
  return ({ this, safeToken, configTimeDelay },
    { owner := initialOwner
      totalStakedAmount := 0
      totalPendingWithdrawals := 0
      withdrawDelay := initialWithdrawDelay
      nextWithdrawalId := 1
      isValidator := fun _ => false
      totalValidatorStakes := fun _ => 0
      stakes := fun _ _ => 0
      totalStakerStakes := fun _ => 0
      withdrawalQueues := fun _ => ⟨0, 0⟩
      withdrawalNodes := fun _ _ => emptyNode
      pendingWithdrawDelayChange := ⟨0, 0⟩
      pendingValidatorChangeHash := 0 },
    [.ownershipTransferred 0 initialOwner, .withdrawDelayChanged 0 initialWithdrawDelay])

/-! ### Staking and withdrawing -/

def stake (deployment : Deployment) (env : Env) (world : World) (validator : Address)
    (amount : Nat) : Except Error (World × List Event) := do
  let s := world.staking
  let staker := env.sender
  require (amount ≠ 0) .invalidAmount
  require (validator ≠ 0) .invalidAddress
  require (s.isValidator validator) .notValidator
  let stakeOf ← checkedAdd 256 (s.stakes staker validator) amount .arithmetic
  let ofValidator ← checkedAdd 256 (s.totalValidatorStakes validator) amount .arithmetic
  let ofStaker ← checkedAdd 256 (s.totalStakerStakes staker) amount .arithmetic
  let total ← checkedAdd 256 s.totalStakedAmount amount .arithmetic
  let token ← (ERC20.transferFrom world.token deployment.this staker deployment.this amount).mapError
    Error.token
  return ({ token
            staking := { s with
              stakes := Function.update s.stakes staker
                (Function.update (s.stakes staker) validator stakeOf)
              totalValidatorStakes := Function.update s.totalValidatorStakes validator ofValidator
              totalStakerStakes := Function.update s.totalStakerStakes staker ofStaker
              totalStakedAmount := total } },
    [.stakeIncreased staker validator amount])

/-- What both ways to withdraw share: answers the new id and its claimable time. -/
def _initiateWithdrawal (env : Env) (s : State) (user : Address) (amount : Nat)
    (validator : Address) : Except Error (State × Nat × Nat × List Event) := do
  require (amount ≠ 0) .invalidAmount
  require (amount ≤ s.stakes user validator) .insufficientStake
  -- the sum is checked, the cast to `uint128` is not
  let time ← checkedAdd 256 env.timestamp s.withdrawDelay .arithmetic
  let claimableAt := time % 2 ^ 128
  let stakeOf ← checkedSub (s.stakes user validator) amount .arithmetic
  let ofValidator ← checkedSub (s.totalValidatorStakes validator) amount .arithmetic
  let ofStaker ← checkedSub (s.totalStakerStakes user) amount .arithmetic
  let total ← checkedSub s.totalStakedAmount amount .arithmetic
  let pending ← checkedAdd 256 s.totalPendingWithdrawals amount .arithmetic
  let withdrawalId := s.nextWithdrawalId
  let nextWithdrawalId ← checkedAdd 64 s.nextWithdrawalId 1 .arithmetic
  return ({ s with
      stakes := Function.update s.stakes user (Function.update (s.stakes user) validator stakeOf)
      totalValidatorStakes := Function.update s.totalValidatorStakes validator ofValidator
      totalStakerStakes := Function.update s.totalStakerStakes user ofStaker
      totalStakedAmount := total
      totalPendingWithdrawals := pending
      nextWithdrawalId },
    withdrawalId, claimableAt, [.withdrawalInitiated user validator withdrawalId amount])

/-- `nodes[id].next = next`. -/
def Nodes.setNext (nodes : Nodes) (id next : Nat) : Nodes :=
  Function.update nodes id { nodes id with next }

/-- `nodes[id].previous = previous`. -/
def Nodes.setPrevious (nodes : Nodes) (id previous : Nat) : Nodes :=
  Function.update nodes id { nodes id with previous }

/-- `nodes[id] = node`. -/
def Nodes.set (nodes : Nodes) (id : Nat) (node : WithdrawalNode) : Nodes :=
  Function.update nodes id node

/-- The scan backwards from the tail for the node to insert behind. -/
def scan (nodes : Nodes) (claimableAt gas queueTail : Nat) : Option Nat :=
  Loop.iterate (fun currentId => currentId ≠ 0 && claimableAt < (nodes currentId).claimableAt)
    (fun currentId => (nodes currentId).previous) gas queueTail

/-- Stores the queue and the nodes of a staker. -/
def State.setQueue (s : State) (user : Address) (nodes : Nodes) (queue : WithdrawalQueue) : State :=
  { s with
    withdrawalNodes := Function.update s.withdrawalNodes user nodes
    withdrawalQueues := Function.update s.withdrawalQueues user queue }

/-- Puts a node into a queue, behind the last one that is not claimable later. -/
def insertSorted (nodes : Nodes) (queue : WithdrawalQueue) (withdrawalId amount claimableAt gas : Nat) :
    Except Error (Nodes × WithdrawalQueue) :=
  let withdrawalNode : WithdrawalNode := ⟨amount, claimableAt, 0, 0⟩
  if queue.head = 0 then
    .ok (nodes.set withdrawalId withdrawalNode, ⟨withdrawalId, withdrawalId⟩)
  else
    let queueTail := queue.tail
    match scan nodes claimableAt gas queueTail with
    | none => .error .outOfGas
    | some currentId =>
        if currentId = queueTail then
          .ok ((nodes.setNext queueTail withdrawalId).set withdrawalId
              { withdrawalNode with previous := queueTail },
            { queue with tail := withdrawalId })
        else if currentId = 0 then
          let queueHead := queue.head
          .ok ((nodes.setPrevious queueHead withdrawalId).set withdrawalId
              { withdrawalNode with next := queueHead },
            { queue with head := withdrawalId })
        else
          let nextId := (nodes currentId).next
          .ok (((nodes.setNext currentId withdrawalId).setPrevious nextId withdrawalId).set
              withdrawalId { withdrawalNode with previous := currentId, next := nextId },
            queue)

def initiateWithdrawal (env : Env) (world : World) (validator : Address) (amount gas : Nat) :
    Except Error (World × List Event) := do
  let user := env.sender
  let (s, withdrawalId, claimableAt, events) ←
    _initiateWithdrawal env world.staking user amount validator
  let (nodes, queue) ← insertSorted (s.withdrawalNodes user) (s.withdrawalQueues user) withdrawalId
    amount claimableAt gas
  return ({ world with staking := s.setQueue user nodes queue }, events)

/-- The node that will follow, if the caller may insert behind `previousId`. -/
def checkPosition (nodes : Nodes) (queue : WithdrawalQueue) (claimableAt previousId : Nat) :
    Except Error Nat :=
  if previousId = 0 then
    pure queue.head
  else do
    let previousClaimableAt := (nodes previousId).claimableAt
    require (0 < previousClaimableAt) .invalidPreviousId
    require (previousClaimableAt ≤ claimableAt) .invalidOrdering
    return (nodes previousId).next

/-- Puts a node into a queue behind the one the caller names. -/
def insertAtPosition (nodes : Nodes) (queue : WithdrawalQueue)
    (withdrawalId amount claimableAt previousId : Nat) : Except Error (Nodes × WithdrawalQueue) := do
  let nextId ← checkPosition nodes queue claimableAt previousId
  require (nextId = 0 || claimableAt ≤ (nodes nextId).claimableAt) .invalidOrdering
  let nodes := nodes.set withdrawalId ⟨amount, claimableAt, previousId, nextId⟩
  let nodes := if previousId ≠ 0 then nodes.setNext previousId withdrawalId else nodes
  let head := if previousId ≠ 0 then queue.head else withdrawalId
  let nodes := if nextId ≠ 0 then nodes.setPrevious nextId withdrawalId else nodes
  let tail := if nextId ≠ 0 then queue.tail else withdrawalId
  return (nodes, ⟨head, tail⟩)

def initiateWithdrawalAtPosition (env : Env) (world : World) (validator : Address)
    (amount previousId : Nat) : Except Error (World × List Event) := do
  let user := env.sender
  let (s, withdrawalId, claimableAt, events) ←
    _initiateWithdrawal env world.staking user amount validator
  let (nodes, queue) ← insertAtPosition (s.withdrawalNodes user) (s.withdrawalQueues user)
    withdrawalId amount claimableAt previousId
  return ({ world with staking := s.setQueue user nodes queue }, events)

/-- Takes the head off a queue. -/
def removeHead (nodes : Nodes) (queue : WithdrawalQueue) : Nodes × WithdrawalQueue :=
  let node := nodes queue.head
  if node.next = 0 then (nodes.set queue.head emptyNode, ⟨0, 0⟩)
  else ((nodes.setPrevious node.next 0).set queue.head emptyNode, { queue with head := node.next })

def claimWithdrawal (deployment : Deployment) (env : Env) (world : World) :
    Except Error (World × List Event) := do
  let s := world.staking
  let user := env.sender
  let queueHead := (s.withdrawalQueues user).head
  require (queueHead ≠ 0) .withdrawalQueueEmpty
  let node := s.withdrawalNodes user queueHead
  require (node.claimableAt ≤ env.timestamp) .noClaimableWithdrawal
  let amount := node.amount
  let (nodes, queue) := removeHead (s.withdrawalNodes user) (s.withdrawalQueues user)
  let pending ← checkedSub s.totalPendingWithdrawals amount .arithmetic
  let token ← (ERC20.transfer world.token deployment.this user amount).mapError Error.token
  return ({ token
            staking := { s.setQueue user nodes queue with totalPendingWithdrawals := pending } },
    [.withdrawalClaimed user queueHead amount])

/-! ### Configuration -/

def onlyOwner (env : Env) (s : State) : Except Error PUnit :=
  require (env.sender = s.owner) .ownableUnauthorizedAccount

def transferOwnership (env : Env) (s : State) (newOwner : Address) :
    Except Error (State × List Event) := do
  onlyOwner env s
  require (newOwner ≠ 0) .ownableInvalidOwner
  return ({ s with owner := newOwner }, [.ownershipTransferred s.owner newOwner])

def renounceOwnership (env : Env) (s : State) : Except Error (State × List Event) := do
  onlyOwner env s
  return ({ s with owner := 0 }, [.ownershipTransferred s.owner 0])

def proposeWithdrawDelay (deployment : Deployment) (env : Env) (s : State) (newDelay : Nat) :
    Except Error (State × List Event) := do
  onlyOwner env s
  require (newDelay ≠ 0 && newDelay ≤ deployment.configTimeDelay) .invalidParameter
  let executableAt ← checkedAdd 256 env.timestamp deployment.configTimeDelay .arithmetic
  require (executableAt < 2 ^ 128) .safeCastOverflow
  return ({ s with pendingWithdrawDelayChange := ⟨newDelay, executableAt⟩ },
    [.withdrawDelayProposed s.withdrawDelay newDelay executableAt])

/-- `keccak256(abi.encode(validators, isRegistration, executableAt))`. -/
def _getValidatorsHash (keccak256 : Keccak) (validators : List Address)
    (isRegistration : List Bool) (executableAt : Nat) : B256 :=
  let number (n : Nat) : B256 := BitVec.ofNat 256 n
  let offset := 3 * 32
  keccak256 (Bytes.word (number offset) ++
    Bytes.word (number (offset + 32 + 32 * validators.length)) ++
    Bytes.word (number executableAt) ++
    Bytes.word (number validators.length) ++ validators.flatMap (fun v => Bytes.word (toWord v)) ++
    Bytes.word (number isRegistration.length) ++
    isRegistration.flatMap (fun b => Bytes.word (if b then 1 else 0)))

def proposeValidators (keccak256 : Keccak) (deployment : Deployment) (env : Env) (s : State)
    (validators : List Address) (isRegistration : List Bool) :
    Except Error (State × List Event) := do
  onlyOwner env s
  require (validators.length ≠ 0) .invalidParameter
  require (validators.length = isRegistration.length) .arrayLengthMismatch
  let executableAt ← checkedAdd 256 env.timestamp deployment.configTimeDelay .arithmetic
  let validatorsHash := _getValidatorsHash keccak256 validators isRegistration executableAt
  require (validators.all (fun v => v ≠ 0 && v ≠ deployment.this)) .invalidAddress
  return ({ s with pendingValidatorChangeHash := validatorsHash },
    [.validatorsProposed validatorsHash validators isRegistration executableAt])

def executeWithdrawDelayChange (env : Env) (s : State) : Except Error (State × List Event) := do
  let proposal := s.pendingWithdrawDelayChange
  require (proposal.executableAt ≠ 0) .noProposalExists
  require (proposal.executableAt ≤ env.timestamp) .proposalNotExecutable
  return ({ s with withdrawDelay := proposal.value, pendingWithdrawDelayChange := ⟨0, 0⟩ },
    [.withdrawDelayChanged s.withdrawDelay proposal.value])

/-- The loop of `executeValidatorChanges`. -/
def updateValidators (isValidator : Address → Bool) :
    List Address → List Bool → Except Error ((Address → Bool) × List Event)
  | [], _ => .ok (isValidator, [])
  | _ :: _, [] => .error .outOfBounds
  | v :: validators, b :: isRegistration => do
      let (isValidator, events) ←
        updateValidators (Function.update isValidator v b) validators isRegistration
      return (isValidator, .validatorUpdated v b :: events)

def executeValidatorChanges (keccak256 : Keccak) (env : Env) (s : State)
    (validators : List Address) (isRegistration : List Bool) (executableAt : Nat) :
    Except Error (State × List Event) := do
  let proposalHash := s.pendingValidatorChangeHash
  require (proposalHash ≠ 0) .noProposalExists
  let validatorsHash := _getValidatorsHash keccak256 validators isRegistration executableAt
  require (proposalHash = validatorsHash) .invalidProposalHash
  require (executableAt ≠ 0) .proposalNotSet
  require (executableAt ≤ env.timestamp) .proposalNotExecutable
  let (isValidator, events) ← updateValidators s.isValidator validators isRegistration
  return ({ s with isValidator, pendingValidatorChangeHash := 0 }, events)

/-! ### Token recovery -/

/-- Sends tokens that nobody staked.  Another token than the staked one keeps its own books:
`balance` is what it answers, and its transfer is not seen here. -/
def recoverTokens (deployment : Deployment) (env : Env) (world : World)
    (token recipient : Address) (balance : Nat) : Except Error (World × List Event) := do
  let s := world.staking
  onlyOwner env s
  require (recipient ≠ 0) .invalidAddress
  if token = deployment.safeToken then do
    let unstaked ← checkedSub (ERC20.balanceOf world.token deployment.this) s.totalStakedAmount
      .arithmetic
    let recoverable ← checkedSub unstaked s.totalPendingWithdrawals .arithmetic
    require (recoverable ≠ 0) .insufficientRecoverableAmount
    let ledger ← (ERC20.transfer world.token deployment.this recipient recoverable).mapError
      Error.token
    return ({ world with token := ledger }, [.tokensRecovered token recipient recoverable])
  else do
    require (balance ≠ 0) .insufficientRecoverableAmount
    return (world, [.tokensRecovered token recipient balance])

/-! ### Views -/

/-- The loop that fills the answer of `getPendingWithdrawals`. -/
def collect (nodes : Nodes) : Nat → Nat → List WithdrawalInfo
  | 0, _ => []
  | count + 1, currentId =>
      let node := nodes currentId
      ⟨node.amount, node.claimableAt⟩ :: collect nodes count node.next

/-- The withdrawals of a staker, counted first and collected then. -/
def getPendingWithdrawals (s : State) (gas : Nat) (staker : Address) :
    Option (List WithdrawalInfo) :=
  let queue := s.withdrawalQueues staker
  let nodes := s.withdrawalNodes staker
  if queue.head = 0 then
    some []
  else
    (Loop.iterate (fun loop : Nat × Nat => loop.2 ≠ 0)
      (fun loop => (loop.1 + 1, (nodes loop.2).next)) gas (0, queue.head)).map
      fun loop => collect nodes loop.1 queue.head

def getNextClaimableWithdrawal (s : State) (staker : Address) : Nat × Nat :=
  let queue := s.withdrawalQueues staker
  if queue.head = 0 then (0, 0)
  else
    let node := s.withdrawalNodes staker queue.head
    (node.amount, node.claimableAt)

/-! ### Calls -/

inductive Call where
  | stake (validator : Address) (amount : Nat)
  | initiateWithdrawal (validator : Address) (amount gas : Nat)
  | initiateWithdrawalAtPosition (validator : Address) (amount previousId : Nat)
  | claimWithdrawal
  | proposeWithdrawDelay (newDelay : Nat)
  | proposeValidators (validators : List Address) (isRegistration : List Bool)
  | executeWithdrawDelayChange
  | executeValidatorChanges (validators : List Address) (isRegistration : List Bool)
      (executableAt : Nat)
  | recoverTokens (token recipient : Address) (balance : Nat)
  | transferOwnership (newOwner : Address)
  | renounceOwnership
deriving DecidableEq, Repr

/-- A call that leaves the token alone. -/
def onStaking (world : World) (result : Except Error (State × List Event)) :
    Except Error (World × List Event) :=
  result.map fun (s, events) => ({ world with staking := s }, events)

def call (keccak256 : Keccak) (deployment : Deployment) (env : Env) (world : World) :
    Call → Except Error (World × List Event)
  | .stake validator amount => stake deployment env world validator amount
  | .initiateWithdrawal validator amount gas => initiateWithdrawal env world validator amount gas
  | .initiateWithdrawalAtPosition validator amount previousId =>
      initiateWithdrawalAtPosition env world validator amount previousId
  | .claimWithdrawal => claimWithdrawal deployment env world
  | .proposeWithdrawDelay newDelay =>
      onStaking world (proposeWithdrawDelay deployment env world.staking newDelay)
  | .proposeValidators validators isRegistration =>
      onStaking world (proposeValidators keccak256 deployment env world.staking validators
        isRegistration)
  | .executeWithdrawDelayChange =>
      onStaking world (executeWithdrawDelayChange env world.staking)
  | .executeValidatorChanges validators isRegistration executableAt =>
      onStaking world (executeValidatorChanges keccak256 env world.staking validators
        isRegistration executableAt)
  | .recoverTokens token recipient balance =>
      recoverTokens deployment env world token recipient balance
  | .transferOwnership newOwner => onStaking world (transferOwnership env world.staking newOwner)
  | .renounceOwnership => onStaking world (renounceOwnership env world.staking)

/-- What happens next: a call to the contract, or a call to the token by anybody but the
contract, whose own token calls are all made above. -/
inductive Input (deployment : Deployment) where
  | call (env : Env) (call : Call)
  | token (sender : { a : Address // a ≠ deployment.this }) (call : ERC20.Call)

/-- One step of the contract and the token. -/
def step (keccak256 : Keccak) (deployment : Deployment) (world : World) :
    Input deployment → World × Except Error (List Event)
  | .call env c => transact world (call keccak256 deployment env world c)
  | .token sender c =>
      transact world (((ERC20.call world.token sender c).mapError Error.token).map
        fun token => ({ world with token }, []))

end Safenet.Contracts.Staking
