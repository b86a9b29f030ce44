/-
Epochs, key generation groups and the messages of the validator: `consensus/epoch.rs`,
`consensus/group.rs`, `consensus/hashing.rs` and `merkle.rs` of `validator/src`, with the
part of `config.rs` that the state machine reads.

A `BTreeSet` of addresses is a `Finset`, a `NonZeroU64` a positive number.
-/
import Mathlib.Data.PNat.Basic
import Mathlib.Tactic.Positivity
import Safenet.Contracts.ConsensusMessages
import Safenet.Lib.Ascending

namespace Safenet.Validator

open Contracts (Keccak hashWords typedDataHash toWord)

/-! ### Epochs -/

/-- An epoch. -/
inductive EpochId where
  | genesis
  | number (number : ℕ+)
deriving DecidableEq

namespace EpochId

/-- The epoch with a raw value. -/
def fromRaw (value : Nat) : EpochId :=
  if h : 0 < value then .number ⟨value, h⟩ else .genesis

/-- The raw value, zero for genesis. -/
def rawValue : EpochId → Nat
  | .genesis => 0
  | .number n => n

/-- The number of an epoch other than genesis. -/
def number? : EpochId → Option ℕ+
  | .genesis => none
  | .number n => some n

theorem rawValue_injective : Function.Injective rawValue := by
  intro a b h
  cases a with
  | genesis =>
      cases b with
      | genesis => rfl
      | number n => exact absurd h.symm n.ne_zero
  | number m =>
      cases b with
      | genesis => exact absurd h m.ne_zero
      | number n => rw [PNat.coe_injective h]

instance : LinearOrder EpochId := LinearOrder.lift' rawValue rawValue_injective

theorem le_def {a b : EpochId} : a ≤ b ↔ a.rawValue ≤ b.rawValue := Iff.rfl

theorem lt_def {a b : EpochId} : a < b ↔ a.rawValue < b.rawValue := Iff.rfl

end EpochId

/-- `epoch::next_number`: the epoch after the one of a block. -/
def nextNumber (block : Nat) (blocksPerEpoch : ℕ+) : ℕ+ :=
  ⟨saturatingAdd 1 (block / blocksPerEpoch), by
    have h : 0 < 1 + block / (blocksPerEpoch : Nat) := by positivity
    unfold saturatingAdd
    omega⟩

/-! ### Merkle trees -/

/-- Hashes two nodes in ascending order. -/
def hashPair (keccak : Keccak) (a b : B256) : B256 :=
  hashWords keccak (if a ≤ b then [a, b] else [b, a])

/-- The level above: the nodes in pairs, zero for a missing one. -/
def nextLevel (keccak : Keccak) (level : List B256) : List B256 :=
  (List.range ((level.length + 1) / 2)).map fun i =>
    hashPair keccak (level.getD (i * 2) 0) (level.getD (i * 2 + 1) 0)

/-- The levels from the leaves up to the root, for at most `fuel` rounds. -/
def levels (keccak : Keccak) : Nat → List B256 → List (List B256)
  | 0, level => [level]
  | fuel + 1, level =>
      if 1 < level.length then level :: levels keccak fuel (nextLevel keccak level) else [level]

structure MerkleTree where
  levels : List (List B256)

namespace MerkleTree

/-- Every level has at most half as many pairs as the one below, so the rounds suffice. -/
def build (keccak : Keccak) (leaves : List B256) : MerkleTree :=
  ⟨Validator.levels keccak leaves.length leaves⟩

def height (tree : MerkleTree) : Nat := tree.levels.length

def root (tree : MerkleTree) : B256 :=
  ((tree.levels.getLast?.bind List.head?)).getD 0

/-- The siblings on the way from the leaf at `index` to the root. -/
def proof (tree : MerkleTree) (index : Nat) : List B256 :=
  ((tree.levels.take (tree.height - 1)).foldl
    (fun (acc : Nat × List B256) level =>
      (acc.1 / 2, acc.2 ++ [level.getD (acc.1 ^^^ 1) 0])) (index, [])).2

end MerkleTree

/-- Building a tree ends in a level with a single node: the bound on the rounds is never hit. -/
theorem levels_top (keccak : Keccak) (fuel : Nat) : ∀ level : List B256, level.length ≤ fuel + 1 →
    ∃ top, (levels keccak fuel level).getLast? = some top ∧ top.length ≤ 1 := by
  induction fuel with
  | zero =>
      intro level h
      exact ⟨level, rfl, h⟩
  | succ fuel ih =>
      intro level h
      unfold levels
      by_cases hlong : 1 < level.length
      · rw [if_pos hlong]
        have hnext : (nextLevel keccak level).length ≤ fuel + 1 := by
          rw [nextLevel, List.length_map, List.length_range]
          omega
        obtain ⟨top, htop, hone⟩ := ih _ hnext
        refine ⟨top, ?_, hone⟩
        rw [List.getLast?_cons, htop]
        rfl
      · rw [if_neg hlong]
        exact ⟨level, rfl, by omega⟩

/-! ### Configuration -/

/-- A validator with the window of epochs it is active in. -/
structure Participant where
  address : Address
  activeFrom : Nat
  activeBefore : Option ℕ+
deriving DecidableEq

/-- What the state machine reads of the configuration. -/
structure ValidatorConfig where
  consensus : Address
  participants : List Participant
  oracles : Finset Address
  blocksPerEpoch : ℕ+
  keyGenTimeout : ℕ+
  signingTimeout : ℕ+
  oracleTimeout : ℕ+

/-! ### Groups -/

/-- The signing threshold of a group. -/
def groupThreshold (count : Nat) : Nat := count / 2 + 1

/-- The least number of participants for a set of `count`: more than two thirds, and two. -/
def minParticipants (count : Nat) : Nat := max 2 (count * 2 / 3 + 1)

/-- A key generation group. -/
structure Group where
  id : B256
  root : B256
  participants : Finset Address
  excluded : Finset Address
  count : Nat
  threshold : Nat
  context : B256
deriving DecidableEq

namespace Group

def size (group : Group) : Nat × Nat := (group.count, group.threshold)

/-- The excluded participants, with more of them. -/
def alsoExclude (group : Group) (alsoExcluded : Finset Address) : Finset Address :=
  group.excluded ∪ alsoExcluded

/-- The excluded participants, with all that are not in the list. -/
def excludeAllOthers (group : Group) (includeOnly : Finset Address) : Finset Address :=
  group.alsoExclude (group.participants \ includeOnly)

end Group

/-- A valid set of participants: two or more, and their number is a `u16`. -/
structure ParticipantSet where
  addresses : Finset Address
  excluded : Finset Address
  context : B256
  two_le : 2 ≤ addresses.card
  fits : addresses.card < 2 ^ 16

def participantsTree (keccak : Keccak) (participants : Finset Address) : MerkleTree :=
  .build keccak (participants.ascending.map toWord)

/-- The hash of a group's parameters, with the low 64 bits cleared. -/
def groupId (keccak : Keccak) (participants : B256) (count threshold : Nat) (context : B256) : B256 :=
  hashWords keccak [participants, BitVec.ofNat 256 count, BitVec.ofNat 256 threshold, context] &&&
    ~~~BitVec.ofNat 256 (2 ^ 64 - 1)

/-- `encodePacked(uint32 version, address consensus, uint64 epoch)`. -/
def groupContext (consensus : Address) (epoch : Nat) : B256 :=
  0#32 ++ consensus ++ BitVec.ofNat 64 epoch

namespace ParticipantSet

/-- The group of a participant set. -/
def group (keccak : Keccak) (set : ParticipantSet) : Group :=
  let root := (participantsTree keccak set.addresses).root
  let count := set.addresses.card
  let threshold := groupThreshold count
  { id := groupId keccak root count threshold set.context
    root
    participants := set.addresses
    excluded := set.excluded
    count
    threshold
    context := set.context }

/-- The group with the proof that the address is in it, nothing if it is not. -/
def participateAs (keccak : Keccak) (set : ParticipantSet) (address : Address) :
    Option (Group × List B256) :=
  if address ∈ set.addresses then
    let index := (set.addresses.filter (· < address)).card
    some (set.group keccak, (participantsTree keccak set.addresses).proof index)
  else none

end ParticipantSet

/-- `encodePacked(string "genesis", bytes32 salt)`, hashed; zero without a salt. -/
def genesisContext (keccak : Keccak) (salt : B256) : B256 :=
  if salt = 0 then 0 else keccak (Bytes.ascii "genesis" ++ Bytes.word salt)

/-- `group::Epoch`: what a participant set is computed for. -/
inductive GroupEpoch where
  | genesis (salt : B256)
  | number (consensus : Address) (number : ℕ+) (excluded : Finset Address)

namespace GroupEpoch

/-- The participant is active in the epoch. -/
def isActive (p : Participant) : GroupEpoch → Bool
  | .genesis _ => p.activeFrom = 0
  | .number _ n _ => p.activeFrom ≤ (n : Nat) && p.activeBefore.all fun before => n < before

def excluded : GroupEpoch → Finset Address
  | .genesis _ => ∅
  | .number _ _ excluded => excluded

def context (keccak : Keccak) : GroupEpoch → B256
  | .genesis salt => genesisContext keccak salt
  | .number consensus n _ => groupContext consensus n

end GroupEpoch

/-- The participant set of an epoch, nothing if too few participants are left. -/
def participantsSet (keccak : Keccak) (participants : List Participant) (epoch : GroupEpoch) :
    Option ParticipantSet :=
  let active := ((participants.filter fun p => epoch.isActive p).map Participant.address).toFinset
  let addresses := active \ epoch.excluded
  if h : active.card < 2 ^ 16 ∧ addresses.card < 2 ^ 16 ∧
      minParticipants active.card ≤ addresses.card then
    some
      { addresses
        excluded := epoch.excluded
        context := epoch.context keccak
        two_le := le_trans (le_max_left _ _) h.2.2
        fits := h.2.1 }
  else none

/-! ### Messages -/

abbrev SafeTransaction := Contracts.SafeTransaction.T

/-- The struct hash of a Safe transaction. -/
def safeTxStructHash (keccak : Keccak) (tx : SafeTransaction) : B256 :=
  hashWords keccak [Contracts.SafeTransaction.SAFE_TX_TYPEHASH, toWord tx.target, tx.value,
    keccak tx.data, tx.operation.toWord, tx.safeTxGas, tx.baseGas, tx.gasPrice, toWord tx.gasToken,
    toWord tx.refundReceiver, tx.nonce]

def safeTxHash (keccak : Keccak) (tx : SafeTransaction) : B256 :=
  Contracts.SafeTransaction.partialHash keccak tx.chainId tx.safe (safeTxStructHash keccak tx)

/-- The domain of the consensus contract. -/
structure ConsensusDomain where
  chain : Nat
  consensus : Address
deriving DecidableEq

namespace ConsensusDomain

open Contracts (DOMAIN_TYPEHASH ConsensusMessages.EPOCH_ROLLOVER_TYPEHASH
  ConsensusMessages.TRANSACTION_PROPOSAL_TYPEHASH Secp256k1.Point)

variable (keccak : Keccak) (domain : ConsensusDomain)

def separator : B256 :=
  hashWords keccak [DOMAIN_TYPEHASH, BitVec.ofNat 256 domain.chain, toWord domain.consensus]

def transactionProposalHash (epoch : EpochId) (oracle : Address) (oracleDataHash safeTxHash : B256) :
    B256 :=
  typedDataHash keccak (domain.separator keccak) (hashWords keccak
    [ConsensusMessages.TRANSACTION_PROPOSAL_TYPEHASH, BitVec.ofNat 256 epoch.rawValue,
      toWord oracle, oracleDataHash, safeTxHash])

def transactionPacketHash (epoch : EpochId) (oracle : Address) (oracleData : Bytes)
    (tx : SafeTransaction) : B256 :=
  domain.transactionProposalHash keccak epoch oracle (keccak oracleData) (safeTxHash keccak tx)

def epochRolloverHash (activeEpoch : EpochId) (proposedEpoch : ℕ+) (rolloverBlock : Nat)
    (groupKey : Secp256k1.Point) : B256 :=
  typedDataHash keccak (domain.separator keccak) (hashWords keccak
    [ConsensusMessages.EPOCH_ROLLOVER_TYPEHASH, BitVec.ofNat 256 activeEpoch.rawValue,
      BitVec.ofNat 256 proposedEpoch, BitVec.ofNat 256 rolloverBlock, groupKey.x, groupKey.y])

end ConsensusDomain

end Safenet.Validator
