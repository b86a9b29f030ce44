/-
Proofs of participation.

What `participate_as` hands out is what `FROSTParticipantMap.register` asks for, for every participant
and whatever the number of participants.  In the other direction nothing but an address of the set has
a proof, if the pairs of words that are hashed to build the tree and to check the proof do not
collide (`CollisionFree`): neither the zeros that fill up a level nor the inner nodes are members.
-/
import Safenet.Contracts.FROSTCoordinator
import Safenet.Proofs.MerkleTree

namespace Safenet.Validator

open Contracts (Keccak toWord toWord_injective)
open Contracts.FROSTParticipantMap (register)
open Fallible

variable {keccak : Keccak}

/-- The pairs hash to different words, none of which is an address; zero is one. -/
structure CollisionFree (keccak : Keccak) (hashed : List (B256 × B256)) : Prop where
  injective : ∀ p ∈ hashed, ∀ q ∈ hashed, hashPair keccak p.1 p.2 = hashPair keccak q.1 q.2 →
    p = q ∨ p = q.swap
  ne_address : ∀ p ∈ hashed, ∀ address : Address, hashPair keccak p.1 p.2 ≠ toWord address

/-- The pairs that are hashed to make the tree of the participants and to check a proof. -/
def hashedPairs (keccak : Keccak) (addresses : Finset Address) (address : Address)
    (poap : List B256) : List (B256 × B256) :=
  Merkle.treePairs (hashPair keccak) 0 addresses.card (addresses.ascending.map toWord) ++
    Merkle.foldPairs (hashPair keccak) (toWord address) poap

theorem CollisionFree.binding {hashed : List (B256 × B256)} (h : CollisionFree keccak hashed)
    (addresses : List Address) :
    Merkle.Binding (hashPair keccak) 0 (addresses.map toWord) hashed where
  injective := by
    intro a b c d hab hcd heq
    rcases h.injective _ hab _ hcd heq with hsame | hswap
    · exact .inl (Prod.mk.inj hsame)
    · exact .inr (Prod.mk.inj hswap)
  ne_fill := fun hab => h.ne_address _ hab 0
  ne_leaf := by
    intro a b leaf hab hleaf
    obtain ⟨address, -, rfl⟩ := List.mem_map.mp hleaf
    exact h.ne_address _ hab address

/-- **Only a participant has a proof.** -/
theorem mem_of_poap {addresses : Finset Address} {address : Address} {poap : List B256}
    (hne : address ≠ 0) (hfree : CollisionFree keccak (hashedPairs keccak addresses address poap))
    (hroot : poap.foldl (hashPair keccak) (toWord address) =
      (participantsTree keccak addresses).root) : address ∈ addresses := by
  have hlength : (addresses.ascending.map toWord).length = addresses.card := by
    rw [List.length_map, Finset.length_ascending]
  rw [participantsTree, MerkleTree.root_build, hlength] at hroot
  have hword : toWord address ≠ 0 := fun hzero => hne (toWord_injective (by decide) hzero)
  have hmem := (hfree.binding addresses.ascending).mem_of_fold hword
    (fun hab => hfree.ne_address _ hab address) (fun p hp => List.mem_append_left _ hp)
    (fun p hp => List.mem_append_right _ hp) hroot
  obtain ⟨member, hmember, heq⟩ := List.mem_map.mp hmem
  rw [← toWord_injective (by decide) heq]
  exact Finset.mem_ascending.mp hmember

/-- The proof of a participant leads to the root. -/
theorem poap_leads_to_root {addresses : Finset Address} {address : Address} (h : address ∈ addresses) :
    ((participantsTree keccak addresses).proof (addresses.filter (· < address)).card).foldl
        (hashPair keccak) (toWord address) = (participantsTree keccak addresses).root := by
  have hplace := Finset.ascending_getElem? h
  obtain ⟨hlt, -⟩ := List.getElem?_eq_some_iff.mp hplace
  have hleaf : (addresses.ascending.map toWord).getD (addresses.filter (· < address)).card 0 =
      toWord address := by
    rw [List.getD_eq_getElem?_getD, List.getElem?_map, hplace]
    rfl
  have hfold : ((participantsTree keccak addresses).proof (addresses.filter (· < address)).card).foldl
      (hashPair keccak) ((addresses.ascending.map toWord).getD (addresses.filter (· < address)).card 0) =
        (participantsTree keccak addresses).root :=
    MerkleTree.proof_leads_to_root (by rwa [List.length_map])
  rwa [hleaf] at hfold

/-- An address that is not registered yet registers with a proof. -/
theorem register_isOk {verifiers : Contracts.FROSTCoordinator.Verifiers}
    {map : Contracts.FROSTParticipantMap.T} {address : Address} {poap : List B256} :
    (∃ map', register verifiers map address poap = .ok map') ↔
      (map.states address).status = .none ∧
        verifiers.merkleProof poap map.root (toWord address) = true := by
  constructor
  · rintro ⟨map', h⟩
    obtain ⟨u, hfresh, h⟩ := bind_eq_ok.mp h
    obtain ⟨u, hproof, -⟩ := bind_eq_ok.mp h
    exact ⟨of_decide_eq_true (require_eq_ok.mp hfresh), require_eq_ok.mp hproof⟩
  · rintro ⟨hfresh, hproof⟩
    unfold register
    dsimp only
    rw [decide_eq_true hfresh, hproof]
    exact ⟨_, rfl⟩

/--
**Participation proofs are complete and sound.**

The proof of every leaf leads to the root, so the coordinator registers every participant with the
proof it was given.  It registers an address other than zero with any proof against that root only if
the address is in the set.
-/
theorem participation_is_exact (verifiers : Contracts.FROSTCoordinator.Verifiers)
    (hverifies : Verifies verifiers.keccak256 verifiers.merkleProof) :
    let keccak := verifiers.keccak256
    (∀ (leaves : List B256) (i : Nat) (hi : i < leaves.length),
      ((MerkleTree.build keccak leaves).proof i).foldl (hashPair keccak) (leaves.get ⟨i, hi⟩) =
        (MerkleTree.build keccak leaves).root) ∧
    (∀ (set : ParticipantSet) (address : Address), address ∈ set.addresses →
      ∃ poap, set.participateAs keccak address = some (set.group keccak, poap) ∧
        ∀ map : Contracts.FROSTParticipantMap.T, map.root = (set.group keccak).root →
          (map.states address).status = .none →
            ∃ map', register verifiers map address poap = .ok map') ∧
    (∀ (set : ParticipantSet) (address : Address), address ≠ 0 →
      ∀ (map map' : Contracts.FROSTParticipantMap.T) (poap : List B256), map.root = (set.group keccak).root →
        CollisionFree keccak (hashedPairs keccak set.addresses address poap) →
          register verifiers map address poap = .ok map' → address ∈ set.addresses) := by
  intro keccak
  refine ⟨?_, ?_, ?_⟩
  · intro leaves i hi
    have hfold : ((MerkleTree.build keccak leaves).proof i).foldl (hashPair keccak) (leaves.getD i 0) =
        (MerkleTree.build keccak leaves).root := MerkleTree.proof_leads_to_root hi
    rwa [List.getD_eq_getElem _ _ hi] at hfold
  · intro set address hmember
    refine ⟨_, if_pos hmember, ?_⟩
    intro map hroot hfresh
    refine register_isOk.mpr ⟨hfresh, ?_⟩
    rw [hverifies, hroot]
    exact decide_eq_true (poap_leads_to_root hmember)
  · intro set address hne map map' poap hroot hfree h
    have hverified := (register_isOk.mp ⟨map', h⟩).2
    rw [hverifies, hroot] at hverified
    exact mem_of_poap hne hfree (of_decide_eq_true hverified)

/-- The functions of the EVM, with the hash of the words 1 and 2. -/
def pairVerifiers : Contracts.FROSTCoordinator.Verifiers :=
  let keccak : Keccak := fun _ => 0xe90b7bceb6e7df5418fb78d8ee546e97c83a08bbccc01a0644d599ccd2a7c2e0
  { keccak256 := keccak
    proofOfKnowledge := fun _ _ _ => true
    merkleProof := fun proof root leaf => decide (proof.foldl (hashPair keccak) leaf = root) }

def pairSet : ParticipantSet := ⟨{1, 2}, ∅, 0, by decide, by decide⟩

/-- The second of two participants is registered, and its proof is no other's. -/
theorem pair_participates :
    (∃ poap, pairSet.participateAs pairVerifiers.keccak256 2 =
        some (pairSet.group pairVerifiers.keccak256, poap) ∧
      ∀ map : Contracts.FROSTParticipantMap.T, map.root = (pairSet.group pairVerifiers.keccak256).root →
        (map.states 2).status = .none → ∃ map', register pairVerifiers map 2 poap = .ok map') ∧
    CollisionFree pairVerifiers.keccak256 (hashedPairs pairVerifiers.keccak256 {1, 2} 2 [1]) := by
  refine ⟨(participation_is_exact pairVerifiers fun _ _ _ => rfl).2.1 pairSet 2 (by decide), ?_, ?_⟩
  · intro p hp q hq _
    have hpairs : hashedPairs pairVerifiers.keccak256 {1, 2} 2 [1] = [(1, 2), (2, 1)] := by decide +kernel
    rw [hpairs] at hp hq
    simp only [List.mem_cons, List.not_mem_nil, or_false] at hp hq
    rcases hp with rfl | rfl <;> rcases hq with rfl | rfl <;> simp
  · intro p _ address heq
    have htoNat := congrArg BitVec.toNat heq
    have hlt := address.isLt
    change 0xe90b7bceb6e7df5418fb78d8ee546e97c83a08bbccc01a0644d599ccd2a7c2e0 = _ at htoNat
    rw [toWord, BitVec.toNat_ofNat] at htoNat
    omega

end Safenet.Validator
