/-
The Merkle trees of the validator as instances of `Safenet.Lib.Merkle`.

`Verifies` is what the library of the contracts does with a proof: it hashes its way up from the
leaf, a pair in ascending order, and compares with the root.
-/
import Safenet.Lib.Merkle
import Safenet.Validator.Group

namespace Safenet.Validator

open Contracts (Keccak hashWords)

variable {keccak : Keccak}

/-- `MerkleProof.verifyCalldata`. -/
def Verifies (keccak : Keccak) (merkleProof : List B256 → B256 → B256 → Bool) : Prop :=
  ∀ proof root leaf, merkleProof proof root leaf = decide (proof.foldl (hashPair keccak) leaf = root)

theorem hashPair_comm (a b : B256) : hashPair keccak a b = hashPair keccak b a := by
  unfold hashPair
  rcases lt_trichotomy a b with hlt | heq | hlt
  · rw [if_pos hlt.le, if_neg (not_le.mpr hlt)]
  · rw [heq]
  · rw [if_neg (not_le.mpr hlt), if_pos hlt.le]

/-- The words that are hashed for a pair. -/
def pairBytes (p : B256 × B256) : Bytes :=
  (if p.1 ≤ p.2 then [p.1, p.2] else [p.2, p.1]).flatMap Bytes.word

theorem pairBytes_inj {a b c d : B256} (heq : pairBytes (a, b) = pairBytes (c, d)) :
    a = c ∧ b = d ∨ a = d ∧ b = c := by
  have hwords := Bytes.flatMap_word_inj heq
  split at hwords <;> split at hwords <;> simp only [List.cons.injEq, and_true] at hwords
  · exact .inl hwords
  · exact .inr hwords
  · exact .inr hwords.symm
  · exact .inl hwords.symm

theorem length_pairBytes (p : B256 × B256) : (pairBytes p).length = 64 := by
  unfold pairBytes
  split <;> rw [Bytes.flatMap_word_length] <;> rfl

theorem levels_eq (fuel : Nat) : ∀ level : List B256,
    levels keccak fuel level = Merkle.levels (hashPair keccak) 0 fuel level := by
  induction fuel with
  | zero =>
      intro level
      rfl
  | succ fuel ih =>
      intro level
      rw [levels, Merkle.levels, ih]
      rfl

namespace MerkleTree

theorem root_build (leaves : List B256) : (build keccak leaves).root =
    Merkle.root 0 (Merkle.levels (hashPair keccak) 0 leaves.length leaves) := by
  rw [← levels_eq]
  rfl

private theorem foldl_siblings (tree : List (List B256)) : ∀ (i : Nat) (found : List B256),
    (tree.foldl (fun (acc : Nat × List B256) level =>
      (acc.1 / 2, acc.2 ++ [level.getD (acc.1 ^^^ 1) 0])) (i, found)).2 =
      found ++ Merkle.siblings 0 tree i := by
  induction tree with
  | nil =>
      intro i found
      exact (List.append_nil found).symm
  | cons level tree ih =>
      intro i found
      rw [List.foldl_cons, ih, List.append_assoc]
      rfl

theorem proof_eq (tree : MerkleTree) (i : Nat) :
    tree.proof i = Merkle.siblings 0 tree.levels.dropLast i := by
  rw [proof, foldl_siblings, List.nil_append, List.dropLast_eq_take]
  rfl

/-- **The proof of a leaf verifies.** -/
theorem proof_leads_to_root {leaves : List B256} {i : Nat} (hi : i < leaves.length) :
    ((build keccak leaves).proof i).foldl (hashPair keccak) (leaves.getD i 0) =
      (build keccak leaves).root := by
  rw [root_build, proof_eq, build, levels_eq]
  exact Merkle.fold_siblings hashPair_comm leaves.length hi (Nat.le_succ _)

/-- What is hashed to make a tree. -/
def hashed (keccak : Keccak) (leaves : List B256) : List Bytes :=
  (Merkle.treePairs (hashPair keccak) 0 leaves.length leaves).map pairBytes

/-- What is hashed to check a proof. -/
def checked (keccak : Keccak) (leaf : B256) (proof : List B256) : List Bytes :=
  (Merkle.foldPairs (hashPair keccak) leaf proof).map pairBytes

/-- **Only a leaf has a proof**, if leaves are hashes of something other than two words and nothing
that is hashed collides. -/
theorem mem_of_verifies {leaves : List B256} {leaf : B256} {proof : List B256} {inputs : Set Bytes}
    (hinj : ∀ a ∈ inputs, ∀ b ∈ inputs, keccak a = keccak b → a = b) (hzero : ∀ a ∈ inputs, keccak a ≠ 0)
    (htree : ∀ a ∈ hashed keccak leaves, a ∈ inputs) (hproof : ∀ a ∈ checked keccak leaf proof, a ∈ inputs)
    (hleaves : ∀ l ∈ leaves, ∃ a ∈ inputs, a.length ≠ 64 ∧ keccak a = l)
    (hleaf : ∃ a ∈ inputs, a.length ≠ 64 ∧ keccak a = leaf)
    (hroot : proof.foldl (hashPair keccak) leaf = (build keccak leaves).root) : leaf ∈ leaves := by
  -- a pair is never hashed to what a leaf is
  have hother : ∀ {a b l : B256}, pairBytes (a, b) ∈ inputs →
      (∃ c ∈ inputs, c.length ≠ 64 ∧ keccak c = l) → hashPair keccak a b ≠ l := by
    rintro a b l hab ⟨c, hc, hlength, rfl⟩ heq
    have hbytes := hinj _ hab _ hc heq
    exact hlength (by rw [← hbytes, length_pairBytes])
  rw [root_build] at hroot
  let pairs := Merkle.treePairs (hashPair keccak) 0 leaves.length leaves ++
    Merkle.foldPairs (hashPair keccak) leaf proof
  have hinputs : ∀ p ∈ pairs, pairBytes p ∈ inputs := by
    intro p hp
    rcases List.mem_append.mp hp with hp | hp
    · exact htree _ (List.mem_map_of_mem hp)
    · exact hproof _ (List.mem_map_of_mem hp)
  have hbinding : Merkle.Binding (hashPair keccak) 0 leaves pairs :=
    { injective := fun hab hcd heq => pairBytes_inj (hinj _ (hinputs _ hab) _ (hinputs _ hcd) heq)
      ne_fill := fun hab => hzero _ (hinputs _ hab)
      ne_leaf := fun hab hl => hother (hinputs _ hab) (hleaves _ hl) }
  have hfill : leaf ≠ 0 := by
    obtain ⟨a, ha, -, rfl⟩ := hleaf
    exact hzero a ha
  exact hbinding.mem_of_fold hfill (fun hab => hother (hinputs _ hab) hleaf)
    (fun p hp => List.mem_append_left _ hp) (fun p hp => List.mem_append_right _ hp) hroot

end MerkleTree

end Safenet.Validator
