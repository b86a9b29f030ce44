/-
Merkle trees over a hash of unordered pairs.

A level pairs up its nodes and fills an odd one up with `z`; a proof is the list of siblings on the
way to the root.  `fold_siblings` says that the proof of a leaf leads to the root.  `mem_of_fold`
is the converse for proofs that anybody made up: if no two of the pairs that are hashed collide, what
leads to the root is a leaf.  Its induction is on the proof, from the root down.
-/
import Mathlib.Data.List.GetD
import Mathlib.Data.List.Induction
import Mathlib.Data.Nat.Bitwise
import Mathlib.Tactic.Common

namespace Safenet.Merkle

variable {α : Type} (h : α → α → α) (z : α)

/-! ### Trees -/

/-- The pairs of a level. -/
def pairs (level : List α) : List (α × α) :=
  (List.range ((level.length + 1) / 2)).map fun i => (level.getD (i * 2) z, level.getD (i * 2 + 1) z)

/-- The level above. -/
def nextLevel (level : List α) : List α :=
  (List.range ((level.length + 1) / 2)).map fun i => h (level.getD (i * 2) z) (level.getD (i * 2 + 1) z)

/-- The levels from the leaves up, for at most `fuel` rounds. -/
def levels : ℕ → List α → List (List α)
  | 0, level => [level]
  | fuel + 1, level =>
      if 1 < level.length then level :: levels fuel (nextLevel h z level) else [level]

def root (tree : List (List α)) : α := (tree.getLast?.bind List.head?).getD z

/-- The siblings on the way up from an index. -/
def siblings : List (List α) → ℕ → List α
  | [], _ => []
  | level :: above, i => level.getD (i ^^^ 1) z :: siblings above (i / 2)

theorem length_nextLevel (level : List α) : (nextLevel h z level).length = (level.length + 1) / 2 := by
  rw [nextLevel, List.length_map, List.length_range]

theorem nextLevel_eq (level : List α) : nextLevel h z level = (pairs z level).map fun p => h p.1 p.2 := by
  rw [nextLevel, pairs, List.map_map]
  rfl

theorem levels_ne_nil (fuel : ℕ) (level : List α) : levels h z fuel level ≠ [] := by
  cases fuel with
  | zero => simp [levels]
  | succ fuel =>
      rw [levels]
      split <;> simp

/-! ### The proof of a leaf -/

variable {h z}

/-- A node above is the hash of the node and its sibling. -/
theorem getD_nextLevel (hcomm : ∀ a b, h a b = h b a) {level : List α} {i : ℕ} (hi : i < level.length) :
    (nextLevel h z level).getD (i / 2) z = h (level.getD i z) (level.getD (i ^^^ 1) z) := by
  have hlt : i / 2 < (nextLevel h z level).length := by
    rw [length_nextLevel]
    omega
  have hnode : (nextLevel h z level).getD (i / 2) z =
      h (level.getD (i / 2 * 2) z) (level.getD (i / 2 * 2 + 1) z) := by
    rw [List.getD_eq_getElem _ _ hlt]
    simp [nextLevel]
  rw [hnode]
  rcases Nat.even_or_odd i with heven | hodd
  · have hdiv : i / 2 * 2 = i := Nat.div_mul_cancel heven.two_dvd
    rw [hdiv, Nat.xor_one_of_even heven]
  · have hdiv : i / 2 * 2 + 1 = i := Nat.div_two_mul_two_add_one_of_odd hodd
    rw [hcomm, hdiv, Nat.xor_one_of_odd hodd]
    congr 2
    omega

/-- **The siblings of a leaf lead to the root.** -/
theorem fold_siblings (hcomm : ∀ a b, h a b = h b a) (fuel : ℕ) : ∀ {level : List α} {i : ℕ},
    i < level.length → level.length ≤ fuel + 1 →
      (siblings z (levels h z fuel level).dropLast i).foldl h (level.getD i z) =
        root z (levels h z fuel level) := by
  have hsingle : ∀ {level : List α} {i : ℕ}, i < level.length → level.length ≤ 1 →
      level.getD i z = root z [level] := by
    intro level i hi hone
    match level with
    | [node] =>
        have hzero : i = 0 := by simpa using hi
        rw [hzero]
        rfl
    | [] => simp at hi
    | _ :: _ :: _ => simp at hone
  induction fuel with
  | zero =>
      intro level i hi hone
      exact hsingle hi hone
  | succ fuel ih =>
      intro level i hi hfuel
      rw [levels]
      split
      · next hlong =>
        have hnext : i / 2 < (nextLevel h z level).length := by
          rw [length_nextLevel]
          omega
        have hshort : (nextLevel h z level).length ≤ fuel + 1 := by
          rw [length_nextLevel]
          omega
        have hne := levels_ne_nil h z fuel (nextLevel h z level)
        have hroot : root z (level :: levels h z fuel (nextLevel h z level)) =
            root z (levels h z fuel (nextLevel h z level)) := by
          rw [root, root, List.getLast?_cons_of_ne_nil hne]
        rw [List.dropLast_cons_of_ne_nil hne, siblings, List.foldl_cons, ← getD_nextLevel hcomm hi, hroot]
        exact ih hnext hshort
      · next hshort => exact hsingle hi (Nat.le_of_not_lt hshort)

/-! ### Made up proofs -/

variable (h z)

/-- The pairs that are hashed to make a tree. -/
def treePairs : ℕ → List α → List (α × α)
  | 0, _ => []
  | fuel + 1, level =>
      if 1 < level.length then pairs z level ++ treePairs fuel (nextLevel h z level) else []

/-- The pairs that are hashed on the way up from a node. -/
def foldPairs : α → List α → List (α × α)
  | _, [] => []
  | node, sibling :: proof => (node, sibling) :: foldPairs (h node sibling) proof

/-- What stands in a tree over the leaves: a leaf, a filled up place, or the hash of a pair. -/
inductive Node (leaves : List α) (hashed : List (α × α)) : α → Prop
  | leaf {node : α} (hleaf : node ∈ leaves) : Node leaves hashed node
  | fill : Node leaves hashed z
  | pair {a b : α} (hpair : (a, b) ∈ hashed) (ha : Node leaves hashed a) (hb : Node leaves hashed b) :
      Node leaves hashed (h a b)

variable {h z} {leaves : List α} {hashed : List (α × α)}

theorem Node.getD {level : List α} (hlevel : ∀ node ∈ level, Node h z leaves hashed node) (i : ℕ) :
    Node h z leaves hashed (level.getD i z) := by
  by_cases hi : i < level.length
  · rw [List.getD_eq_getElem _ _ hi]
    exact hlevel _ (List.getElem_mem hi)
  · rw [List.getD_eq_default _ _ (Nat.le_of_not_lt hi)]
    exact .fill

theorem Node.nextLevel {level : List α} (hlevel : ∀ node ∈ level, Node h z leaves hashed node)
    (hpairs : ∀ p ∈ pairs z level, p ∈ hashed) :
    ∀ node ∈ nextLevel h z level, Node h z leaves hashed node := by
  intro node hnode
  rw [nextLevel_eq] at hnode
  obtain ⟨p, hp, rfl⟩ := List.mem_map.mp hnode
  have hhashed := hpairs p hp
  obtain ⟨i, -, rfl⟩ := List.mem_map.mp hp
  exact .pair hhashed (Node.getD hlevel _) (Node.getD hlevel _)

theorem node_root (fuel : ℕ) : ∀ {level : List α}, (∀ node ∈ level, Node h z leaves hashed node) →
    (∀ p ∈ treePairs h z fuel level, p ∈ hashed) → Node h z leaves hashed (root z (levels h z fuel level)) := by
  have hsingle : ∀ {level : List α}, (∀ node ∈ level, Node h z leaves hashed node) →
      Node h z leaves hashed (root z [level]) := by
    intro level hlevel
    match level with
    | [] => exact .fill
    | node :: rest => exact hlevel node (List.mem_cons_self ..)
  induction fuel with
  | zero =>
      intro level hlevel _
      exact hsingle hlevel
  | succ fuel ih =>
      intro level hlevel hpairs
      rw [levels]
      split
      · next hlong =>
        rw [treePairs, if_pos hlong] at hpairs
        have hne := levels_ne_nil h z fuel (Merkle.nextLevel h z level)
        have hroot : root z (level :: levels h z fuel (Merkle.nextLevel h z level)) =
            root z (levels h z fuel (Merkle.nextLevel h z level)) := by
          rw [root, root, List.getLast?_cons_of_ne_nil hne]
        rw [hroot]
        exact ih (Node.nextLevel hlevel fun p hp => hpairs p (List.mem_append_left _ hp))
          fun p hp => hpairs p (List.mem_append_right _ hp)
      · exact hsingle hlevel

theorem foldPairs_concat (node : α) (proof : List α) (sibling : α) :
    foldPairs h node (proof ++ [sibling]) =
      foldPairs h node proof ++ [(proof.foldl h node, sibling)] := by
  induction proof generalizing node with
  | nil => rfl
  | cons first proof ih =>
      show (node, first) :: foldPairs h (h node first) (proof ++ [sibling]) = _
      rw [ih]
      rfl

/-- The pairs that are hashed do not collide, neither with each other nor with a leaf, and no hash
is `z`. -/
structure Binding (h : α → α → α) (z : α) (leaves : List α) (hashed : List (α × α)) : Prop where
  injective : ∀ {a b c d : α}, (a, b) ∈ hashed → (c, d) ∈ hashed → h a b = h c d →
    a = c ∧ b = d ∨ a = d ∧ b = c
  ne_fill : ∀ {a b : α}, (a, b) ∈ hashed → h a b ≠ z
  ne_leaf : ∀ {a b leaf : α}, (a, b) ∈ hashed → leaf ∈ leaves → h a b ≠ leaf

/-- A node that is no hash itself reaches nodes of the tree from the leaves only. -/
theorem Binding.mem_of_node (hbinding : Binding h z leaves hashed) {node : α} (hfill : node ≠ z)
    (hnode : ∀ {a b : α}, (a, b) ∈ hashed → h a b ≠ node) (proof : List α) :
    (∀ p ∈ foldPairs h node proof, p ∈ hashed) → Node h z leaves hashed (proof.foldl h node) →
      node ∈ leaves := by
  induction proof using List.reverseRecOn with
  | nil =>
      intro _ hreached
      generalize hx : [].foldl h node = x at hreached
      cases hreached with
      | leaf hleaf => rwa [← hx] at hleaf
      | fill => exact absurd hx hfill
      | pair hpair => exact absurd hx.symm (hnode hpair)
  | append_singleton proof sibling ih =>
      intro hpairs hreached
      rw [foldPairs_concat] at hpairs
      have hlast := hpairs _ (List.mem_append_right _ (List.mem_singleton_self _))
      have hbefore := ih fun p hp => hpairs p (List.mem_append_left _ hp)
      rw [List.foldl_append] at hreached
      change Node h z leaves hashed (h (proof.foldl h node) sibling) at hreached
      generalize hx : h (proof.foldl h node) sibling = x at hreached
      cases hreached with
      | leaf hleaf => exact absurd hx (hbinding.ne_leaf hlast hleaf)
      | fill => exact absurd hx (hbinding.ne_fill hlast)
      | pair hpair ha hb =>
          rcases hbinding.injective hlast hpair hx with ⟨heq, -⟩ | ⟨heq, -⟩
          · rw [heq] at hbefore
            exact hbefore ha
          · rw [heq] at hbefore
            exact hbefore hb

/-- **Only a leaf leads to the root.** -/
theorem Binding.mem_of_fold (hbinding : Binding h z leaves hashed) {node : α} {proof : List α} {fuel : ℕ}
    (hfill : node ≠ z) (hnode : ∀ {a b : α}, (a, b) ∈ hashed → h a b ≠ node)
    (htree : ∀ p ∈ treePairs h z fuel leaves, p ∈ hashed)
    (hproof : ∀ p ∈ foldPairs h node proof, p ∈ hashed)
    (hroot : proof.foldl h node = root z (levels h z fuel leaves)) : node ∈ leaves := by
  refine hbinding.mem_of_node hfill hnode proof hproof ?_
  rw [hroot]
  exact node_root fuel (fun _ hleaf => .leaf hleaf) htree

end Safenet.Merkle
