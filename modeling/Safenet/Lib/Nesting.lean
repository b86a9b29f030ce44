/-
Items that stand for other items.

An item may expand into a batch of items, in a context that says which of them may expand in turn.
`Tree.Describes` is the nesting of an item: a leaf does not expand, and the parts of a batch are those it
expands into.  `expandWithin` expands an item down to a depth.  It answers with the leaves of the tree, in
order, if this is not deeper (`expandWithin_eq_ok_iff`), and fails if there is a chain of batches, each of
them in the one before, that is too long (`expandWithin_eq_error_iff`).
-/
import Safenet.Lib.Fallible
import Mathlib.Data.List.Basic
import Mathlib.Order.Nat

universe u

namespace Nesting

open Fallible

/-- Items in nested batches. -/
inductive Tree (ι : Type u) where
  | leaf (item : ι)
  | batch (parts : List (Tree ι))

variable {ι κ ε : Type u}

namespace Tree

mutual

/-- The leaves from left to right. -/
def leaves : Tree ι → List ι
  | .leaf item => [item]
  | .batch parts => leavesAll parts

def leavesAll : List (Tree ι) → List ι
  | [] => []
  | tree :: trees => leaves tree ++ leavesAll trees

end

mutual

/-- How many batches are nested at most. -/
def depth : Tree ι → Nat
  | .leaf _ => 0
  | .batch parts => depthAll parts + 1

def depthAll : List (Tree ι) → Nat
  | [] => 0
  | tree :: trees => max (depth tree) (depthAll trees)

end

variable (expand : κ → ι → Option (List ι × κ))

mutual

/-- The tree is what the item expands into in the context. -/
def Describes : κ → ι → Tree ι → Prop
  | context, item, .leaf item' => item' = item ∧ expand context item = none
  | context, item, .batch parts =>
      ∃ items context', expand context item = some (items, context') ∧ DescribesAll context' items parts

def DescribesAll : κ → List ι → List (Tree ι) → Prop
  | _, [], [] => True
  | context, item :: items, tree :: trees => Describes context item tree ∧ DescribesAll context items trees
  | _, _, _ => False

end

end Tree

variable {expand : κ → ι → Option (List ι × κ)}

/-- The items are batches, each of them in the one before. -/
def Chain (expand : κ → ι → Option (List ι × κ)) : κ → List ι → Prop
  | _, [] => True
  | context, item :: rest =>
      ∃ items context', expand context item = some (items, context') ∧ (∀ next ∈ rest.head?, next ∈ items) ∧
        Chain expand context' rest

/-- Expands an item, if it is not nested too deep. -/
def expandWithin (expand : κ → ι → Option (List ι × κ)) (tooDeep : ε) (depth : Nat) (context : κ) (item : ι) :
    Except ε (List ι) :=
  match expand context item with
  | none => .ok [item]
  | some (items, context') =>
      match depth with
      | 0 => .error tooDeep
      | depth + 1 => do
          let parts ← items.mapM (expandWithin expand tooDeep depth context')
          return parts.flatten

variable {tooDeep e : ε} {n : Nat} {context : κ} {item : ι}

namespace Tree

theorem mem_leavesAll {trees : List (Tree ι)} : item ∈ leavesAll trees ↔ ∃ tree ∈ trees, item ∈ tree.leaves := by
  induction trees with
  | nil => simp [leavesAll]
  | cons tree trees ih => simp [leavesAll, ih]

theorem depth_le_depthAll {tree : Tree ι} {trees : List (Tree ι)} (h : tree ∈ trees) :
    tree.depth ≤ depthAll trees := by
  induction trees with
  | nil => cases h
  | cons first trees ih =>
      unfold depthAll
      rcases List.mem_cons.mp h with rfl | hrest
      · omega
      · have := ih hrest
        omega

/-- A part of a batch describes one of its items. -/
theorem DescribesAll.of_mem_parts {items : List ι} {trees : List (Tree ι)}
    (h : DescribesAll expand context items trees) {tree : Tree ι} (hmem : tree ∈ trees) :
    ∃ item ∈ items, Describes expand context item tree := by
  induction trees generalizing items with
  | nil => cases hmem
  | cons first trees ih =>
      cases items with
      | nil => exact h.elim
      | cons item items =>
          rcases List.mem_cons.mp hmem with rfl | hrest
          · exact ⟨item, List.mem_cons_self, h.1⟩
          · obtain ⟨other, hother, hdescribes⟩ := ih h.2 hrest
            exact ⟨other, List.mem_cons_of_mem _ hother, hdescribes⟩

/-- An item of a batch is described by one of its parts. -/
theorem DescribesAll.of_mem_items {items : List ι} {trees : List (Tree ι)}
    (h : DescribesAll expand context items trees) (hmem : item ∈ items) :
    ∃ tree ∈ trees, Describes expand context item tree := by
  induction trees generalizing items with
  | nil =>
      cases items with
      | nil => cases hmem
      | cons _ _ => exact h.elim
  | cons first trees ih =>
      cases items with
      | nil => cases hmem
      | cons other items =>
          rcases List.mem_cons.mp hmem with rfl | hrest
          · exact ⟨first, List.mem_cons_self, h.1⟩
          · obtain ⟨tree, htree, hdescribes⟩ := ih h.2 hrest
            exact ⟨tree, List.mem_cons_of_mem _ htree, hdescribes⟩

mutual

/-- **An item has one tree.** -/
theorem Describes.unique {context : κ} {item : ι} : ∀ {tree tree' : Tree ι},
    Describes expand context item tree → Describes expand context item tree' → tree = tree'
  | .leaf _, .leaf _, ⟨heq, _⟩, ⟨heq', _⟩ => by rw [heq, heq']
  | .leaf _, .batch _, ⟨_, hnone⟩, ⟨_, _, hsome, _⟩ => by
      rw [hnone] at hsome
      cases hsome
  | .batch _, .leaf _, ⟨_, _, hsome, _⟩, ⟨_, hnone⟩ => by
      rw [hnone] at hsome
      cases hsome
  | .batch _, .batch _, ⟨_, _, hsome, hparts⟩, ⟨_, _, hsome', hparts'⟩ => by
      rw [hsome] at hsome'
      cases hsome'
      rw [DescribesAll.unique hparts hparts']

theorem DescribesAll.unique {context : κ} : ∀ {items : List ι} {trees trees' : List (Tree ι)},
    DescribesAll expand context items trees → DescribesAll expand context items trees' → trees = trees'
  | [], [], [], _, _ => rfl
  | _ :: _, _ :: _, _ :: _, ⟨hfirst, hrest⟩, ⟨hfirst', hrest'⟩ => by
      rw [Describes.unique hfirst hfirst', DescribesAll.unique hrest hrest']

end

end Tree

/-! ### Expansion to a depth -/

section Within

variable {items : List ι} {context' : κ}

theorem expandWithin_none (h : expand context item = none) :
    expandWithin expand tooDeep n context item = .ok [item] := by
  unfold expandWithin
  rw [h]

theorem expandWithin_zero (h : expand context item = some (items, context')) :
    expandWithin expand tooDeep 0 context item = .error tooDeep := by
  unfold expandWithin
  rw [h]

theorem expandWithin_succ (h : expand context item = some (items, context')) :
    expandWithin expand tooDeep (n + 1) context item =
      (items.mapM (expandWithin expand tooDeep n context') >>= fun parts => pure parts.flatten) := by
  conv_lhs => unfold expandWithin
  rw [h]

/-- A tree that is not too deep is found. -/
theorem expandWithin_of_describes : ∀ {context : κ} {item : ι} {tree : Tree ι},
    tree.Describes expand context item → tree.depth ≤ n →
      expandWithin expand tooDeep n context item = .ok tree.leaves := by
  induction n with
  | zero =>
      intro context item tree h hdepth
      cases tree with
      | leaf item' =>
          obtain ⟨rfl, hnone⟩ := h
          exact expandWithin_none hnone
      | batch parts => exact absurd hdepth (Nat.not_succ_le_zero _)
  | succ n ih =>
      intro context item tree h hdepth
      cases tree with
      | leaf item' =>
          obtain ⟨rfl, hnone⟩ := h
          exact expandWithin_none hnone
      | batch parts =>
          obtain ⟨items, context', hexpand, hparts⟩ := h
          have hdepthAll : Tree.depthAll parts ≤ n := Nat.le_of_succ_le_succ hdepth
          have hall : ∃ results, items.mapM (expandWithin expand tooDeep n context') = .ok results ∧
              results.flatten = Tree.leavesAll parts := by
            clear hexpand hdepth
            induction parts generalizing items with
            | nil =>
                cases items with
                | nil => exact ⟨[], rfl, rfl⟩
                | cons _ _ => exact hparts.elim
            | cons tree trees ihtrees =>
                cases items with
                | nil => exact hparts.elim
                | cons item items =>
                    have hfirst : tree.depth ≤ n := (Nat.le_max_left _ _).trans hdepthAll
                    have hrest : Tree.depthAll trees ≤ n := (Nat.le_max_right _ _).trans hdepthAll
                    obtain ⟨results, hresults, hflatten⟩ := ihtrees items hparts.2 hrest
                    refine ⟨tree.leaves :: results, ?_, ?_⟩
                    · rw [List.mapM_cons, ih hparts.1 hfirst, hresults]
                      rfl
                    · rw [List.flatten_cons, hflatten]
                      rfl
          obtain ⟨results, hresults, hflatten⟩ := hall
          rw [expandWithin_succ hexpand, hresults]
          show Except.ok results.flatten = _
          rw [hflatten]
          rfl

/-- What is found are the leaves of a tree. -/
theorem describes_of_expandWithin : ∀ {context : κ} {item : ι} {leaves : List ι},
    expandWithin expand tooDeep n context item = .ok leaves →
      ∃ tree : Tree ι, tree.Describes expand context item ∧ tree.depth ≤ n ∧ leaves = tree.leaves := by
  induction n with
  | zero =>
      intro context item leaves h
      cases hexpand : expand context item with
      | none =>
          rw [expandWithin_none hexpand] at h
          cases h
          exact ⟨.leaf item, ⟨rfl, hexpand⟩, Nat.le_refl _, rfl⟩
      | some expanded =>
          rw [expandWithin_zero hexpand] at h
          cases h
  | succ n ih =>
      intro context item leaves h
      cases hexpand : expand context item with
      | none =>
          rw [expandWithin_none hexpand] at h
          cases h
          exact ⟨.leaf item, ⟨rfl, hexpand⟩, Nat.zero_le _, rfl⟩
      | some expanded =>
          obtain ⟨items, context'⟩ := expanded
          rw [expandWithin_succ hexpand] at h
          obtain ⟨results, hresults, hleaves⟩ := bind_eq_ok.mp h
          cases pure_eq_ok.mp hleaves
          have hall : ∃ parts : List (Tree ι), Tree.DescribesAll expand context' items parts ∧
              Tree.depthAll parts ≤ n ∧ results.flatten = Tree.leavesAll parts := by
            clear hexpand h hleaves
            induction items generalizing results with
            | nil =>
                cases hresults
                exact ⟨[], trivial, Nat.zero_le _, rfl⟩
            | cons item items ihitems =>
                rw [List.mapM_cons] at hresults
                obtain ⟨first, hfirst, hresults⟩ := bind_eq_ok.mp hresults
                obtain ⟨rest, hrest, hresults⟩ := bind_eq_ok.mp hresults
                cases pure_eq_ok.mp hresults
                obtain ⟨tree, hdescribes, hdepth, rfl⟩ := ih hfirst
                obtain ⟨trees, hdescribesAll, hdepthAll, hflatten⟩ := ihitems rest hrest
                refine ⟨tree :: trees, ⟨hdescribes, hdescribesAll⟩, Nat.max_le.mpr ⟨hdepth, hdepthAll⟩, ?_⟩
                rw [List.flatten_cons, hflatten]
                rfl
          obtain ⟨parts, hparts, hdepth, hflatten⟩ := hall
          exact ⟨.batch parts, ⟨items, context', hexpand, hparts⟩, Nat.succ_le_succ hdepth, hflatten⟩

/-- **An item expands to the leaves of its tree, if this is not too deep.** -/
theorem expandWithin_eq_ok_iff {leaves : List ι} :
    expandWithin expand tooDeep n context item = .ok leaves ↔
      ∃ tree : Tree ι, tree.Describes expand context item ∧ tree.depth ≤ n ∧ leaves = tree.leaves := by
  constructor
  · exact describes_of_expandWithin
  · rintro ⟨tree, hdescribes, hdepth, rfl⟩
    exact expandWithin_of_describes hdescribes hdepth

/-- What is too deep has a chain of batches. -/
theorem chain_of_error : ∀ {context : κ} {item : ι}, expandWithin expand tooDeep n context item = .error e →
    e = tooDeep ∧ ∃ rest, Chain expand context (item :: rest) ∧ rest.length = n := by
  induction n with
  | zero =>
      intro context item h
      cases hexpand : expand context item with
      | none =>
          rw [expandWithin_none hexpand] at h
          cases h
      | some expanded =>
          rw [expandWithin_zero hexpand] at h
          cases h
          exact ⟨rfl, [], ⟨expanded.1, expanded.2, hexpand, nofun, trivial⟩, rfl⟩
  | succ n ih =>
      intro context item h
      cases hexpand : expand context item with
      | none =>
          rw [expandWithin_none hexpand] at h
          cases h
      | some expanded =>
          obtain ⟨items, context'⟩ := expanded
          rw [expandWithin_succ hexpand] at h
          cases hresults : items.mapM (expandWithin expand tooDeep n context') with
          | ok results =>
              rw [hresults] at h
              cases h
          | error e' =>
              rw [hresults] at h
              cases h
              obtain ⟨next, hnext, herror⟩ := mapM_eq_error hresults
              obtain ⟨rfl, rest, hchain, hlength⟩ := ih herror
              refine ⟨rfl, next :: rest, ⟨items, context', hexpand, ?_, hchain⟩, congrArg (· + 1) hlength⟩
              intro other hother
              cases hother
              exact hnext

/-- A chain of batches is no longer than the tree is deep. -/
theorem length_le_depth {rest : List ι} : ∀ {context : κ} {item : ι} {tree : Tree ι},
    tree.Describes expand context item → Chain expand context (item :: rest) → rest.length < tree.depth := by
  induction rest with
  | nil =>
      intro context item tree h hchain
      obtain ⟨items, context', hexpand, -⟩ := hchain
      cases tree with
      | leaf item' =>
          rw [h.2] at hexpand
          cases hexpand
      | batch parts => exact Nat.succ_pos _
  | cons next rest ih =>
      intro context item tree h hchain
      obtain ⟨items, context', hexpand, hnext, hrest⟩ := hchain
      cases tree with
      | leaf item' =>
          rw [h.2] at hexpand
          cases hexpand
      | batch parts =>
          obtain ⟨items', context'', hexpand', hparts⟩ := h
          rw [hexpand] at hexpand'
          cases hexpand'
          obtain ⟨tree, htree, hdescribes⟩ := hparts.of_mem_items (hnext next rfl)
          have hlt := ih hdescribes hrest
          have hle := Tree.depth_le_depthAll htree
          show rest.length + 1 < Tree.depthAll parts + 1
          omega

/-- **The expansion fails if a chain of batches is too long.** -/
theorem expandWithin_eq_error_iff :
    expandWithin expand tooDeep n context item = .error e ↔
      e = tooDeep ∧ ∃ chain, Chain expand context chain ∧ chain.head? = some item ∧ n < chain.length := by
  constructor
  · intro h
    obtain ⟨rfl, rest, hchain, hlength⟩ := chain_of_error h
    exact ⟨rfl, item :: rest, hchain, rfl, by rw [List.length_cons, hlength]; exact Nat.lt_succ_self n⟩
  · rintro ⟨rfl, chain, hchain, hhead, hlength⟩
    cases hresult : expandWithin expand e n context item with
    | error e' => rw [(chain_of_error hresult).1]
    | ok leaves =>
        obtain ⟨tree, hdescribes, hdepth, -⟩ := describes_of_expandWithin hresult
        cases chain with
        | nil => cases hhead
        | cons first rest =>
            cases hhead
            have hlt := length_le_depth hdescribes hchain
            rw [List.length_cons] at hlength
            omega

/-- A leaf is the item itself, or an item of the last batch of a chain. -/
theorem mem_leaves_of_describes : ∀ {tree : Tree ι} {context : κ} {item leaf : ι} (bound : Nat),
    tree.depth ≤ bound → tree.Describes expand context item → leaf ∈ tree.leaves →
      (leaf = item ∧ expand context item = none) ∨
        ∃ chain last before items after, Chain expand context chain ∧ chain.head? = some item ∧
          chain.getLast? = some last ∧ expand before last = some (items, after) ∧ leaf ∈ items ∧
            expand after leaf = none := by
  intro tree context item leaf bound
  induction bound generalizing tree context item with
  | zero =>
      intro hdepth h hleaf
      cases tree with
      | leaf item' =>
          obtain ⟨rfl, hnone⟩ := h
          exact .inl ⟨List.mem_singleton.mp hleaf, hnone⟩
      | batch parts => exact absurd hdepth (Nat.not_succ_le_zero _)
  | succ bound ih =>
      intro hdepth h hleaf
      cases tree with
      | leaf item' =>
          obtain ⟨rfl, hnone⟩ := h
          exact .inl ⟨List.mem_singleton.mp hleaf, hnone⟩
      | batch parts =>
          obtain ⟨items, context', hexpand, hparts⟩ := h
          obtain ⟨tree, htree, hleaf⟩ := Tree.mem_leavesAll.mp hleaf
          obtain ⟨next, hnext, hdescribes⟩ := hparts.of_mem_parts htree
          have hbound : tree.depth ≤ bound :=
            (Tree.depth_le_depthAll htree).trans (Nat.le_of_succ_le_succ hdepth)
          right
          rcases ih hbound hdescribes hleaf with ⟨rfl, hnone⟩ |
            ⟨chain, last, before, items', after, hchain, hhead, hlast, hexpand', hmem, hnone⟩
          · exact ⟨[item], item, context, items, context', ⟨items, context', hexpand, nofun, trivial⟩, rfl, rfl,
              hexpand, hnext, hnone⟩
          · refine ⟨item :: chain, last, before, items', after, ⟨items, context', hexpand, ?_, hchain⟩, rfl,
              ?_, hexpand', hmem, hnone⟩
            · intro other hother
              rw [hhead] at hother
              cases hother
              exact hnext
            · rw [List.getLast?_cons, hlast]
              rfl

end Within

end Nesting
