/-
Tables of rows with a primary key.

The rows are kept in the order of their keys, which is the order a database serves them in.  That no
two rows have the same key is then part of the order.  `insert` refuses a key that is taken, and
`insertNext` gives the row the key after the largest one.
-/
import Mathlib.Data.List.Basic
import Mathlib.Data.List.Pairwise

universe u

/-- Rows in the order of their keys. -/
structure Relation (ρ : Type u) (key : ρ → Nat) where
  rows : List ρ
  sorted : rows.Pairwise fun r r' => key r < key r'

namespace Relation

variable {ρ : Type u} {key : ρ → Nat} {table table' : Relation ρ key} {row row' : ρ}

@[ext] theorem ext (h : table.rows = table'.rows) : table = table' := by
  cases table
  cases table'
  cases h
  rfl

instance [DecidableEq ρ] : DecidableEq (Relation ρ key) := fun table table' =>
  decidable_of_iff (table.rows = table'.rows) ⟨ext, fun h => h ▸ rfl⟩

def empty : Relation ρ key := ⟨[], .nil⟩

@[simp] theorem rows_empty : (empty : Relation ρ key).rows = [] := rfl

/-- A row is known by its key. -/
theorem eq_of_key (h : row ∈ table.rows) (h' : row' ∈ table.rows) (hkey : key row = key row') :
    row = row' := by
  obtain ⟨i, hi, rfl⟩ := List.getElem_of_mem h
  obtain ⟨j, hj, rfl⟩ := List.getElem_of_mem h'
  have hsorted := List.pairwise_iff_getElem.mp table.sorted
  rcases Nat.lt_trichotomy i j with hlt | rfl | hlt
  · have := hsorted i j hi hj hlt
    omega
  · rfl
  · have := hsorted j i hj hi hlt
    omega

/-- `SELECT MAX(key)`. -/
def maxKey (table : Relation ρ key) : Option Nat := table.rows.getLast?.map key

theorem key_le_maxKey (h : row ∈ table.rows) : ∃ k ∈ table.maxKey, key row ≤ k := by
  rcases List.eq_nil_or_concat table.rows with hnil | ⟨init, last, hconcat⟩
  · rw [hnil] at h
    cases h
  · rw [List.concat_eq_append] at hconcat
    refine ⟨key last, ?_, ?_⟩
    · rw [maxKey, hconcat, List.getLast?_concat]
      rfl
    · have hsorted := table.sorted
      rw [hconcat, List.pairwise_append] at hsorted
      rw [hconcat] at h
      rcases List.mem_append.mp h with hinit | hlast
      · exact Nat.le_of_lt (hsorted.2.2 row hinit last (List.mem_singleton_self _))
      · exact Nat.le_of_eq (congrArg key (List.mem_singleton.mp hlast))

theorem maxKey_mem {k : Nat} (h : k ∈ table.maxKey) : ∃ row ∈ table.rows, key row = k := by
  obtain ⟨row, hlast, rfl⟩ := Option.map_eq_some_iff.mp h
  exact ⟨row, List.mem_of_getLast? hlast, rfl⟩

/-- `SELECT COALESCE(MAX(key) + 1, start)`. -/
def nextKey (table : Relation ρ key) (start : Nat) : Nat := (table.maxKey.map (· + 1)).getD start

theorem key_lt_nextKey (h : row ∈ table.rows) (start : Nat) : key row < table.nextKey start := by
  obtain ⟨k, hk, hle⟩ := key_le_maxKey h
  rw [nextKey, Option.mem_def.mp hk]
  exact Nat.lt_succ_of_le hle

/-- Adds a row whose key is above all others. -/
def append (table : Relation ρ key) (row : ρ) (h : ∀ row' ∈ table.rows, key row' < key row) :
    Relation ρ key where
  rows := table.rows ++ [row]
  sorted := by
    rw [List.pairwise_append]
    refine ⟨table.sorted, List.pairwise_singleton _ _, fun row' hrow' other hother => ?_⟩
    rw [List.mem_singleton.mp hother]
    exact h row' hrow'

/-- `INSERT` without a key: the row gets the one after the largest. -/
def insertNext (table : Relation ρ key) (start : Nat) (row : Nat → ρ) (h : ∀ k, key (row k) = k) :
    Relation ρ key :=
  table.append (row (table.nextKey start)) fun row' hrow' => by
    rw [h]
    exact key_lt_nextKey hrow' start

@[simp] theorem rows_insertNext (start : Nat) (f : Nat → ρ) (h : ∀ k, key (f k) = k) :
    (table.insertNext start f h).rows = table.rows ++ [f (table.nextKey start)] := rfl

/-- `INSERT`, unless there is a row with the key. -/
def insert (table : Relation ρ key) (row : ρ) : Option (Relation ρ key) :=
  if table.rows.any (key · = key row) then none
  else some
    { rows := table.rows.filter (key · < key row) ++ row :: table.rows.filter (key row < key ·)
      sorted := by
        rw [List.pairwise_append, List.pairwise_cons]
        refine ⟨table.sorted.filter _, ⟨fun row' hrow' => ?_, table.sorted.filter _⟩,
          fun low hlow other hother => ?_⟩
        · simpa using (List.mem_filter.mp hrow').2
        · have hbelow : key low < key row := by simpa using (List.mem_filter.mp hlow).2
          rcases List.mem_cons.mp hother with rfl | hhigh
          · exact hbelow
          · have habove : key row < key other := by simpa using (List.mem_filter.mp hhigh).2
            exact Nat.lt_trans hbelow habove }

/-- A row above all others comes last. -/
theorem insert_above (h : ∀ row' ∈ table.rows, key row' < key row) :
    table.insert row = some (table.append row h) := by
  unfold insert
  rw [if_neg (by
    rw [List.any_eq_true]
    rintro ⟨row', hrow', heq⟩
    have := h row' hrow'
    have : key row' = key row := by simpa using heq
    omega)]
  congr 1
  apply ext
  show _ ++ row :: _ = table.rows ++ [row]
  rw [List.filter_eq_self.mpr fun row' hrow' => by simpa using h row' hrow',
    List.filter_eq_nil_iff.mpr fun row' hrow' => by
      have := h row' hrow'
      simp only [decide_eq_true_eq]
      omega]

/-- `UPDATE … WHERE`; the keys stay. -/
def updateWhere (table : Relation ρ key) (p : ρ → Bool) (f : ρ → ρ) (h : ∀ row, key (f row) = key row) :
    Relation ρ key where
  rows := table.rows.map fun row => if p row then f row else row
  sorted := by
    rw [List.pairwise_map]
    refine table.sorted.imp fun {row row'} hlt => ?_
    have hkey : ∀ row, key (if p row then f row else row) = key row := by
      intro row
      split
      · exact h row
      · rfl
    rw [hkey, hkey]
    exact hlt

@[simp] theorem rows_updateWhere (p : ρ → Bool) (f : ρ → ρ) (h : ∀ row, key (f row) = key row) :
    (table.updateWhere p f h).rows = table.rows.map fun row => if p row then f row else row := rfl

/-- `DELETE … WHERE`. -/
def deleteWhere (table : Relation ρ key) (p : ρ → Bool) : Relation ρ key where
  rows := table.rows.filter fun row => !p row
  sorted := table.sorted.filter _

@[simp] theorem rows_deleteWhere (p : ρ → Bool) :
    (table.deleteWhere p).rows = table.rows.filter fun row => !p row := rfl

end Relation
