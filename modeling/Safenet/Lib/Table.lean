/-
Tables with a primary key.

A database table, or an ordered map, is a finite list of rows in strictly
increasing key order.  The order is a field of the structure, so a table with a
duplicate key cannot be built and two tables with the same lookups are the same
table (`Table.ext`).

The operations are the statements the stores issue: an upsert (`insert`), a
`DELETE ... WHERE` (`filter`), an `UPDATE` of the rows in place (`update`), and the
rows with the smallest and the largest key (`first?`, `last?`).  Every lemma speaks
about `lookup`, the only view later proofs take.
-/
import Mathlib.Data.Finset.Card
import Mathlib.Data.List.Pairwise
import Mathlib.Order.Basic
import Mathlib.Tactic.Tauto

universe u v

/-- A finite map kept as rows in strictly increasing key order. -/
structure Table (κ : Type u) (α : Type v) [LinearOrder κ] where
  rows : List (κ × α)
  sorted : rows.Pairwise fun a b => a.1 < b.1
deriving DecidableEq

namespace Table

variable {κ : Type u} {α : Type v} [LinearOrder κ]

/-- The table without rows. -/
def empty : Table κ α := ⟨[], List.Pairwise.nil⟩

/-- The value in the row with key `k`. -/
def lookup (t : Table κ α) (k : κ) : Option α := (t.rows.find? fun r => r.1 = k).map Prod.snd

/-! ### Operations -/

/-- One pass over the rows that writes `v` at `k`, replacing the row already there. -/
def insertRows (k : κ) (v : α) : List (κ × α) → List (κ × α)
  | [] => [(k, v)]
  | r :: rest =>
      if k < r.1 then (k, v) :: r :: rest
      else if k = r.1 then (k, v) :: rest
      else r :: insertRows k v rest

private theorem mem_insertRows {k : κ} {v : α} {r : κ × α} {rows : List (κ × α)} :
    r ∈ insertRows k v rows → r = (k, v) ∨ r ∈ rows := by
  induction rows with
  | nil => simp [insertRows]
  | cons x rest ih =>
      simp only [insertRows]
      split
      · simp
      · split
        · simp only [List.mem_cons]; tauto
        · simp only [List.mem_cons]; tauto

private theorem insertRows_sorted (k : κ) (v : α) {rows : List (κ × α)}
    (h : rows.Pairwise fun a b => a.1 < b.1) :
    (insertRows k v rows).Pairwise fun a b => a.1 < b.1 := by
  induction rows with
  | nil => simp [insertRows]
  | cons x rest ih =>
      obtain ⟨hx, hrest⟩ := List.pairwise_cons.mp h
      simp only [insertRows]
      split
      · rename_i hk
        refine List.pairwise_cons.mpr ⟨fun r hr => ?_, h⟩
        rcases List.mem_cons.mp hr with rfl | hr
        · exact hk
        · exact hk.trans (hx r hr)
      · rename_i hk
        split
        · rename_i he
          exact List.pairwise_cons.mpr ⟨fun r hr => he ▸ hx r hr, hrest⟩
        · rename_i he
          refine List.pairwise_cons.mpr ⟨fun r hr => ?_, ih hrest⟩
          rcases mem_insertRows hr with rfl | hr
          · exact lt_of_le_of_ne (not_lt.mp hk) (Ne.symm he)
          · exact hx r hr

/-- Writes `v` at `k`, replacing the row already there. -/
def insert (t : Table κ α) (k : κ) (v : α) : Table κ α :=
  ⟨insertRows k v t.rows, insertRows_sorted k v t.sorted⟩

/-- Keeps the rows that satisfy `p`. -/
def filter (t : Table κ α) (p : κ → α → Bool) : Table κ α :=
  ⟨t.rows.filter fun r => p r.1 r.2, t.sorted.filter _⟩

/-- Rewrites every row in place. -/
def update (t : Table κ α) (f : κ → α → α) : Table κ α :=
  ⟨t.rows.map fun r => (r.1, f r.1 r.2), by
    rw [List.pairwise_map]; exact t.sorted⟩

/-- Rewrites or removes every row. -/
def filterMap (t : Table κ α) (f : κ → α → Option α) : Table κ α :=
  ⟨t.rows.filterMap fun r => (f r.1 r.2).map fun v => (r.1, v), by
    refine List.Pairwise.filterMap _ (fun a b hlt a' ha b' hb => ?_) t.sorted
    obtain ⟨v, -, rfl⟩ := Option.map_eq_some_iff.mp ha
    obtain ⟨w, -, rfl⟩ := Option.map_eq_some_iff.mp hb
    exact hlt⟩

/-- Removes the row with key `k`. -/
def erase (t : Table κ α) (k : κ) : Table κ α := t.filter fun k' _ => k' ≠ k

/-- Removes the rows with these keys. -/
def eraseAll (t : Table κ α) (ks : List κ) : Table κ α := ks.foldl erase t

/-- The keys of a table. -/
def keys (t : Table κ α) : Finset κ := (t.rows.map Prod.fst).toFinset

/-- The row with the smallest key. -/
def first? (t : Table κ α) : Option (κ × α) := t.rows.head?

/-- The row with the largest key. -/
def last? (t : Table κ α) : Option (κ × α) := t.rows.getLast?

/-! ### Lookups -/

theorem lookup_eq_some {t : Table κ α} {k : κ} {v : α} :
    t.lookup k = some v ↔ (k, v) ∈ t.rows := by
  obtain ⟨rows, hs⟩ := t
  simp only [lookup]
  induction rows with
  | nil => simp
  | cons x rest ih =>
      obtain ⟨hx, hrest⟩ := List.pairwise_cons.mp hs
      by_cases hk : x.1 = k
      · subst hk
        have hnot : (x.1, v) ∉ rest := fun hm => lt_irrefl x.1 (hx (x.1, v) hm)
        simp only [List.find?_cons, decide_true, Option.map_some, Option.some.injEq,
          List.mem_cons, hnot, or_false]
        constructor
        · rintro rfl; rfl
        · intro h; rw [← h]
      · have hne : (k, v) ≠ x := fun h => hk (by rw [← h])
        simp only [List.find?_cons, hk, decide_false, List.mem_cons, hne, false_or]
        exact ih hrest

theorem lookup_eq_none {t : Table κ α} {k : κ} :
    t.lookup k = none ↔ ∀ v, (k, v) ∉ t.rows := by
  constructor
  · intro h v hv
    rw [lookup_eq_some.mpr hv] at h
    cases h
  · intro h
    rcases hl : t.lookup k with _ | v
    · rfl
    · exact absurd (lookup_eq_some.mp hl) (h v)

/-- A row stands behind the ones with smaller keys. -/
theorem rows_getElem? {t : Table κ α} {k : κ} {v : α} (h : t.lookup k = some v) :
    t.rows[(t.rows.filter fun row => row.1 < k).length]? = some (k, v) := by
  obtain ⟨before, after, hsplit⟩ := List.append_of_mem (lookup_eq_some.mp h)
  have hsorted := t.sorted
  rw [hsplit, List.pairwise_append, List.pairwise_cons] at hsorted
  obtain ⟨-, ⟨hafter, -⟩, hbefore⟩ := hsorted
  have hsmaller : t.rows.filter (fun row => row.1 < k) = before := by
    rw [hsplit, List.filter_append, List.filter_cons_of_neg (by simp)]
    have hall : before.filter (fun row => row.1 < k) = before :=
      List.filter_eq_self.mpr fun row hrow =>
        decide_eq_true (hbefore row hrow (k, v) List.mem_cons_self)
    have hnone : after.filter (fun row => row.1 < k) = [] :=
      List.filter_eq_nil_iff.mpr fun row hrow => by simpa using (hafter row hrow).le
    rw [hall, hnone, List.append_nil]
  rw [hsmaller, hsplit, List.getElem?_append_right le_rfl, Nat.sub_self]
  rfl

@[simp] theorem lookup_empty (k : κ) : (empty : Table κ α).lookup k = none := rfl

/-- **Two tables with the same lookups are the same table.** -/
theorem ext_lookup {t t' : Table κ α} (h : ∀ k, t.lookup k = t'.lookup k) : t = t' := by
  have hmem : ∀ r, r ∈ t.rows ↔ r ∈ t'.rows := by
    rintro ⟨k, v⟩
    rw [← lookup_eq_some, ← lookup_eq_some, h]
  have hnodup : ∀ t : Table κ α, t.rows.Nodup := fun t =>
    List.Pairwise.imp (fun {a b} (hab : a.1 < b.1) he => hab.ne (congrArg Prod.fst he)) t.sorted
  have hperm : t.rows.Perm t'.rows :=
    (List.perm_ext_iff_of_nodup (hnodup t) (hnodup t')).mpr hmem
  have hrows : t.rows = t'.rows :=
    hperm.eq_of_pairwise (fun a b _ _ hab hba => absurd hba (lt_asymm hab)) t.sorted t'.sorted
  cases t; cases t'; cases hrows; rfl

private theorem mem_insertRows_iff {k : κ} {v : α} {rows : List (κ × α)}
    (h : rows.Pairwise fun a b => a.1 < b.1) {r : κ × α} :
    r ∈ insertRows k v rows ↔ r = (k, v) ∨ r ∈ rows ∧ r.1 ≠ k := by
  induction rows with
  | nil => simp [insertRows]
  | cons x rest ih =>
      obtain ⟨hx, hrest⟩ := List.pairwise_cons.mp h
      simp only [insertRows]
      split
      · rename_i hk
        have hne : ∀ y ∈ x :: rest, y.1 ≠ k := by
          intro y hy
          rcases List.mem_cons.mp hy with rfl | hy
          · exact hk.ne'
          · exact (hk.trans (hx y hy)).ne'
        rw [List.mem_cons]
        constructor
        · rintro (rfl | hr)
          · exact Or.inl rfl
          · exact Or.inr ⟨hr, hne r hr⟩
        · rintro (rfl | ⟨hr, -⟩)
          · exact Or.inl rfl
          · exact Or.inr hr
      · split
        · rename_i he
          have hne : ∀ y ∈ rest, y.1 ≠ k := fun y hy => he ▸ (hx y hy).ne'
          simp only [List.mem_cons]
          constructor
          · rintro (rfl | hr)
            · exact Or.inl rfl
            · exact Or.inr ⟨Or.inr hr, hne r hr⟩
          · rintro (rfl | ⟨rfl | hr, hk⟩)
            · exact Or.inl rfl
            · exact absurd he.symm hk
            · exact Or.inr hr
        · rename_i he
          simp only [List.mem_cons, ih hrest]
          constructor
          · rintro (rfl | rfl | ⟨hr, hk⟩)
            · exact Or.inr ⟨Or.inl rfl, Ne.symm he⟩
            · exact Or.inl rfl
            · exact Or.inr ⟨Or.inr hr, hk⟩
          · rintro (rfl | ⟨rfl | hr, hk⟩)
            · exact Or.inr (Or.inl rfl)
            · exact Or.inl rfl
            · exact Or.inr (Or.inr ⟨hr, hk⟩)

theorem lookup_insert (t : Table κ α) (k k' : κ) (v : α) :
    (t.insert k v).lookup k' = if k' = k then some v else t.lookup k' := by
  refine Option.ext fun w => ?_
  rw [lookup_eq_some, insert, mem_insertRows_iff t.sorted]
  by_cases hk : k' = k
  · subst hk
    simp [eq_comm]
  · simp [hk, lookup_eq_some]

@[simp] theorem lookup_insert_self (t : Table κ α) (k : κ) (v : α) :
    (t.insert k v).lookup k = some v := by
  rw [lookup_insert, if_pos rfl]

theorem lookup_filter (t : Table κ α) (p : κ → α → Bool) (k : κ) :
    (t.filter p).lookup k = (t.lookup k).filter (p k) := by
  refine Option.ext fun w => ?_
  rw [lookup_eq_some, Option.filter_eq_some_iff, lookup_eq_some]
  simp [filter]

theorem lookup_filter_eq_some {t : Table κ α} {p : κ → α → Bool} {k : κ} {v : α} :
    (t.filter p).lookup k = some v ↔ t.lookup k = some v ∧ p k v = true := by
  rw [lookup_filter, Option.filter_eq_some_iff]

theorem lookup_update (t : Table κ α) (f : κ → α → α) (k : κ) :
    (t.update f).lookup k = (t.lookup k).map (f k) := by
  refine Option.ext fun w => ?_
  rw [lookup_eq_some, Option.map_eq_some_iff]
  simp only [update, List.mem_map, Prod.mk.injEq, lookup_eq_some]
  constructor
  · rintro ⟨⟨k', v⟩, hr, rfl, rfl⟩
    exact ⟨v, hr, rfl⟩
  · rintro ⟨v, hr, rfl⟩
    exact ⟨(k, v), hr, rfl, rfl⟩

theorem lookup_erase (t : Table κ α) (k k' : κ) :
    (t.erase k).lookup k' = if k' = k then none else t.lookup k' := by
  rw [erase, lookup_filter]
  by_cases hk : k' = k
  · subst hk
    rw [if_pos rfl]
    cases t.lookup k' <;> simp
  · rw [if_neg hk]
    cases t.lookup k' <;> simp [hk]

theorem lookup_filterMap (t : Table κ α) (f : κ → α → Option α) (k : κ) :
    (t.filterMap f).lookup k = (t.lookup k).bind (f k) := by
  refine Option.ext fun w => ?_
  rw [lookup_eq_some, Option.bind_eq_some_iff]
  simp only [filterMap, List.mem_filterMap, Option.map_eq_some_iff, Prod.mk.injEq, lookup_eq_some]
  constructor
  · rintro ⟨⟨k', v⟩, hr, w', hf, rfl, rfl⟩
    exact ⟨v, hr, hf⟩
  · rintro ⟨v, hr, hf⟩
    exact ⟨(k, v), hr, w, hf, rfl, rfl⟩

/-- What the rows contribute if only the one with key `k` contributes anything. -/
theorem flatMap_rows {β : Type*} {t : Table κ α} {k : κ} {f : κ × α → List β}
    (h : ∀ row ∈ t.rows, row.1 ≠ k → f row = []) :
    t.rows.flatMap f = (t.lookup k).elim [] fun v => f (k, v) := by
  have hsilent : ∀ rows : List (κ × α), (∀ row ∈ rows, row ∈ t.rows ∧ row.1 ≠ k) →
      rows.flatMap f = [] := fun rows hrows =>
    List.flatMap_eq_nil_iff.mpr fun row hrow => h row (hrows row hrow).1 (hrows row hrow).2
  cases hlookup : t.lookup k with
  | none =>
      refine hsilent _ fun row hrow => ⟨hrow, ?_⟩
      rintro rfl
      exact lookup_eq_none.mp hlookup row.2 hrow
  | some v =>
      obtain ⟨before, after, hsplit⟩ := List.append_of_mem (lookup_eq_some.mp hlookup)
      have hsorted := t.sorted
      rw [hsplit, List.pairwise_append, List.pairwise_cons] at hsorted
      obtain ⟨-, ⟨hafter, -⟩, hbefore⟩ := hsorted
      have hempty : before.flatMap f = [] ∧ after.flatMap f = [] := by
        constructor
        · refine hsilent _ fun row hrow => ⟨by simp [hsplit, hrow], ?_⟩
          exact (hbefore row hrow (k, v) List.mem_cons_self).ne
        · exact hsilent _ fun row hrow => ⟨by simp [hsplit, hrow], (hafter row hrow).ne'⟩
      rw [hsplit, List.flatMap_append, List.flatMap_cons, hempty.1, hempty.2]
      simp

theorem lookup_eraseAll (ks : List κ) (k : κ) : ∀ t : Table κ α,
    (t.eraseAll ks).lookup k = if k ∈ ks then none else t.lookup k := by
  induction ks with
  | nil => intro t; simp [eraseAll]
  | cons k' ks ih =>
      intro t
      have h := ih (t.erase k')
      rw [eraseAll, List.foldl_cons]
      rw [eraseAll] at h
      rw [h, lookup_erase]
      by_cases hk : k ∈ ks
      · simp [hk]
      · by_cases hkk : k = k'
        · simp [hkk]
        · simp [hk, hkk]

/-! ### The keys -/

theorem mem_keys {t : Table κ α} {k : κ} : k ∈ t.keys ↔ ∃ v, t.lookup k = some v := by
  simp only [keys, List.mem_toFinset, List.mem_map, lookup_eq_some]
  constructor
  · rintro ⟨⟨k', v⟩, hr, rfl⟩
    exact ⟨v, hr⟩
  · rintro ⟨v, hr⟩
    exact ⟨(k, v), hr, rfl⟩

theorem card_keys (t : Table κ α) : t.keys.card = t.rows.length := by
  rw [keys, List.toFinset_card_of_nodup, List.length_map]
  rw [List.Nodup, List.pairwise_map]
  exact t.sorted.imp fun h => ne_of_lt h

theorem keys_insert (t : Table κ α) (k : κ) (v : α) : (t.insert k v).keys = Insert.insert k t.keys := by
  ext k'
  rw [mem_keys, Finset.mem_insert, mem_keys]
  by_cases hk : k' = k
  · simp [hk]
  · simp [lookup_insert, hk]

theorem keys_erase (t : Table κ α) (k : κ) : (t.erase k).keys = t.keys.erase k := by
  ext k'
  rw [mem_keys, Finset.mem_erase, mem_keys]
  by_cases hk : k' = k
  · simp [lookup_erase, hk]
  · simp [lookup_erase, hk]

/-! ### Writing many rows -/

section Rows

variable {ι : Type v} (key : ι → κ) (value : ι → α)

/-- Rows for other keys do not change a value. -/
theorem lookup_foldl_of_ne {k : κ} (rows : List ι) : ∀ t : Table κ α, (∀ row ∈ rows, key row ≠ k) →
    (rows.foldl (fun t row => t.insert (key row) (value row)) t).lookup k = t.lookup k := by
  induction rows with
  | nil => intro t _; rfl
  | cons row rows ih =>
      intro t hne
      rw [List.foldl_cons, ih _ fun r hr => hne r (List.mem_cons_of_mem _ hr), lookup_insert,
        if_neg (Ne.symm (hne row List.mem_cons_self))]

theorem lookup_foldl_of_mem {row : ι} (rows : List ι) : ∀ t : Table κ α,
    rows.Pairwise (fun r r' => key r ≠ key r') → row ∈ rows →
      (rows.foldl (fun t row => t.insert (key row) (value row)) t).lookup (key row) =
        some (value row) := by
  induction rows with
  | nil => intro t _ h; cases h
  | cons r rows ih =>
      intro t hne hmem
      rw [List.pairwise_cons] at hne
      rw [List.foldl_cons]
      rcases List.mem_cons.mp hmem with rfl | hrest
      · rw [lookup_foldl_of_ne, lookup_insert_self]
        intro r hr heq
        exact hne.1 r hr heq.symm
      · exact ih _ hne.2 hrest

end Rows

/-! ### The ends of a table -/

theorem lookup_of_last? {t : Table κ α} {k : κ} {v : α} (h : t.last? = some (k, v)) :
    t.lookup k = some v :=
  lookup_eq_some.mpr (List.mem_of_getLast? h)

theorem last?_eq_none {t : Table κ α} : t.last? = none ↔ ∀ k, t.lookup k = none := by
  rw [last?, List.getLast?_eq_none_iff]
  constructor
  · intro h k
    rw [lookup_eq_none, h]
    simp
  · intro h
    refine List.eq_nil_iff_forall_not_mem.mpr fun r hr => ?_
    exact lookup_eq_none.mp (h r.1) r.2 hr

/-- The last row has the largest key. -/
theorem le_last? {t : Table κ α} {k k' : κ} {v v' : α} (h : t.last? = some (k, v))
    (h' : t.lookup k' = some v') : k' ≤ k := by
  obtain ⟨init, hinit⟩ := List.getLast?_eq_some_iff.mp h
  have hmem := lookup_eq_some.mp h'
  have hs := t.sorted
  rw [hinit] at hmem hs
  rcases List.mem_append.mp hmem with hm | hm
  · exact ((List.pairwise_append.mp hs).2.2 _ hm (k, v) (by simp)).le
  · simp only [List.mem_singleton, Prod.mk.injEq] at hm
    exact hm.1.le

end Table
