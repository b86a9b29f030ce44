/-
Tables with the same keys and related rows.

Two tables that are filled in step, one with the values of the other or with what these stand for, stay
related whatever is done by key.
-/
import Safenet.Lib.Table
import Mathlib.Data.Option.Basic

namespace Table

variable {κ α β : Type*} [LinearOrder κ]

/-- The tables have the same keys, with related values. -/
def Related (R : α → β → Prop) (t : Table κ α) (t' : Table κ β) : Prop :=
  ∀ k, Option.Rel R (t.lookup k) (t'.lookup k)

variable {R : α → β → Prop} {t : Table κ α} {t' : Table κ β}

theorem Related.lookup (h : Related R t t') {k : κ} {v : α} (hv : t.lookup k = some v) :
    ∃ v', t'.lookup k = some v' ∧ R v v' := by
  have hk := h k
  rw [hv] at hk
  cases hlookup : t'.lookup k with
  | none =>
      rw [hlookup] at hk
      cases hk
  | some v' =>
      rw [hlookup] at hk
      cases hk with
      | some hrelated => exact ⟨v', rfl, hrelated⟩

theorem Related.lookup_none (h : Related R t t') {k : κ} (hv : t.lookup k = none) :
    t'.lookup k = none := by
  have hk := h k
  rw [hv] at hk
  cases hlookup : t'.lookup k with
  | none => rfl
  | some v' =>
      rw [hlookup] at hk
      cases hk

theorem Related.mono {R' : α → β → Prop} (h : Related R t t') (hR : ∀ v v', R v v' → R' v v') :
    Related R' t t' := by
  intro k
  cases hv : t.lookup k with
  | none =>
      rw [h.lookup_none hv]
      exact .none
  | some v =>
      obtain ⟨v', hv', hrelated⟩ := h.lookup hv
      rw [hv']
      exact .some (hR v v' hrelated)

theorem Related.insert (h : Related R t t') (k : κ) {v : α} {v' : β} (hv : R v v') :
    Related R (t.insert k v) (t'.insert k v') := by
  intro k'
  rw [lookup_insert, lookup_insert]
  split
  · exact .some hv
  · exact h k'

/-- A filter that only looks at the keys. -/
theorem Related.filter (h : Related R t t') (p : κ → Bool) :
    Related R (t.filter fun k _ => p k) (t'.filter fun k _ => p k) := by
  intro k
  rw [lookup_filter, lookup_filter]
  cases hv : t.lookup k with
  | none =>
      rw [h.lookup_none hv]
      exact .none
  | some v =>
      obtain ⟨v', hv', hrelated⟩ := h.lookup hv
      rw [hv', Option.filter_some, Option.filter_some]
      split
      · exact .some hrelated
      · exact .none

theorem Related.last?_none (h : Related R t t') (hlast : t.last? = none) : t'.last? = none :=
  last?_eq_none.mpr fun k => h.lookup_none (last?_eq_none.mp hlast k)

/-- The last rows have the same key. -/
theorem Related.last? (h : Related R t t') {k : κ} {v : α} (hlast : t.last? = some (k, v)) :
    ∃ v', t'.last? = some (k, v') ∧ R v v' := by
  obtain ⟨v', hv', hrelated⟩ := h.lookup (lookup_of_last? hlast)
  cases hlast' : t'.last? with
  | none => simp [last?_eq_none.mp hlast' k] at hv'
  | some row =>
      obtain ⟨k', w⟩ := row
      have hw := lookup_of_last? hlast'
      have hkey : k = k' := by
        refine le_antisymm (le_last? hlast' hv') ?_
        cases hrow : t.lookup k' with
        | none => simp [h.lookup_none hrow] at hw
        | some u => exact le_last? hlast hrow
      subst hkey
      rw [hv'] at hw
      cases hw
      exact ⟨v', rfl, hrelated⟩

end Table
