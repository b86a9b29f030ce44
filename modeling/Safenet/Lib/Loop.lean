/-
Loops that may not terminate, run with a bound on the rounds.

`iterate` is a `while` loop.  It answers nothing when the bound is too small.  What holds of
its answer is proved by an invariant (`iterate_invariant`), that there is one by a measure
that every round decreases (`iterate_terminates`).  `Yields` says of an iterator that it ends, and which
elements it gives until then.
-/
import Mathlib.Logic.Basic

universe u

namespace Loop

variable {σ : Type u} {condition : σ → Bool} {body : σ → σ}

/-- `while (condition) body`, for at most `fuel` rounds. -/
def iterate (condition : σ → Bool) (body : σ → σ) : Nat → σ → Option σ
  | 0, s => if condition s then none else some s
  | fuel + 1, s => if condition s then iterate condition body fuel (body s) else some s

/-- A loop that stops keeps its invariant and ends its condition. -/
theorem iterate_invariant {I : σ → Prop} (hstep : ∀ s, I s → condition s = true → I (body s))
    {fuel : Nat} {s s' : σ} (h : iterate condition body fuel s = some s') (hs : I s) :
    I s' ∧ condition s' = false := by
  induction fuel generalizing s with
  | zero =>
      unfold iterate at h
      by_cases hc : condition s = true
      · simp [hc] at h
      · rw [if_neg hc, Option.some.injEq] at h
        exact h ▸ ⟨hs, by simpa using hc⟩
  | succ fuel ih =>
      unfold iterate at h
      by_cases hc : condition s = true
      · rw [if_pos hc] at h
        exact ih h (hstep s hs hc)
      · rw [if_neg hc, Option.some.injEq] at h
        exact h ▸ ⟨hs, by simpa using hc⟩

/-- A loop whose rounds decrease a measure stops within as many rounds. -/
theorem iterate_terminates {I : Nat → σ → Prop}
    (hstep : ∀ n s, I n s → condition s = true → ∃ m < n, I m (body s))
    {fuel n : Nat} {s : σ} (hs : I n s) (hn : n ≤ fuel) :
    ∃ s', iterate condition body fuel s = some s' := by
  induction fuel generalizing n s with
  | zero =>
      by_cases hc : condition s = true
      · obtain ⟨m, hm, -⟩ := hstep n s hs hc
        omega
      · exact ⟨s, if_neg hc⟩
  | succ fuel ih =>
      by_cases hc : condition s = true
      · obtain ⟨m, hm, hI⟩ := hstep n s hs hc
        obtain ⟨s', hs'⟩ := ih hI (by omega)
        exact ⟨s', (if_pos hc).trans hs'⟩
      · exact ⟨s, if_neg hc⟩

/-! ### Iterators -/

variable {α : Type u} {next : σ → Option (α × σ)}

/-- The iterator gives these elements, and then ends. -/
inductive Yields (next : σ → Option (α × σ)) : σ → List α → Prop where
  | nil {s : σ} (h : next s = none) : Yields next s []
  | cons {s s' : σ} {a : α} {as : List α} (h : next s = some (a, s')) (hrest : Yields next s' as) :
      Yields next s (a :: as)

/-- It gives nothing else. -/
theorem Yields.unique {s : σ} {as bs : List α} (h : Yields next s as) (h' : Yields next s bs) : as = bs := by
  induction h generalizing bs with
  | nil hend =>
      cases h' with
      | nil _ => rfl
      | cons hnext _ =>
          rw [hend] at hnext
          cases hnext
  | cons hnext _ ih =>
      cases h' with
      | nil hend =>
          rw [hend] at hnext
          cases hnext
      | cons hnext' hrest' =>
          rw [hnext] at hnext'
          cases hnext'
          rw [ih hrest']

end Loop
