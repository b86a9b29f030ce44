/-
Runs that only ever go up.

A position that no step of a run lowers orders the steps of the run: what comes later is not below
what came before.  The steps that climb, and only these, reach ever new positions
(`climbs`), so there are at most as many of them as there are positions to reach.
-/
import Mathlib.Data.Finset.Card
import Mathlib.Order.Lattice.Nat
import Safenet.Lib.Trace

namespace Trace

universe u v w

variable {σ : Type u} {ι : Type v} {ο : Type w} {step : σ → ι → σ × ο} {P : Type*} [Preorder P]
  (position : σ → P)

/-- The run ends no lower than it starts. -/
theorem position_le_final (is : List ι) : ∀ {s : σ},
    (∀ x ∈ trace step s is, position x.pre ≤ position x.post) →
      position s ≤ position (final step s is) := by
  induction is with
  | nil => intro s _; exact le_rfl
  | cons i is ih =>
      intro s h
      refine le_trans (h _ List.mem_cons_self) ?_
      exact ih fun x hx => h x (List.mem_cons_of_mem _ hx)

/-- What comes later starts no lower than where a step has got. -/
theorem pairwise_position (is : List ι) : ∀ {s : σ},
    (∀ x ∈ trace step s is, position x.pre ≤ position x.post) →
      (trace step s is).Pairwise fun x y => position x.post ≤ position y.pre := by
  induction is with
  | nil => intro s _; exact .nil
  | cons i is ih =>
      intro s h
      have hrest : ∀ x ∈ trace step (step s i).1 is, position x.pre ≤ position x.post := fun x hx =>
        h x (List.mem_cons_of_mem _ hx)
      refine .cons (fun y hy => ?_) (ih hrest)
      obtain ⟨before, after, hrun⟩ := List.append_of_mem hy
      obtain ⟨js, ks, rfl, rfl, hstep, -⟩ := trace_split step is hrun
      rw [hstep]
      refine position_le_final position js fun x hx => hrest x ?_
      rw [hrun]
      exact List.mem_append_left _ hx

/-- **Steps that climb reach ever higher positions.** -/
theorem climbs {s : σ} {is : List ι} {steps : List (Step σ ι ο)}
    (hmono : ∀ x ∈ trace step s is, position x.pre ≤ position x.post)
    (hsteps : steps.Sublist (trace step s is))
    (hclimb : ∀ x ∈ steps, position x.pre < position x.post) :
    steps.Pairwise fun x y => position x.post < position y.post :=
  ((pairwise_position position is hmono).sublist hsteps).imp_of_mem fun _ hy hle =>
    lt_of_le_of_lt hle (hclimb _ hy)

end Trace

/-- A strictly ascending list of numbers has no more of them than there are. -/
theorem List.length_le_of_ascending {l : List Nat} {bound : Nat} (h : l.Pairwise (· < ·))
    (hle : ∀ n ∈ l, n ≤ bound) : l.length ≤ bound + 1 := by
  have hnodup : l.Nodup := h.imp fun hlt => ne_of_lt hlt
  rw [← List.toFinset_card_of_nodup hnodup, ← Finset.card_range (bound + 1)]
  refine Finset.card_le_card fun n hn => ?_
  exact Finset.mem_range.mpr (Nat.lt_succ_of_le (hle n (List.mem_toFinset.mp hn)))
