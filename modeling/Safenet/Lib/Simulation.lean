/-
A machine whose steps are each matched by several steps of another.

`Trace.simulation` compares two machines that read the same inputs.  Here one step of the first machine
stands for any number of steps of the second, and what is seen of it is what is seen of all of them.  It
is enough to match one step from related states (`Trace.matched`).
-/
import Safenet.Lib.Trace

namespace Trace

universe u v w u' v' w' x

variable {σ : Type u} {ι : Type v} {ο : Type w} {τ : Type u'} {κ : Type v'} {ρ : Type w'} {υ : Type x}
variable {step : σ → ι → σ × ο} {small : τ → κ → τ × ρ} {R : σ → τ → Prop} {E : Step σ ι ο → Prop}
variable {seen : Step σ ι ο → List υ} {seen' : Step τ κ ρ → List υ}

/-- Some steps of the second machine lead to a related state, and the same is seen of them. -/
def Matched (small : τ → κ → τ × ρ) (R : σ → τ → Prop) (seen' : Step τ κ ρ → List υ) (t : τ) (s' : σ)
    (observed : List υ) : Prop :=
  ∃ calls, R s' (final small t calls) ∧ (trace small t calls).flatMap seen' = observed

/-- No step at all. -/
theorem Matched.none {t : τ} {s' : σ} (h : R s' t) : Matched small R seen' t s' [] := ⟨[], h, rfl⟩

/-- One step. -/
theorem Matched.one {t : τ} {s' : σ} (call : κ) (h : R s' (small t call).1) :
    Matched small R seen' t s' (seen' (take small t call)) :=
  ⟨[call], h, List.append_nil _⟩

/-- A step, and then others. -/
theorem Matched.cons {t : τ} {s' : σ} {observed : List υ} (call : κ)
    (h : Matched small R seen' (small t call).1 s' observed) :
    Matched small R seen' t s' (seen' (take small t call) ++ observed) := by
  obtain ⟨calls, hR, hseen⟩ := h
  exact ⟨call :: calls, hR, by rw [trace_cons, List.flatMap_cons, hseen]⟩

/-- Some steps, and then others. -/
theorem Matched.append {t : τ} {s' : σ} {observed : List υ} (calls : List κ)
    (h : Matched small R seen' (final small t calls) s' observed) :
    Matched small R seen' t s' ((trace small t calls).flatMap seen' ++ observed) := by
  obtain ⟨calls', hR, hseen⟩ := h
  exact ⟨calls ++ calls', by rw [final_append]; exact hR,
    by rw [trace_append, List.flatMap_append, hseen]⟩

/-- The same steps, for a state that is related whenever the first one is. -/
theorem Matched.imp {σ' : Type*} {R' : σ' → τ → Prop} {t : τ} {s' : σ} {s'' : σ'} {observed : List υ}
    (h : Matched small R seen' t s' observed) (hR : ∀ t', R s' t' → R' s'' t') :
    Matched small R' seen' t s'' observed := by
  obtain ⟨calls, hrelated, hseen⟩ := h
  exact ⟨calls, hR _ hrelated, hseen⟩

/-- **If every step is matched, every run is.** -/
theorem matched
    (hstep : ∀ s t i, R s t → E (take step s i) →
      Matched small R seen' t (step s i).1 (seen (take step s i))) (is : List ι) :
    ∀ {s : σ} {t : τ}, R s t → (∀ st ∈ trace step s is, E st) →
      Matched small R seen' t (final step s is) ((trace step s is).flatMap seen) := by
  induction is with
  | nil => exact fun h _ => Matched.none h
  | cons i is ih =>
      intro s t h hpromise
      obtain ⟨calls, hnext, hseen⟩ := hstep s t i h (hpromise _ List.mem_cons_self)
      have hrest := ih hnext fun st hst => hpromise st (List.mem_cons_of_mem _ hst)
      rw [trace_cons, List.flatMap_cons, ← hseen]
      exact hrest.append calls

end Trace
