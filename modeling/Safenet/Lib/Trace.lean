/-
Runs of a deterministic machine, together with their history.

A machine is a function `step : σ → ι → σ × ο`: it reads an input, answers with an
output and moves to a new state.  Whatever is nondeterministic about a system (who
calls next, what a remote node answers, when a crash happens) is an input, so a
run is nothing but a list of inputs.

Most safety properties speak about the past: "this happened only because that
happened before".  `trace` therefore keeps every step of the run, and
`history_invariant` is the one induction the rest of the development uses: a
relation between the history and the current state that holds at the start and
survives one more step holds after every run.  `split_invariant` reads it off at
any point in the middle of a run.
-/
import Mathlib.Data.List.Induction

namespace Trace

universe u v w u' w'

/-- One step of a run: the state before, the input, the answer, the state after. -/
structure Step (σ : Type u) (ι : Type v) (ο : Type w) where
  pre : σ
  input : ι
  out : ο
  post : σ

variable {σ : Type u} {ι : Type v} {ο : Type w} (step : σ → ι → σ × ο)

/-- The step the machine takes on input `i` in state `s`. -/
def take (s : σ) (i : ι) : Step σ ι ο := ⟨s, i, (step s i).2, (step s i).1⟩

@[simp] theorem take_pre (s : σ) (i : ι) : (take step s i).pre = s := rfl
@[simp] theorem take_input (s : σ) (i : ι) : (take step s i).input = i := rfl
@[simp] theorem take_out (s : σ) (i : ι) : (take step s i).out = (step s i).2 := rfl
@[simp] theorem take_post (s : σ) (i : ι) : (take step s i).post = (step s i).1 := rfl

/-- Every step of the run on the inputs, in order. -/
def trace : σ → List ι → List (Step σ ι ο)
  | _, [] => []
  | s, i :: is => take step s i :: trace (step s i).1 is

/-- The state the run ends in. -/
def final (s : σ) (is : List ι) : σ := is.foldl (fun s i => (step s i).1) s

@[simp] theorem trace_nil (s : σ) : trace step s [] = [] := rfl

@[simp] theorem trace_cons (s : σ) (i : ι) (is : List ι) :
    trace step s (i :: is) = take step s i :: trace step (step s i).1 is := rfl

@[simp] theorem final_nil (s : σ) : final step s [] = s := rfl

@[simp] theorem final_cons (s : σ) (i : ι) (is : List ι) :
    final step s (i :: is) = final step (step s i).1 is := rfl

theorem final_append (s : σ) (is js : List ι) :
    final step s (is ++ js) = final step (final step s is) js := by
  simp [final, List.foldl_append]

theorem trace_append (is : List ι) : ∀ (s : σ) (js : List ι),
    trace step s (is ++ js) = trace step s is ++ trace step (final step s is) js := by
  induction is with
  | nil => intro s js; rfl
  | cons i is ih => intro s js; simp [ih]

theorem trace_concat (s : σ) (is : List ι) (i : ι) :
    trace step s (is ++ [i]) = trace step s is ++ [take step (final step s is) i] := by
  rw [trace_append]; rfl

theorem final_concat (s : σ) (is : List ι) (i : ι) :
    final step s (is ++ [i]) = (step (final step s is) i).1 := by
  rw [final_append]; rfl

@[simp] theorem trace_length (is : List ι) : ∀ s : σ, (trace step s is).length = is.length := by
  induction is with
  | nil => intro s; rfl
  | cons i is ih => intro s; simp [ih]

/-- A point in the middle of a run splits the inputs the same way. -/
theorem trace_split (is : List ι) : ∀ {s : σ} {before after : List (Step σ ι ο)} {st : Step σ ι ο},
    trace step s is = before ++ st :: after →
      ∃ js ks, is = js ++ st.input :: ks ∧ before = trace step s js ∧
        st = take step (final step s js) st.input ∧ after = trace step st.post ks := by
  induction is with
  | nil => intro s before after st h; simp at h
  | cons i is ih =>
      intro s before after st h
      cases before with
      | nil =>
          simp only [trace_cons, List.nil_append, List.cons.injEq] at h
          obtain ⟨rfl, rfl⟩ := h
          exact ⟨[], is, by simp, rfl, by simp, by simp⟩
      | cons b before =>
          simp only [trace_cons, List.cons_append, List.cons.injEq] at h
          obtain ⟨rfl, h⟩ := h
          obtain ⟨js, ks, rfl, rfl, hst, rfl⟩ := ih h
          exact ⟨i :: js, ks, by simp, by simp, by simpa using hst, rfl⟩

variable {step}

/-- The inputs of the steps are the inputs of the run. -/
theorem input_mem {s : σ} {is : List ι} {st : Step σ ι ο} (h : st ∈ trace step s is) :
    st.input ∈ is := by
  obtain ⟨before, after, hrun⟩ := List.append_of_mem h
  obtain ⟨js, ks, rfl, -⟩ := trace_split step is hrun
  simp

/-- The steps are those of the machine. -/
theorem eq_take {s : σ} {is : List ι} {st : Step σ ι ο} (h : st ∈ trace step s is) :
    st = take step st.pre st.input := by
  obtain ⟨before, after, hrun⟩ := List.append_of_mem h
  obtain ⟨js, ks, -, -, hst, -⟩ := trace_split step is hrun
  have hpre : st.pre = final step s js := by rw [hst]; rfl
  rw [hpre]
  exact hst

/--
**A relation between history and state that one step preserves holds after every
run.**  `E` is what the environment promises about each step.
-/
theorem history_invariant {I : List (Step σ ι ο) → σ → Prop} {E : Step σ ι ο → Prop} {s₀ : σ}
    (hinit : I [] s₀)
    (hstep : ∀ h s i, I h s → E (take step s i) → I (h ++ [take step s i]) (step s i).1)
    (is : List ι) (hok : ∀ st ∈ trace step s₀ is, E st) :
    I (trace step s₀ is) (final step s₀ is) := by
  induction is using List.reverseRecOn with
  | nil => exact hinit
  | append_singleton is i ih =>
      rw [trace_concat] at hok ⊢
      rw [final_concat]
      refine hstep _ _ i (ih fun st hst => hok st (by simp [hst])) (hok _ (by simp))

/-- The invariant at any point in the middle of a run. -/
theorem split_invariant {I : List (Step σ ι ο) → σ → Prop} {E : Step σ ι ο → Prop} {s₀ : σ}
    (hinit : I [] s₀)
    (hstep : ∀ h s i, I h s → E (take step s i) → I (h ++ [take step s i]) (step s i).1)
    {is : List ι} (hok : ∀ st ∈ trace step s₀ is, E st)
    {before after : List (Step σ ι ο)} {st : Step σ ι ο}
    (h : trace step s₀ is = before ++ st :: after) :
    I before st.pre ∧ st = take step st.pre st.input := by
  obtain ⟨js, ks, rfl, rfl, hst, -⟩ := trace_split step is h
  have hpre : st.pre = final step s₀ js := by rw [hst]; rfl
  refine ⟨?_, by rw [hpre]; exact hst⟩
  rw [hpre]
  refine history_invariant hinit hstep js fun x hx => hok x ?_
  rw [h]
  exact List.mem_append_left _ hx

/-- A property of states alone that every step preserves holds after every run. -/
theorem final_invariant {P : σ → Prop} {s₀ : σ} (hinit : P s₀)
    (hstep : ∀ s i, P s → P (step s i).1) (is : List ι) : P (final step s₀ is) := by
  induction is using List.reverseRecOn with
  | nil => exact hinit
  | append_singleton is i ih =>
      rw [final_concat]
      exact hstep _ i ih

/-! ### Between two steps -/

/-- What holds after a run without steps of a kind, if all others keep it. -/
theorem kept {P : σ → Prop} {R : Step σ ι ο → Prop}
    (hstep : ∀ s i, P s → ¬R (take step s i) → P (step s i).1) (is : List ι) :
    ∀ {s : σ}, P s → (∀ x ∈ trace step s is, ¬R x) → P (final step s is) := by
  induction is with
  | nil => intro s hs _; exact hs
  | cons i is ih =>
      intro s hs hnone
      refine ih (hstep s i hs (hnone _ List.mem_cons_self)) fun x hx => ?_
      exact hnone x (List.mem_cons_of_mem _ hx)

/-- From the state after a step to the one before a later step. -/
theorem kept_between {P : σ → Prop} {R : Step σ ι ο → Prop}
    (hstep : ∀ s i, P s → ¬R (take step s i) → P (step s i).1) {s : σ} {is : List ι}
    {before middle after : List (Step σ ι ο)} {x y : Step σ ι ο}
    (h : trace step s is = before ++ x :: (middle ++ y :: after)) (hx : P x.post)
    (hnone : ∀ z ∈ middle, ¬R z) : P y.pre := by
  obtain ⟨js, ks, rfl, rfl, -, hafter⟩ := trace_split step is h
  obtain ⟨js', ks', rfl, rfl, hy, -⟩ := trace_split step ks hafter.symm
  rw [hy]
  exact kept hstep js' hx hnone

theorem eq_take_between {s : σ} {is : List ι} {before middle after : List (Step σ ι ο)}
    {x y : Step σ ι ο} (h : trace step s is = before ++ x :: (middle ++ y :: after)) :
    x = take step x.pre x.input ∧ y = take step y.pre y.input := by
  have hx : x ∈ trace step s is := by simp [h]
  have hy : y ∈ trace step s is := by simp [h]
  exact ⟨eq_take hx, eq_take hy⟩

/-- Two positions split a list, with what is between them. -/
theorem split_of_getElem? {α : Type u} {steps : List α} {i j : Nat} {x y : α} (hij : i < j)
    (hx : steps[i]? = some x) (hy : steps[j]? = some y) :
    ∃ before middle after, steps = before ++ x :: (middle ++ y :: after) ∧
      ∀ z ∈ middle, ∃ k, i < k ∧ k < j ∧ steps[k]? = some z := by
  obtain ⟨hi, rfl⟩ := List.getElem?_eq_some_iff.mp hx
  obtain ⟨hj, rfl⟩ := List.getElem?_eq_some_iff.mp hy
  have hlt : j - (i + 1) < (steps.drop (i + 1)).length := by rw [List.length_drop]; omega
  refine ⟨steps.take i, (steps.drop (i + 1)).take (j - (i + 1)), (steps.drop (i + 1)).drop (j - (i + 1) + 1),
    ?_, ?_⟩
  · have hsplit := List.take_append_drop (j - (i + 1)) (steps.drop (i + 1))
    rw [List.drop_eq_getElem_cons hlt, List.getElem_drop] at hsplit
    have hindex : i + 1 + (j - (i + 1)) = j := by omega
    simp only [hindex] at hsplit
    rw [hsplit, ← List.drop_eq_getElem_cons hi, List.take_append_drop]
  · intro z hz
    obtain ⟨k, hk, rfl⟩ := List.mem_iff_getElem.mp hz
    rw [List.length_take] at hk
    refine ⟨i + 1 + k, by omega, by omega, ?_⟩
    rw [List.getElem_take, List.getElem_drop, List.getElem?_eq_getElem]

/-! ### A part of the state -/

section Project

variable {τ κ ρ : Type*} {small : τ → κ → τ × ρ} {part : σ → τ} {call : σ → ι → Option κ}

/-- The calls that the steps make on the part. -/
def calls (call : σ → ι → Option κ) (steps : List (Step σ ι ο)) : List κ :=
  steps.filterMap fun x => call x.pre x.input

/-- The steps of the part that the calls make. -/
def project (small : τ → κ → τ × ρ) (part : σ → τ) (call : σ → ι → Option κ)
    (steps : List (Step σ ι ο)) : List (Step τ κ ρ) :=
  steps.filterMap fun x => (call x.pre x.input).map (take small (part x.pre))

/-- **If a part of the state is only changed by calls, it goes through a run of its own.** -/
theorem trace_project
    (hstep : ∀ s i, part (step s i).1 = ((call s i).map fun c => (small (part s) c).1).getD (part s))
    (is : List ι) : ∀ s : σ,
      trace small (part s) (calls call (trace step s is)) = project small part call (trace step s is) ∧
        final small (part s) (calls call (trace step s is)) = part (final step s is) := by
  induction is with
  | nil => intro s; exact ⟨rfl, rfl⟩
  | cons i is ih =>
      intro s
      have hnext := hstep s i
      obtain ⟨htrace, hfinal⟩ := ih (step s i).1
      cases hcall : call s i with
      | none =>
          rw [hcall] at hnext
          rw [hnext] at htrace hfinal
          simp only [calls, project, trace_cons, take_pre, take_input, List.filterMap_cons, hcall,
            Option.map_none] at htrace hfinal ⊢
          exact ⟨htrace, hfinal⟩
      | some c =>
          rw [hcall] at hnext
          rw [hnext] at htrace hfinal
          simp only [calls, project, trace_cons, take_pre, take_input, List.filterMap_cons, hcall,
            Option.map_some, final_cons, List.cons.injEq, true_and] at htrace hfinal ⊢
          exact ⟨htrace, hfinal⟩

end Project

/-! ### The last step of a kind -/

/-- Some step satisfies `P`, and all later ones `Q`. -/
def Since {α : Type u} (P Q : α → Prop) (steps : List α) : Prop :=
  ∃ before x after, steps = before ++ x :: after ∧ P x ∧ ∀ y ∈ after, Q y

theorem since_last {α : Type u} {P Q : α → Prop} {x : α} (steps : List α) (h : P x) :
    Since P Q (steps ++ [x]) :=
  ⟨steps, x, [], rfl, h, fun _ hy => nomatch hy⟩

theorem Since.concat {α : Type u} {P Q : α → Prop} {x : α} {steps : List α}
    (h : Since P Q steps) (hx : Q x) : Since P Q (steps ++ [x]) := by
  obtain ⟨before, y, after, rfl, hy, hafter⟩ := h
  refine ⟨before, y, after ++ [x], by simp, hy, fun z hz => ?_⟩
  cases List.mem_append.mp hz with
  | inl hz => exact hafter z hz
  | inr hz =>
      rw [List.mem_singleton.mp hz]
      exact hx

/-! ### Two machines on the same inputs -/

/-- The inputs of a run, each with its answer. -/
def transcript (step : σ → ι → σ × ο) (s : σ) (is : List ι) : List (ι × ο) :=
  (trace step s is).map fun st => (st.input, st.out)

theorem transcript_cons (step : σ → ι → σ × ο) (s : σ) (i : ι) (is : List ι) :
    transcript step s (i :: is) = (i, (step s i).2) :: transcript step (step s i).1 is := rfl

/--
**A relation between the states of two machines that one step preserves holds after every run on the same
inputs, and the answers correspond.**  `E` is what the environment promises to the second machine.
-/
theorem simulation {τ : Type u'} {ρ : Type w'} {step : σ → ι → σ × ο} {step' : τ → ι → τ × ρ}
    {R : σ → τ → Prop} {E : τ → ι → Prop} {f : ι → ο → ρ}
    (hstep : ∀ s t i, R s t → E t i →
      R (step s i).1 (step' t i).1 ∧ f i (step s i).2 = (step' t i).2) (is : List ι) :
    ∀ {s : σ} {t : τ}, R s t → (∀ st ∈ trace step' t is, E st.pre st.input) →
      R (final step s is) (final step' t is) ∧
        (transcript step s is).map (fun x => (x.1, f x.1 x.2)) = transcript step' t is := by
  induction is with
  | nil => exact fun h _ => ⟨h, rfl⟩
  | cons i is ih =>
      intro s t h hpromise
      obtain ⟨hnext, hout⟩ := hstep s t i h (hpromise _ List.mem_cons_self)
      obtain ⟨hfinal, houts⟩ := ih hnext fun st hst => hpromise st (List.mem_cons_of_mem _ hst)
      refine ⟨hfinal, ?_⟩
      rw [transcript_cons, transcript_cons, List.map_cons, houts, hout]

/-! ### Each step with those before it -/

/-- Each step satisfies `P` together with the steps before it. -/
def Throughout {α : Type u} (P : List α → α → Prop) (steps : List α) : Prop :=
  ∀ before x after, steps = before ++ x :: after → P before x

theorem throughout_nil {α : Type u} (P : List α → α → Prop) : Throughout P [] := by
  intro before x after h
  simp at h

theorem throughout_cons {α : Type u} (P : List α → α → Prop) (x : α) (steps : List α) :
    Throughout P (x :: steps) ↔ P [] x ∧ Throughout (fun before => P (x :: before)) steps := by
  constructor
  · intro h
    refine ⟨h [] x steps rfl, fun before y after hsplit => ?_⟩
    exact h (x :: before) y after (by rw [hsplit]; rfl)
  · rintro ⟨hfirst, hrest⟩ before y after hsplit
    cases before with
    | nil =>
        cases hsplit
        exact hfirst
    | cons z before =>
        cases hsplit
        exact hrest before y after rfl

theorem Throughout.of_append {α : Type u} {P : List α → α → Prop} {steps later : List α}
    (h : Throughout P (steps ++ later)) : Throughout P steps := by
  intro before x after hsplit
  exact h before x (after ++ later) (by rw [hsplit, List.append_assoc]; rfl)

instance decidableThroughout {α : Type u} : ∀ (P : List α → α → Prop)
    [∀ before x, Decidable (P before x)] (steps : List α), Decidable (Throughout P steps)
  | P, _, [] => isTrue (throughout_nil P)
  | P, _, x :: steps =>
      have := decidableThroughout (fun before => P (x :: before)) steps
      decidable_of_iff _ (throughout_cons P x steps).symm

end Trace
