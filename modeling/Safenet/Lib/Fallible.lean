/-
Reading a successful computation backwards.

Fallible code is written in `Except`.  The lemmas here peel a computation that ended in
`.ok` into the steps that must each have succeeded, so that no later proof unfolds
the monad.  `require` is the guard of such code: it stops with an error unless its
condition holds.
-/
import Mathlib.Logic.Basic

universe u v

namespace Fallible

variable {ε α β : Type u} {δ : Type v}

/-- Goes on only if the condition holds. -/
def require (condition : Bool) (error : ε) : Except ε PUnit :=
  if condition then .ok ⟨⟩ else .error error

theorem bind_eq_ok {x : Except ε α} {f : α → Except ε β} {b : β} :
    (x >>= f) = .ok b ↔ ∃ a, x = .ok a ∧ f a = .ok b := by
  cases x with
  | error e => simp [bind, Except.bind]
  | ok a => simp [bind, Except.bind]

theorem pure_eq_ok {a b : α} : (pure a : Except ε α) = .ok b ↔ a = b := by
  simp [pure, Except.pure]

theorem throw_eq_ok {e : ε} {a : α} : (throw e : Except ε α) = .ok a ↔ False := by
  simp [throw, throwThe, MonadExceptOf.throw]

@[simp] theorem mapError_ok {f : ε → δ} {a : α} : (Except.ok a).mapError f = .ok a := rfl

@[simp] theorem mapError_error {f : ε → δ} {e : ε} : (Except.error e : Except ε α).mapError f = .error (f e) := rfl

theorem mapError_eq_ok {x : Except ε α} {f : ε → δ} {a : α} :
    x.mapError f = .ok a ↔ x = .ok a := by
  cases x with
  | error e => simp
  | ok b => simp

theorem require_eq_ok {condition : Bool} {error : ε} {r : PUnit} :
    require condition error = .ok r ↔ condition = true := by
  cases condition <;> simp [require]

theorem ite_eq_ok {p : Prop} [Decidable p] {x : Except ε α} {e : ε} {a : α} :
    (if p then x else .error e) = .ok a ↔ p ∧ x = .ok a := by
  by_cases h : p <;> simp [h]

/-- Each result of a list of computations is the result of one of them. -/
theorem mapM_getElem? {f : α → Except ε β} {l : List α} {l' : List β} (h : l.mapM f = .ok l') {index : Nat}
    {a : α} (ha : l[index]? = some a) : ∃ b, f a = .ok b ∧ l'[index]? = some b := by
  induction l generalizing l' index with
  | nil => cases ha
  | cons x l ih =>
      rw [List.mapM_cons] at h
      obtain ⟨y, hy, h⟩ := bind_eq_ok.mp h
      obtain ⟨ys, hys, h⟩ := bind_eq_ok.mp h
      cases pure_eq_ok.mp h
      cases index with
      | zero =>
          cases ha
          exact ⟨y, hy, rfl⟩
      | succ index => exact ih hys ha

theorem length_of_mapM {f : α → Except ε β} (l : List α) :
    ∀ {l' : List β}, l.mapM f = .ok l' → l'.length = l.length := by
  induction l with
  | nil =>
      intro l' h
      cases h
      rfl
  | cons x l ih =>
      intro l' h
      rw [List.mapM_cons] at h
      obtain ⟨y, -, h⟩ := bind_eq_ok.mp h
      obtain ⟨ys, hys, h⟩ := bind_eq_ok.mp h
      cases h
      rw [List.length_cons, List.length_cons, ih hys]

theorem mem_of_mapM {f : α → Except ε β} {l : List α} {l' : List β} (h : l.mapM f = .ok l') {b : β}
    (hb : b ∈ l') : ∃ a ∈ l, f a = .ok b := by
  induction l generalizing l' with
  | nil =>
      cases h
      cases hb
  | cons x l ih =>
      rw [List.mapM_cons] at h
      obtain ⟨y, hy, h⟩ := bind_eq_ok.mp h
      obtain ⟨ys, hys, h⟩ := bind_eq_ok.mp h
      cases pure_eq_ok.mp h
      rcases List.mem_cons.mp hb with rfl | hb
      · exact ⟨x, List.mem_cons_self, hy⟩
      · obtain ⟨a, ha, hab⟩ := ih hys hb
        exact ⟨a, List.mem_cons_of_mem _ ha, hab⟩

/-- What the results have in common with what they were computed from. -/
theorem map_of_mapM {γ : Type*} {f : α → Except ε β} {g : β → γ} {k : α → γ} (l : List α)
    (hf : ∀ a ∈ l, ∀ b, f a = .ok b → g b = k a) :
    ∀ {l' : List β}, l.mapM f = .ok l' → l'.map g = l.map k := by
  induction l with
  | nil =>
      intro l' h
      cases h
      rfl
  | cons x l ih =>
      intro l' h
      rw [List.mapM_cons] at h
      obtain ⟨y, hy, h⟩ := bind_eq_ok.mp h
      obtain ⟨ys, hys, h⟩ := bind_eq_ok.mp h
      cases pure_eq_ok.mp h
      rw [List.map_cons, List.map_cons, hf x List.mem_cons_self y hy,
        ih (fun a ha => hf a (List.mem_cons_of_mem _ ha)) hys]

theorem mapM_ok {f : α → Except ε β} (l : List α) :
    (∀ x ∈ l, ∃ y, f x = .ok y) → ∃ ys, l.mapM f = .ok ys := by
  induction l with
  | nil => intro _; exact ⟨[], rfl⟩
  | cons x l ih =>
      intro h
      obtain ⟨y, hy⟩ := h x List.mem_cons_self
      obtain ⟨ys, hys⟩ := ih fun x' hx' => h x' (List.mem_cons_of_mem _ hx')
      refine ⟨y :: ys, ?_⟩
      rw [List.mapM_cons]
      exact bind_eq_ok.mpr ⟨y, hy, bind_eq_ok.mpr ⟨ys, hys, rfl⟩⟩

/-- If a list of computations fails, so does one of them. -/
theorem mapM_eq_error {f : α → Except ε β} {l : List α} {e : ε} (h : l.mapM f = .error e) :
    ∃ x ∈ l, f x = .error e := by
  induction l with
  | nil => cases h
  | cons x l ih =>
      rw [List.mapM_cons] at h
      cases hx : f x with
      | error e' =>
          rw [hx] at h
          cases h
          exact ⟨x, List.mem_cons_self, hx⟩
      | ok y =>
          rw [hx] at h
          cases hl : l.mapM f with
          | ok ys =>
              rw [hl] at h
              cases h
          | error e' =>
              rw [hl] at h
              cases h
              obtain ⟨x', hx', herror⟩ := ih hl
              exact ⟨x', List.mem_cons_of_mem _ hx', herror⟩

/-! ### Errors that cannot happen -/

/-- The computation does not end in one of these errors. -/
def Avoids (bad : ε → Prop) (x : Except ε α) : Prop := ∀ e, x = .error e → ¬ bad e

variable {bad : ε → Prop}

theorem avoids_ok {a : α} : Avoids bad (.ok a : Except ε α) := fun _ h => nomatch h

theorem avoids_error {e : ε} (h : ¬ bad e) : Avoids bad (.error e : Except ε α) := by
  intro e' heq
  cases heq
  exact h

theorem avoids_bind {x : Except ε α} {f : α → Except ε β} (hx : Avoids bad x)
    (hf : ∀ a, x = .ok a → Avoids bad (f a)) : Avoids bad (x >>= f) := by
  cases x with
  | error e => exact avoids_error (hx e rfl)
  | ok a => exact hf a rfl

theorem avoids_mapM {f : α → Except ε β} (l : List α) (h : ∀ a ∈ l, Avoids bad (f a)) :
    Avoids bad (l.mapM f) := by
  induction l with
  | nil => exact avoids_ok
  | cons a l ih =>
      rw [List.mapM_cons]
      apply avoids_bind (h a (List.mem_cons_self ..))
      intro b _
      apply avoids_bind (ih fun a' ha' => h a' (List.mem_cons_of_mem _ ha'))
      intro bs _
      exact avoids_ok

theorem avoids_ite {p : Prop} [Decidable p] {x y : Except ε α} (hx : p → Avoids bad x)
    (hy : ¬p → Avoids bad y) : Avoids bad (if p then x else y) := by
  by_cases h : p
  · rw [if_pos h]
    exact hx h
  · rw [if_neg h]
    exact hy h

theorem avoids_require {condition : Bool} {e : ε} (h : ¬ bad e) :
    Avoids bad (require condition e) := by
  unfold require
  cases condition with
  | true => exact avoids_ok
  | false => exact avoids_error h

theorem avoids_mapError {ζ : Type u} {x : Except ε α} {f : ε → ζ} {bad : ζ → Prop} (h : ∀ e, ¬ bad (f e)) :
    Avoids bad (x.mapError f) := by
  cases x with
  | error e =>
      intro e' heq
      cases heq
      exact h e
  | ok a => exact fun _ heq => nomatch heq

end Fallible
