/-
Programs with a state that may end early.

`Triple` is the usual triple of a precondition, a program and a postcondition, with one more condition
for the errors and states with which the program may end early.  A program that was interrupted leaves
its state behind, so what is to hold of it then has to be said as well.  `Keeps` is the special case of
an invariant.
-/
import Mathlib.Logic.Basic

universe u

variable {ε σ α β : Type u}

/-- A program that may end early. -/
abbrev Program (ε σ α : Type u) := ExceptT ε (StateM σ) α

namespace Program

/-- From a state with `pre`, the program ends with `post`, or early with `exit`. -/
def Triple (pre : σ → Prop) (program : Program ε σ α) (post : α → σ → Prop) (exit : ε → σ → Prop) :
    Prop :=
  ∀ s, pre s →
    match (program s : Except ε α × σ) with
    | (.ok a, s') => post a s'
    | (.error e, s') => exit e s'

variable {pre : σ → Prop} {exit : ε → σ → Prop} {program : Program ε σ α}

theorem triple_pure {a : α} {post : α → σ → Prop} (h : ∀ s, pre s → post a s) :
    Triple pre (pure a : Program ε σ α) post exit := h

theorem triple_throw {e : ε} {post : α → σ → Prop} (h : ∀ s, pre s → exit e s) :
    Triple pre (throw e : Program ε σ α) post exit := h

theorem triple_get {post : σ → σ → Prop} (h : ∀ s, pre s → post s s) :
    Triple pre (get : Program ε σ σ) post exit := h

theorem triple_set {s' : σ} {post : PUnit → σ → Prop} (h : ∀ s, pre s → post ⟨⟩ s') :
    Triple pre (set s' : Program ε σ PUnit) post exit := h

theorem triple_bind {f : α → Program ε σ β} {Q : α → σ → Prop} {post : β → σ → Prop}
    (hprogram : Triple pre program Q exit) (hf : ∀ a, Triple (Q a) (f a) post exit) :
    Triple pre (program >>= f) post exit := by
  intro s hs
  have hfirst := hprogram s hs
  show match (ExceptT.bindCont f (program s).1 (program s).2 : Except ε β × σ) with
    | (.ok b, s') => post b s'
    | (.error e, s') => exit e s'
  rcases hrun : (program s : Except ε α × σ) with ⟨result, s'⟩
  rw [hrun] at hfirst
  cases result with
  | ok a => exact hf a s' hfirst
  | error e => exact hfirst

theorem triple_weaken {pre' : σ → Prop} {post post' : α → σ → Prop} {exit' : ε → σ → Prop}
    (h : Triple pre' program post exit') (hpre : ∀ s, pre s → pre' s)
    (hpost : ∀ a s, post a s → post' a s) (hexit : ∀ e s, exit' e s → exit e s) :
    Triple pre program post' exit := by
  intro s hs
  have hrun := h s (hpre s hs)
  rcases hresult : (program s : Except ε α × σ) with ⟨result, s'⟩
  rw [hresult] at hrun
  cases result with
  | ok a => exact hpost a s' hrun
  | error e => exact hexit e s' hrun

theorem triple_throw_bind {e : ε} {f : α → Program ε σ β} {post : β → σ → Prop}
    (h : ∀ s, pre s → exit e s) : Triple pre ((throw e : Program ε σ α) >>= f) post exit :=
  triple_bind (Q := fun _ _ => False) (triple_throw h) fun _ _ hfalse => hfalse.elim

theorem triple_discard {post : σ → Prop} (h : Triple pre program (fun _ => post) exit) :
    Triple pre (discard program) (fun _ => post) exit := by
  have hbind : (discard program : Program ε σ PUnit) = program >>= fun _ => pure ⟨⟩ :=
    map_eq_pure_bind (fun _ => PUnit.unit) program
  rw [hbind]
  exact triple_bind h fun _ => triple_pure fun _ hs => hs

/-- What the program reads is the state it is in. -/
theorem triple_get_bind {f : σ → Program ε σ β} {post : β → σ → Prop}
    (h : ∀ s₀, Triple (fun s => pre s ∧ s = s₀) (f s₀) post exit) :
    Triple pre (get >>= f) post exit :=
  triple_bind (triple_get fun _ hs => ⟨hs, rfl⟩) h

/-- The program keeps the invariant, also if it ends early. -/
def Keeps (I : σ → Prop) (program : Program ε σ α) : Prop :=
  Triple I program (fun _ => I) fun _ => I

variable {I : σ → Prop}

theorem keeps_pure {a : α} : Keeps I (pure a : Program ε σ α) := triple_pure fun _ hs => hs

theorem keeps_bind {f : α → Program ε σ β} (hprogram : Keeps I program) (hf : ∀ a, Keeps I (f a)) :
    Keeps I (program >>= f) :=
  triple_bind hprogram hf

theorem keeps_get_bind {f : σ → Program ε σ β} (h : ∀ s, Keeps I (f s)) : Keeps I (get >>= f) :=
  triple_bind (triple_get fun _ hs => hs) h

theorem keeps_map {f : α → β} (hprogram : Keeps I program) : Keeps I (f <$> program) := by
  rw [map_eq_pure_bind]
  exact keeps_bind hprogram fun _ => keeps_pure

theorem keeps_discard (hprogram : Keeps I program) : Keeps I (discard program) :=
  keeps_map hprogram

theorem keeps_forM {ι : Type} {f : ι → Program ε σ PUnit} (l : List ι) (h : ∀ i ∈ l, Keeps I (f i)) :
    Keeps I (l.forM f) := by
  induction l with
  | nil => exact keeps_pure
  | cons i l ih =>
      exact keeps_bind (h i (List.mem_cons_self ..)) fun _ =>
        ih fun j hj => h j (List.mem_cons_of_mem _ hj)

/-- The state in which the program ends. -/
theorem Keeps.final (h : Keeps I program) {s : σ} (hs : I s) :
    I (program s : Except ε α × σ).2 := by
  have hrun := h s hs
  rcases hresult : (program s : Except ε α × σ) with ⟨result, s'⟩
  rw [hresult] at hrun
  cases result with
  | ok a => exact hrun
  | error e => exact hrun

end Program
