/-
A value that changes by itself at a scheduled time.

The clock ticks one time unit after the other, and the tick that reaches the time of the scheduled change
puts it in force (`tick`).  A change that is not in force yet is replaced by the next one that is
scheduled.  `advance_eq` says what holds after any number of ticks.
-/
import Mathlib.Logic.Function.Iterate
import Mathlib.Order.Nat
import Safenet.Lib.Trace

universe u v w

/-- A value, and the change to it that is still to come. -/
structure Scheduled (α : Type u) where
  time : Nat
  value : α
  next : Option (α × Nat)
deriving DecidableEq, Repr

namespace Scheduled

variable {α : Type u} {s : Scheduled α} {time time' : Nat}

/-- A value without a scheduled change. -/
def start (value : α) : Scheduled α := ⟨0, value, none⟩

/-- The change takes effect if this is its time. -/
def effect (s : Scheduled α) : Scheduled α :=
  match s.next with
  | some (value, activeAt) => if activeAt ≤ s.time then ⟨s.time, value, none⟩ else s
  | none => s

def tick (s : Scheduled α) : Scheduled α := effect { s with time := s.time + 1 }

/-- The clock runs up to a time. -/
def advance (s : Scheduled α) (time : Nat) : Scheduled α := tick^[time - s.time] s

/-- Schedules a change, in place of the one to come. -/
def schedule (s : Scheduled α) (value : α) (activeAt : Nat) : Scheduled α :=
  effect { s with next := some (value, activeAt) }

/-- The change is still to come. -/
def Upcoming (s : Scheduled α) : Prop := ∀ change, s.next = some change → s.time < change.2

theorem upcoming_start (value : α) : Upcoming (start value) := nofun

@[simp] theorem effect_time (s : Scheduled α) : s.effect.time = s.time := by
  unfold effect
  split
  · split <;> rfl
  · rfl

theorem upcoming_effect (s : Scheduled α) : Upcoming s.effect := by
  unfold effect
  split
  · next value activeAt hnext =>
    split
    · exact nofun
    · next hlater =>
      intro change hchange
      rw [hnext] at hchange
      cases hchange
      exact Nat.lt_of_not_le hlater
  · next hnext =>
    intro change hchange
    rw [hnext] at hchange
    cases hchange

theorem effect_of_upcoming (h : Upcoming s) : s.effect = s := by
  unfold effect
  split
  · next value activeAt hnext => rw [if_neg (Nat.not_le_of_lt (h _ hnext))]
  · rfl

/-- Two moments in a row are one. -/
theorem effect_effect (htime : s.time ≤ time) :
    effect { s.effect with time := time } = effect { s with time := time } := by
  cases hnext : s.next with
  | none => simp only [effect, hnext]
  | some change =>
      by_cases hdue : change.2 ≤ s.time
      · simp only [effect, hnext, if_pos hdue, if_pos (hdue.trans htime)]
      · simp only [effect, hnext, if_neg hdue]

/-- **What holds when the clock has run up to a time.** -/
theorem iterate_tick (h : Upcoming s) (k : Nat) :
    tick^[k] s = effect { s with time := s.time + k } := by
  induction k with
  | zero => exact (effect_of_upcoming h).symm
  | succ k ih =>
      rw [Function.iterate_succ_apply', ih, tick, effect_time]
      exact effect_effect (Nat.le_succ _)

theorem advance_eq (h : Upcoming s) (htime : s.time ≤ time) :
    s.advance time = effect { s with time := time } := by
  rw [advance, iterate_tick h, Nat.add_sub_cancel' htime]

theorem advance_self (s : Scheduled α) : s.advance s.time = s := by
  rw [advance, Nat.sub_self]
  rfl

theorem advance_time (h : Upcoming s) (htime : s.time ≤ time) : (s.advance time).time = time := by
  rw [advance_eq h htime, effect_time]

theorem upcoming_advance (h : Upcoming s) (htime : s.time ≤ time) : Upcoming (s.advance time) := by
  rw [advance_eq h htime]
  exact upcoming_effect _

/-- Stopping the clock on the way changes nothing. -/
theorem advance_advance (h : Upcoming s) (htime : s.time ≤ time) (htime' : time ≤ time') :
    (s.advance time).advance time' = s.advance time' := by
  have hstop := advance_time h htime
  rw [advance_eq (upcoming_advance h htime) (hstop.symm ▸ htime'), advance_eq h (htime.trans htime'),
    advance_eq h htime]
  exact effect_effect htime'

theorem upcoming_schedule (value : α) (activeAt : Nat) : Upcoming (s.schedule value activeAt) :=
  upcoming_effect _

@[simp] theorem schedule_time (value : α) (activeAt : Nat) :
    (s.schedule value activeAt).time = s.time := effect_time _

/-! ### Machines that read the clock first -/

section Clocked

variable {κ : Type v} {ρ : Type w} {act : Scheduled α → Nat × κ → Scheduled α × ρ} {silent : κ → Bool}

/-- Lets the clock run up to the time of the input before it acts. -/
def clocked (act : Scheduled α → Nat × κ → Scheduled α × ρ) (s : Scheduled α) (input : Nat × κ) :
    Scheduled α × ρ :=
  act (s.advance input.1) input

/-- Inputs at times that do not go back. -/
structure Ordered (inputs : List (Nat × κ)) : Prop where
  positive : ∀ input ∈ inputs, 0 < input.1
  sorted : inputs.Pairwise (·.1 ≤ ·.1)

instance (inputs : List (Nat × κ)) : Decidable (Ordered inputs) :=
  decidable_of_iff (_ ∧ _) ⟨fun h => ⟨h.1, h.2⟩, fun h => ⟨h.1, h.2⟩⟩

/-- Acting keeps the clock, and leaves nothing that is due. -/
structure Keeps (act : Scheduled α → Nat × κ → Scheduled α × ρ) : Prop where
  time : ∀ s input, (act s input).1.time = s.time
  upcoming : ∀ s input, Upcoming s → Upcoming (act s input).1

/-- In a run in order, no input comes before the time that is reached. -/
theorem Keeps.time_le (h : Keeps act) (inputs : List (Nat × κ)) :
    ∀ {s : Scheduled α}, Upcoming s → (∀ input ∈ inputs, s.time ≤ input.1) →
      inputs.Pairwise (·.1 ≤ ·.1) →
        ∀ st ∈ Trace.trace (clocked act) s inputs, Upcoming st.pre ∧ st.pre.time ≤ st.input.1 := by
  induction inputs with
  | nil => exact fun _ _ _ st hst => absurd hst List.not_mem_nil
  | cons input inputs ih =>
      intro s hs hle hsorted st hst
      obtain ⟨hfirst, hrest⟩ := List.pairwise_cons.mp hsorted
      have hreached := hle _ List.mem_cons_self
      rcases List.mem_cons.mp hst with heq | hst
      · rw [heq]
        exact ⟨hs, hreached⟩
      · refine ih (h.upcoming _ _ (upcoming_advance hs hreached)) (fun later hlater => ?_) hrest st hst
        have htime : (clocked act s input).1.time = input.1 :=
          (h.time _ _).trans (advance_time hs hreached)
        exact htime.le.trans (hfirst later hlater)

/-- **Inputs that do nothing but let the clock run can be left out.** -/
theorem Keeps.transcript_filter (h : Keeps act)
    (hsilent : ∀ s input, silent input.2 = true → (act s input).1 = s) (inputs : List (Nat × κ)) :
    ∀ {s : Scheduled α} {time : Nat}, Upcoming s → s.time ≤ time → (∀ input ∈ inputs, time ≤ input.1) →
      inputs.Pairwise (·.1 ≤ ·.1) →
        (Trace.transcript (clocked act) (s.advance time) inputs).filter (!silent ·.1.2) =
          Trace.transcript (clocked act) s (inputs.filter (!silent ·.2)) := by
  induction inputs with
  | nil => exact fun _ _ _ _ => rfl
  | cons input inputs ih =>
      intro s time hs htime hle hsorted
      obtain ⟨hfirst, hrest⟩ := List.pairwise_cons.mp hsorted
      have hreached := hle _ List.mem_cons_self
      have hnow := htime.trans hreached
      have hstep : clocked act (s.advance time) input = clocked act s input := by
        rw [clocked, clocked, advance_advance hs htime hreached]
      rw [Trace.transcript_cons, List.filter_cons, List.filter_cons, hstep]
      cases hquiet : silent input.2 with
      | true =>
          have hsame : (clocked act s input).1 = s.advance input.1 := hsilent _ _ hquiet
          rw [hsame]
          exact ih hs hnow hfirst hrest
      | false =>
          have hpost : (clocked act s input).1.time = input.1 :=
            (h.time _ _).trans (advance_time hs hnow)
          have hlater := ih (h.upcoming _ _ (upcoming_advance hs hnow)) le_rfl
            (fun later hin => hpost.le.trans (hfirst later hin)) hrest
          rw [advance_self] at hlater
          exact congrArg (_ :: ·) hlater

end Clocked

end Scheduled
