/-
Parameters that governance changes with a delay.

The contracts store a scheduled change and look at the block number whenever the parameter is used.  The
reference (`Reference.step`) is a parameter that changes by itself, at its activation block.  A delayed
parameter is the reference at every block (`Delayed.scheduled`), so the calls cannot tell the two apart,
except that `pending` names a change until it is applied.
-/
import Safenet.Lib.Scheduled
import Safenet.Contracts.BondConfig
import Safenet.Proofs.SentinelOracle

namespace Safenet.Contracts

open Fallible
open SentinelOracle (Error)

namespace Delayed

/-! ### Calls -/

/-- The calls of a delayed parameter. -/
inductive Call (α : Type) where
  | schedule (newValue : α) (governanceDelay : Nat)
  | applyPending
  | current
  | pending
deriving DecidableEq, Repr

/-- What a call answers. -/
inductive Answer (α : Type) where
  | scheduled (activeAt : Except Error Nat)
  | value (value : α)
  | pending (value : α) (activeAt : Nat)
deriving DecidableEq

variable {α : Type} [Zero α]

/-- A call at a block; `accepts` is what is required of a new value. -/
def step (accepts : α → Except Error PUnit) (self : Delayed α) (input : Nat × Call α) :
    Delayed α × Answer α :=
  match input.2 with
  | .schedule newValue governanceDelay =>
      match (do accepts newValue; self.schedule input.1 newValue governanceDelay) with
      | .ok (self, activeAt) => (self, .scheduled (.ok activeAt))
      | .error error => (self, .scheduled (.error error))
  | .applyPending => ((self.applyPending input.1).1, .value (self.applyPending input.1).2)
  | .current => (self, .value (self.current input.1))
  | .pending => (self, .pending self.pending.1 self.pending.2)

/-- An answer at a block, without a change that is due. -/
def settle (number : Nat) : Answer α → Answer α
  | .pending value activeAt => if activeAt ≤ number then .pending 0 0 else .pending value activeAt
  | answer => answer

end Delayed

/-! ### The reference -/

namespace Reference

open Delayed (Call Answer)

variable {α : Type} [Zero α] (accepts : α → Except Error PUnit)

/-- The block a change scheduled now becomes active at. -/
def activation (number governanceDelay : Nat) : Except Error Nat := do
  toUint 64 (← checkedAdd 256 number governanceDelay Error.arithmetic) .safeCast

/-- A call at the block that is reached. -/
def act (s : Scheduled α) (input : Nat × Call α) : Scheduled α × Answer α :=
  match input.2 with
  | .schedule newValue governanceDelay =>
      match (do accepts newValue; activation input.1 governanceDelay) with
      | .ok activeAt => (s.schedule newValue activeAt, .scheduled (.ok activeAt))
      | .error error => (s, .scheduled (.error error))
  | .applyPending => (s, .value s.value)
  | .current => (s, .value s.value)
  | .pending => (s, .pending (s.next.getD (0, 0)).1 (s.next.getD (0, 0)).2)

/-- A call, after the blocks up to its own. -/
def step : Scheduled α → Nat × Call α → Scheduled α × Answer α := Scheduled.clocked (act accepts)

theorem keeps_act : Scheduled.Keeps (act accepts) where
  time s input := by
    unfold act
    split
    · split
      · exact Scheduled.schedule_time _ _
      · rfl
    all_goals rfl
  upcoming s input h := by
    unfold act
    split
    · split
      · exact Scheduled.upcoming_schedule _ _
      · exact h
    all_goals exact h

end Reference

/-! ### A delayed parameter is the reference -/

namespace Delayed

variable {α : Type} {self : Delayed α} {number : Nat}

/-- The scheduled change. -/
def next (self : Delayed α) : Option (α × Nat) :=
  if self.pendingActiveAt = 0 then none else some (self.pendingValue, self.pendingActiveAt)

/-- The reference that a parameter stands for at a block. -/
def scheduled (self : Delayed α) (number : Nat) : Scheduled α :=
  Scheduled.effect ⟨number, self.value, self.next⟩

theorem upcoming_scheduled : (self.scheduled number).Upcoming := Scheduled.upcoming_effect _

@[simp] theorem scheduled_time : (self.scheduled number).time = number := Scheduled.effect_time _

theorem scheduled_advance {later : Nat} (h : number ≤ later) :
    (self.scheduled number).advance later = self.scheduled later := by
  rw [Scheduled.advance_eq upcoming_scheduled (scheduled_time.le.trans h)]
  exact Scheduled.effect_effect h

theorem scheduled_eq : self.scheduled number =
    if self.pendingActiveAt = 0 then ⟨number, self.value, none⟩
    else if self.pendingActiveAt ≤ number then ⟨number, self.pendingValue, none⟩
    else ⟨number, self.value, some (self.pendingValue, self.pendingActiveAt)⟩ := by
  unfold scheduled next
  by_cases hzero : self.pendingActiveAt = 0
  · rw [if_pos hzero, if_pos hzero]
    rfl
  · rw [if_neg hzero, if_neg hzero]
    rfl

theorem current_eq : self.current number = (self.scheduled number).value := by
  rw [scheduled_eq, current]
  by_cases hzero : self.pendingActiveAt = 0
  · rw [if_neg fun h => h.1 hzero, if_pos hzero]
  · by_cases hdue : self.pendingActiveAt ≤ number
    · rw [if_pos ⟨hzero, hdue⟩, if_neg hzero, if_pos hdue]
    · rw [if_neg fun h => hdue h.2, if_neg hzero, if_neg hdue]

variable [Zero α] {accepts : α → Except Error PUnit}

theorem scheduled_init (value : α) : (init value).scheduled 0 = Scheduled.start value := rfl

/-- Applying a change answers the value in force and does not change what the parameter stands for. -/
theorem applyPending_eq : (self.applyPending number).2 = (self.scheduled number).value ∧
    (self.applyPending number).1.scheduled number = self.scheduled number := by
  rw [scheduled_eq, scheduled_eq, applyPending]
  by_cases hzero : self.pendingActiveAt = 0
  · rw [if_pos (.inl hzero), if_pos hzero]
    exact ⟨rfl, rfl⟩
  · by_cases hdue : self.pendingActiveAt ≤ number
    · rw [if_neg (not_or.mpr ⟨hzero, Nat.not_lt.mpr hdue⟩), if_neg hzero, if_pos hdue]
      exact ⟨rfl, rfl⟩
    · rw [if_pos (.inr (Nat.lt_of_not_le hdue)), if_neg hzero, if_neg hdue]
      exact ⟨rfl, rfl⟩

/-- What is applied is in force. -/
theorem applyPending_value : (self.applyPending number).1.value = (self.scheduled number).value := by
  rw [← applyPending_eq.1, applyPending]
  split <;> rfl

/-- Without a due change, `pending` answers what is still to come. -/
theorem settle_pending : settle number (.pending self.pending.1 self.pending.2) =
    .pending ((self.scheduled number).next.getD (0, 0)).1 ((self.scheduled number).next.getD (0, 0)).2 := by
  rw [scheduled_eq, pending]
  by_cases hzero : self.pendingActiveAt = 0
  · rw [if_pos hzero, if_pos hzero]
    show (if 0 ≤ number then Answer.pending (0 : α) 0 else Answer.pending 0 0) = _
    exact if_pos (Nat.zero_le number)
  · rw [if_neg hzero, if_neg hzero]
    by_cases hdue : self.pendingActiveAt ≤ number
    · rw [if_pos hdue]
      exact if_pos hdue
    · rw [if_neg hdue]
      exact if_neg hdue

theorem schedule_eq {newValue : α} {governanceDelay : Nat} :
    self.schedule number newValue governanceDelay = do
      let activeAt ← Reference.activation number governanceDelay
      return (⟨(self.applyPending number).1.value, activeAt, newValue⟩, activeAt) := by
  unfold schedule Reference.activation
  rw [bind_assoc]

theorem activation_ok {governanceDelay activeAt : Nat}
    (h : Reference.activation number governanceDelay = .ok activeAt) : activeAt = number + governanceDelay := by
  obtain ⟨wide, hwide, h⟩ := bind_eq_ok.mp h
  exact (toUint_ok.mp h).2.symm.trans (checkedAdd_ok.mp hwide).2.symm

/-- A change that was scheduled is the one of the reference. -/
theorem scheduled_schedule {newValue : α} {activeAt : Nat} (hactive : activeAt ≠ 0) :
    (Delayed.mk (self.applyPending number).1.value activeAt newValue).scheduled number =
      (self.scheduled number).schedule newValue activeAt := by
  unfold scheduled Scheduled.schedule
  rw [next, if_neg hactive, applyPending_value, Scheduled.effect_time]
  rfl

/-- **A call does to a delayed parameter what it does to the reference, and is answered the same.** -/
theorem step_scheduled (call : Call α) {before : Nat} (hbefore : before ≤ number) (hpositive : 0 < number) :
    (step accepts self (number, call)).1.scheduled number =
        (Reference.step accepts (self.scheduled before) (number, call)).1 ∧
      settle number (step accepts self (number, call)).2 =
        (Reference.step accepts (self.scheduled before) (number, call)).2 := by
  unfold Reference.step Scheduled.clocked
  rw [scheduled_advance hbefore]
  cases call with
  | schedule newValue governanceDelay =>
      unfold step Reference.act
      dsimp only
      rw [schedule_eq]
      cases accepts newValue with
      | error error => exact ⟨rfl, rfl⟩
      | ok u =>
          cases hactive : Reference.activation number governanceDelay with
          | error error => exact ⟨rfl, rfl⟩
          | ok activeAt =>
              have hne : activeAt ≠ 0 := by
                have := activation_ok hactive
                omega
              exact ⟨scheduled_schedule hne, rfl⟩
  | applyPending => exact ⟨applyPending_eq.2, congrArg Answer.value applyPending_eq.1⟩
  | current => exact ⟨rfl, congrArg Answer.value current_eq⟩
  | pending => exact ⟨rfl, settle_pending⟩

/-! ### Runs -/

/-- Calls to `applyPending`. -/
def Call.isApply : Call α → Bool
  | .applyPending => true
  | _ => false

/-- The calls of a run with their answers, without changes that are due. -/
def settled (transcript : List ((Nat × Call α) × Answer α)) : List ((Nat × Call α) × Answer α) :=
  transcript.map fun x => (x.1, settle x.1.1 x.2)

/-- In a run in order, the reference is never ahead of a call. -/
theorem reference_behind {s : Scheduled α} {calls : List (Nat × Call α)} (hs : s.Upcoming)
    (htime : s.time = 0) (h : Scheduled.Ordered calls) :
    ∀ st ∈ Trace.trace (Reference.step accepts) s calls,
      st.pre.time ≤ st.input.1 ∧ 0 < st.input.1 := by
  intro st hst
  have hbehind := (Reference.keeps_act accepts).time_le calls hs
    (fun call _ => htime ▸ Nat.zero_le call.1) h.sorted st hst
  exact ⟨hbehind.2, h.positive _ (Trace.input_mem hst)⟩

theorem step_simulates (self : Delayed α) (s : Scheduled α) (call : Nat × Call α)
    (hs : s = self.scheduled s.time) (hcall : s.time ≤ call.1 ∧ 0 < call.1) :
    (Reference.step accepts s call).1 =
        (step accepts self call).1.scheduled (Reference.step accepts s call).1.time ∧
      settle call.1 (step accepts self call).2 = (Reference.step accepts s call).2 := by
  obtain ⟨number, call⟩ := call
  obtain ⟨hpost, hout⟩ : _ ∧ settle number (step accepts self (number, call)).2 = _ :=
    step_scheduled call hcall.1 hcall.2
  rw [← hs] at hpost hout
  refine ⟨?_, hout⟩
  rw [← hpost, scheduled_time]

/-- **The answers of a run are those of the reference.** -/
theorem settled_eq {value : α} {calls : List (Nat × Call α)} (h : Scheduled.Ordered calls) :
    settled (Trace.transcript (step accepts) (init value) calls) =
      Trace.transcript (Reference.step accepts) (Scheduled.start value) calls :=
  (Trace.simulation (R := fun self s => s = Delayed.scheduled self s.time)
    (E := fun s (call : Nat × Call α) => s.time ≤ call.1 ∧ 0 < call.1)
    (f := fun (call : Nat × Call α) answer => settle call.1 answer) step_simulates calls
    (scheduled_init value).symm (reference_behind (Scheduled.upcoming_start value) rfl h)).2

/-- Calls to `applyPending` can be left out. -/
theorem settled_filter {value : α} {calls : List (Nat × Call α)} (h : Scheduled.Ordered calls) :
    (settled (Trace.transcript (step accepts) (init value) calls)).filter (!·.1.2.isApply) =
      settled (Trace.transcript (step accepts) (init value) (calls.filter (!·.2.isApply))) := by
  have hfiltered : Scheduled.Ordered (calls.filter (!·.2.isApply)) :=
    ⟨fun call hcall => h.positive _ (List.mem_of_mem_filter hcall), h.sorted.filter _⟩
  rw [settled_eq h, settled_eq hfiltered]
  have hsilent : ∀ s (call : Nat × Call α), call.2.isApply = true →
      (Reference.act accepts s call).1 = s := by
    rintro s ⟨number, call⟩ hsilent
    cases call with
    | applyPending => rfl
    | schedule | current | pending => cases hsilent
  exact (Reference.keeps_act accepts).transcript_filter hsilent calls (Scheduled.upcoming_start value)
    le_rfl (fun call _ => Nat.zero_le _) h.sorted

/-- What the calls have scheduled last, unless it has been applied since. -/
def note (accepts : α → Except Error PUnit) (scheduled : Option (α × Nat)) (call : Nat × Call α) :
    Option (α × Nat) :=
  match call.2 with
  | .schedule newValue governanceDelay =>
      match (do accepts newValue; Reference.activation call.1 governanceDelay) with
      | .ok activeAt => some (newValue, activeAt)
      | .error _ => scheduled
  | .applyPending => scheduled.filter (call.1 < ·.2)
  | _ => scheduled

theorem pending_eq : self.pending = self.next.getD (0, 0) := by
  unfold pending next
  split <;> rfl

theorem next_step (call : Nat × Call α) (hpositive : 0 < call.1) :
    (step accepts self call).1.next = note accepts self.next call := by
  obtain ⟨number, call⟩ := call
  cases call with
  | schedule newValue governanceDelay =>
      unfold step note
      dsimp only
      rw [schedule_eq]
      cases accepts newValue with
      | error error => rfl
      | ok u =>
          cases hactive : Reference.activation number governanceDelay with
          | error error => rfl
          | ok activeAt =>
              have hne : activeAt ≠ 0 := by
                have := activation_ok hactive
                omega
              exact if_neg hne
  | applyPending =>
      show (self.applyPending number).1.next = self.next.filter (number < ·.2)
      unfold applyPending next
      by_cases hzero : self.pendingActiveAt = 0
      · rw [if_pos (Or.inl hzero), if_pos hzero]
        rfl
      · by_cases hdue : self.pendingActiveAt ≤ number
        · rw [if_neg (not_or.mpr ⟨hzero, Nat.not_lt.mpr hdue⟩), if_neg hzero]
          exact (if_neg fun h => Nat.not_lt.mpr hdue (of_decide_eq_true h)).symm
        · have hlater := Nat.lt_of_not_le hdue
          rw [if_pos (Or.inr hlater), if_neg hzero]
          exact (if_pos (decide_eq_true hlater)).symm
  | current => rfl
  | pending => rfl

/-- `pending` answers what was scheduled last and has not been applied since. -/
theorem pending_final (calls : List (Nat × Call α)) (hpositive : ∀ call ∈ calls, 0 < call.1) :
    (Trace.final (step accepts) self calls).pending = (calls.foldl (note accepts) self.next).getD (0, 0) := by
  induction calls generalizing self with
  | nil => exact pending_eq
  | cons call calls ih =>
      rw [Trace.final_cons, List.foldl_cons, ← next_step call (hpositive _ List.mem_cons_self)]
      exact ih fun later hlater => hpositive _ (List.mem_cons_of_mem _ hlater)

end Delayed

/-! ### The bond configuration -/

namespace BondConfig

/-- The calls of a bond configuration. -/
inductive Call where
  | schedule (newBondMultiplier newSlashingMultiplier governanceDelay : BitVec 32)
  | applyPending
  | currentMultiplier
  | currentSlashingMultiplier
  | pending
deriving DecidableEq, Repr

/-- What a call answers: one multiplier, or what both are. -/
inductive Answer where
  | multiplier (multiplier : Nat)
  | pair (answer : Delayed.Answer Multipliers)
deriving DecidableEq

def pairOf (bondMultiplier slashingMultiplier : BitVec 32) : Multipliers :=
  ⟨bondMultiplier.toNat, slashingMultiplier.toNat⟩

/-- What is required of a new pair. -/
def allowed (pair : Multipliers) : Except Error PUnit.{1} :=
  check pair.bondMultiplier pair.slashingMultiplier

/-- A call at a block. -/
def Slot.step (self : Slot) (input : Nat × Call) : Slot × Answer :=
  match input.2 with
  | .schedule newBondMultiplier newSlashingMultiplier governanceDelay =>
      match self.schedule input.1 newBondMultiplier newSlashingMultiplier governanceDelay with
      | .ok (self, activeAt) => (self, .pair (.scheduled (.ok activeAt.toNat)))
      | .error error => (self, .pair (.scheduled (.error error)))
  | .applyPending =>
      let (self, bondMultiplier, slashingMultiplier) := self.applyPending input.1
      (self, .pair (.value (pairOf bondMultiplier slashingMultiplier)))
  | .currentMultiplier => (self, .multiplier (self.currentMultiplier input.1).toNat)
  | .currentSlashingMultiplier => (self, .multiplier (self.currentSlashingMultiplier input.1).toNat)
  | .pending =>
      let (bondMultiplier, slashingMultiplier, activeAt) := self.pending
      (self, .pair (.pending (pairOf bondMultiplier slashingMultiplier) activeAt.toNat))

/-- The call, as one of a delayed pair. -/
def Call.delayed : Call → Delayed.Call Multipliers
  | .schedule newBondMultiplier newSlashingMultiplier governanceDelay =>
      .schedule (pairOf newBondMultiplier newSlashingMultiplier) governanceDelay.toNat
  | .applyPending => .applyPending
  | .currentMultiplier | .currentSlashingMultiplier => .current
  | .pending => .pending

/-- What the call answers of that which a delayed pair does. -/
def Call.part : Call → Delayed.Answer Multipliers → Answer
  | .currentMultiplier, .value pair => .multiplier pair.bondMultiplier
  | .currentSlashingMultiplier, .value pair => .multiplier pair.slashingMultiplier
  | _, answer => .pair answer

/-- An answer at a block, without a change that is due. -/
def settle (number : Nat) : Answer → Answer
  | .multiplier multiplier => .multiplier multiplier
  | .pair answer => .pair (Delayed.settle number answer)

theorem part_pending (call : Call) (value : Multipliers) (activeAt : Nat) :
    call.part (.pending value activeAt) = .pair (.pending value activeAt) := by
  cases call <;> rfl

theorem settle_part (number : Nat) (call : Call) (answer : Delayed.Answer Multipliers) :
    settle number (call.part answer) = call.part (Delayed.settle number answer) := by
  cases answer with
  | scheduled activeAt => cases call <;> rfl
  | value value => cases call <;> rfl
  | pending value activeAt =>
      rw [part_pending]
      show Answer.pair (Delayed.settle number (.pending value activeAt)) = _
      unfold Delayed.settle
      dsimp only
      split <;> rw [part_pending]

/-! ### The slot is a delayed pair -/

namespace Slot

variable (self : Slot) (number : Nat)

/-- The configuration that the oracle is modelled with. -/
def config : BondConfig where
  value := pairOf self.bondMultiplier self.slashingMultiplier
  pendingActiveAt := self.pendingActiveAt.toNat
  pendingValue := pairOf self.pendingBondMultiplier self.pendingSlashingMultiplier

theorem toNat_eq_zero {n : Nat} {v : BitVec n} : v.toNat = 0 ↔ v = 0 := by
  rw [← BitVec.toNat_inj]
  rfl

theorem config_applyPending : (self.applyPending number).1.config = (self.config.applyPending number).1 ∧
    pairOf (self.applyPending number).2.1 (self.applyPending number).2.2 =
      (self.config.applyPending number).2 := by
  have hzero : self.config.pendingActiveAt = 0 ↔ self.pendingActiveAt = 0 := toNat_eq_zero
  have hlater : number < self.config.pendingActiveAt ↔ number < self.pendingActiveAt.toNat := Iff.rfl
  unfold applyPending Delayed.applyPending
  dsimp only
  by_cases h : self.pendingActiveAt = 0 ∨ number < self.pendingActiveAt.toNat
  · rw [if_pos h, if_pos (by rwa [hzero, hlater])]
    exact ⟨rfl, rfl⟩
  · rw [if_neg h, if_neg (by rwa [hzero, hlater])]
    exact ⟨rfl, rfl⟩

theorem config_current : pairOf (self.currentMultiplier number) (self.currentSlashingMultiplier number) =
    self.config.current number := by
  have hzero : self.config.pendingActiveAt = 0 ↔ self.pendingActiveAt = 0 := toNat_eq_zero
  have hdue : self.config.pendingActiveAt ≤ number ↔ self.pendingActiveAt.toNat ≤ number := Iff.rfl
  unfold currentMultiplier currentSlashingMultiplier Delayed.current
  dsimp only
  by_cases h : self.pendingActiveAt ≠ 0 ∧ self.pendingActiveAt.toNat ≤ number
  · rw [if_pos h, if_pos h, if_pos (by rwa [Ne, hzero, hdue])]
    rfl
  · rw [if_neg h, if_neg h, if_neg (by rwa [Ne, hzero, hdue])]
    rfl

theorem config_pending : (pairOf self.pending.1 self.pending.2.1, self.pending.2.2.toNat) =
    self.config.pending := by
  have hzero : self.config.pendingActiveAt = 0 ↔ self.pendingActiveAt = 0 := toNat_eq_zero
  unfold pending Delayed.pending
  dsimp only
  by_cases h : self.pendingActiveAt = 0
  · rw [if_pos h, if_pos (hzero.mpr h)]
    rfl
  · rw [if_neg h, if_neg fun heq => h (hzero.mp heq)]
    rfl

theorem config_schedule {newBondMultiplier newSlashingMultiplier governanceDelay : BitVec 32} :
    (self.schedule number newBondMultiplier newSlashingMultiplier governanceDelay).map
        (fun result => (result.1.config, result.2.toNat)) =
      BondConfig.schedule self.config number newBondMultiplier.toNat newSlashingMultiplier.toNat
        governanceDelay.toNat := by
  unfold schedule BondConfig.schedule
  cases check newBondMultiplier.toNat newSlashingMultiplier.toNat with
  | error error => rfl
  | ok u =>
      have hsettled : (self.applyPending number).1.config.value =
          (self.config.applyPending number).1.value := by rw [(config_applyPending self number).1]
      unfold Delayed.schedule
      dsimp only [bind, Except.bind]
      cases checkedAdd 256 number governanceDelay.toNat Error.arithmetic with
      | error error => rfl
      | ok wide =>
          dsimp only
          cases hnarrow : toUint 64 wide Error.safeCast with
          | error error => rfl
          | ok narrow =>
              obtain ⟨hlt, rfl⟩ := toUint_ok.mp hnarrow
              have hactive : (BitVec.ofNat 64 wide).toNat = wide := by
                rw [BitVec.toNat_ofNat, Nat.mod_eq_of_lt hlt]
              show Except.ok (Delayed.mk (self.applyPending number).1.config.value
                (BitVec.ofNat 64 wide).toNat _, (BitVec.ofNat 64 wide).toNat) = Except.ok (Delayed.mk _ _ _, _)
              rw [hsettled, hactive]
              rfl

/-- **A call does to the slot what it does to a delayed pair, and is answered a part of the same.** -/
theorem step_config (self : Slot) (call : Nat × Call) :
    (step self call).1.config = (Delayed.step allowed self.config (call.1, call.2.delayed)).1 ∧
      (step self call).2 = call.2.part (Delayed.step allowed self.config (call.1, call.2.delayed)).2 := by
  obtain ⟨number, call⟩ := call
  cases call with
  | schedule newBondMultiplier newSlashingMultiplier governanceDelay =>
      have hschedule : (do
          allowed (pairOf newBondMultiplier newSlashingMultiplier)
          Delayed.schedule self.config number (pairOf newBondMultiplier newSlashingMultiplier)
            governanceDelay.toNat) =
          (self.schedule number newBondMultiplier newSlashingMultiplier governanceDelay).map
            (fun result => (result.1.config, result.2.toNat)) := (config_schedule self number).symm
      unfold step Call.delayed Delayed.step
      dsimp only
      rw [hschedule]
      cases self.schedule number newBondMultiplier newSlashingMultiplier governanceDelay with
      | error error => exact ⟨rfl, rfl⟩
      | ok result => exact ⟨rfl, rfl⟩
  | applyPending =>
      obtain ⟨hpost, hvalue⟩ := config_applyPending self number
      exact ⟨hpost, congrArg (Answer.pair ∘ .value) hvalue⟩
  | currentMultiplier =>
      exact ⟨rfl, congrArg (fun pair : Multipliers => Answer.multiplier pair.bondMultiplier)
        (config_current self number)⟩
  | currentSlashingMultiplier =>
      exact ⟨rfl, congrArg (fun pair : Multipliers => Answer.multiplier pair.slashingMultiplier)
        (config_current self number)⟩
  | pending =>
      exact ⟨rfl, congrArg (fun pending : Multipliers × Nat => Answer.pair (.pending pending.1 pending.2))
        (config_pending self)⟩

/-! ### Runs -/

/-- A call of the reference at the block that is reached. -/
def act (s : Scheduled Multipliers) (input : Nat × Call) : Scheduled Multipliers × Answer :=
  let result := Reference.act allowed s (input.1, input.2.delayed)
  (result.1, input.2.part result.2)

/-- A call of the reference, after the blocks up to its own. -/
def reference : Scheduled Multipliers → Nat × Call → Scheduled Multipliers × Answer :=
  Scheduled.clocked act

theorem keeps_act : Scheduled.Keeps act where
  time s input := (Reference.keeps_act allowed).time s (input.1, input.2.delayed)
  upcoming s input := (Reference.keeps_act allowed).upcoming s (input.1, input.2.delayed)

/-- The calls of a run with their answers, without changes that are due. -/
def settled (transcript : List ((Nat × Call) × Answer)) : List ((Nat × Call) × Answer) :=
  transcript.map fun x => (x.1, settle x.1.1 x.2)

variable {self} {calls : List (Nat × Call)}

theorem step_simulates (self : Slot) (s : Scheduled Multipliers) (call : Nat × Call)
    (hs : s = self.config.scheduled s.time) (hcall : s.time ≤ call.1 ∧ 0 < call.1) :
    (reference s call).1 = (step self call).1.config.scheduled (reference s call).1.time ∧
      settle call.1 (step self call).2 = (reference s call).2 := by
  obtain ⟨hpost, hout⟩ := step_config self call
  obtain ⟨hpost', hout'⟩ := Delayed.step_simulates self.config s (call.1, call.2.delayed) hs hcall
  rw [hpost, hout, settle_part, hout']
  exact ⟨hpost', rfl⟩

/-- **The answers of a run are those of the reference.** -/
theorem settled_eq (h : Scheduled.Ordered calls) {value : Multipliers}
    (hself : self.config = Delayed.init value) :
    settled (Trace.transcript step self calls) =
      Trace.transcript reference (Scheduled.start value) calls := by
  have hstart : Scheduled.start value = self.config.scheduled 0 := by
    rw [hself]
    rfl
  refine (Trace.simulation (R := fun (self : Slot) s => s = self.config.scheduled s.time)
    (E := fun s (call : Nat × Call) => s.time ≤ call.1 ∧ 0 < call.1)
    (f := fun (call : Nat × Call) answer => settle call.1 answer) step_simulates calls hstart ?_).2
  intro st hst
  have hbehind := keeps_act.time_le calls (Scheduled.upcoming_start value)
    (fun call _ => Nat.zero_le call.1) h.sorted st hst
  exact ⟨hbehind.2, h.positive _ (Trace.input_mem hst)⟩

/-- Calls to `applyPending`. -/
def isApply (call : Call) : Bool := call.delayed.isApply

/-- Calls to `applyPending` can be left out. -/
theorem settled_filter (h : Scheduled.Ordered calls) {value : Multipliers}
    (hself : self.config = Delayed.init value) :
    (settled (Trace.transcript step self calls)).filter (!isApply ·.1.2) =
      settled (Trace.transcript step self (calls.filter (!isApply ·.2))) := by
  have hfiltered : Scheduled.Ordered (calls.filter (!isApply ·.2)) :=
    ⟨fun call hcall => h.positive _ (List.mem_of_mem_filter hcall), h.sorted.filter _⟩
  rw [settled_eq h hself, settled_eq hfiltered hself]
  have hsilent : ∀ s (call : Nat × Call), isApply call.2 = true → (act s call).1 = s := by
    rintro s ⟨number, call⟩ hsilent
    cases call with
    | applyPending => rfl
    | schedule | currentMultiplier | currentSlashingMultiplier | pending => cases hsilent
  exact keeps_act.transcript_filter hsilent calls (Scheduled.upcoming_start value) le_rfl
    (fun call _ => Nat.zero_le _) h.sorted

/-- A run of the slot is one of the delayed pair. -/
theorem final_config (calls : List (Nat × Call)) : ∀ self : Slot,
    (Trace.final step self calls).config =
      Trace.final (Delayed.step allowed) self.config (calls.map fun call => (call.1, call.2.delayed)) := by
  induction calls with
  | nil => exact fun _ => rfl
  | cons call calls ih =>
      intro self
      rw [List.map_cons, Trace.final_cons, Trace.final_cons, ← (step_config self call).1]
      exact ih _

/-- The pairs that the calls have scheduled. -/
def pairs (calls : List (Nat × Call)) : List Multipliers :=
  calls.filterMap fun call =>
    match call.2 with
    | .schedule newBondMultiplier newSlashingMultiplier _ =>
        some (pairOf newBondMultiplier newSlashingMultiplier)
    | _ => none

/-- The slashing multiplier is positive and not above the bond multiplier. -/
def Allowed (pair : Multipliers) : Prop :=
  0 < pair.slashingMultiplier ∧ pair.slashingMultiplier ≤ pair.bondMultiplier

theorem allowed_ok {pair : Multipliers} {u : PUnit.{1}} (h : allowed pair = .ok u) : Allowed pair := by
  unfold allowed check at h
  obtain ⟨_, -, h⟩ := bind_eq_ok.mp h
  have hpair := Bool.and_eq_true_iff.mp (require_eq_ok.mp h)
  exact ⟨of_decide_eq_true hpair.1, of_decide_eq_true hpair.2⟩

/-- The pairs of a slot stay among those that are required, if the scheduled ones are. -/
theorem valid_step {P : Multipliers → Prop} (h : Delayed.Valid P self.config) (call : Nat × Call)
    (hcall : ∀ pair ∈ pairs [call], Allowed pair → P pair) :
    Delayed.Valid P (step self call).1.config := by
  rw [(step_config self call).1]
  obtain ⟨number, call⟩ := call
  cases call with
  | schedule newBondMultiplier newSlashingMultiplier governanceDelay =>
      unfold Call.delayed Delayed.step
      dsimp only
      cases hschedule : (do
          allowed (pairOf newBondMultiplier newSlashingMultiplier)
          Delayed.schedule self.config number (pairOf newBondMultiplier newSlashingMultiplier)
            governanceDelay.toNat) with
      | error error => exact h
      | ok result =>
          obtain ⟨u, hallowed, hschedule⟩ := bind_eq_ok.mp hschedule
          exact h.schedule (hcall _ List.mem_cons_self (allowed_ok hallowed)) hschedule
  | applyPending => exact (h.applyPending number).1
  | currentMultiplier | currentSlashingMultiplier | pending => exact h

theorem valid_final {P : Multipliers → Prop} (calls : List (Nat × Call)) :
    ∀ {self : Slot}, Delayed.Valid P self.config → (∀ pair ∈ pairs calls, Allowed pair → P pair) →
      Delayed.Valid P (Trace.final step self calls).config := by
  induction calls with
  | nil => exact fun h _ => h
  | cons call calls ih =>
      intro self h hpairs
      have hsplit : pairs (call :: calls) = pairs [call] ++ pairs calls := by
        unfold pairs
        rw [← List.filterMap_append, List.singleton_append]
      rw [hsplit] at hpairs
      refine ih (valid_step h call fun pair hpair => ?_) fun pair hpair => ?_
      · exact hpairs pair (List.mem_append_left _ hpair)
      · exact hpairs pair (List.mem_append_right _ hpair)

/-- **The multipliers read at a block are one of the scheduled pairs.** -/
theorem current_of_pairs {value : Multipliers} (hself : self.config = Delayed.init value)
    (hvalue : Allowed value) (calls : List (Nat × Call)) (number : Nat) :
    ∃ pair ∈ value :: pairs calls, Allowed pair ∧
      pair = pairOf ((Trace.final step self calls).currentMultiplier number)
        ((Trace.final step self calls).currentSlashingMultiplier number) := by
  have hinit : Delayed.Valid (fun pair => pair ∈ value :: pairs calls ∧ Allowed pair) self.config := by
    rw [hself]
    exact Delayed.valid_init ⟨List.mem_cons_self, hvalue⟩
  have hvalid := valid_final calls hinit fun pair hpair hallowed =>
    ⟨List.mem_cons_of_mem _ hpair, hallowed⟩
  refine ⟨(Trace.final step self calls).config.current number, ?_⟩
  rw [config_current, ← and_assoc]
  refine ⟨?_, rfl⟩
  unfold Delayed.current
  split
  · next hdue => exact hvalid.2 hdue.1
  · exact hvalid.1

/-- What a run has scheduled last, unless it has been applied since. -/
theorem pending_final (calls : List (Nat × Call)) (hpositive : ∀ call ∈ calls, 0 < call.1)
    {value : Multipliers} (hself : self.config = Delayed.init value) :
    let pending := (Trace.final step self calls).pending
    (pairOf pending.1 pending.2.1, pending.2.2.toNat) =
      ((calls.map fun call => (call.1, call.2.delayed)).foldl (Delayed.note allowed) none).getD (0, 0) := by
  intro pending
  refine (config_pending _).trans ?_
  rw [final_config, hself]
  refine Delayed.pending_final _ fun call hcall => ?_
  obtain ⟨call', hcall', rfl⟩ := List.mem_map.mp hcall
  exact hpositive _ hcall'

/-- A slot that was set up holds the initial pair. -/
theorem config_init {initialBondMultiplier initialSlashingMultiplier : BitVec 32}
    (h : zero.init initialBondMultiplier initialSlashingMultiplier = .ok self) :
    self.config = Delayed.init (pairOf initialBondMultiplier initialSlashingMultiplier) ∧
      Allowed (pairOf initialBondMultiplier initialSlashingMultiplier) := by
  obtain ⟨u, hcheck, h⟩ := bind_eq_ok.mp h
  rw [← pure_eq_ok.mp h]
  exact ⟨rfl, allowed_ok hcheck⟩

end Slot

end BondConfig

/-! ### Lazy parameters -/

/-- Every new value is accepted. -/
def accepted {α : Type} (_ : α) : Except Error PUnit.{1} := .ok ⟨⟩

/--
**Parameters that are looked at when they are used are those that change by themselves.**

The answers of a delayed parameter are those of the reference, whether calls to `applyPending` come in
between or not, once a change that is due is left out of what `pending` answers: there it is named until
it is applied.  The same holds of the bond configuration, whose multipliers are always one allowed pair.
-/
theorem lazy_parameters_are_eager :
    (∀ (α : Type) [Zero α] (value : α) (calls : List (Nat × Delayed.Call α)), Scheduled.Ordered calls →
      let transcript := Trace.transcript (Delayed.step accepted) (Delayed.init value)
      Delayed.settled (transcript calls) =
          Trace.transcript (Reference.step accepted) (Scheduled.start value) calls ∧
        (Delayed.settled (transcript calls)).filter (!·.1.2.isApply) =
          Delayed.settled (transcript (calls.filter (!·.2.isApply))) ∧
        (Trace.final (Delayed.step accepted) (Delayed.init value) calls).pending =
          (calls.foldl (Delayed.note accepted) none).getD (0, 0)) ∧
    (∀ (initialBondMultiplier initialSlashingMultiplier : BitVec 32) (slot : BondConfig.Slot),
      BondConfig.Slot.zero.init initialBondMultiplier initialSlashingMultiplier = .ok slot →
      ∀ calls : List (Nat × BondConfig.Call), Scheduled.Ordered calls →
        let initial := BondConfig.pairOf initialBondMultiplier initialSlashingMultiplier
        let transcript := Trace.transcript BondConfig.Slot.step slot
        let last := Trace.final BondConfig.Slot.step slot calls
        BondConfig.Slot.settled (transcript calls) =
            Trace.transcript BondConfig.Slot.reference (Scheduled.start initial) calls ∧
          (BondConfig.Slot.settled (transcript calls)).filter (!BondConfig.Slot.isApply ·.1.2) =
            BondConfig.Slot.settled (transcript (calls.filter (!BondConfig.Slot.isApply ·.2))) ∧
          (BondConfig.pairOf last.pending.1 last.pending.2.1, last.pending.2.2.toNat) =
            ((calls.map fun call => (call.1, call.2.delayed)).foldl (Delayed.note BondConfig.allowed)
              none).getD (0, 0) ∧
          ∀ number, ∃ pair ∈ initial :: BondConfig.Slot.pairs calls,
            (0 < pair.slashingMultiplier ∧ pair.slashingMultiplier ≤ pair.bondMultiplier) ∧
              pair = BondConfig.pairOf (last.currentMultiplier number)
                (last.currentSlashingMultiplier number)) := by
  constructor
  · intro α _ value calls h
    refine ⟨Delayed.settled_eq h, Delayed.settled_filter h, ?_⟩
    exact Delayed.pending_final calls h.positive
  · intro initialBondMultiplier initialSlashingMultiplier slot hinit calls h
    obtain ⟨hconfig, hallowed⟩ := BondConfig.Slot.config_init hinit
    refine ⟨BondConfig.Slot.settled_eq h hconfig, BondConfig.Slot.settled_filter h hconfig, ?_, ?_⟩
    · exact BondConfig.Slot.pending_final calls h.positive hconfig
    · exact BondConfig.Slot.current_of_pairs hconfig hallowed calls

/-- A change that is due at once is read before and after it is applied. -/
theorem due_change_is_read :
    Delayed.settled (Trace.transcript (Delayed.step accepted) (Delayed.init 5)
        [(1, .schedule 7 0), (1, .current), (1, .applyPending), (1, .current)]) =
      Trace.transcript (Reference.step accepted) (Scheduled.start 5)
        [(1, .schedule 7 0), (1, .current), (1, .applyPending), (1, .current)] :=
  (lazy_parameters_are_eager.1 Nat 5 _ (by decide)).1

/-- **What `pending` answers depends on whether a change that is due has been applied.** -/
theorem pending_names_due_change :
    ¬∀ (value : Nat) (calls : List (Nat × Delayed.Call Nat)), Scheduled.Ordered calls →
      (Trace.transcript (Delayed.step accepted) (Delayed.init value) calls).filter (!·.1.2.isApply) =
        Trace.transcript (Delayed.step accepted) (Delayed.init value) (calls.filter (!·.2.isApply)) := by
  intro h
  exact absurd (h 5 [(1, .schedule 7 0), (1, .applyPending), (1, .pending)] (by decide)) (by decide)

end Safenet.Contracts
