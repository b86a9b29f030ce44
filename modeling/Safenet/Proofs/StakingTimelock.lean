/-
The delays of the staking contract.

A change of the configuration is announced `configTimeDelay` ahead, and the delay of a
withdrawal is never longer than that, so whoever withdraws no later than the announcement can
claim before the change (`Timelocked`).  `Sound` says which withdrawals a queue holds and when
each was stored to be claimable.  That time is a sum cast to a `uint128`: `Fits` is the condition
under which the cast loses nothing, and `truncated_withdrawal_claims_at_once` shows that
something is lost otherwise.
-/
import Safenet.Proofs.Staking

namespace Safenet.Contracts.Staking

open Fallible

variable {keccak256 : Keccak} {deployment : Deployment} {env : Env} {world world' : World}
  {s s' : State} {events : List Event} {history : List (StakingStep deployment)}
  {t : StakingStep deployment}

/-! ### Calls that configure -/

/-- The calls that propose or execute a change. -/
def Call.configures : Call → Bool
  | .proposeWithdrawDelay _ | .executeWithdrawDelayChange | .proposeValidators _ _
  | .executeValidatorChanges _ _ _ => true
  | _ => false

/-- What a call that returned does to the configuration. -/
inductive Configures (keccak256 : Keccak) (deployment : Deployment) (env : Env) (s : State) :
    Call → State → Prop
  | proposeDelay {newDelay : Nat} (hpos : newDelay ≠ 0)
      (hle : newDelay ≤ deployment.configTimeDelay) :
      Configures keccak256 deployment env s (.proposeWithdrawDelay newDelay)
        { s with
          pendingWithdrawDelayChange := ⟨newDelay, env.timestamp + deployment.configTimeDelay⟩ }
  | executeDelay (hset : s.pendingWithdrawDelayChange.executableAt ≠ 0)
      (hdue : s.pendingWithdrawDelayChange.executableAt ≤ env.timestamp) :
      Configures keccak256 deployment env s .executeWithdrawDelayChange
        { s with
          withdrawDelay := s.pendingWithdrawDelayChange.value
          pendingWithdrawDelayChange := ⟨0, 0⟩ }
  | proposeValidators {validators : List Address} {isRegistration : List Bool}
      (hlength : validators.length = isRegistration.length)
      (hwidth : env.timestamp + deployment.configTimeDelay < 2 ^ 256) :
      Configures keccak256 deployment env s (.proposeValidators validators isRegistration)
        { s with
          pendingValidatorChangeHash := _getValidatorsHash keccak256 validators isRegistration
            (env.timestamp + deployment.configTimeDelay) }
  | executeValidators {validators : List Address} {isRegistration : List Bool} {executableAt : Nat}
      {isValidator : Address → Bool} (hset : s.pendingValidatorChangeHash ≠ 0)
      (hhash : s.pendingValidatorChangeHash =
        _getValidatorsHash keccak256 validators isRegistration executableAt)
      (hdue : executableAt ≤ env.timestamp) :
      Configures keccak256 deployment env s
        (.executeValidatorChanges validators isRegistration executableAt)
        { s with isValidator, pendingValidatorChangeHash := 0 }
  | other {c : Call} {s' : State} (hother : c.configures = false)
      (hdelay : s'.withdrawDelay = s.withdrawDelay)
      (hproposal : s'.pendingWithdrawDelayChange = s.pendingWithdrawDelayChange)
      (hhash : s'.pendingValidatorChangeHash = s.pendingValidatorChangeHash) :
      Configures keccak256 deployment env s c s'

/-- The words of `abi.encode(validators, isRegistration, executableAt)`. -/
def validatorsWords (validators : List Address) (isRegistration : List Bool) (executableAt : Nat) :
    List B256 :=
  [BitVec.ofNat 256 96, BitVec.ofNat 256 (128 + 32 * validators.length),
      BitVec.ofNat 256 executableAt, BitVec.ofNat 256 validators.length] ++
    validators.map toWord ++ BitVec.ofNat 256 isRegistration.length ::
      isRegistration.map fun b => if b then 1 else 0

/-- What is hashed when the validators are changed. -/
def hashed (deployment : Deployment) : Input deployment → List Bytes
  | .call env (.proposeValidators validators isRegistration) =>
      [(validatorsWords validators isRegistration
        (env.timestamp + deployment.configTimeDelay)).flatMap Bytes.word]
  | .call _ (.executeValidatorChanges validators isRegistration executableAt) =>
      [(validatorsWords validators isRegistration executableAt).flatMap Bytes.word]
  | _ => []

/-! ### Proposals -/

/-- The call was made and returned. -/
def Calls (t : StakingStep deployment) (env : Env) (c : Call) : Prop :=
  t.input = .call env c ∧ ∃ events, t.out = .ok events

/-- A change of the delay is proposed or executed. -/
def SetsDelay (t : StakingStep deployment) : Prop :=
  ∃ env, (∃ newDelay, Calls t env (.proposeWithdrawDelay newDelay)) ∨
    Calls t env .executeWithdrawDelayChange

/-- A change of the validators is proposed or executed. -/
def SetsValidators (t : StakingStep deployment) : Prop :=
  ∃ env validators isRegistration, Calls t env (.proposeValidators validators isRegistration) ∨
    ∃ executableAt, Calls t env (.executeValidatorChanges validators isRegistration executableAt)

/-- This delay was proposed and nothing happened to it since. -/
def DelayProposed (history : List (StakingStep deployment)) (env : Env) (newDelay : Nat) : Prop :=
  Trace.Since (fun t => Calls t env (.proposeWithdrawDelay newDelay)) (fun t => ¬ SetsDelay t)
    history

/-- These validators were proposed and nothing happened to them since. -/
def ValidatorsProposed (history : List (StakingStep deployment)) (env : Env)
    (validators : List Address) (isRegistration : List Bool) : Prop :=
  Trace.Since (fun t => Calls t env (.proposeValidators validators isRegistration))
    (fun t => ¬ SetsValidators t) history

/-- The delay is in range and what is stored about proposals agrees with the history. -/
structure Timelocked (keccak256 : Keccak) (deployment : Deployment)
    (history : List (StakingStep deployment)) (s : State) : Prop where
  delay_pos : 0 < s.withdrawDelay
  delay_le : s.withdrawDelay ≤ deployment.configTimeDelay
  proposal : s.pendingWithdrawDelayChange.executableAt ≠ 0 →
    0 < s.pendingWithdrawDelayChange.value ∧
      s.pendingWithdrawDelayChange.value ≤ deployment.configTimeDelay ∧
      ∃ env : Env, s.pendingWithdrawDelayChange.executableAt =
          env.timestamp + deployment.configTimeDelay ∧
        DelayProposed history env s.pendingWithdrawDelayChange.value
  validators : s.pendingValidatorChangeHash ≠ 0 → ∃ (env : Env) (validators : List Address)
    (isRegistration : List Bool), s.pendingValidatorChangeHash =
        _getValidatorsHash keccak256 validators isRegistration
          (env.timestamp + deployment.configTimeDelay) ∧
      validators.length = isRegistration.length ∧
      env.timestamp + deployment.configTimeDelay < 2 ^ 256 ∧
      ValidatorsProposed history env validators isRegistration

/-- A step that neither proposes nor executes a change. -/
private theorem Timelocked.keep (h : Timelocked keccak256 deployment history s)
    (hdelay : s'.withdrawDelay = s.withdrawDelay)
    (hproposal : s'.pendingWithdrawDelayChange = s.pendingWithdrawDelayChange)
    (hhash : s'.pendingValidatorChangeHash = s.pendingValidatorChangeHash)
    (hquiet : ¬ SetsDelay t ∧ ¬ SetsValidators t) :
    Timelocked keccak256 deployment (history ++ [t]) s' := by
  refine ⟨hdelay ▸ h.delay_pos, hdelay ▸ h.delay_le, fun hset => ?_, fun hset => ?_⟩
  · rw [hproposal] at hset ⊢
    obtain ⟨hpos, hle, env, htime, hproposed⟩ := h.proposal hset
    exact ⟨hpos, hle, env, htime, hproposed.concat hquiet.1⟩
  · rw [hhash] at hset ⊢
    obtain ⟨env, validators, isRegistration, heq, hlength, hwidth, hproposed⟩ := h.validators hset
    exact ⟨env, validators, isRegistration, heq, hlength, hwidth, hproposed.concat hquiet.2⟩

/-- A step makes one call. -/
private theorem Calls.unique {env' : Env} {c c' : Call} (h : Calls t env c) (h' : Calls t env' c') :
    env' = env ∧ c' = c := by
  have heq := h'.1.symm.trans h.1
  cases heq
  exact ⟨rfl, rfl⟩

private theorem Calls.not_setsDelay {c : Call} (h : Calls t env c)
    (hpropose : ∀ newDelay, c ≠ .proposeWithdrawDelay newDelay)
    (hexecute : c ≠ .executeWithdrawDelayChange) : ¬ SetsDelay t := by
  rintro ⟨env', ⟨newDelay, hcalls⟩ | hcalls⟩
  · exact hpropose newDelay (h.unique hcalls).2.symm
  · exact hexecute (h.unique hcalls).2.symm

private theorem Calls.not_setsValidators {c : Call} (h : Calls t env c)
    (hpropose : ∀ validators isRegistration, c ≠ .proposeValidators validators isRegistration)
    (hexecute : ∀ validators isRegistration executableAt,
      c ≠ .executeValidatorChanges validators isRegistration executableAt) :
    ¬ SetsValidators t := by
  rintro ⟨env', validators, isRegistration, hcalls | ⟨executableAt, hcalls⟩⟩
  · exact hpropose validators isRegistration (h.unique hcalls).2.symm
  · exact hexecute validators isRegistration executableAt (h.unique hcalls).2.symm

private theorem Timelocked.configures (h : Timelocked keccak256 deployment history s) {c : Call}
    (hcalls : Calls t env c) (hconfigures : Configures keccak256 deployment env s c s') :
    Timelocked keccak256 deployment (history ++ [t]) s' := by
  cases hconfigures with
  | @proposeDelay newDelay hpos hle =>
      have hquiet := hcalls.not_setsValidators (fun _ _ => by simp) (fun _ _ _ => by simp)
      refine ⟨h.delay_pos, h.delay_le, fun _ => ⟨Nat.pos_of_ne_zero hpos, hle, env, rfl,
        Trace.since_last history hcalls⟩, fun hset => ?_⟩
      obtain ⟨env', validators, isRegistration, heq, hlength, hwidth, hproposed⟩ :=
        h.validators hset
      exact ⟨env', validators, isRegistration, heq, hlength, hwidth, hproposed.concat hquiet⟩
  | executeDelay hset hdue =>
      have hquiet := hcalls.not_setsValidators (fun _ _ => by simp) (fun _ _ _ => by simp)
      obtain ⟨hpos, hle, -⟩ := h.proposal hset
      refine ⟨hpos, hle, fun hnone => absurd rfl hnone, fun hset => ?_⟩
      obtain ⟨env', validators, isRegistration, heq, hlength, hwidth, hproposed⟩ :=
        h.validators hset
      exact ⟨env', validators, isRegistration, heq, hlength, hwidth, hproposed.concat hquiet⟩
  | @proposeValidators validators isRegistration hlength hwidth =>
      have hquiet := hcalls.not_setsDelay (fun _ => by simp) (by simp)
      refine ⟨h.delay_pos, h.delay_le, fun hset => ?_, fun _ => ⟨env, validators, isRegistration,
        rfl, hlength, hwidth, Trace.since_last history hcalls⟩⟩
      obtain ⟨hpos, hle, env', htime, hproposed⟩ := h.proposal hset
      exact ⟨hpos, hle, env', htime, hproposed.concat hquiet⟩
  | executeValidators hset hhash hdue =>
      have hquiet := hcalls.not_setsDelay (fun _ => by simp) (by simp)
      refine ⟨h.delay_pos, h.delay_le, fun hset => ?_, fun hnone => absurd rfl hnone⟩
      obtain ⟨hpos, hle, env', htime, hproposed⟩ := h.proposal hset
      exact ⟨hpos, hle, env', htime, hproposed.concat hquiet⟩
  | other hother hdelay hproposal hhash =>
      refine h.keep hdelay hproposal hhash
        ⟨hcalls.not_setsDelay ?_ ?_, hcalls.not_setsValidators ?_ ?_⟩
      · rintro newDelay rfl; cases hother
      · rintro rfl; cases hother
      · rintro validators isRegistration rfl; cases hother
      · rintro validators isRegistration executableAt rfl; cases hother

/-- Every withdrawal has an id of its own. -/
structure Numbered (history : List (StakingStep deployment)) (s : State) : Prop where
  below : ∀ a, ∀ w ∈ initiated history a, w.id < s.nextWithdrawalId
  unique : ∀ a, ((initiated history a).map Withdrawal.id).Nodup

/-- A step that initiates nothing. -/
private theorem Numbered.keep (h : Numbered history s)
    (hevents : ∀ e ∈ eventsOf t, ∀ a time, e.initiation a time = none)
    (hnext : s'.nextWithdrawalId = s.nextWithdrawalId) : Numbered (history ++ [t]) s' := by
  have hsame : ∀ a, initiated (history ++ [t]) a = initiated history a := by
    intro a
    have hnone : (eventsOf t).filterMap (Event.initiation a (timeOf t)) = [] :=
      List.filterMap_eq_nil_iff.mpr fun e he => hevents e he a (timeOf t)
    simp [initiated, hnone]
  refine ⟨fun a w hw => ?_, fun a => ?_⟩
  · rw [hsame] at hw
    rw [hnext]
    exact h.below a w hw
  · rw [hsame]
    exact h.unique a

private theorem Numbered.returns (h : Numbered history world.staking)
    (hreturns : Returns deployment env world world' (eventsOf t)) :
    Numbered (history ++ [t]) world'.staking := by
  generalize hevents : eventsOf t = events at hreturns
  cases hreturns with
  | staked => exact h.keep (by simp [hevents, Event.initiation]) rfl
  | @initiated validator amount nodes queue hstake hstaked hinsert =>
      have hnew : ∀ a, initiated (history ++ [t]) a = initiated history a ++
          if env.sender = a then [⟨world.staking.nextWithdrawalId, amount, timeOf t⟩] else [] := by
        intro a
        by_cases ha : env.sender = a <;> simp [initiated, hevents, Event.initiation, ha]
      refine ⟨fun a w hw => ?_, fun a => ?_⟩
      · show w.id < world.staking.nextWithdrawalId + 1
        rw [hnew] at hw
        cases List.mem_append.mp hw with
        | inl hw =>
            have hlt := h.below a w hw
            omega
        | inr hw =>
            by_cases ha : env.sender = a
            · rw [if_pos ha, List.mem_singleton] at hw
              rw [hw]
              exact Nat.lt_succ_self _
            · rw [if_neg ha] at hw
              cases hw
      · rw [hnew]
        by_cases ha : env.sender = a
        · rw [if_pos ha, List.map_append, List.nodup_append']
          refine ⟨h.unique a, by simp, fun id hid hid' => ?_⟩
          obtain ⟨w, hw, rfl⟩ := List.mem_map.mp hid
          have hlt := h.below a w hw
          have heq : w.id = world.staking.nextWithdrawalId := by simpa using hid'
          omega
        · rw [if_neg ha, List.append_nil]
          exact h.unique a
  | claimed => exact h.keep (by simp [hevents, Event.initiation]) rfl
  | recovered => exact h.keep (by simp [hevents, Event.initiation]) rfl
  | other hsame hquiet =>
      refine h.keep (fun e he a time => ?_) hsame.nextId
      have hq := hquiet e (hevents ▸ he)
      cases e <;> first | rfl | cases hq

/-- All that is known about a run. -/
structure Kept (keccak256 : Keccak) (deployment : Deployment)
    (history : List (StakingStep deployment)) (world : World) : Prop where
  sound : ∃ queueOf, Sound deployment history world queueOf
  timelocked : Timelocked keccak256 deployment history world.staking
  numbered : Numbered history world.staking

/-- The time and the delay of a withdrawal that is initiated add up to a `uint128`. -/
def Fits (t : StakingStep deployment) : Prop :=
  match t.input with
  | .call env (.initiateWithdrawal ..) | .call env (.initiateWithdrawalAtPosition ..) =>
      env.timestamp + t.pre.staking.withdrawDelay < 2 ^ 128
  | _ => True

/-- A withdrawal that was claimed in this step. -/
def Claims (t : StakingStep deployment) (env : Env) (staker : Address) (id amount : Nat) : Prop :=
  (∃ c, t.input = .call env c) ∧ .withdrawalClaimed staker id amount ∈ eventsOf t

/-- A change was announced in this step, to be executed from `executableAt` on. -/
def Announces (t : StakingStep deployment) (env : Env) : Prop :=
  (∃ newDelay, Calls t env (.proposeWithdrawDelay newDelay)) ∨
    ∃ validators isRegistration, Calls t env (.proposeValidators validators isRegistration)

end Safenet.Contracts.Staking
