/-
The sentinel oracle conserves tokens and stays solvent.

`Settles` says what a call about one request does: it leaves every other request alone, and
what the oracle owes for this one changes by exactly the tokens that came in and went out.
Summed over a history this is the conservation law, and as the balance of the oracle follows
the same transfers, it always covers what is owed for all requests together.
-/
import Safenet.Contracts.SentinelOracle
import Safenet.Lib.Trace
import Safenet.Proofs.SentinelOracleRequests

namespace Safenet.Contracts

open Fallible

/-! ### Delayed parameters -/

namespace Delayed

variable {α : Type} [Zero α] {P : α → Prop} {self self' : Delayed α} {number governanceDelay : Nat}

/-- The value in force and a scheduled one are both allowed. -/
def Valid (P : α → Prop) (self : Delayed α) : Prop :=
  P self.value ∧ (self.pendingActiveAt ≠ 0 → P self.pendingValue)

theorem valid_init {value : α} (h : P value) : Valid P (init value) :=
  ⟨h, fun hne => absurd rfl hne⟩

theorem Valid.applyPending (h : Valid P self) (number : Nat) :
    Valid P (self.applyPending number).1 ∧ P (self.applyPending number).2 := by
  unfold Delayed.applyPending
  by_cases hdue : self.pendingActiveAt = 0 ∨ number < self.pendingActiveAt
  · rw [if_pos hdue]
    exact ⟨h, h.1⟩
  · rw [if_neg hdue]
    have hpending := h.2 fun hzero => hdue (.inl hzero)
    exact ⟨⟨hpending, fun hne => absurd rfl hne⟩, hpending⟩

theorem Valid.schedule (h : Valid P self) {value : α} (hvalue : P value) {activeAt : Nat}
    (hok : self.schedule number value governanceDelay = .ok (self', activeAt)) : Valid P self' := by
  unfold Delayed.schedule at hok
  obtain ⟨_, -, hok⟩ := bind_eq_ok.mp hok
  obtain ⟨_, -, hok⟩ := bind_eq_ok.mp hok
  have heq := pure_eq_ok.mp hok
  rw [Prod.mk.injEq] at heq
  obtain ⟨rfl, -⟩ := heq
  exact ⟨(h.applyPending number).1.1, fun _ => hvalue⟩

end Delayed

namespace SentinelOracle

open SentinelOracleRequest SentinelOracleCommitment

variable {keccak256 : Keccak} {deployment : Deployment} {env : Env} {world world' : World}
  {token token' : ERC20.T} {events events₁ events₂ : List Event} {requestId : B256}

/-! ### Tokens in and out -/

/-- The tokens a transfer brings to the oracle. -/
def received (deployment : Deployment) : Event → Nat
  | .transfer source recipient value =>
      if recipient = deployment.this ∧ source ≠ deployment.this then value else 0
  | _ => 0

/-- The tokens a transfer takes from the oracle. -/
def sent (deployment : Deployment) : Event → Nat
  | .transfer source _ value => if source = deployment.this then value else 0
  | _ => 0

def inflow (deployment : Deployment) (events : List Event) : Nat :=
  (events.map (received deployment)).sum

def outflow (deployment : Deployment) (events : List Event) : Nat :=
  (events.map (sent deployment)).sum

theorem inflow_append : inflow deployment (events₁ ++ events₂) =
    inflow deployment events₁ + inflow deployment events₂ := by
  simp [inflow]

theorem outflow_append : outflow deployment (events₁ ++ events₂) =
    outflow deployment events₁ + outflow deployment events₂ := by
  simp [outflow]

/-- The token followed the transfers, and the oracle allows nobody to spend. -/
structure Moved (deployment : Deployment) (token token' : ERC20.T) (events : List Event) :
    Prop where
  allowance : ∀ spender, token'.allowances deployment.this spender = 0
  balance : token.balances deployment.this + inflow deployment events ≤
    token'.balances deployment.this + outflow deployment events

theorem Moved.none (h : ∀ spender, token.allowances deployment.this spender = 0)
    (hin : inflow deployment events = 0) : Moved deployment token token events :=
  ⟨h, by omega⟩

theorem Moved.trans {token₁ : ERC20.T} (h₁ : Moved deployment token token₁ events₁)
    (h₂ : Moved deployment token₁ token' events₂) :
    Moved deployment token token' (events₁ ++ events₂) := by
  refine ⟨h₂.allowance, ?_⟩
  have hb₁ := h₁.balance
  have hb₂ := h₂.balance
  rw [inflow_append, outflow_append]
  omega

theorem pay_ok {recipient : Address} {value : Nat}
    (hnone : ∀ spender, token.allowances deployment.this spender = 0)
    (h : pay deployment token recipient value = .ok (token', events)) :
    Moved deployment token token' events ∧ inflow deployment events = 0 ∧
      outflow deployment events = value := by
  unfold pay at h
  obtain ⟨_, htoken, h⟩ := bind_eq_ok.mp h
  rw [mapError_eq_ok] at htoken
  have heq := pure_eq_ok.mp h
  rw [Prod.mk.injEq] at heq
  obtain ⟨rfl, rfl⟩ := heq
  obtain ⟨hmoved, hallowances⟩ := ERC20.move_ok htoken
  have hin : inflow deployment [.transfer deployment.this recipient value] = 0 := by
    simp [inflow, received]
  have hout : outflow deployment [.transfer deployment.this recipient value] = value := by
    simp [outflow, sent]
  refine ⟨⟨by rw [hallowances]; exact hnone, ?_⟩, hin, hout⟩
  have hthis := hmoved deployment.this
  rw [if_pos rfl] at hthis
  rw [hin, hout]
  omega

theorem payPositive_ok {recipient : Address} {value : Nat}
    (hnone : ∀ spender, token.allowances deployment.this spender = 0)
    (h : payPositive deployment token recipient value = .ok (token', events)) :
    Moved deployment token token' events ∧ inflow deployment events = 0 ∧
      outflow deployment events = value := by
  unfold payPositive at h
  by_cases hpos : 0 < value
  · rw [if_pos hpos] at h
    exact pay_ok hnone h
  · rw [if_neg hpos, Except.ok.injEq, Prod.mk.injEq] at h
    obtain ⟨rfl, rfl⟩ := h
    refine ⟨Moved.none hnone rfl, rfl, ?_⟩
    show 0 = value
    omega

theorem collect_ok {source : Address} {value : Nat}
    (hnone : ∀ spender, token.allowances deployment.this spender = 0)
    (h : collect deployment token source value = .ok (token', events)) :
    Moved deployment token token' events ∧ inflow deployment events = value ∧
      outflow deployment events = 0 := by
  unfold collect at h
  obtain ⟨_, htoken, h⟩ := bind_eq_ok.mp h
  rw [mapError_eq_ok] at htoken
  have heq := pure_eq_ok.mp h
  rw [Prod.mk.injEq] at heq
  obtain ⟨rfl, rfl⟩ := heq
  obtain ⟨hmoved, hzero, hother⟩ := ERC20.transferFrom_ok htoken
  have hthis := hmoved deployment.this
  rw [if_pos rfl] at hthis
  by_cases hsource : source = deployment.this
  · -- the oracle allows nobody to spend, not even itself
    subst hsource
    obtain ⟨rfl, hallowances⟩ := hzero (hnone _)
    refine ⟨⟨by rw [hallowances]; exact hnone, ?_⟩, by simp [inflow, received],
      by simp [outflow, sent]⟩
    rw [if_pos rfl] at hthis
    simp [inflow, outflow, received, sent, hthis]
  · have hin : inflow deployment [.transfer source deployment.this value] = value := by
      simp [inflow, received, hsource]
    have hout : outflow deployment [.transfer source deployment.this value] = 0 := by
      simp [outflow, sent, hsource]
    refine ⟨⟨?_, ?_⟩, hin, hout⟩
    · rw [hother deployment.this (Ne.symm hsource)]
      exact hnone
    · rw [if_neg (Ne.symm hsource)] at hthis
      rw [hin, hout]
      omega

/-- The parameters governance sets are in range. -/
structure ConfigOK (s : State) : Prop where
  fee : Delayed.Valid (fun fee => 0 < fee ∧ fee < 2 ^ 96) s.feeConfig
  multipliers : Delayed.Valid (fun m : Multipliers => 0 < m.slashingMultiplier ∧
    m.slashingMultiplier ≤ m.bondMultiplier ∧ m.bondMultiplier < 2 ^ 32) s.bondConfig
  share : Delayed.Valid (fun share => share ≤ 100000) s.daoFeeShareConfig

/-- Every request agrees with its commitments. -/
structure OracleOK (deployment : Deployment) (world : World) : Prop where
  config : ConfigOK world.oracle
  requests : ∀ r, RequestOK (world.oracle.requests r) (world.oracle.commitments r)
  allowance : ∀ spender, world.token.allowances deployment.this spender = 0

/-- What the oracle holds for a request. -/
def owedFor (s : State) (r : B256) : Nat := owed (s.requests r) (s.commitments r)

/-- A call about one request. -/
structure Settles (deployment : Deployment) (world world' : World) (events : List Event)
    (r : B256) : Prop where
  config : ConfigOK world'.oracle
  request : RequestOK (world'.oracle.requests r) (world'.oracle.commitments r)
  frame : ∀ q, q ≠ r → world'.oracle.requests q = world.oracle.requests q ∧
    world'.oracle.commitments q = world.oracle.commitments q
  conserves : owedFor world.oracle r + inflow deployment events =
    owedFor world'.oracle r + outflow deployment events
  moved : Moved deployment world.token world'.token events

variable {request : SentinelOracleRequest.T} {commitments : SentinelOracleCommitmentMap.T}

/-- A call that stores one request and its commitments. -/
private theorem settles_store (request : SentinelOracleRequest.T)
    (commitments : SentinelOracleCommitmentMap.T)
    (hrequests : world'.oracle.requests = Function.update world.oracle.requests requestId request)
    (hcommitments : world'.oracle.commitments =
      Function.update world.oracle.commitments requestId commitments)
    (hconfig : ConfigOK world'.oracle) (hok : RequestOK request commitments)
    (hconserves : owedFor world.oracle requestId + inflow deployment events =
      owed request commitments + outflow deployment events)
    (hmoved : Moved deployment world.token world'.token events) :
    Settles deployment world world' events requestId where
  config := hconfig
  request := by rw [hrequests, hcommitments, Function.update_self, Function.update_self]; exact hok
  frame := fun q hq => by
    rw [hrequests, hcommitments, Function.update_of_ne hq, Function.update_of_ne hq]
    exact ⟨rfl, rfl⟩
  conserves := by
    rw [hconserves, owedFor, hrequests, hcommitments, Function.update_self, Function.update_self]
  moved := hmoved

private theorem get_ok {requests : SentinelOracleRequestMap.T}
    (h : SentinelOracleRequestMap.get requests requestId = .ok request) :
    request = requests requestId := by
  unfold SentinelOracleRequestMap.get at h
  obtain ⟨_, -, h⟩ := bind_eq_ok.mp h
  exact (pure_eq_ok.mp h).symm

/-- A new request holds its fee. -/
private theorem create_ok {requests requests' : SentinelOracleRequestMap.T} {number : Nat}
    {sponsor : Address}
    {fee bondTarget daoFeeShare slashAmount commitDeadline revealDeadline : Nat}
    (h : SentinelOracleRequestMap.create requests number requestId sponsor fee bondTarget
      daoFeeShare slashAmount commitDeadline revealDeadline = .ok requests')
    (hok : RequestOK (requests requestId) commitments) (hfee : fee ≤ slashAmount)
    (hslash : slashAmount ≤ bondTarget) (hbond : bondTarget < 2 ^ 96)
    (hshare : daoFeeShare ≤ 100000) :
    ∃ request, requests' = Function.update requests requestId request ∧
      RequestOK request commitments ∧ owed (requests requestId) commitments = 0 ∧
      owed request commitments = fee := by
  unfold SentinelOracleRequestMap.create at h
  obtain ⟨_, hnone, h⟩ := bind_eq_ok.mp h
  obtain ⟨_, -, h⟩ := bind_eq_ok.mp h
  obtain ⟨_, -, h⟩ := bind_eq_ok.mp h
  rw [require_eq_ok, decide_eq_true_eq] at hnone
  have habsent := hok.absent hnone
  have hdue : ∀ request : SentinelOracleRequest.T,
      ∑ a, due request (commitments a) = 0 := fun request =>
    Finset.sum_eq_zero fun a _ => if_pos (.inl (habsent a))
  have hvotes : ∀ vote, vote ≠ .none → votes commitments vote = 0 := fun vote hvote =>
    Finset.sum_eq_zero fun a _ => if_neg (by rw [habsent a]; exact Ne.symm hvote)
  have hside : ∀ side, votes commitments (sideVote side) = 0 := fun side =>
    hvotes _ (by cases side <;> simp [sideVote])
  have hempty : ∀ a, commitments a = SentinelOracleCommitment.empty := fun a =>
    hok.blank a (habsent a)
  refine ⟨_, (pure_eq_ok.mp h).symm, ?_, ?_, ?_⟩
  · refine ⟨fun _ => habsent, hok.blank, fun a ha => absurd (habsent a) ha, ?_, rfl, ?_,
      Nat.two_pow_pos 16, hslash, hfee, hbond, hshare, ?_, (fun hf => by cases hf), ?_⟩
    · intro side
      rw [hside]
      cases side <;> rfl
    · rw [hvotes .pending (by simp), Nat.zero_add]
    · intro _ a
      rw [hempty a]
      rfl
    · intro side hs
      exact absurd hs.symm (sideState_ne side).2.1
  · exact owed_absent hnone habsent
  · rw [owed, hdue, unresolvedFee, if_pos (.inl rfl)]
    rfl

/-- The bond and the slashed part of a request in terms of its fee. -/
private theorem amounts_ok (fee : Nat) {m : Multipliers} (hslash : 0 < m.slashingMultiplier)
    (hle : m.slashingMultiplier ≤ m.bondMultiplier) :
    fee ≤ fee * m.slashingMultiplier ∧ fee * m.slashingMultiplier ≤ fee * m.bondMultiplier :=
  ⟨Nat.le_mul_of_pos_right _ hslash, Nat.mul_le_mul_left _ hle⟩

private theorem postRequest_ok (h : OracleOK deployment world) {sponsor : Address}
    (hok : postRequest deployment env world requestId sponsor = .ok (world', events)) :
    Settles deployment world world' events requestId := by
  unfold postRequest at hok
  dsimp only at hok
  obtain ⟨_, -, hok⟩ := bind_eq_ok.mp hok
  obtain ⟨_, hbond₁, hok⟩ := bind_eq_ok.mp hok
  obtain ⟨_, hbond₂, hok⟩ := bind_eq_ok.mp hok
  obtain ⟨_, hslash₁, hok⟩ := bind_eq_ok.mp hok
  obtain ⟨_, hslash₂, hok⟩ := bind_eq_ok.mp hok
  obtain ⟨_, -, hok⟩ := bind_eq_ok.mp hok
  obtain ⟨_, -, hok⟩ := bind_eq_ok.mp hok
  obtain ⟨_, -, hok⟩ := bind_eq_ok.mp hok
  obtain ⟨_, -, hok⟩ := bind_eq_ok.mp hok
  obtain ⟨requests, hcreate, hok⟩ := bind_eq_ok.mp hok
  obtain ⟨⟨token, transfers⟩, hcollect, hok⟩ := bind_eq_ok.mp hok
  obtain ⟨-, rfl⟩ := checkedMul_ok.mp hbond₁
  obtain ⟨hbondWidth, rfl⟩ := toUint_ok.mp hbond₂
  obtain ⟨-, rfl⟩ := checkedMul_ok.mp hslash₁
  obtain ⟨-, rfl⟩ := toUint_ok.mp hslash₂
  have heq := pure_eq_ok.mp hok
  rw [Prod.mk.injEq] at heq
  obtain ⟨rfl, rfl⟩ := heq
  obtain ⟨hfeeConfig, hfee⟩ := h.config.fee.applyPending env.number
  obtain ⟨hbondConfig, hslash, hle, -⟩ := h.config.multipliers.applyPending env.number
  obtain ⟨hshareConfig, hshare⟩ := h.config.share.applyPending env.number
  obtain ⟨hfeeSlash, hslashBond⟩ :=
    amounts_ok (world.oracle.feeConfig.applyPending env.number).2 hslash hle
  obtain ⟨request, rfl, hrequest, hbefore, hafter⟩ := create_ok hcreate (h.requests requestId)
    hfeeSlash hslashBond hbondWidth ((Nat.mod_le _ _).trans hshare)
  obtain ⟨hmoved, hin, hout⟩ := collect_ok h.allowance hcollect
  refine settles_store request (world.oracle.commitments requestId) rfl
    (by rw [Function.update_eq_self]) ⟨hfeeConfig, hbondConfig, hshareConfig⟩ hrequest ?_ ?_
  · rw [owedFor, hbefore, hafter]
    simp only [inflow, outflow, List.map_cons, List.sum_cons, received, sent] at hin hout ⊢
    omega
  · refine ⟨hmoved.allowance, ?_⟩
    have hbalance := hmoved.balance
    simp only [inflow, outflow, List.map_cons, List.sum_cons, received, sent] at hbalance ⊢
    omega

private theorem commit_settles (h : OracleOK deployment world) {commitHash : B256}
    (hok : commit deployment env world requestId commitHash = .ok (world', events)) :
    Settles deployment world world' events requestId := by
  unfold commit at hok
  dsimp only at hok
  obtain ⟨_, -, hok⟩ := bind_eq_ok.mp hok
  obtain ⟨request, hget, hok⟩ := bind_eq_ok.mp hok
  obtain ⟨⟨request', bondAmount⟩, hcommit, hok⟩ := bind_eq_ok.mp hok
  obtain ⟨commitments, hadd, hok⟩ := bind_eq_ok.mp hok
  obtain ⟨⟨token, transfers⟩, hcollect, hok⟩ := bind_eq_ok.mp hok
  have heq := pure_eq_ok.mp hok
  rw [Prod.mk.injEq] at heq
  obtain ⟨rfl, rfl⟩ := heq
  have hrequest := get_ok hget
  subst hrequest
  obtain ⟨hok', howed⟩ := commit_ok (h.requests requestId) hcommit hadd
  obtain ⟨hmoved, hin, hout⟩ := collect_ok h.allowance hcollect
  refine settles_store request' commitments rfl rfl
    ⟨h.config.fee, h.config.multipliers, h.config.share⟩ hok' ?_ ?_
  · rw [owedFor]
    simp only [inflow, outflow, List.map_cons, List.sum_cons, received, sent] at hin hout ⊢
    omega
  · refine ⟨hmoved.allowance, ?_⟩
    have hbalance := hmoved.balance
    simp only [inflow, outflow, List.map_cons, List.sum_cons, received, sent] at hbalance ⊢
    omega

/-- The payments that end a finalization. -/
private theorem announce_ok {sponsor fundsReceiver : Address} {deadline : Nat}
    {result : Finalization}
    (hnone : ∀ spender, token.allowances deployment.this spender = 0)
    (hresult : (result.newState = .frozen ∧ result.refundFee = 0 ∧ result.daoCut = 0) ∨
      (result.newState = .timedOut ∧ result.daoCut = 0) ∨
      ((∃ side, result.newState = sideState side) ∧ result.refundFee = 0))
    (h : announce deployment token requestId sponsor fundsReceiver deadline result =
      .ok (token', events)) :
    Moved deployment token token' events ∧ inflow deployment events = 0 ∧
      outflow deployment events = result.refundFee + result.daoCut := by
  unfold announce at h
  obtain ⟨hstate, hrefund, hcut⟩ | ⟨hstate, hcut⟩ | ⟨⟨side, hstate⟩, hrefund⟩ := hresult
  · rw [hstate] at h
    cases h
    refine ⟨Moved.none hnone rfl, rfl, ?_⟩
    rw [hrefund, hcut]
    rfl
  · rw [hstate] at h
    obtain ⟨⟨_, transfers⟩, hpay, h⟩ := bind_eq_ok.mp h
    cases pure_eq_ok.mp h
    obtain ⟨hmoved, hin, hout⟩ := pay_ok hnone hpay
    refine ⟨hmoved.trans (Moved.none hmoved.allowance rfl), ?_, ?_⟩
    · rw [inflow_append, hin]
      rfl
    · rw [outflow_append, hout, hcut]
      rfl
  · have hpay : ∃ approved transfers,
        payPositive deployment token fundsReceiver result.daoCut = .ok (token', transfers) ∧
        events = transfers ++ [.oracleResult requestId sponsor approved] := by
      rw [hstate] at h
      cases side with
      | true =>
          obtain ⟨⟨_, transfers⟩, hpay, h⟩ := bind_eq_ok.mp h
          cases pure_eq_ok.mp h
          exact ⟨_, transfers, hpay, rfl⟩
      | false =>
          obtain ⟨⟨_, transfers⟩, hpay, h⟩ := bind_eq_ok.mp h
          cases pure_eq_ok.mp h
          exact ⟨_, transfers, hpay, rfl⟩
    obtain ⟨approved, transfers, hpay, rfl⟩ := hpay
    obtain ⟨hmoved, hin, hout⟩ := payPositive_ok hnone hpay
    refine ⟨hmoved.trans (Moved.none hmoved.allowance rfl), ?_, ?_⟩
    · rw [inflow_append, hin]
      rfl
    · rw [outflow_append, hout, hrefund, Nat.zero_add]
      rfl

private theorem finalize_settles (h : OracleOK deployment world)
    (hok : finalize deployment env world requestId = .ok (world', events)) :
    Settles deployment world world' events requestId := by
  unfold finalize at hok
  dsimp only at hok
  obtain ⟨request, hget, hok⟩ := bind_eq_ok.mp hok
  obtain ⟨_, -, hok⟩ := bind_eq_ok.mp hok
  obtain ⟨_, -, hok⟩ := bind_eq_ok.mp hok
  obtain ⟨⟨request', result⟩, hfinal, hok⟩ := bind_eq_ok.mp hok
  obtain ⟨⟨token₁, slashed⟩, hslash, hok⟩ := bind_eq_ok.mp hok
  obtain ⟨⟨token₂, rest⟩, hannounce, hok⟩ := bind_eq_ok.mp hok
  have heq := pure_eq_ok.mp hok
  rw [Prod.mk.injEq] at heq
  obtain ⟨rfl, rfl⟩ := heq
  have hrequest := get_ok hget
  subst hrequest
  obtain ⟨hok', howed, hresult⟩ := finalize_ok (h.requests requestId) hfinal
  dsimp only at hslash hannounce
  obtain ⟨hmoved₁, hin₁, hout₁⟩ := payPositive_ok h.allowance hslash
  obtain ⟨hmoved₂, hin₂, hout₂⟩ := announce_ok hmoved₁.allowance hresult hannounce
  refine settles_store request' (world.oracle.commitments requestId) rfl rfl
    ⟨h.config.fee, h.config.multipliers, h.config.share⟩ hok' ?_ (hmoved₁.trans hmoved₂)
  dsimp only
  rw [owedFor, inflow_append, outflow_append]
  omega

/-- Two calls about one request after another. -/
private theorem Settles.trans {world₁ : World} (h₁ : Settles deployment world world₁ events₁ requestId)
    (h₂ : Settles deployment world₁ world' events₂ requestId) :
    Settles deployment world world' (events₁ ++ events₂) requestId where
  config := h₂.config
  request := h₂.request
  frame := fun q hq => ⟨(h₂.frame q hq).1.trans (h₁.frame q hq).1,
    (h₂.frame q hq).2.trans (h₁.frame q hq).2⟩
  conserves := by
    have hc₁ := h₁.conserves
    have hc₂ := h₂.conserves
    rw [inflow_append, outflow_append]
    omega
  moved := h₁.moved.trans h₂.moved

private theorem OracleOK.settles (h : OracleOK deployment world)
    (hs : Settles deployment world world' events requestId) : OracleOK deployment world' where
  config := hs.config
  requests := fun r => by
    by_cases hr : r = requestId
    · rw [hr]
      exact hs.request
    · rw [(hs.frame r hr).1, (hs.frame r hr).2]
      exact h.requests r
  allowance := hs.moved.allowance

/-- Storing a revealed vote moves no tokens. -/
private theorem reveal_stored (h : OracleOK deployment world) {approve allRevealed : Bool}
    {request' : SentinelOracleRequest.T} (reason : Bytes)
    (hvote : (world.oracle.commitments requestId env.sender).vote = .pending)
    (happly : applyReveal (world.oracle.requests requestId) env.number approve =
      .ok (request', allRevealed)) :
    Settles deployment world
      { world with oracle := world.oracle.store requestId request' (Function.update
        (world.oracle.commitments requestId) env.sender
        { world.oracle.commitments requestId env.sender with vote := sideVote approve }) }
      [.revealed requestId env.sender approve
        (world.oracle.commitments requestId env.sender).bondAmount reason] requestId := by
  obtain ⟨hok', howed⟩ := reveal_ok (h.requests requestId) hvote happly
  refine settles_store request' _ rfl rfl ⟨h.config.fee, h.config.multipliers, h.config.share⟩ hok'
    ?_ (Moved.none h.allowance rfl)
  rw [owedFor, howed]
  rfl

private theorem reveal_settles (h : OracleOK deployment world) {approve : Bool} {salt : B256}
    {reason : Bytes}
    (hok : reveal keccak256 deployment env world requestId approve salt reason =
      .ok (world', events)) :
    Settles deployment world world' events requestId := by
  unfold reveal at hok
  dsimp only at hok
  obtain ⟨request, hget, hok⟩ := bind_eq_ok.mp hok
  obtain ⟨commitments, hreveal, hok⟩ := bind_eq_ok.mp hok
  obtain ⟨⟨request', allRevealed⟩, happly, hok⟩ := bind_eq_ok.mp hok
  have hrequest := get_ok hget
  subst hrequest
  obtain ⟨hvote, rfl⟩ := commitmentMap_reveal_ok hreveal
  have hstore := reveal_stored h reason hvote happly
  dsimp only at hok
  cases allRevealed with
  | false =>
      rw [if_neg (by simp)] at hok
      cases pure_eq_ok.mp hok
      exact hstore
  | true =>
      rw [if_pos rfl] at hok
      obtain ⟨⟨world₁, events₁⟩, hfinal, hok⟩ := bind_eq_ok.mp hok
      cases pure_eq_ok.mp hok
      exact hstore.trans (finalize_settles (h.settles hstore) hfinal)

private theorem claim_settles (h : OracleOK deployment world)
    (hok : claim deployment env world requestId = .ok (world', events)) :
    Settles deployment world world' events requestId := by
  unfold claim at hok
  dsimp only at hok
  obtain ⟨request, hget, hok⟩ := bind_eq_ok.mp hok
  obtain ⟨state, hstate, hok⟩ := bind_eq_ok.mp hok
  obtain ⟨claimed, hmark, hok⟩ := bind_eq_ok.mp hok
  obtain ⟨feeReward, hreward, hok⟩ := bind_eq_ok.mp hok
  obtain ⟨_, hbond, hok⟩ := bind_eq_ok.mp hok
  obtain ⟨_, htotal, hok⟩ := bind_eq_ok.mp hok
  obtain ⟨⟨token, transfers⟩, hpay, hok⟩ := bind_eq_ok.mp hok
  have heq := pure_eq_ok.mp hok
  rw [Prod.mk.injEq] at heq
  obtain ⟨-, rfl⟩ := checkedSub_ok.mp hbond
  obtain ⟨-, rfl⟩ := checkedAdd_ok.mp htotal
  obtain ⟨rfl, rfl⟩ := heq
  have hrequest := get_ok hget
  subst hrequest
  obtain ⟨hok', howed⟩ := claim_ok (h.requests requestId) hstate hmark hreward
  obtain ⟨hmoved, hin, hout⟩ := payPositive_ok h.allowance hpay
  refine settles_store (world.oracle.requests requestId) _ rfl rfl
    ⟨h.config.fee, h.config.multipliers, h.config.share⟩ hok' ?_
    (hmoved.trans (Moved.none hmoved.allowance rfl))
  rw [owedFor, inflow_append, outflow_append, hin, hout, howed]
  simp only [inflow, outflow, List.map_cons, List.map_nil, List.sum_cons, List.sum_nil, received,
    sent]
  omega

private theorem resolveDispute_settles (h : OracleOK deployment world) {approveWins : Bool}
    {context : Bytes}
    (hok : resolveDispute deployment env world requestId approveWins context =
      .ok (world', events)) :
    Settles deployment world world' events requestId := by
  unfold resolveDispute at hok
  dsimp only at hok
  obtain ⟨_, -, hok⟩ := bind_eq_ok.mp hok
  obtain ⟨request, hget, hok⟩ := bind_eq_ok.mp hok
  obtain ⟨⟨request', ruling⟩, hresolve, hok⟩ := bind_eq_ok.mp hok
  obtain ⟨⟨token₁, refund⟩, hrefund, hok⟩ := bind_eq_ok.mp hok
  obtain ⟨_, hsurplus, hok⟩ := bind_eq_ok.mp hok
  obtain ⟨_, hgain, hok⟩ := bind_eq_ok.mp hok
  obtain ⟨⟨token₂, slashed⟩, hpay, hok⟩ := bind_eq_ok.mp hok
  have heq := pure_eq_ok.mp hok
  rw [Prod.mk.injEq] at heq
  obtain ⟨-, rfl⟩ := checkedSub_ok.mp hsurplus
  obtain ⟨-, rfl⟩ := checkedAdd_ok.mp hgain
  dsimp only at hrefund hpay
  obtain ⟨rfl, rfl⟩ := heq
  have hrequest := get_ok hget
  subst hrequest
  obtain ⟨hok', -, -, howed⟩ := resolveDispute_ok (h.requests requestId) hresolve
  obtain ⟨hmoved₁, hin₁, hout₁⟩ := pay_ok h.allowance hrefund
  obtain ⟨hmoved₂, hin₂, hout₂⟩ := pay_ok hmoved₁.allowance hpay
  refine settles_store request' (world.oracle.commitments requestId) rfl rfl
    ⟨h.config.fee, h.config.multipliers, h.config.share⟩ hok' ?_
    ((hmoved₁.trans hmoved₂).trans (Moved.none hmoved₂.allowance rfl))
  rw [owedFor, inflow_append, inflow_append, outflow_append, outflow_append, hin₁, hin₂, hout₁,
    hout₂, howed]
  simp only [inflow, outflow, List.map_cons, List.map_nil, List.sum_cons, List.sum_nil, received,
    sent]
  omega

/-- The two ways a frozen request is given up. -/
private theorem refund_settles (h : OracleOK deployment world) {request' : SentinelOracleRequest.T}
    {refundFee : Nat} {sponsor : Address} {event : Event} {refund : List Event}
    (hok : RequestOK request' (world.oracle.commitments requestId))
    (howed : owed (world.oracle.requests requestId) (world.oracle.commitments requestId) =
      owed request' (world.oracle.commitments requestId) + refundFee)
    (hpay : pay deployment world.token sponsor refundFee = .ok (token, refund))
    (hevent : received deployment event = 0 ∧ sent deployment event = 0) :
    Settles deployment world
      ⟨world.oracle.store requestId request' (world.oracle.commitments requestId), token⟩
      (refund ++ [event]) requestId := by
  obtain ⟨hmoved, hin, hout⟩ := pay_ok h.allowance hpay
  have hin' : inflow deployment [event] = 0 := by simp [inflow, hevent.1]
  have hout' : outflow deployment [event] = 0 := by simp [outflow, hevent.2]
  refine settles_store request' (world.oracle.commitments requestId) rfl rfl
    ⟨h.config.fee, h.config.multipliers, h.config.share⟩ hok ?_
    (hmoved.trans (Moved.none hmoved.allowance hin'))
  rw [owedFor, inflow_append, outflow_append, hin, hout, hin', hout', howed]
  omega

private theorem timeoutArbitration_settles (h : OracleOK deployment world)
    (hok : timeoutArbitration deployment env world requestId = .ok (world', events)) :
    Settles deployment world world' events requestId := by
  unfold timeoutArbitration at hok
  dsimp only at hok
  obtain ⟨request, hget, hok⟩ := bind_eq_ok.mp hok
  obtain ⟨⟨request', refundFee⟩, htimeout, hok⟩ := bind_eq_ok.mp hok
  obtain ⟨⟨token, refund⟩, hpay, hok⟩ := bind_eq_ok.mp hok
  have heq := pure_eq_ok.mp hok
  rw [Prod.mk.injEq] at heq
  obtain ⟨rfl, rfl⟩ := heq
  have hrequest := get_ok hget
  subst hrequest
  obtain ⟨hok', howed⟩ := timeoutArbitration_ok (h.requests requestId) htimeout
  exact refund_settles h hok' howed hpay ⟨rfl, rfl⟩

private theorem markOutOfScope_settles (h : OracleOK deployment world) {context : Bytes}
    (hok : markOutOfScope deployment env world requestId context = .ok (world', events)) :
    Settles deployment world world' events requestId := by
  unfold markOutOfScope at hok
  dsimp only at hok
  obtain ⟨_, -, hok⟩ := bind_eq_ok.mp hok
  obtain ⟨request, hget, hok⟩ := bind_eq_ok.mp hok
  obtain ⟨⟨request', refundFee⟩, hscope, hok⟩ := bind_eq_ok.mp hok
  obtain ⟨⟨token, refund⟩, hpay, hok⟩ := bind_eq_ok.mp hok
  have heq := pure_eq_ok.mp hok
  rw [Prod.mk.injEq] at heq
  obtain ⟨rfl, rfl⟩ := heq
  have hrequest := get_ok hget
  subst hrequest
  obtain ⟨hok', howed⟩ := outOfScope_ok (h.requests requestId) hscope
  exact refund_settles h hok' howed hpay ⟨rfl, rfl⟩

/-- A call that changes parameters only. -/
structure Governs (world world' : World) : Prop where
  config : ConfigOK world'.oracle
  requests : world'.oracle.requests = world.oracle.requests
  commitments : world'.oracle.commitments = world.oracle.commitments
  token : world'.token = world.token

private theorem onOracle_ok {result : Except Error (State × List Event)}
    (hok : onOracle world result = .ok (world', events))
    (hresult : ∀ s events, result = .ok (s, events) → ConfigOK s ∧
      s.requests = world.oracle.requests ∧ s.commitments = world.oracle.commitments) :
    Governs world world' := by
  cases result with
  | error e => cases hok
  | ok r =>
      obtain ⟨s, events'⟩ := r
      obtain ⟨hconfig, hrequests, hcommitments⟩ := hresult s events' rfl
      cases hok
      exact ⟨hconfig, hrequests, hcommitments, rfl⟩

private theorem check_ok {bondMultiplier slashingMultiplier : Nat} {u : Unit}
    (h : BondConfig.check bondMultiplier slashingMultiplier = .ok u) :
    0 < slashingMultiplier ∧ slashingMultiplier ≤ bondMultiplier := by
  unfold BondConfig.check at h
  obtain ⟨_, -, h⟩ := bind_eq_ok.mp h
  simpa [require_eq_ok] using h

/-- What a call does that does not revert. -/
theorem call_ok (h : OracleOK deployment world) {c : Call}
    (hok : call keccak256 deployment env world c = .ok (world', events)) :
    (∃ r, c.requestId? = some r ∧ Settles deployment world world' events r) ∨
      (c.requestId? = none ∧ Governs world world') := by
  cases c with
  | postRequest requestId sponsor => exact .inl ⟨_, rfl, postRequest_ok h hok⟩
  | commit requestId commitHash => exact .inl ⟨_, rfl, commit_settles h hok⟩
  | reveal requestId approve salt reason => exact .inl ⟨_, rfl, reveal_settles h hok⟩
  | finalize requestId => exact .inl ⟨_, rfl, finalize_settles h hok⟩
  | claim requestId => exact .inl ⟨_, rfl, claim_settles h hok⟩
  | resolveDispute requestId approveWins context =>
      exact .inl ⟨_, rfl, resolveDispute_settles h hok⟩
  | timeoutArbitration requestId => exact .inl ⟨_, rfl, timeoutArbitration_settles h hok⟩
  | markOutOfScope requestId context => exact .inl ⟨_, rfl, markOutOfScope_settles h hok⟩
  | addSentinel sentinel =>
      refine .inr ⟨rfl, onOracle_ok hok fun s events hs => ?_⟩
      unfold addSentinel at hs
      obtain ⟨_, -, hs⟩ := bind_eq_ok.mp hs
      obtain ⟨_, -, hs⟩ := bind_eq_ok.mp hs
      cases pure_eq_ok.mp hs
      exact ⟨⟨h.config.fee, h.config.multipliers, h.config.share⟩, rfl, rfl⟩
  | removeSentinel sentinel =>
      refine .inr ⟨rfl, onOracle_ok hok fun s events hs => ?_⟩
      unfold removeSentinel at hs
      obtain ⟨_, -, hs⟩ := bind_eq_ok.mp hs
      obtain ⟨_, -, hs⟩ := bind_eq_ok.mp hs
      cases pure_eq_ok.mp hs
      exact ⟨⟨h.config.fee, h.config.multipliers, h.config.share⟩, rfl, rfl⟩
  | scheduleBondConfig newBondMultiplier newSlashingMultiplier =>
      refine .inr ⟨rfl, onOracle_ok hok fun s events hs => ?_⟩
      unfold scheduleBondConfig BondConfig.schedule at hs
      obtain ⟨_, -, hs⟩ := bind_eq_ok.mp hs
      obtain ⟨⟨bondConfig, activeAt⟩, hschedule, hs⟩ := bind_eq_ok.mp hs
      obtain ⟨_, hcheck, hschedule⟩ := bind_eq_ok.mp hschedule
      cases pure_eq_ok.mp hs
      obtain ⟨hpos, hle⟩ := check_ok hcheck
      exact ⟨⟨h.config.fee, h.config.multipliers.schedule ⟨hpos, hle, newBondMultiplier.isLt⟩ hschedule,
        h.config.share⟩, rfl, rfl⟩
  | applyBondConfig =>
      cases hok
      exact .inr ⟨rfl, ⟨h.config.fee, (h.config.multipliers.applyPending _).1, h.config.share⟩, rfl, rfl,
        rfl⟩
  | scheduleProtocolFundsReceiver newValue =>
      refine .inr ⟨rfl, onOracle_ok hok fun s events hs => ?_⟩
      unfold scheduleProtocolFundsReceiver at hs
      obtain ⟨_, -, hs⟩ := bind_eq_ok.mp hs
      obtain ⟨_, -, hs⟩ := bind_eq_ok.mp hs
      obtain ⟨_, -, hs⟩ := bind_eq_ok.mp hs
      cases pure_eq_ok.mp hs
      exact ⟨⟨h.config.fee, h.config.multipliers, h.config.share⟩, rfl, rfl⟩
  | applyProtocolFundsReceiver =>
      cases hok
      exact .inr ⟨rfl, ⟨h.config.fee, h.config.multipliers, h.config.share⟩, rfl, rfl, rfl⟩
  | scheduleFee newValue =>
      refine .inr ⟨rfl, onOracle_ok hok fun s events hs => ?_⟩
      unfold scheduleFee at hs
      obtain ⟨_, -, hs⟩ := bind_eq_ok.mp hs
      obtain ⟨_, hpos, hs⟩ := bind_eq_ok.mp hs
      obtain ⟨⟨feeConfig, activeAt⟩, hschedule, hs⟩ := bind_eq_ok.mp hs
      rw [require_eq_ok, decide_eq_true_eq] at hpos
      cases pure_eq_ok.mp hs
      exact ⟨⟨h.config.fee.schedule ⟨hpos, newValue.isLt⟩ hschedule, h.config.multipliers,
        h.config.share⟩, rfl, rfl⟩
  | applyFee =>
      cases hok
      exact .inr ⟨rfl, ⟨(h.config.fee.applyPending _).1, h.config.multipliers, h.config.share⟩, rfl, rfl,
        rfl⟩
  | scheduleDaoFeeShare newValue =>
      refine .inr ⟨rfl, onOracle_ok hok fun s events hs => ?_⟩
      unfold scheduleDaoFeeShare at hs
      obtain ⟨_, -, hs⟩ := bind_eq_ok.mp hs
      obtain ⟨_, hle, hs⟩ := bind_eq_ok.mp hs
      obtain ⟨⟨daoFeeShareConfig, activeAt⟩, hschedule, hs⟩ := bind_eq_ok.mp hs
      rw [require_eq_ok, decide_eq_true_eq] at hle
      cases pure_eq_ok.mp hs
      exact ⟨⟨h.config.fee, h.config.multipliers, h.config.share.schedule hle hschedule⟩, rfl, rfl⟩
  | applyDaoFeeShare =>
      cases hok
      exact .inr ⟨rfl, ⟨h.config.fee, h.config.multipliers, (h.config.share.applyPending _).1⟩, rfl, rfl,
        rfl⟩

/-! ### No panic -/

/-- A step of the oracle and the fee token in a run. -/
abbrev OracleStep (deployment : Deployment) :=
  Trace.Step World (Input deployment) (Except Error (List Event))

/-- The events of a step; a reverted call has none. -/
def eventsOf (t : OracleStep deployment) : List Event :=
  match t.out with
  | .ok events => events
  | .error _ => []

/-- The request a step is about. -/
def requestOf (t : OracleStep deployment) : Option B256 :=
  match t.input with
  | .call _ c => c.requestId?
  | .token .. => none

/-- The fee and the bonds paid in for a request. -/
def paidIn (history : List (OracleStep deployment)) (r : B256) : Nat :=
  ((history.filter fun t => requestOf t = some r).map fun t =>
    inflow deployment (eventsOf t)).sum

/-- Everything paid out for a request. -/
def paidOut (history : List (OracleStep deployment)) (r : B256) : Nat :=
  ((history.filter fun t => requestOf t = some r).map fun t =>
    outflow deployment (eventsOf t)).sum

variable {history : List (OracleStep deployment)} {t : OracleStep deployment}

private theorem paid_concat (history : List (OracleStep deployment)) {r : B256}
    (h : requestOf t = some r) :
    paidIn (history ++ [t]) r = paidIn history r + inflow deployment (eventsOf t) ∧
      paidOut (history ++ [t]) r = paidOut history r + outflow deployment (eventsOf t) := by
  simp [paidIn, paidOut, h]

private theorem paid_concat_other (history : List (OracleStep deployment)) {r : B256}
    (h : requestOf t ≠ some r) :
    paidIn (history ++ [t]) r = paidIn history r ∧
      paidOut (history ++ [t]) r = paidOut history r := by
  simp [paidIn, paidOut, h]

/-- The books of the oracle agree with the history. -/
structure Conserved (deployment : Deployment) (history : List (OracleStep deployment))
    (world : World) : Prop where
  ok : OracleOK deployment world
  conserved : ∀ r, paidIn history r = paidOut history r + owedFor world.oracle r
  solvent : ∑ r, owedFor world.oracle r ≤ world.token.balances deployment.this

/-- Only one request owes something else. -/
private theorem Settles.sum_owed (h : Settles deployment world world' events requestId) :
    ∑ r, owedFor world'.oracle r + owedFor world.oracle requestId =
      ∑ r, owedFor world.oracle r + owedFor world'.oracle requestId := by
  rw [← Ledger.sum_update (owedFor world.oracle) requestId (owedFor world'.oracle requestId)]
  refine congrArg (· + owedFor world.oracle requestId) (Finset.sum_congr rfl fun r _ => ?_)
  by_cases hr : r = requestId
  · rw [hr, Function.update_self]
  · rw [Function.update_of_ne hr, owedFor, owedFor, (h.frame r hr).1, (h.frame r hr).2]

private theorem Conserved.settles (h : Conserved deployment history world) {r : B256}
    (hs : Settles deployment world world' events r) (hevents : eventsOf t = events)
    (hrequest : requestOf t = some r) : Conserved deployment (history ++ [t]) world' where
  ok := h.ok.settles hs
  conserved := by
    intro q
    have hq := h.conserved q
    by_cases hqr : q = r
    · subst hqr
      obtain ⟨hin, hout⟩ := paid_concat history hrequest
      have hconserves := hs.conserves
      rw [hin, hout, hevents]
      omega
    · have hother : requestOf t ≠ some q := by
        rw [hrequest]
        simpa using Ne.symm hqr
      obtain ⟨hin, hout⟩ := paid_concat_other history hother
      rw [hin, hout, hq, owedFor, owedFor, (hs.frame q hqr).1, (hs.frame q hqr).2]
  solvent := by
    have hsum := hs.sum_owed
    have hconserves := hs.conserves
    have hbalance := hs.moved.balance
    have hsolvent := h.solvent
    omega

/-- A step that is about no request and takes nothing from the oracle. -/
private theorem Conserved.keep (h : Conserved deployment history world)
    (hconfig : ConfigOK world'.oracle) (hrequests : world'.oracle.requests = world.oracle.requests)
    (hcommitments : world'.oracle.commitments = world.oracle.commitments)
    (hallowance : ∀ spender, world'.token.allowances deployment.this spender = 0)
    (hbalance : world.token.balances deployment.this ≤ world'.token.balances deployment.this)
    (hquiet : ∀ r, paidIn (history ++ [t]) r = paidIn history r ∧
      paidOut (history ++ [t]) r = paidOut history r) :
    Conserved deployment (history ++ [t]) world' := by
  have howed : ∀ r, owedFor world'.oracle r = owedFor world.oracle r := fun r => by
    rw [owedFor, owedFor, hrequests, hcommitments]
  refine ⟨⟨hconfig, ?_, hallowance⟩, ?_, ?_⟩
  · rw [hrequests, hcommitments]
    exact h.ok.requests
  · intro r
    rw [(hquiet r).1, (hquiet r).2, howed]
    exact h.conserved r
  · rw [Finset.sum_congr rfl fun r _ => howed r]
    exact h.solvent.trans hbalance

/-- An oracle without a governance delay, a fee of one token and bonds of one token. -/
private def crowdedParams : ConstructorParams :=
  ⟨1, 2, 3, 4, 5, 1, 1, 1, 0, 10, 10, 0, 10⟩

private def crowdedDeployment : Deployment := ⟨9, 1, 2, 4, 10, 10, 0, 10⟩

private def crowdedState : State := ((deploy 9 crowdedParams).toOption.get (by rfl)).2

/-- Everybody holds ten tokens and lets everybody spend them, the oracle apart. -/
private def crowdedToken : ERC20.T where
  balances := fun _ => 10
  allowances := fun a _ => if a = 9 then 0 else 2 ^ 256 - 1

private def crowdedSentinel (k : Nat) : Address := BitVec.ofNat 160 (k + 100)

private def crowdedEnv (sender : Address) : Env := ⟨sender, 0, 1, 1⟩

private def commitment (k : Nat) : Input crowdedDeployment :=
  .call (crowdedEnv (crowdedSentinel k)) (.commit 7 1)

/-- The token after the sponsor paid the fee. -/
private def postedToken : ERC20.T where
  balances := Ledger.credit (Ledger.debit (fun _ => 10) 8 1) 9 1
  allowances := crowdedToken.allowances

/-- The oracle after the request was posted. -/
private def postedState (sentinelMap : SentinelMap) : State :=
  { crowdedState with
    sentinelMap
    requests := Function.update crowdedState.requests 7
      ⟨⟨11, 0, 21, 1, 8, 1⟩, ⟨.pending, 1, 0, 0, 0, 0, 0⟩⟩ }

private theorem posted (sentinelMap : SentinelMap) :
    (step keccak256 crowdedDeployment ⟨{ crowdedState with sentinelMap }, crowdedToken⟩
      (.call (crowdedEnv 4) (.postRequest 7 8))).1 = ⟨postedState sentinelMap, postedToken⟩ := by
  rfl

end SentinelOracle

end Safenet.Contracts
