/-
The life of one request of the sentinel oracle.

`Turn` says everything that can happen to a request: who may do it, at which block, what is
stored and which event tells about it.  A call takes at most one turn of one request, but for
the last reveal, which takes a second one by finalizing (`call_turned`).  The counters, the
order of the states and what was ever announced are then read off turn by turn.
-/
import Safenet.Contracts.SentinelOracle
import Safenet.Lib.Trace
import Safenet.Proofs.SentinelOracleRequests

namespace Safenet.Contracts.SentinelOracle

open Fallible
open SentinelOracleCommitment (Vote Commitment computeHash)
open SentinelOracleRequest

/-! ### Turns -/

/-- The request an event is about. -/
def Event.requestId? : Event → Option B256
  | .newRequest requestId .. | .committed requestId .. | .revealed requestId ..
  | .disputeTriggered requestId .. | .disputeResolved requestId .. | .disputeOutOfScope requestId ..
  | .arbitrationTimedOut requestId | .requestTimedOut requestId | .oracleResult requestId ..
  | .claimed requestId .. => some requestId
  | _ => none

/-- The events about a request. -/
def about (r : B256) (events : List Event) : List Event :=
  events.filter fun e => e.requestId? = some r

/-- What is stored for one request. -/
structure Record where
  request : SentinelOracleRequest.T
  commitments : SentinelOracleCommitmentMap.T

def State.record (s : State) (r : B256) : Record := ⟨s.requests r, s.commitments r⟩

/-- The request may be finalized at this block. -/
def Due (number : Nat) (q : SentinelOracleRequest.T) : Prop :=
  q.terms.revealDeadline < number ∨
    (0 < q.progress.committedCount ∧ q.progress.revealedCount = q.progress.committedCount) ∨
    (q.progress.committedCount = 0 ∧ q.terms.commitDeadline < number)

/-- The request with one more revealed vote. -/
def revealedOnce (q : SentinelOracleRequest.T) (approve : Bool) : SentinelOracleRequest.T :=
  { q with progress := { q.progress with
      revealedCount := q.progress.revealedCount + 1
      approveSentinelCount := q.progress.approveSentinelCount + (if approve then 1 else 0)
      denySentinelCount := q.progress.denySentinelCount + (if !approve then 1 else 0) } }

/-- The request in another state, with another fee. -/
def movedTo (q : SentinelOracleRequest.T) (state : SentinelOracleRequest.State) (fee : Nat) :
    SentinelOracleRequest.T :=
  { q with progress := { q.progress with state, fee } }

/-- What can happen to the request `r` at once, when `asked` is called. -/
inductive Turn (keccak256 : Keccak) (env : Env) (asked : Call) (r : B256) :
    Record → Event → Record → Prop
  | post {q c} (sponsor : Address)
      (fee bondTarget daoFeeShare slashAmount commitDeadline revealDeadline : Nat)
      (absent : q.progress.state = .none) (ahead : env.number < commitDeadline)
      (ordered : commitDeadline < revealDeadline) :
      Turn keccak256 env asked r ⟨q, c⟩
        (.newRequest r sponsor fee bondTarget daoFeeShare slashAmount commitDeadline revealDeadline)
        ⟨⟨⟨commitDeadline, daoFeeShare, revealDeadline, bondTarget, sponsor, slashAmount⟩,
          ⟨.pending, fee, 0, 0, 0, 0, 0⟩⟩, c⟩
  | commit {q c} (commitHash : B256) (call : asked = .commit r commitHash)
      (pending : q.progress.state = .pending) (window : env.number ≤ q.terms.commitDeadline)
      (fresh : (c env.sender).vote = .none) :
      Turn keccak256 env asked r ⟨q, c⟩ (.committed r env.sender q.terms.bondTarget)
        ⟨{ q with progress :=
            { q.progress with committedCount := q.progress.committedCount + 1 } },
          Function.update c env.sender ⟨commitHash, q.terms.bondTarget, .pending, false⟩⟩
  | reveal {q c} (approve : Bool) (salt : B256) (reason : Bytes)
      (call : asked = .reveal r approve salt reason)
      (pending : q.progress.state = .pending) (opened : q.terms.commitDeadline < env.number)
      (window : env.number ≤ q.terms.revealDeadline) (sealed : (c env.sender).vote = .pending)
      (preimage : computeHash keccak256 env.sender r approve salt reason =
        (c env.sender).commitHash) :
      Turn keccak256 env asked r ⟨q, c⟩
        (.revealed r env.sender approve (c env.sender).bondAmount reason)
        ⟨revealedOnce q approve,
          Function.update c env.sender { c env.sender with vote := sideVote approve }⟩
  | freeze {q c} (deadline : Nat) (pending : q.progress.state = .pending)
      (due : Due env.number q) (sides : ∀ side, 0 < sideCount q.progress side) :
      Turn keccak256 env asked r ⟨q, c⟩ (.disputeTriggered r deadline)
        ⟨{ q with progress :=
            { q.progress with state := .frozen, arbitrationDeadline := deadline } }, c⟩
  | expire {q c} (pending : q.progress.state = .pending) (due : Due env.number q)
      (silent : ∀ side, sideCount q.progress side = 0) :
      Turn keccak256 env asked r ⟨q, c⟩ (.requestTimedOut r) ⟨movedTo q .timedOut 0, c⟩
  | settle {q c} (side : Bool) (fee : Nat) (pending : q.progress.state = .pending)
      (due : Due env.number q) (won : 0 < sideCount q.progress side)
      (unopposed : sideCount q.progress (!side) = 0) :
      Turn keccak256 env asked r ⟨q, c⟩ (.oracleResult r q.terms.sponsor side)
        ⟨movedTo q (sideState side) fee, c⟩
  | rule {q c} (side : Bool) (fee slashed : Nat) (context : Bytes)
      (frozen : q.progress.state = .frozen) :
      Turn keccak256 env asked r ⟨q, c⟩ (.disputeResolved r (sideState side) slashed context)
        ⟨movedTo q (sideState side) fee, c⟩
  | timeout {q c} (frozen : q.progress.state = .frozen)
      (late : q.progress.arbitrationDeadline < env.number) :
      Turn keccak256 env asked r ⟨q, c⟩ (.arbitrationTimedOut r) ⟨movedTo q .timedOut 0, c⟩
  | decline {q c} (context : Bytes) (frozen : q.progress.state = .frozen) :
      Turn keccak256 env asked r ⟨q, c⟩ (.disputeOutOfScope r context) ⟨movedTo q .timedOut 0, c⟩
  | claim {q c} (bondReturn feeReward : Nat) (resolved : q.progress.state.resolved = true) :
      Turn keccak256 env asked r ⟨q, c⟩ (.claimed r env.sender bondReturn feeReward)
        ⟨q, Function.update c env.sender { c env.sender with claimed := true }⟩

/-- What a call does to the request `r`. -/
inductive Turned (keccak256 : Keccak) (env : Env) (asked : Call) (r : B256) :
    Record → List Event → Record → Prop
  | none {q} : Turned keccak256 env asked r q [] q
  | one {q q' e} (turn : Turn keccak256 env asked r q e q') : Turned keccak256 env asked r q [e] q'
  /-- The last vote is revealed and the request finalized. -/
  | revealFinalize {q q₁ q' e e'} (turn : Turn keccak256 env asked r q e q₁)
      (quiet : q₁.request.progress.state = q.request.progress.state)
      (turn' : Turn keccak256 env asked r q₁ e' q') (kept : q'.commitments = q₁.commitments) :
      Turned keccak256 env asked r q [e, e'] q'

variable {keccak256 : Keccak} {deployment : Deployment} {env : Env} {world world' : World}
  {token token' : ERC20.T} {events events₁ events₂ : List Event} {requestId r : B256} {asked : Call}
  {request request' : SentinelOracleRequest.T} {commitments : SentinelOracleCommitmentMap.T}

/-! ### Transfers are about no request -/

theorem about_append : about r (events₁ ++ events₂) = about r events₁ ++ about r events₂ := by
  simp [about]

/-- Events about no request. -/
def Silent (events : List Event) : Prop := ∀ e ∈ events, e.requestId? = none

theorem Silent.about (h : Silent events) : about r events = [] := by
  refine List.filter_eq_nil_iff.mpr fun e he => ?_
  rw [h e he]
  simp

theorem silent_nil : Silent [] := fun _ h => nomatch h

theorem silent_transfer {source recipient : Address} {value : Nat} :
    Silent [.transfer source recipient value] := by
  intro e he
  rw [List.mem_singleton.mp he]
  rfl

theorem Silent.append (h₁ : Silent events₁) (h₂ : Silent events₂) :
    Silent (events₁ ++ events₂) := by
  intro e he
  cases List.mem_append.mp he with
  | inl he => exact h₁ e he
  | inr he => exact h₂ e he

theorem collect_silent {source : Address} {value : Nat}
    (h : collect deployment token source value = .ok (token', events)) : Silent events := by
  unfold collect at h
  obtain ⟨_, -, h⟩ := bind_eq_ok.mp h
  cases pure_eq_ok.mp h
  exact silent_transfer

theorem pay_silent {recipient : Address} {value : Nat}
    (h : pay deployment token recipient value = .ok (token', events)) : Silent events := by
  unfold pay at h
  obtain ⟨_, -, h⟩ := bind_eq_ok.mp h
  cases pure_eq_ok.mp h
  exact silent_transfer

theorem payPositive_silent {recipient : Address} {value : Nat}
    (h : payPositive deployment token recipient value = .ok (token', events)) : Silent events := by
  unfold payPositive at h
  by_cases hpos : 0 < value
  · rw [if_pos hpos] at h
    exact pay_silent h
  · rw [if_neg hpos] at h
    cases h
    exact silent_nil

/-! ### What each call does -/

/-- A call about one request. -/
structure Affects (keccak256 : Keccak) (env : Env) (asked : Call) (world world' : World)
    (events : List Event) (r : B256) : Prop where
  turned : Turned keccak256 env asked r (world.oracle.record r) (about r events)
    (world'.oracle.record r)
  frame : ∀ q, q ≠ r → world'.oracle.record q = world.oracle.record q ∧ about q events = []

/-- The events of a call that takes one turn: the turn's own and transfers around it. -/
private theorem about_around {before after : List Event} {e : Event} (hbefore : Silent before)
    (hafter : Silent after) (he : e.requestId? = some requestId) :
    about requestId (before ++ e :: after) = [e] ∧
      ∀ q, q ≠ requestId → about q (before ++ e :: after) = [] := by
  refine ⟨?_, fun q hq => ?_⟩
  · rw [about_append, hbefore.about, List.nil_append, about, List.filter_cons_of_pos (by simp [he])]
    exact congrArg (e :: ·) hafter.about
  · rw [about_append, hbefore.about, List.nil_append, about,
      List.filter_cons_of_neg (by simpa [he] using Ne.symm hq)]
    exact hafter.about

/-- A call that stores one record and takes one turn. -/
private theorem affects_store (before after : List Event) (e : Event) (record : Record)
    (hrequests : world'.oracle.requests =
      Function.update world.oracle.requests requestId record.request)
    (hcommitments : world'.oracle.commitments =
      Function.update world.oracle.commitments requestId record.commitments)
    (hbefore : Silent before) (hafter : Silent after) (he : e.requestId? = some requestId)
    (hturn : Turn keccak256 env asked requestId (world.oracle.record requestId) e record) :
    Affects keccak256 env asked world world' (before ++ e :: after) requestId := by
  obtain ⟨hown, hother⟩ := about_around hbefore hafter he
  refine ⟨?_, fun q hq => ⟨?_, hother q hq⟩⟩
  · have hrecord : world'.oracle.record requestId = record := by
      unfold State.record
      rw [hrequests, hcommitments, Function.update_self, Function.update_self]
    rw [hown, hrecord]
    exact .one hturn
  · unfold State.record
    rw [hrequests, hcommitments, Function.update_of_ne hq, Function.update_of_ne hq]

theorem get_turn {requests : SentinelOracleRequestMap.T}
    (h : SentinelOracleRequestMap.get requests requestId = .ok request) :
    request = requests requestId := by
  unfold SentinelOracleRequestMap.get at h
  obtain ⟨_, -, h⟩ := bind_eq_ok.mp h
  exact (pure_eq_ok.mp h).symm

private theorem postRequest_affects {sponsor : Address}
    (hok : postRequest deployment env world requestId sponsor = .ok (world', events)) :
    Affects keccak256 env asked world world' events requestId := by
  unfold postRequest at hok
  dsimp only at hok
  obtain ⟨_, -, hok⟩ := bind_eq_ok.mp hok
  obtain ⟨_, -, hok⟩ := bind_eq_ok.mp hok
  obtain ⟨bondTarget, -, hok⟩ := bind_eq_ok.mp hok
  obtain ⟨_, -, hok⟩ := bind_eq_ok.mp hok
  obtain ⟨slashAmount, -, hok⟩ := bind_eq_ok.mp hok
  obtain ⟨_, -, hok⟩ := bind_eq_ok.mp hok
  obtain ⟨_, -, hok⟩ := bind_eq_ok.mp hok
  obtain ⟨commitDeadline, -, hok⟩ := bind_eq_ok.mp hok
  obtain ⟨revealDeadline, -, hok⟩ := bind_eq_ok.mp hok
  obtain ⟨requests, hcreate, hok⟩ := bind_eq_ok.mp hok
  obtain ⟨⟨token, transfers⟩, hcollect, hok⟩ := bind_eq_ok.mp hok
  cases pure_eq_ok.mp hok
  unfold SentinelOracleRequestMap.create at hcreate
  obtain ⟨_, hnone, hcreate⟩ := bind_eq_ok.mp hcreate
  obtain ⟨_, hahead, hcreate⟩ := bind_eq_ok.mp hcreate
  obtain ⟨_, hordered, hcreate⟩ := bind_eq_ok.mp hcreate
  rw [require_eq_ok, decide_eq_true_eq] at hnone hahead hordered
  refine affects_store [] _ _ ⟨_, world.oracle.commitments requestId⟩
    (pure_eq_ok.mp hcreate).symm (by rw [Function.update_eq_self]) silent_nil
    (collect_silent hcollect) rfl ?_
  exact .post _ _ _ _ _ _ _ hnone hahead hordered

private theorem commit_affects {commitHash : B256}
    (hok : commit deployment env world requestId commitHash = .ok (world', events)) :
    Affects keccak256 env (.commit requestId commitHash) world world' events requestId := by
  unfold commit at hok
  dsimp only at hok
  obtain ⟨_, -, hok⟩ := bind_eq_ok.mp hok
  obtain ⟨request, hget, hok⟩ := bind_eq_ok.mp hok
  obtain ⟨⟨request', bondAmount⟩, happly, hok⟩ := bind_eq_ok.mp hok
  obtain ⟨commitments, hadd, hok⟩ := bind_eq_ok.mp hok
  obtain ⟨⟨token, transfers⟩, hcollect, hok⟩ := bind_eq_ok.mp hok
  cases pure_eq_ok.mp hok
  have hrequest := get_turn hget
  subst hrequest
  unfold applyCommit at happly
  obtain ⟨_, hpending, happly⟩ := bind_eq_ok.mp happly
  obtain ⟨_, hwindow, happly⟩ := bind_eq_ok.mp happly
  obtain ⟨_, hcount, happly⟩ := bind_eq_ok.mp happly
  obtain ⟨-, rfl⟩ := checkedAdd_ok.mp hcount
  cases pure_eq_ok.mp happly
  unfold SentinelOracleCommitmentMap.add at hadd
  obtain ⟨_, -, hadd⟩ := bind_eq_ok.mp hadd
  obtain ⟨_, hfresh, hadd⟩ := bind_eq_ok.mp hadd
  cases pure_eq_ok.mp hadd
  rw [require_eq_ok, decide_eq_true_eq] at hpending hwindow hfresh
  exact affects_store [] _ _ ⟨_, _⟩ rfl rfl silent_nil (collect_silent hcollect) rfl
    (.commit commitHash rfl hpending hwindow hfresh)

/-- The three ends of a finalization: the state it announces and what is stored. -/
private theorem finalize_ends {number deadline denominator : Nat} {result : Finalization}
    (hok : SentinelOracleRequest.finalize request number deadline denominator =
      .ok (request', result)) :
    request.progress.state = .pending ∧ Due number request ∧
      ((result.newState = .frozen ∧ (∀ side, 0 < sideCount request.progress side) ∧
          request' = { request with progress := { request.progress with
            state := .frozen, arbitrationDeadline := deadline } }) ∨
        (result.newState = .timedOut ∧ (∀ side, sideCount request.progress side = 0) ∧
          request' = movedTo request .timedOut 0) ∨
        ∃ side fee, result.newState = sideState side ∧ 0 < sideCount request.progress side ∧
          sideCount request.progress (!side) = 0 ∧
          request' = movedTo request (sideState side) fee) := by
  unfold SentinelOracleRequest.finalize at hok
  dsimp only at hok
  obtain ⟨_, hpending, hok⟩ := bind_eq_ok.mp hok
  obtain ⟨_, hdue, hok⟩ := bind_eq_ok.mp hok
  rw [require_eq_ok, decide_eq_true_eq] at hpending
  rw [require_eq_ok] at hdue
  simp only [Bool.or_eq_true, Bool.and_eq_true, decide_eq_true_eq] at hdue
  refine ⟨hpending, or_assoc.mp hdue, ?_⟩
  by_cases hmet : 0 < request.progress.approveSentinelCount ∨ 0 < request.progress.denySentinelCount
  · rw [if_pos hmet] at hok
    obtain ⟨⟨request₁, newState, daoCut⟩, hestablish, hok⟩ := bind_eq_ok.mp hok
    obtain ⟨_, -, hok⟩ := bind_eq_ok.mp hok
    cases pure_eq_ok.mp hok
    cases establish_ok hestablish with
    | inl hfrozen =>
        obtain ⟨rfl, -, hsides, rfl⟩ := hfrozen
        exact .inl ⟨rfl, hsides, rfl⟩
    | inr hwon =>
        obtain ⟨side, fee, rfl, hother, rfl, -, -⟩ := hwon
        refine .inr (.inr ⟨side, fee, rfl, ?_, hother, rfl⟩)
        cases side with
        | true => exact hmet.resolve_right (Nat.not_lt.mpr (Nat.le_of_eq hother))
        | false => exact hmet.resolve_left (Nat.not_lt.mpr (Nat.le_of_eq hother))
  · rw [if_neg hmet] at hok
    cases pure_eq_ok.mp hok
    refine .inr (.inl ⟨rfl, fun side => ?_, rfl⟩)
    cases side with
    | true => show request.progress.approveSentinelCount = 0; omega
    | false => show request.progress.denySentinelCount = 0; omega

private theorem finalize_affects
    (hok : finalize deployment env world requestId = .ok (world', events)) :
    Affects keccak256 env asked world world' events requestId ∧
      ∃ before e, events = before ++ [e] ∧ Silent before ∧ e.requestId? = some requestId ∧
        Turn keccak256 env asked requestId (world.oracle.record requestId) e
          (world'.oracle.record requestId) ∧
        (world'.oracle.record requestId).commitments = world.oracle.commitments requestId := by
  unfold finalize at hok
  dsimp only at hok
  obtain ⟨request, hget, hok⟩ := bind_eq_ok.mp hok
  obtain ⟨_, -, hok⟩ := bind_eq_ok.mp hok
  obtain ⟨deadline, -, hok⟩ := bind_eq_ok.mp hok
  obtain ⟨⟨request', result⟩, hfinal, hok⟩ := bind_eq_ok.mp hok
  obtain ⟨⟨token₁, slashed⟩, hslash, hok⟩ := bind_eq_ok.mp hok
  obtain ⟨⟨token₂, rest⟩, hannounce, hok⟩ := bind_eq_ok.mp hok
  cases pure_eq_ok.mp hok
  have hrequest := get_turn hget
  subst hrequest
  obtain ⟨hpending, hdue, hends⟩ := finalize_ends hfinal
  have hslashed := payPositive_silent hslash
  -- the announcement ends with the one event that is about a request
  have hturn : ∃ before e, rest = before ++ [e] ∧ Silent before ∧ e.requestId? = some requestId ∧
      Turn keccak256 env asked requestId (world.oracle.record requestId) e
        ⟨request', world.oracle.commitments requestId⟩ := by
    unfold announce at hannounce
    obtain ⟨hstate, hsides, rfl⟩ | ⟨hstate, hsilent, rfl⟩ |
      ⟨side, fee, hstate, hwon, hother, rfl⟩ := hends
    · rw [hstate] at hannounce
      cases hannounce
      exact ⟨[], _, rfl, silent_nil, rfl, .freeze _ hpending hdue hsides⟩
    · rw [hstate] at hannounce
      obtain ⟨⟨_, transfers⟩, hpay, hannounce⟩ := bind_eq_ok.mp hannounce
      cases pure_eq_ok.mp hannounce
      exact ⟨transfers, _, rfl, pay_silent hpay, rfl, .expire hpending hdue hsilent⟩
    · rw [hstate] at hannounce
      cases side with
      | true =>
          obtain ⟨⟨_, transfers⟩, hpay, hannounce⟩ := bind_eq_ok.mp hannounce
          cases pure_eq_ok.mp hannounce
          exact ⟨transfers, _, rfl, payPositive_silent hpay, rfl,
            .settle true fee hpending hdue hwon hother⟩
      | false =>
          obtain ⟨⟨_, transfers⟩, hpay, hannounce⟩ := bind_eq_ok.mp hannounce
          cases pure_eq_ok.mp hannounce
          exact ⟨transfers, _, rfl, payPositive_silent hpay, rfl,
            .settle false fee hpending hdue hwon hother⟩
  obtain ⟨before, e, rfl, hbefore, he, hturn⟩ := hturn
  have hquiet : Silent (slashed ++ before) := hslashed.append hbefore
  rw [← List.append_assoc]
  refine ⟨affects_store _ [] e ⟨request', world.oracle.commitments requestId⟩ rfl rfl hquiet
    silent_nil he hturn, slashed ++ before, e, rfl, hquiet, he, ?_⟩
  have hrecord : (State.record { world.oracle.store requestId request'
      (world.oracle.commitments requestId) with
      protocolFundsReceiverConfig :=
        (world.oracle.protocolFundsReceiverConfig.applyPending env.number).1 } requestId) =
      ⟨request', world.oracle.commitments requestId⟩ := by
    simp [State.record, State.store]
  rw [hrecord]
  exact ⟨hturn, rfl⟩

/-- A vote is revealed in its window by the preimage of its hash. -/
private theorem reveal_turn {approve allRevealed : Bool} {salt : B256} {reason : Bytes}
    {commitments' : SentinelOracleCommitmentMap.T}
    (hreveal : SentinelOracleCommitmentMap.reveal keccak256 commitments requestId env.sender approve
      salt reason = .ok commitments')
    (happly : applyReveal request env.number approve = .ok (request', allRevealed)) :
    request' = revealedOnce request approve ∧
      Turn keccak256 env (.reveal requestId approve salt reason) requestId ⟨request, commitments⟩
        (.revealed requestId env.sender approve (commitments env.sender).bondAmount reason)
        ⟨request', commitments'⟩ := by
  unfold applyReveal at happly
  obtain ⟨_, hpending, happly⟩ := bind_eq_ok.mp happly
  obtain ⟨_, hopened, happly⟩ := bind_eq_ok.mp happly
  obtain ⟨_, hwindow, happly⟩ := bind_eq_ok.mp happly
  obtain ⟨_, hrevealed, happly⟩ := bind_eq_ok.mp happly
  obtain ⟨approved, happroved, happly⟩ := bind_eq_ok.mp happly
  obtain ⟨denied, hdenied, happly⟩ := bind_eq_ok.mp happly
  rw [require_eq_ok, decide_eq_true_eq] at hpending hopened hwindow
  obtain ⟨-, rfl⟩ := checkedAdd_ok.mp hrevealed
  have happroved := bump_ok happroved
  have hdenied := bump_ok hdenied
  subst happroved hdenied
  cases pure_eq_ok.mp happly
  unfold SentinelOracleCommitmentMap.reveal at hreveal
  obtain ⟨_, -, hreveal⟩ := bind_eq_ok.mp hreveal
  obtain ⟨_, hsealed, hreveal⟩ := bind_eq_ok.mp hreveal
  obtain ⟨_, hpreimage, hreveal⟩ := bind_eq_ok.mp hreveal
  rw [require_eq_ok, decide_eq_true_eq] at hsealed hpreimage
  cases pure_eq_ok.mp hreveal
  exact ⟨rfl, .reveal approve salt reason rfl hpending hopened hwindow hsealed hpreimage⟩

private theorem reveal_affects {approve : Bool} {salt : B256} {reason : Bytes}
    (hok : reveal keccak256 deployment env world requestId approve salt reason =
      .ok (world', events)) :
    Affects keccak256 env (.reveal requestId approve salt reason) world world' events
      requestId := by
  unfold reveal at hok
  dsimp only at hok
  obtain ⟨request, hget, hok⟩ := bind_eq_ok.mp hok
  obtain ⟨commitments, hreveal, hok⟩ := bind_eq_ok.mp hok
  obtain ⟨⟨request', allRevealed⟩, happly, hok⟩ := bind_eq_ok.mp hok
  have hrequest := get_turn hget
  subst hrequest
  obtain ⟨hrevealed, hturn⟩ := reveal_turn hreveal happly
  have hstore : Affects keccak256 env (.reveal requestId approve salt reason) world
      { world with oracle := world.oracle.store requestId request' commitments }
      [.revealed requestId env.sender approve
        (world.oracle.commitments requestId env.sender).bondAmount reason] requestId :=
    affects_store [] [] _ ⟨request', commitments⟩ rfl rfl silent_nil silent_nil rfl hturn
  cases allRevealed with
  | false =>
      rw [if_neg (by simp)] at hok
      cases pure_eq_ok.mp hok
      exact hstore
  | true =>
      rw [if_pos rfl] at hok
      obtain ⟨⟨world₁, events₁⟩, hfinal, hok⟩ := bind_eq_ok.mp hok
      cases pure_eq_ok.mp hok
      have hfinalized : Affects keccak256 env (.reveal requestId approve salt reason) _ world₁
          events₁ requestId ∧ _ :=
        finalize_affects hfinal
      obtain ⟨haffects, before, e, rfl, hbefore, he, hturn', hkept⟩ := hfinalized
      have hrecord : (world.oracle.store requestId request' commitments).record requestId =
          ⟨request', commitments⟩ := by
        simp [State.record, State.store]
      obtain ⟨hown, hother⟩ := about_around hbefore silent_nil he
      refine ⟨?_, fun q hq => ⟨?_, ?_⟩⟩
      · rw [about, List.filter_cons_of_pos (by simp [Event.requestId?])]
        show Turned _ _ _ _ _ (_ :: about requestId (before ++ [e])) _
        rw [hown]
        rw [hrecord] at hturn'
        refine .revealFinalize hturn (by rw [hrevealed]; rfl) hturn' ?_
        rw [hkept]
        exact congrArg Record.commitments hrecord
      · exact (haffects.frame q hq).1.trans (hstore.frame q hq).1
      · rw [about, List.filter_cons_of_neg (by simpa [Event.requestId?] using Ne.symm hq)]
        exact hother q hq

private theorem claim_affects
    (hok : claim deployment env world requestId = .ok (world', events)) :
    Affects keccak256 env asked world world' events requestId := by
  unfold claim at hok
  dsimp only at hok
  obtain ⟨request, hget, hok⟩ := bind_eq_ok.mp hok
  obtain ⟨state, hstate, hok⟩ := bind_eq_ok.mp hok
  obtain ⟨claimed, hmark, hok⟩ := bind_eq_ok.mp hok
  obtain ⟨feeReward, -, hok⟩ := bind_eq_ok.mp hok
  obtain ⟨bondReturn, -, hok⟩ := bind_eq_ok.mp hok
  obtain ⟨_, -, hok⟩ := bind_eq_ok.mp hok
  obtain ⟨⟨token, transfers⟩, hpay, hok⟩ := bind_eq_ok.mp hok
  cases pure_eq_ok.mp hok
  have hrequest := get_turn hget
  subst hrequest
  obtain ⟨rfl, hresolved⟩ := requireResolved_ok hstate
  obtain ⟨-, -, rfl⟩ := markClaimed_ok hmark
  exact affects_store _ [] _ ⟨_, _⟩ rfl rfl (payPositive_silent hpay) silent_nil rfl
    (.claim _ _ hresolved)

/-! ### Arbitration -/

private theorem resolveDispute_affects {approveWins : Bool} {context : Bytes}
    (hok : resolveDispute deployment env world requestId approveWins context =
      .ok (world', events)) :
    Affects keccak256 env asked world world' events requestId := by
  unfold resolveDispute at hok
  dsimp only at hok
  obtain ⟨_, -, hok⟩ := bind_eq_ok.mp hok
  obtain ⟨request, hget, hok⟩ := bind_eq_ok.mp hok
  obtain ⟨⟨request', ruling⟩, hrule, hok⟩ := bind_eq_ok.mp hok
  obtain ⟨⟨token₁, refund⟩, hrefund, hok⟩ := bind_eq_ok.mp hok
  obtain ⟨_, -, hok⟩ := bind_eq_ok.mp hok
  obtain ⟨_, -, hok⟩ := bind_eq_ok.mp hok
  obtain ⟨⟨token₂, slashed⟩, hslash, hok⟩ := bind_eq_ok.mp hok
  cases pure_eq_ok.mp hok
  have hrequest := get_turn hget
  subst hrequest
  unfold SentinelOracleRequest.resolveDispute at hrule
  dsimp only at hrule
  obtain ⟨_, hfrozen, hrule⟩ := bind_eq_ok.mp hrule
  obtain ⟨⟨request₁, daoCut⟩, hcut, hrule⟩ := bind_eq_ok.mp hrule
  obtain ⟨fee, rfl, -, -⟩ := applyDaoFeeCut_ok hcut
  cases pure_eq_ok.mp hrule
  rw [require_eq_ok, decide_eq_true_eq] at hfrozen
  exact affects_store _ [] _ ⟨_, _⟩ rfl rfl ((pay_silent hrefund).append (pay_silent hslash))
    silent_nil rfl (.rule approveWins fee _ context hfrozen)

private theorem outOfScope_stores {refundFee : Nat}
    (h : outOfScope request = .ok (request', refundFee)) :
    request.progress.state = .frozen ∧ request' = movedTo request .timedOut 0 := by
  unfold outOfScope at h
  obtain ⟨_, hfrozen, h⟩ := bind_eq_ok.mp h
  cases pure_eq_ok.mp h
  rw [require_eq_ok, decide_eq_true_eq] at hfrozen
  exact ⟨hfrozen, rfl⟩

private theorem timeoutArbitration_affects
    (hok : timeoutArbitration deployment env world requestId = .ok (world', events)) :
    Affects keccak256 env asked world world' events requestId := by
  unfold timeoutArbitration at hok
  dsimp only at hok
  obtain ⟨request, hget, hok⟩ := bind_eq_ok.mp hok
  obtain ⟨⟨request', refundFee⟩, htimeout, hok⟩ := bind_eq_ok.mp hok
  obtain ⟨⟨token, refund⟩, hpay, hok⟩ := bind_eq_ok.mp hok
  cases pure_eq_ok.mp hok
  have hrequest := get_turn hget
  subst hrequest
  unfold SentinelOracleRequest.timeoutArbitration at htimeout
  obtain ⟨_, hlate, hscope⟩ := bind_eq_ok.mp htimeout
  rw [require_eq_ok, decide_eq_true_eq] at hlate
  obtain ⟨hfrozen, rfl⟩ := outOfScope_stores hscope
  exact affects_store _ [] _ ⟨_, _⟩ rfl rfl (pay_silent hpay) silent_nil rfl
    (.timeout hfrozen hlate)

private theorem markOutOfScope_affects {context : Bytes}
    (hok : markOutOfScope deployment env world requestId context = .ok (world', events)) :
    Affects keccak256 env asked world world' events requestId := by
  unfold markOutOfScope at hok
  dsimp only at hok
  obtain ⟨_, -, hok⟩ := bind_eq_ok.mp hok
  obtain ⟨request, hget, hok⟩ := bind_eq_ok.mp hok
  obtain ⟨⟨request', refundFee⟩, hscope, hok⟩ := bind_eq_ok.mp hok
  obtain ⟨⟨token, refund⟩, hpay, hok⟩ := bind_eq_ok.mp hok
  cases pure_eq_ok.mp hok
  have hrequest := get_turn hget
  subst hrequest
  obtain ⟨hfrozen, rfl⟩ := outOfScope_stores hscope
  exact affects_store _ [] _ ⟨_, _⟩ rfl rfl (pay_silent hpay) silent_nil rfl
    (.decline context hfrozen)

/-! ### Calls of governance -/

/-- A call that leaves all requests alone. -/
structure Spares (world world' : World) (events : List Event) : Prop where
  record : ∀ r, world'.oracle.record r = world.oracle.record r
  silent : Silent events

private theorem onOracle_spares {result : Except Error (State × List Event)}
    (hok : onOracle world result = .ok (world', events))
    (hresult : ∀ s events, result = .ok (s, events) →
      s.requests = world.oracle.requests ∧ s.commitments = world.oracle.commitments ∧
        Silent events) :
    Spares world world' events := by
  cases result with
  | error e => cases hok
  | ok r =>
      obtain ⟨s, events'⟩ := r
      obtain ⟨hrequests, hcommitments, hsilent⟩ := hresult s events' rfl
      cases hok
      refine ⟨fun r => ?_, hsilent⟩
      unfold State.record
      rw [hrequests, hcommitments]

private theorem silent_single {e : Event} (h : e.requestId? = none) : Silent [e] := by
  intro e' he'
  rw [List.mem_singleton.mp he']
  exact h

/-- What a call does that does not revert. -/
private theorem call_affects {c : Call}
    (hok : call keccak256 deployment env world c = .ok (world', events)) :
    (∃ r, Affects keccak256 env c world world' events r) ∨ Spares world world' events := by
  cases c with
  | postRequest requestId sponsor => exact .inl ⟨_, postRequest_affects hok⟩
  | commit requestId commitHash => exact .inl ⟨_, commit_affects hok⟩
  | reveal requestId approve salt reason => exact .inl ⟨_, reveal_affects hok⟩
  | finalize requestId => exact .inl ⟨_, (finalize_affects hok).1⟩
  | claim requestId => exact .inl ⟨_, claim_affects hok⟩
  | resolveDispute requestId approveWins context => exact .inl ⟨_, resolveDispute_affects hok⟩
  | timeoutArbitration requestId => exact .inl ⟨_, timeoutArbitration_affects hok⟩
  | markOutOfScope requestId context => exact .inl ⟨_, markOutOfScope_affects hok⟩
  | addSentinel sentinel =>
      refine .inr (onOracle_spares hok fun s events hs => ?_)
      unfold addSentinel at hs
      obtain ⟨_, -, hs⟩ := bind_eq_ok.mp hs
      obtain ⟨_, -, hs⟩ := bind_eq_ok.mp hs
      cases pure_eq_ok.mp hs
      exact ⟨rfl, rfl, silent_single rfl⟩
  | removeSentinel sentinel =>
      refine .inr (onOracle_spares hok fun s events hs => ?_)
      unfold removeSentinel at hs
      obtain ⟨_, -, hs⟩ := bind_eq_ok.mp hs
      obtain ⟨_, -, hs⟩ := bind_eq_ok.mp hs
      cases pure_eq_ok.mp hs
      exact ⟨rfl, rfl, silent_single rfl⟩
  | scheduleBondConfig newBondMultiplier newSlashingMultiplier =>
      refine .inr (onOracle_spares hok fun s events hs => ?_)
      unfold scheduleBondConfig at hs
      obtain ⟨_, -, hs⟩ := bind_eq_ok.mp hs
      obtain ⟨_, -, hs⟩ := bind_eq_ok.mp hs
      cases pure_eq_ok.mp hs
      exact ⟨rfl, rfl, silent_single rfl⟩
  | applyBondConfig =>
      cases hok
      exact .inr ⟨fun _ => rfl, silent_nil⟩
  | scheduleProtocolFundsReceiver newValue =>
      refine .inr (onOracle_spares hok fun s events hs => ?_)
      unfold scheduleProtocolFundsReceiver at hs
      obtain ⟨_, -, hs⟩ := bind_eq_ok.mp hs
      obtain ⟨_, -, hs⟩ := bind_eq_ok.mp hs
      obtain ⟨_, -, hs⟩ := bind_eq_ok.mp hs
      cases pure_eq_ok.mp hs
      exact ⟨rfl, rfl, silent_single rfl⟩
  | applyProtocolFundsReceiver =>
      cases hok
      exact .inr ⟨fun _ => rfl, silent_nil⟩
  | scheduleFee newValue =>
      refine .inr (onOracle_spares hok fun s events hs => ?_)
      unfold scheduleFee at hs
      obtain ⟨_, -, hs⟩ := bind_eq_ok.mp hs
      obtain ⟨_, -, hs⟩ := bind_eq_ok.mp hs
      obtain ⟨_, -, hs⟩ := bind_eq_ok.mp hs
      cases pure_eq_ok.mp hs
      exact ⟨rfl, rfl, silent_single rfl⟩
  | applyFee =>
      cases hok
      exact .inr ⟨fun _ => rfl, silent_nil⟩
  | scheduleDaoFeeShare newValue =>
      refine .inr (onOracle_spares hok fun s events hs => ?_)
      unfold scheduleDaoFeeShare at hs
      obtain ⟨_, -, hs⟩ := bind_eq_ok.mp hs
      obtain ⟨_, -, hs⟩ := bind_eq_ok.mp hs
      obtain ⟨_, -, hs⟩ := bind_eq_ok.mp hs
      cases pure_eq_ok.mp hs
      exact ⟨rfl, rfl, silent_single rfl⟩
  | applyDaoFeeShare =>
      cases hok
      exact .inr ⟨fun _ => rfl, silent_nil⟩

/-- Whatever a call does to a request, it does by turns. -/
theorem call_turned {c : Call}
    (hok : call keccak256 deployment env world c = .ok (world', events)) (r : B256) :
    Turned keccak256 env c r (world.oracle.record r) (about r events) (world'.oracle.record r) := by
  cases call_affects hok with
  | inl h =>
      obtain ⟨q, h⟩ := h
      by_cases hr : r = q
      · rw [hr]
        exact h.turned
      · obtain ⟨hrecord, habout⟩ := h.frame r hr
        rw [hrecord, habout]
        exact .none
  | inr h =>
      rw [h.record, h.silent.about]
      exact .none

/-- All events of a call about a request are about the same one. -/
theorem call_about {c : Call} (hok : call keccak256 deployment env world c = .ok (world', events)) :
    ∃ q, ∀ r, r ≠ q → about r events = [] := by
  cases call_affects hok with
  | inl h =>
      obtain ⟨q, h⟩ := h
      exact ⟨q, fun r hr => (h.frame r hr).2⟩
  | inr h => exact ⟨0, fun _ _ => h.silent.about⟩

end Safenet.Contracts.SentinelOracle
