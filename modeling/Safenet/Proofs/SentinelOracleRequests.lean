/-
The books of one request of the sentinel oracle.

`owed` is what the oracle still holds for a request: the fee until it is decided, and what
every committer who has not claimed will be paid.  `RequestOK` is the invariant of a request
and its commitments.  Every operation keeps it and changes `owed` by exactly what it hands
to its caller to pay out, and none of its arithmetic panics.

Where nobody has claimed, a sum over the committers depends on their votes only, so that it
is a sum over the three votes weighted by the counts (`sum_votes`).
-/
import Mathlib.Algebra.BigOperators.Ring.Finset
import Mathlib.Data.FinEnum
import Mathlib.Tactic.Ring
import Safenet.Contracts.SentinelOracleRequests
import Safenet.Lib.Ledger

namespace Safenet.Contracts.SentinelOracleRequest

open Fallible SentinelOracleCommitment
open SentinelOracle (Error feeShareDenominator)

variable {request request' : T} {commitments : SentinelOracleCommitmentMap.T} {number : Nat}

/-! ### What a request owes -/

/-- What a committer who did not claim will be paid.  Before the request is finalized it is the
whole bond, whatever was revealed so far. -/
def worth (request : T) (commitment : Commitment) : Nat :=
  if request.progress.state = .pending then commitment.bondAmount
  else commitment.bondAmount - slashAmountFor request request.progress.state commitment.vote +
    (calcFeeReward request request.progress.state commitment.vote).toOption.getD 0

/-- What is still due to one address. -/
def due (request : T) (commitment : Commitment) : Nat :=
  if commitment.vote = .none ∨ commitment.claimed = true then 0 else worth request commitment

/-- The fee of a request that is not decided. -/
def unresolvedFee (request : T) : Nat :=
  if request.progress.state = .pending ∨ request.progress.state = .frozen then request.progress.fee
  else 0

/-- What the oracle still holds for a request. -/
def owed (request : T) (commitments : SentinelOracleCommitmentMap.T) : Nat :=
  unresolvedFee request + ∑ a, due request (commitments a)

/-- How many committed with this vote. -/
def votes (commitments : SentinelOracleCommitmentMap.T) (vote : Vote) : Nat :=
  ∑ a, if (commitments a).vote = vote then 1 else 0

/-- The vote of a side. -/
def sideVote (approve : Bool) : Vote := if approve then .approved else .denied

/-- The outcome in favour of a side. -/
def sideState (approve : Bool) : State := if approve then .resolvedApproved else .resolvedDenied

/-- The number of votes counted for a side. -/
def sideCount (progress : Progress) (approve : Bool) : Nat :=
  if approve then progress.approveSentinelCount else progress.denySentinelCount

/-- A request agrees with the commitments to it. -/
structure RequestOK (request : T) (commitments : SentinelOracleCommitmentMap.T) : Prop where
  /-- Nothing is stored for a request that does not exist. -/
  absent : request.progress.state = .none → ∀ a, (commitments a).vote = .none
  blank : ∀ a, (commitments a).vote = .none → commitments a = SentinelOracleCommitment.empty
  bonded : ∀ a, (commitments a).vote ≠ .none →
    (commitments a).bondAmount = request.terms.bondTarget
  counted : ∀ approve, sideCount request.progress approve = votes commitments (sideVote approve)
  revealed : request.progress.revealedCount =
    sideCount request.progress true + sideCount request.progress false
  committed : request.progress.committedCount =
    votes commitments .pending + request.progress.revealedCount
  countWidth : request.progress.committedCount < 2 ^ 16
  slash_le : request.terms.slashAmount ≤ request.terms.bondTarget
  fee_le : request.progress.fee ≤ request.terms.slashAmount
  bondWidth : request.terms.bondTarget < 2 ^ 96
  share_le : request.terms.daoFeeShare ≤ 100000
  /-- Nobody claims before the outcome. -/
  unclaimed : request.progress.state = .pending ∨ request.progress.state = .frozen →
    ∀ a, (commitments a).claimed = false
  disputed : request.progress.state = .frozen → ∀ approve, 0 < sideCount request.progress approve
  /-- The winners share the fee evenly. -/
  shared : ∀ approve, request.progress.state = sideState approve →
    0 < sideCount request.progress approve ∧
      sideCount request.progress approve ∣ request.progress.fee

/-! ### Sums over votes -/

/-- A sum over everybody of something that depends on the vote only. -/
theorem sum_votes (commitments : SentinelOracleCommitmentMap.T) (f : Vote → Nat)
    (hnone : f .none = 0) :
    ∑ a, f (commitments a).vote = f .pending * votes commitments .pending +
      f .approved * votes commitments .approved + f .denied * votes commitments .denied := by
  unfold votes
  rw [Finset.mul_sum, Finset.mul_sum, Finset.mul_sum, ← Finset.sum_add_distrib,
    ← Finset.sum_add_distrib]
  refine Finset.sum_congr rfl fun a _ => ?_
  cases (commitments a).vote <;> simp [hnone]

/-- Changing the commitment of one address. -/
theorem votes_update (commitments : SentinelOracleCommitmentMap.T) (a : Address)
    (commitment : Commitment) (vote : Vote) :
    votes (Function.update commitments a commitment) vote +
        (if (commitments a).vote = vote then 1 else 0) =
      votes commitments vote + (if commitment.vote = vote then 1 else 0) :=
  Ledger.sum_map_update (fun c : Commitment => if c.vote = vote then 1 else 0) commitments a
    commitment

/-- What a vote is worth, the bond being the same for everybody. -/
def worthOf (request : T) (vote : Vote) : Nat :=
  worth request ⟨0, request.terms.bondTarget, vote, false⟩

/-- What is owed while nobody has claimed. -/
theorem owed_unclaimed (hbonded : ∀ a, (commitments a).vote ≠ .none →
      (commitments a).bondAmount = request.terms.bondTarget)
    (hunclaimed : ∀ a, (commitments a).claimed = false) :
    owed request commitments = unresolvedFee request +
      (worthOf request .pending * votes commitments .pending +
        worthOf request .approved * votes commitments .approved +
        worthOf request .denied * votes commitments .denied) := by
  have hsum : ∑ a, due request (commitments a) =
      ∑ a, (if (commitments a).vote = .none then 0 else worthOf request (commitments a).vote) := by
    refine Finset.sum_congr rfl fun a _ => ?_
    unfold due
    by_cases hvote : (commitments a).vote = .none
    · rw [if_pos (.inl hvote), if_pos hvote]
    · rw [if_neg (by simp [hvote, hunclaimed a]), if_neg hvote]
      unfold worthOf worth
      rw [hbonded a hvote]
  have hvotes := sum_votes commitments
    (fun vote => if vote = .none then 0 else worthOf request vote) rfl
  rw [owed, hsum]
  exact congrArg (unresolvedFee request + ·) hvotes

/-- Nothing is owed for a request that does not exist. -/
theorem owed_absent (hstate : request.progress.state = .none)
    (habsent : ∀ a, (commitments a).vote = .none) : owed request commitments = 0 := by
  have hfee : unresolvedFee request = 0 := if_neg (by simp [hstate])
  have hdue : ∑ a, due request (commitments a) = 0 :=
    Finset.sum_eq_zero fun a _ => if_pos (.inl (habsent a))
  rw [owed, hfee, hdue]

/-! ### What each vote is worth -/

theorem worthOf_pending (h : request.progress.state = .pending) (vote : Vote) :
    worthOf request vote = request.terms.bondTarget := by
  rw [worthOf, worth, if_pos h]

/-- Whoever did not reveal loses the slashed part once a side is established. -/
theorem worthOf_silent (h : request.progress.state ≠ .pending)
    (hside : ∃ approve, 0 < sideCount request.progress approve) :
    worthOf request .pending = request.terms.bondTarget - request.terms.slashAmount := by
  have hmet : 0 < request.progress.approveSentinelCount ∨
      0 < request.progress.denySentinelCount := by
    obtain ⟨approve, hcount⟩ := hside
    cases approve with
    | true => exact .inl hcount
    | false => exact .inr hcount
  rw [worthOf, worth, if_neg h]
  simp [slashAmountFor, calcFeeReward, hmet, Except.toOption]

/-- Nobody is slashed if nobody revealed. -/
theorem worthOf_unestablished (h : request.progress.state ≠ .pending)
    (hside : ∀ approve, sideCount request.progress approve = 0) :
    worthOf request .pending = request.terms.bondTarget := by
  have happrove : request.progress.approveSentinelCount = 0 := hside true
  have hdeny : request.progress.denySentinelCount = 0 := hside false
  rw [worthOf, worth, if_neg h]
  simp [slashAmountFor, calcFeeReward, happrove, hdeny, Except.toOption]

/-- Whoever revealed keeps the bond while there is no outcome. -/
theorem worthOf_undecided (h : request.progress.state = .frozen ∨ request.progress.state = .timedOut)
    (approve : Bool) : worthOf request (sideVote approve) = request.terms.bondTarget := by
  cases h with
  | inl h => cases approve <;> simp [worthOf, worth, slashAmountFor, calcFeeReward, sideVote, h,
      Except.toOption]
  | inr h => cases approve <;> simp [worthOf, worth, slashAmountFor, calcFeeReward, sideVote, h,
      Except.toOption]

/-- A winner gets the bond and a share of the fee. -/
theorem worthOf_winner {approve : Bool} (h : request.progress.state = sideState approve)
    (hcount : 0 < sideCount request.progress approve) :
    worthOf request (sideVote approve) =
      request.terms.bondTarget + request.progress.fee / sideCount request.progress approve := by
  have hne : sideCount request.progress approve ≠ 0 := Nat.ne_of_gt hcount
  cases approve with
  | true =>
      have hne : request.progress.approveSentinelCount ≠ 0 := hne
      simp [worthOf, worth, slashAmountFor, calcFeeReward, sideVote, sideState, sideCount, h,
        checkedDiv, hne, Except.toOption]
  | false =>
      have hne : request.progress.denySentinelCount ≠ 0 := hne
      simp [worthOf, worth, slashAmountFor, calcFeeReward, sideVote, sideState, sideCount, h,
        checkedDiv, hne, Except.toOption]

/-- A loser of a dispute loses the slashed part. -/
theorem worthOf_loser {approve : Bool} (h : request.progress.state = sideState approve)
    (hcount : ∀ side, 0 < sideCount request.progress side) :
    worthOf request (sideVote !approve) =
      request.terms.bondTarget - request.terms.slashAmount := by
  have happrove : request.progress.approveSentinelCount ≠ 0 := Nat.ne_of_gt (hcount true)
  have hdeny : request.progress.denySentinelCount ≠ 0 := Nat.ne_of_gt (hcount false)
  cases approve <;> simp [worthOf, worth, slashAmountFor, calcFeeReward, sideVote, sideState, h,
    happrove, hdeny, Except.toOption]

/-! ### The cut of the DAO -/

/-- The request with another fee. -/
def T.withFee (request : T) (fee : Nat) : T :=
  { request with progress := { request.progress with fee } }

theorem applyDaoFeeCut_ok {feeAmount denominator winners daoCut : Nat}
    (h : applyDaoFeeCut request feeAmount denominator winners = .ok (request', daoCut)) :
    ∃ fee, request' = request.withFee fee ∧ daoCut + fee = feeAmount ∧ winners ∣ fee := by
  unfold applyDaoFeeCut at h
  obtain ⟨_, -, h⟩ := bind_eq_ok.mp h
  obtain ⟨wideCut, -, h⟩ := bind_eq_ok.mp h
  obtain ⟨_, hremaining, h⟩ := bind_eq_ok.mp h
  obtain ⟨_, hremainder, h⟩ := bind_eq_ok.mp h
  obtain ⟨_, hcut, h⟩ := bind_eq_ok.mp h
  obtain ⟨_, hfee, h⟩ := bind_eq_ok.mp h
  obtain ⟨hraw, rfl⟩ := checkedSub_ok.mp hremaining
  obtain ⟨-, rfl⟩ := checkedMod_ok.mp hremainder
  obtain ⟨-, rfl⟩ := checkedAdd_ok.mp hcut
  obtain ⟨hle, rfl⟩ := checkedSub_ok.mp hfee
  have heq := pure_eq_ok.mp h
  rw [Prod.mk.injEq] at heq
  obtain ⟨rfl, rfl⟩ := heq
  exact ⟨_, rfl, by omega, Nat.dvd_sub_mod _⟩

/-- The terms and the counts are the same. -/
structure SameVotes (request request' : T) : Prop where
  terms : request'.terms = request.terms
  committed : request'.progress.committedCount = request.progress.committedCount
  revealed : request'.progress.revealedCount = request.progress.revealedCount
  sides : ∀ side, sideCount request'.progress side = sideCount request.progress side

/-- A request that was open goes on with the same votes and no larger fee. -/
theorem RequestOK.advance (h : RequestOK request commitments)
    (hopen : request.progress.state = .pending ∨ request.progress.state = .frozen)
    (hsame : SameVotes request request') (hstate : request'.progress.state ≠ .none)
    (hfee : request'.progress.fee ≤ request.progress.fee)
    (hdisputed : request'.progress.state = .frozen → ∀ side, 0 < sideCount request.progress side)
    (hshared : ∀ side, request'.progress.state = sideState side →
      0 < sideCount request.progress side ∧ sideCount request.progress side ∣ request'.progress.fee) :
    RequestOK request' commitments where
  absent := fun hnone => absurd hnone hstate
  blank := h.blank
  bonded := by rw [hsame.terms]; exact h.bonded
  counted := fun side => by rw [hsame.sides]; exact h.counted side
  revealed := by rw [hsame.revealed, hsame.sides, hsame.sides]; exact h.revealed
  committed := by rw [hsame.committed, hsame.revealed]; exact h.committed
  countWidth := by rw [hsame.committed]; exact h.countWidth
  slash_le := by rw [hsame.terms]; exact h.slash_le
  fee_le := by rw [hsame.terms]; exact hfee.trans h.fee_le
  bondWidth := by rw [hsame.terms]; exact h.bondWidth
  share_le := by rw [hsame.terms]; exact h.share_le
  unclaimed := fun _ => h.unclaimed hopen
  disputed := fun hfrozen side => by rw [hsame.sides]; exact hdisputed hfrozen side
  shared := fun side hside => by rw [hsame.sides]; exact hshared side hside

/-- What is owed, counted from one side. -/
theorem RequestOK.owed_sides (h : RequestOK request commitments)
    (hunclaimed : ∀ a, (commitments a).claimed = false) (side : Bool) :
    owed request commitments = unresolvedFee request +
      (worthOf request .pending * votes commitments .pending +
        (worthOf request (sideVote side) * sideCount request.progress side +
          worthOf request (sideVote !side) * sideCount request.progress !side)) := by
  rw [owed_unclaimed h.bonded hunclaimed, h.counted, h.counted]
  cases side with
  | true => simp only [sideVote, Bool.not_true, if_true, Nat.add_assoc]; rfl
  | false =>
      simp only [sideVote, Bool.not_false, if_true, Nat.add_assoc]
      rw [Nat.add_comm (worthOf request .approved * _)]
      rfl

theorem RequestOK.fee_lt (h : RequestOK request commitments) : request.progress.fee < 2 ^ 96 :=
  h.fee_le.trans_lt (h.slash_le.trans_lt h.bondWidth)

/-- A few slashed bonds do not overflow. -/
theorem RequestOK.slashed_lt (h : RequestOK request commitments) {n : Nat} (hn : n < 2 ^ 16) :
    n * request.terms.slashAmount < 2 ^ 112 := by
  have hslash : request.terms.slashAmount ≤ 2 ^ 96 - 1 := by
    have hlt := h.slash_le.trans_lt h.bondWidth
    omega
  calc n * request.terms.slashAmount ≤ (2 ^ 16 - 1) * (2 ^ 96 - 1) :=
        Nat.mul_le_mul (by omega) hslash
    _ < 2 ^ 112 := by decide

theorem RequestOK.slashed_mod (h : RequestOK request commitments) {n : Nat} (hn : n < 2 ^ 16) :
    n * request.terms.slashAmount % 2 ^ 128 = n * request.terms.slashAmount := by
  have hlt := h.slashed_lt hn
  exact Nat.mod_eq_of_lt (by omega)

/-- The bond of some committers is what is slashed and what is left. -/
theorem RequestOK.split_bond (h : RequestOK request commitments) (n : Nat) :
    request.terms.bondTarget * n =
      (request.terms.bondTarget - request.terms.slashAmount) * n +
        n * request.terms.slashAmount := by
  rw [Nat.mul_comm n, ← Nat.add_mul, Nat.sub_add_cancel h.slash_le]

theorem RequestOK.side_lt (h : RequestOK request commitments) (side : Bool) :
    sideCount request.progress side < 2 ^ 16 := by
  have hcommitted := h.committed
  have hrevealed := h.revealed
  have hwidth := h.countWidth
  cases side with
  | true => omega
  | false => omega

/-! ### Finalizing -/

/-- Either both sides have votes and the request freezes, or one side wins. -/
theorem establish_ok {deadline denominator daoCut : Nat} {newState : State}
    (h : establish request deadline denominator = .ok (request', newState, daoCut)) :
    (newState = .frozen ∧ daoCut = 0 ∧ (∀ side, 0 < sideCount request.progress side) ∧
      request' = { request with
        progress := { request.progress with arbitrationDeadline := deadline } }) ∨
    ∃ side fee, newState = sideState side ∧ sideCount request.progress (!side) = 0 ∧
      request' = request.withFee fee ∧ daoCut + fee = request.progress.fee ∧
      sideCount request.progress side ∣ fee := by
  unfold establish at h
  dsimp only at h
  by_cases hboth : (decide (0 < request.progress.approveSentinelCount) &&
      decide (0 < request.progress.denySentinelCount)) = true
  · rw [if_pos hboth] at h
    simp only [Bool.and_eq_true, decide_eq_true_eq] at hboth
    simp only [Except.ok.injEq, Prod.mk.injEq] at h
    obtain ⟨rfl, rfl, rfl⟩ := h
    refine .inl ⟨rfl, rfl, ?_, rfl⟩
    intro side
    cases side with
    | true => exact hboth.1
    | false => exact hboth.2
  · rw [if_neg hboth] at h
    obtain ⟨⟨request₁, daoCut₁⟩, hcut, h⟩ := bind_eq_ok.mp h
    obtain ⟨fee, rfl, hsum, hdvd⟩ := applyDaoFeeCut_ok hcut
    have heq := pure_eq_ok.mp h
    simp only [Prod.mk.injEq] at heq
    obtain ⟨rfl, rfl, rfl⟩ := heq
    refine .inr ⟨decide (0 < request.progress.approveSentinelCount), fee, rfl, ?_, rfl, hsum, hdvd⟩
    simp only [Bool.and_eq_true, decide_eq_true_eq] at hboth
    by_cases happrove : 0 < request.progress.approveSentinelCount
    · rw [decide_eq_true happrove]
      show request.progress.denySentinelCount = 0
      omega
    · rw [decide_eq_false happrove]
      show request.progress.approveSentinelCount = 0
      omega

theorem sideState_ne (side : Bool) :
    sideState side ≠ .none ∧ sideState side ≠ .pending ∧ sideState side ≠ .frozen ∧
      sideState side ≠ .timedOut := by
  cases side <;> decide

theorem sideState_inj {side side' : Bool} (h : sideState side = sideState side') :
    side = side' := by
  cases side <;> cases side' <;> first | rfl | cases h

/-- Only one side has votes, and it wins with the fee `fee`. -/
theorem RequestOK.owed_win (h : RequestOK request commitments) (h' : RequestOK request' commitments)
    (hopen : request.progress.state = .pending) (hsame : SameVotes request request') {side : Bool}
    (hstate : request'.progress.state = sideState side)
    (hother : sideCount request.progress (!side) = 0) :
    owed request commitments + request'.progress.fee = owed request' commitments +
      votes commitments .pending * request.terms.slashAmount + request.progress.fee := by
  obtain ⟨-, hpending, hfrozen, -⟩ := sideState_ne side
  have hclaimed := h.unclaimed (.inl hopen)
  obtain ⟨hpos, hdvd⟩ := h'.shared side hstate
  rw [h.owed_sides hclaimed side, h'.owed_sides hclaimed side, unresolvedFee, if_pos (.inl hopen),
    unresolvedFee, if_neg (by rw [hstate]; exact not_or.mpr ⟨hpending, hfrozen⟩),
    worthOf_silent (by rw [hstate]; exact hpending) ⟨side, hpos⟩, worthOf_winner hstate hpos,
    worthOf_pending hopen, worthOf_pending hopen, worthOf_pending hopen, hsame.sides, hsame.sides,
    hother, hsame.terms, h.split_bond (votes commitments .pending), Nat.add_mul]
  rw [hsame.sides] at hdvd
  rw [Nat.div_mul_cancel hdvd]
  omega

/-- Both sides have votes, and the request freezes. -/
theorem RequestOK.owed_freeze (h : RequestOK request commitments)
    (h' : RequestOK request' commitments) (hopen : request.progress.state = .pending)
    (hsame : SameVotes request request') (hstate : request'.progress.state = .frozen)
    (hfee : request'.progress.fee = request.progress.fee) :
    owed request commitments =
      owed request' commitments + votes commitments .pending * request.terms.slashAmount := by
  have hclaimed := h.unclaimed (.inl hopen)
  have hpending : request'.progress.state ≠ .pending := by simp [hstate]
  rw [h.owed_sides hclaimed true, h'.owed_sides hclaimed true, unresolvedFee, if_pos (.inl hopen),
    unresolvedFee, if_pos (.inr hstate), hfee,
    worthOf_silent hpending ⟨true, h'.disputed hstate true⟩, worthOf_undecided (.inl hstate),
    worthOf_undecided (.inl hstate), worthOf_pending hopen, worthOf_pending hopen,
    worthOf_pending hopen, hsame.sides, hsame.sides, hsame.terms,
    h.split_bond (votes commitments .pending)]
  omega

/-- Nobody revealed, and the request times out. -/
theorem RequestOK.owed_expire (h : RequestOK request commitments)
    (h' : RequestOK request' commitments) (hopen : request.progress.state = .pending)
    (hsame : SameVotes request request') (hstate : request'.progress.state = .timedOut)
    (hzero : ∀ side, sideCount request.progress side = 0) :
    owed request commitments = owed request' commitments + request.progress.fee := by
  have hclaimed := h.unclaimed (.inl hopen)
  have hpending : request'.progress.state ≠ .pending := by simp [hstate]
  have hzero' : ∀ side, sideCount request'.progress side = 0 := fun side =>
    (hsame.sides side).trans (hzero side)
  rw [h.owed_sides hclaimed true, h'.owed_sides hclaimed true, unresolvedFee, if_pos (.inl hopen),
    unresolvedFee, if_neg (by simp [hstate]), worthOf_unestablished hpending hzero',
    worthOf_pending hopen, hsame.terms, hzero, hzero, hzero', hzero']
  omega

/-- A frozen request times out. -/
theorem RequestOK.owed_giveUp (h : RequestOK request commitments)
    (h' : RequestOK request' commitments) (hopen : request.progress.state = .frozen)
    (hsame : SameVotes request request') (hstate : request'.progress.state = .timedOut) :
    owed request commitments = owed request' commitments + request.progress.fee := by
  have hclaimed := h.unclaimed (.inr hopen)
  have hpending : request.progress.state ≠ .pending := by simp [hopen]
  have hpending' : request'.progress.state ≠ .pending := by simp [hstate]
  have hside := h.disputed hopen true
  rw [h.owed_sides hclaimed true, h'.owed_sides hclaimed true, unresolvedFee, if_pos (.inr hopen),
    unresolvedFee, if_neg (by simp [hstate]), worthOf_silent hpending ⟨true, hside⟩,
    worthOf_silent hpending' ⟨true, (hsame.sides true).symm ▸ hside⟩,
    worthOf_undecided (.inl hopen), worthOf_undecided (.inl hopen),
    worthOf_undecided (.inr hstate), worthOf_undecided (.inr hstate), hsame.terms, hsame.sides,
    hsame.sides]
  omega

/-- A frozen request is decided for a side. -/
theorem RequestOK.owed_rule (h : RequestOK request commitments)
    (h' : RequestOK request' commitments) (hopen : request.progress.state = .frozen)
    (hsame : SameVotes request request') {side : Bool}
    (hstate : request'.progress.state = sideState side) :
    owed request commitments + request'.progress.fee = owed request' commitments +
      sideCount request.progress (!side) * request.terms.slashAmount + request.progress.fee := by
  obtain ⟨-, hpending', hfrozen', -⟩ := sideState_ne side
  have hclaimed := h.unclaimed (.inr hopen)
  have hpending : request.progress.state ≠ .pending := by simp [hopen]
  obtain ⟨hpos, hdvd⟩ := h'.shared side hstate
  have hsides : ∀ side, 0 < sideCount request'.progress side := fun side =>
    (hsame.sides side).symm ▸ h.disputed hopen side
  rw [h.owed_sides hclaimed side, h'.owed_sides hclaimed side, unresolvedFee, if_pos (.inr hopen),
    unresolvedFee, if_neg (by rw [hstate]; exact not_or.mpr ⟨hpending', hfrozen'⟩),
    worthOf_silent hpending ⟨true, h.disputed hopen true⟩,
    worthOf_silent (by rw [hstate]; exact hpending') ⟨side, hpos⟩,
    worthOf_undecided (.inl hopen), worthOf_undecided (.inl hopen), worthOf_winner hstate hpos,
    worthOf_loser hstate hsides, hsame.terms, hsame.sides, hsame.sides, Nat.add_mul,
    h.split_bond (sideCount request.progress !side)]
  rw [hsame.sides] at hdvd
  rw [Nat.div_mul_cancel hdvd]
  omega

theorem finalize_ok (h : RequestOK request commitments) {deadline denominator : Nat}
    {result : Finalization}
    (hok : finalize request number deadline denominator = .ok (request', result)) :
    RequestOK request' commitments ∧
      owed request commitments = owed request' commitments +
        (result.unrevealedBond + result.refundFee + result.daoCut) ∧
      ((result.newState = .frozen ∧ result.refundFee = 0 ∧ result.daoCut = 0) ∨
        (result.newState = .timedOut ∧ result.daoCut = 0) ∨
        ((∃ side, result.newState = sideState side) ∧ result.refundFee = 0)) := by
  unfold finalize at hok
  dsimp only at hok
  obtain ⟨_, hpending, hok⟩ := bind_eq_ok.mp hok
  obtain ⟨_, -, hok⟩ := bind_eq_ok.mp hok
  rw [require_eq_ok, decide_eq_true_eq] at hpending
  by_cases hmet : 0 < request.progress.approveSentinelCount ∨ 0 < request.progress.denySentinelCount
  · rw [if_pos hmet] at hok
    obtain ⟨⟨request₁, newState, daoCut⟩, hestablish, hok⟩ := bind_eq_ok.mp hok
    obtain ⟨silent, hsilent, hok⟩ := bind_eq_ok.mp hok
    obtain ⟨-, rfl⟩ := checkedSub_ok.mp hsilent
    have heq := pure_eq_ok.mp hok
    rw [Prod.mk.injEq] at heq
    obtain ⟨hrequest, rfl⟩ := heq
    have hcommitted := h.committed
    have hcount : request.progress.committedCount - request.progress.revealedCount =
        votes commitments .pending := by
      omega
    have hwidth : votes commitments .pending < 2 ^ 16 := by
      have hlt := h.countWidth
      omega
    cases establish_ok hestablish with
    | inl hfrozen =>
        obtain ⟨rfl, rfl, hsides, rfl⟩ := hfrozen
        have hsame : SameVotes request request' := hrequest ▸ ⟨rfl, rfl, rfl, fun _ => rfl⟩
        have hstate : request'.progress.state = .frozen := by rw [← hrequest]
        have hfee : request'.progress.fee = request.progress.fee := by rw [← hrequest]
        have h' := h.advance (.inl hpending) hsame (by simp [hstate]) hfee.le (fun _ => hsides)
          (fun side hside => absurd (hside.symm.trans hstate) (sideState_ne side).2.2.1)
        refine ⟨h', ?_, .inl ⟨rfl, rfl, rfl⟩⟩
        dsimp only
        rw [h.owed_freeze h' hpending hsame hstate hfee, hcount, h.slashed_mod hwidth]
        omega
    | inr hwon =>
        obtain ⟨side, fee, rfl, hother, rfl, hsum, hdvd⟩ := hwon
        have hsame : SameVotes request request' := hrequest ▸ ⟨rfl, rfl, rfl, fun _ => rfl⟩
        have hstate : request'.progress.state = sideState side := by rw [← hrequest]
        have hfee : request'.progress.fee = fee := by rw [← hrequest]; rfl
        have hpos : 0 < sideCount request.progress side := by
          cases side with
          | true => exact hmet.resolve_right (Nat.not_lt.mpr (Nat.le_of_eq hother))
          | false => exact hmet.resolve_left (Nat.not_lt.mpr (Nat.le_of_eq hother))
        have h' := h.advance (.inl hpending) hsame (hstate ▸ (sideState_ne side).1) (by omega)
          (fun hf => absurd (hstate.symm.trans hf) (sideState_ne side).2.2.1)
          (fun side' hside => by
            rw [← sideState_inj (hstate.symm.trans hside), hfee]
            exact ⟨hpos, hdvd⟩)
        have howed := h.owed_win h' hpending hsame hstate hother
        have hterms : (T.withFee request fee).terms = request.terms := rfl
        refine ⟨h', ?_, .inr (.inr ⟨⟨side, rfl⟩, rfl⟩)⟩
        dsimp only
        rw [hcount, hterms, h.slashed_mod hwidth]
        omega
  · rw [if_neg hmet] at hok
    have heq := pure_eq_ok.mp hok
    rw [Prod.mk.injEq] at heq
    obtain ⟨hrequest, rfl⟩ := heq
    have hzero : ∀ side, sideCount request.progress side = 0 := by
      intro side
      cases side with
      | true => show request.progress.approveSentinelCount = 0; omega
      | false => show request.progress.denySentinelCount = 0; omega
    have hsame : SameVotes request request' := hrequest ▸ ⟨rfl, rfl, rfl, fun _ => rfl⟩
    have hstate : request'.progress.state = .timedOut := by rw [← hrequest]
    have hfee : request'.progress.fee = 0 := by rw [← hrequest]
    have h' := h.advance (.inl hpending) hsame (by simp [hstate]) (by omega) (by simp [hstate])
      (fun side hside => absurd (hside.symm.trans hstate) (sideState_ne side).2.2.2)
    refine ⟨h', ?_, .inr (.inl ⟨rfl, rfl⟩)⟩
    dsimp only
    rw [h.owed_expire h' hpending hsame hstate hzero]
    omega

theorem outOfScope_ok (h : RequestOK request commitments) {refundFee : Nat}
    (hok : outOfScope request = .ok (request', refundFee)) :
    RequestOK request' commitments ∧
      owed request commitments = owed request' commitments + refundFee := by
  unfold outOfScope at hok
  obtain ⟨_, hfrozen, hok⟩ := bind_eq_ok.mp hok
  rw [require_eq_ok, decide_eq_true_eq] at hfrozen
  have heq := pure_eq_ok.mp hok
  rw [Prod.mk.injEq] at heq
  obtain ⟨hrequest, rfl⟩ := heq
  have hsame : SameVotes request request' := hrequest ▸ ⟨rfl, rfl, rfl, fun _ => rfl⟩
  have hstate : request'.progress.state = .timedOut := by rw [← hrequest]
  have hfee : request'.progress.fee = 0 := by rw [← hrequest]
  have h' := h.advance (.inr hfrozen) hsame (by simp [hstate]) (by omega) (by simp [hstate])
    (fun side hside => absurd (hside.symm.trans hstate) (sideState_ne side).2.2.2)
  exact ⟨h', h.owed_giveUp h' hfrozen hsame hstate⟩

theorem timeoutArbitration_ok (h : RequestOK request commitments) {refundFee : Nat}
    (hok : timeoutArbitration request number = .ok (request', refundFee)) :
    RequestOK request' commitments ∧
      owed request commitments = owed request' commitments + refundFee := by
  unfold timeoutArbitration at hok
  obtain ⟨_, -, hok⟩ := bind_eq_ok.mp hok
  exact outOfScope_ok h hok

/-- A ruling slashes at least the fee, and what it slashes stays in range. -/
theorem resolveDispute_ok (h : RequestOK request commitments) {approveWins : Bool}
    {denominator : Nat} {ruling : Ruling}
    (hok : resolveDispute request approveWins denominator = .ok (request', ruling)) :
    RequestOK request' commitments ∧ ruling.feeAmount ≤ ruling.slashed ∧
      ruling.slashed - ruling.feeAmount + ruling.daoCut < 2 ^ 128 ∧
      owed request commitments = owed request' commitments +
        (ruling.feeAmount + (ruling.slashed - ruling.feeAmount + ruling.daoCut)) := by
  unfold resolveDispute at hok
  dsimp only at hok
  obtain ⟨_, hfrozen, hok⟩ := bind_eq_ok.mp hok
  rw [require_eq_ok, decide_eq_true_eq] at hfrozen
  obtain ⟨⟨request₁, daoCut⟩, hcut, hok⟩ := bind_eq_ok.mp hok
  obtain ⟨fee, hrequest₁, hsum, hdvd⟩ := applyDaoFeeCut_ok hcut
  have heq := pure_eq_ok.mp hok
  rw [Prod.mk.injEq] at heq
  obtain ⟨hrequest, rfl⟩ := heq
  have hrequest := hrequest₁.symm.trans hrequest
  have hsame : SameVotes request request' := hrequest ▸ ⟨rfl, rfl, rfl, fun _ => rfl⟩
  have hstate : request'.progress.state = sideState approveWins := by rw [← hrequest]; rfl
  have hfee : request'.progress.fee = fee := by rw [← hrequest]; rfl
  have h' := h.advance (.inr hfrozen) hsame (hstate ▸ (sideState_ne approveWins).1) (by omega)
    (fun hf => absurd (hstate.symm.trans hf) (sideState_ne approveWins).2.2.1)
    (fun side' hside => by
      rw [← sideState_inj (hstate.symm.trans hside), hfee]
      exact ⟨h.disputed hfrozen approveWins, hdvd⟩)
  have howed := h.owed_rule h' hfrozen hsame hstate
  have hlosers : (if approveWins = true then request.progress.denySentinelCount
      else request.progress.approveSentinelCount) = sideCount request.progress (!approveWins) := by
    cases approveWins <;> rfl
  have hlt := h.slashed_lt (h.side_lt !approveWins)
  -- there is a loser, and one slashed bond covers the fee
  have hcover : request.progress.fee ≤
      sideCount request.progress (!approveWins) * request.terms.slashAmount :=
    h.fee_le.trans (Nat.le_mul_of_pos_left _ (h.disputed hfrozen !approveWins))
  have hfeeWidth := h.fee_lt
  dsimp only
  rw [hlosers, h.slashed_mod (h.side_lt !approveWins)]
  exact ⟨h', hcover, by omega, by omega⟩

variable {a : Address}

theorem commit_ok (h : RequestOK request commitments) {commitHash : B256} {bondAmount : Nat}
    {commitments' : SentinelOracleCommitmentMap.T}
    (hok : applyCommit request number = .ok (request', bondAmount))
    (hadd : SentinelOracleCommitmentMap.add commitments a commitHash bondAmount =
      .ok commitments') :
    RequestOK request' commitments' ∧
      owed request commitments + bondAmount = owed request' commitments' := by
  unfold applyCommit at hok
  obtain ⟨_, hpending, hok⟩ := bind_eq_ok.mp hok
  obtain ⟨_, -, hok⟩ := bind_eq_ok.mp hok
  obtain ⟨_, hcount, hok⟩ := bind_eq_ok.mp hok
  rw [require_eq_ok, decide_eq_true_eq] at hpending
  obtain ⟨hwidth, rfl⟩ := checkedAdd_ok.mp hcount
  have heq := pure_eq_ok.mp hok
  rw [Prod.mk.injEq] at heq
  obtain ⟨hrequest, rfl⟩ := heq
  unfold SentinelOracleCommitmentMap.add at hadd
  obtain ⟨_, -, hadd⟩ := bind_eq_ok.mp hadd
  obtain ⟨_, hnone, hadd⟩ := bind_eq_ok.mp hadd
  rw [require_eq_ok, decide_eq_true_eq] at hnone
  have heq := pure_eq_ok.mp hadd
  subst heq
  have hvotes : ∀ vote, votes (Function.update commitments a
      ⟨commitHash, request.terms.bondTarget, .pending, false⟩) vote +
        (if Vote.none = vote then 1 else 0) =
      votes commitments vote + (if Vote.pending = vote then 1 else 0) := by
    intro vote
    have hupdate := votes_update commitments a
      ⟨commitHash, request.terms.bondTarget, .pending, false⟩ vote
    rwa [hnone] at hupdate
  have hpend := hvotes .pending
  have hside : ∀ side, votes (Function.update commitments a
      ⟨commitHash, request.terms.bondTarget, .pending, false⟩) (sideVote side) =
      votes commitments (sideVote side) := by
    intro side
    have hv := hvotes (sideVote side)
    cases side with
    | true => simpa [sideVote] using hv
    | false => simpa [sideVote] using hv
  have hcommitted := h.committed
  have hterms : request'.terms = request.terms := by rw [← hrequest]
  have hstate : request'.progress.state = .pending := by rw [← hrequest]; exact hpending
  have hother : ∀ b, b ≠ a → Function.update commitments a
      ⟨commitHash, request.terms.bondTarget, .pending, false⟩ b = commitments b := fun b hb =>
    Function.update_of_ne hb _ _
  refine ⟨⟨?_, ?_, ?_, ?_, ?_, ?_, ?_, ?_, ?_, ?_, ?_, ?_, ?_, ?_⟩, ?_⟩
  · intro hn
    rw [hstate] at hn
    cases hn
  · intro b hb
    by_cases hba : b = a
    · subst hba
      rw [Function.update_self] at hb
      cases hb
    · rw [hother b hba] at hb ⊢
      exact h.blank b hb
  · intro b hb
    rw [hterms]
    by_cases hba : b = a
    · subst hba
      rw [Function.update_self]
    · rw [hother b hba] at hb ⊢
      exact h.bonded b hb
  · intro side
    rw [hside, ← h.counted, ← hrequest]
    rfl
  · rw [← hrequest]
    exact h.revealed
  · rw [← hrequest]
    simp at hpend
    dsimp only
    omega
  · rw [← hrequest]
    exact hwidth
  · rw [hterms]
    exact h.slash_le
  · rw [← hrequest]
    exact h.fee_le
  · rw [hterms]
    exact h.bondWidth
  · rw [hterms]
    exact h.share_le
  · intro _ b
    by_cases hba : b = a
    · subst hba
      rw [Function.update_self]
    · rw [hother b hba]
      exact h.unclaimed (.inl hpending) b
  · intro hf
    rw [hstate] at hf
    cases hf
  · intro side hs
    exact absurd (hs.symm.trans hstate) (sideState_ne side).2.1
  · -- the new committer is owed the bond, everybody else what they were
    have hdue := Ledger.sum_map_update (due request') commitments a
      ⟨commitHash, request.terms.bondTarget, .pending, false⟩
    have hzero : due request' (commitments a) = 0 := if_pos (.inl hnone)
    have hnew : due request' ⟨commitHash, request.terms.bondTarget, .pending, false⟩ =
        request.terms.bondTarget := by
      rw [due, if_neg (by simp), worth, if_pos hstate]
    have hsum : ∑ b, due request' (commitments b) = ∑ b, due request (commitments b) := by
      refine Finset.sum_congr rfl fun b _ => ?_
      simp only [due, worth, hstate, hpending, if_true]
    have hfee : unresolvedFee request' = unresolvedFee request := by
      rw [unresolvedFee, if_pos (.inl hstate), unresolvedFee, if_pos (.inl hpending), ← hrequest]
    rw [hzero, hnew, hsum] at hdue
    unfold owed
    rw [hfee]
    omega

theorem bump_ok {chosen : Bool} {count count' : Nat} (h : bump chosen count = .ok count') :
    count' = count + (if chosen then 1 else 0) := by
  unfold bump at h
  cases chosen with
  | true =>
      rw [if_pos rfl, checkedAdd_ok] at h
      rw [if_pos rfl, h.2]
  | false =>
      rw [if_neg (by simp), Except.ok.injEq] at h
      rw [if_neg (by simp), h, Nat.add_zero]

/-- What a reveal checks and writes. -/
theorem commitmentMap_reveal_ok {keccak256 : Keccak} {requestId salt : B256} {approve : Bool}
    {reason : Bytes} {commitments' : SentinelOracleCommitmentMap.T}
    (h : SentinelOracleCommitmentMap.reveal keccak256 commitments requestId a approve salt reason =
      .ok commitments') :
    (commitments a).vote = .pending ∧
      commitments' = Function.update commitments a
        { commitments a with vote := sideVote approve } := by
  unfold SentinelOracleCommitmentMap.reveal at h
  obtain ⟨_, -, h⟩ := bind_eq_ok.mp h
  obtain ⟨_, hpending, h⟩ := bind_eq_ok.mp h
  obtain ⟨_, -, h⟩ := bind_eq_ok.mp h
  rw [require_eq_ok, decide_eq_true_eq] at hpending
  exact ⟨hpending, (pure_eq_ok.mp h).symm⟩

theorem reveal_ok (h : RequestOK request commitments) {approve allRevealed : Bool}
    (hvote : (commitments a).vote = .pending)
    (hok : applyReveal request number approve = .ok (request', allRevealed)) :
    RequestOK request'
        (Function.update commitments a { commitments a with vote := sideVote approve }) ∧
      owed request commitments = owed request'
        (Function.update commitments a { commitments a with vote := sideVote approve }) := by
  unfold applyReveal at hok
  obtain ⟨_, hpending, hok⟩ := bind_eq_ok.mp hok
  obtain ⟨_, -, hok⟩ := bind_eq_ok.mp hok
  obtain ⟨_, -, hok⟩ := bind_eq_ok.mp hok
  obtain ⟨_, hrevealed, hok⟩ := bind_eq_ok.mp hok
  obtain ⟨approved, happroved, hok⟩ := bind_eq_ok.mp hok
  obtain ⟨denied, hdenied, hok⟩ := bind_eq_ok.mp hok
  rw [require_eq_ok, decide_eq_true_eq] at hpending
  obtain ⟨-, rfl⟩ := checkedAdd_ok.mp hrevealed
  have happroved := bump_ok happroved
  have hdenied := bump_ok hdenied
  have heq := pure_eq_ok.mp hok
  rw [Prod.mk.injEq] at heq
  have hrequest := heq.1
  have hvotes : ∀ vote, votes (Function.update commitments a
      { commitments a with vote := sideVote approve }) vote +
        (if Vote.pending = vote then 1 else 0) =
      votes commitments vote + (if sideVote approve = vote then 1 else 0) := by
    intro vote
    have hupdate := votes_update commitments a
      { commitments a with vote := sideVote approve } vote
    rwa [hvote] at hupdate
  have hside : ∀ side, votes (Function.update commitments a
      { commitments a with vote := sideVote approve }) (sideVote side) =
      votes commitments (sideVote side) + (if approve = side then 1 else 0) := by
    intro side
    have hv := hvotes (sideVote side)
    cases side <;> cases approve <;> simpa [sideVote] using hv
  have hpend := hvotes .pending
  have hpend : votes (Function.update commitments a
      { commitments a with vote := sideVote approve }) .pending + 1 =
      votes commitments .pending := by
    cases approve <;> simpa [sideVote] using hpend
  have hcommitted := h.committed
  have hbefore := h.revealed
  have hterms : request'.terms = request.terms := by rw [← hrequest]
  have hstate : request'.progress.state = .pending := by rw [← hrequest]; exact hpending
  have hcounts : ∀ side, sideCount request'.progress side =
      sideCount request.progress side + (if approve = side then 1 else 0) := by
    intro side
    rw [← hrequest]
    cases side with
    | true =>
        show approved = request.progress.approveSentinelCount + _
        rw [happroved]
    | false =>
        show denied = request.progress.denySentinelCount + _
        rw [hdenied]
        cases approve <;> rfl
  have hrevealed' : request'.progress.revealedCount = request.progress.revealedCount + 1 := by
    rw [← hrequest]
  have hcommitted' : request'.progress.committedCount = request.progress.committedCount := by
    rw [← hrequest]
  have hother : ∀ b, b ≠ a → Function.update commitments a
      { commitments a with vote := sideVote approve } b = commitments b := fun b hb =>
    Function.update_of_ne hb _ _
  have hvoted : (commitments a).vote ≠ .none := by simp [hvote]
  have hsideVote : sideVote approve ≠ .none := by cases approve <;> simp [sideVote]
  refine ⟨⟨?_, ?_, ?_, ?_, ?_, ?_, ?_, ?_, ?_, ?_, ?_, ?_, ?_, ?_⟩, ?_⟩
  · intro hn
    rw [hstate] at hn
    cases hn
  · intro b hb
    by_cases hba : b = a
    · subst hba
      rw [Function.update_self] at hb
      exact absurd hb hsideVote
    · rw [hother b hba] at hb ⊢
      exact h.blank b hb
  · intro b hb
    rw [hterms]
    by_cases hba : b = a
    · subst hba
      rw [Function.update_self]
      exact h.bonded b hvoted
    · rw [hother b hba] at hb ⊢
      exact h.bonded b hb
  · intro side
    rw [hside, hcounts, h.counted]
  · have htrue := hcounts true
    have hfalse := hcounts false
    cases approve <;> simp at htrue hfalse <;> omega
  · omega
  · have hwidth := h.countWidth
    omega
  · rw [hterms]
    exact h.slash_le
  · rw [← hrequest]
    exact h.fee_le
  · rw [hterms]
    exact h.bondWidth
  · rw [hterms]
    exact h.share_le
  · intro _ b
    by_cases hba : b = a
    · subst hba
      rw [Function.update_self]
      exact h.unclaimed (.inl hpending) b
    · rw [hother b hba]
      exact h.unclaimed (.inl hpending) b
  · intro hf
    rw [hstate] at hf
    cases hf
  · intro side hs
    exact absurd (hs.symm.trans hstate) (sideState_ne side).2.1
  · -- a vote is worth the bond before and after it is revealed
    have hdue := Ledger.sum_map_update (due request') commitments a
      { commitments a with vote := sideVote approve }
    have hworth : due request' (commitments a) =
        due request' { commitments a with vote := sideVote approve } := by
      simp only [due, worth, hstate, if_true, hvoted, hsideVote]
    have hsum : ∑ b, due request' (commitments b) = ∑ b, due request (commitments b) := by
      refine Finset.sum_congr rfl fun b _ => ?_
      simp only [due, worth, hstate, hpending, if_true]
    have hfee : unresolvedFee request' = unresolvedFee request := by
      rw [unresolvedFee, if_pos (.inl hstate), unresolvedFee, if_pos (.inl hpending), ← hrequest]
    rw [hworth, hsum] at hdue
    unfold owed
    rw [hfee]
    omega

/-- Whoever has a bond has voted. -/
theorem RequestOK.voted (h : RequestOK request commitments) (hbond : 0 < (commitments a).bondAmount) :
    (commitments a).vote ≠ .none := by
  intro hnone
  rw [h.blank a hnone] at hbond
  exact absurd hbond (Nat.lt_irrefl 0)

theorem markClaimed_ok {commitment claimed : Commitment} (h : markClaimed commitment = .ok claimed) :
    0 < commitment.bondAmount ∧ commitment.claimed = false ∧
      claimed = { commitment with claimed := true } := by
  unfold markClaimed at h
  obtain ⟨_, hbond, h⟩ := bind_eq_ok.mp h
  obtain ⟨_, hclaimed, h⟩ := bind_eq_ok.mp h
  rw [require_eq_ok, decide_eq_true_eq] at hbond
  rw [require_eq_ok, Bool.not_eq_true'] at hclaimed
  exact ⟨hbond, hclaimed, (pure_eq_ok.mp h).symm⟩

theorem requireResolved_ok {state : State} (h : requireResolved request = .ok state) :
    request.progress.state = state ∧ state.resolved = true := by
  unfold requireResolved at h
  obtain ⟨_, hresolved, h⟩ := bind_eq_ok.mp h
  rw [require_eq_ok] at hresolved
  have heq := pure_eq_ok.mp h
  exact ⟨heq, heq ▸ hresolved⟩

theorem claim_ok (h : RequestOK request commitments) {state : State} {claimed : Commitment}
    {feeReward : Nat} (hstate : requireResolved request = .ok state)
    (hmark : markClaimed (commitments a) = .ok claimed)
    (hreward : calcFeeReward request state (commitments a).vote = .ok feeReward) :
    RequestOK request (Function.update commitments a claimed) ∧
      owed request commitments = owed request (Function.update commitments a claimed) +
        ((commitments a).bondAmount - slashAmountFor request state (commitments a).vote +
          feeReward) := by
  obtain ⟨rfl, hresolved⟩ := requireResolved_ok hstate
  obtain ⟨hbond, hunclaimed, rfl⟩ := markClaimed_ok hmark
  have hvoted := h.voted hbond
  have hvote : ∀ b, (Function.update commitments a { commitments a with claimed := true } b).vote =
      (commitments b).vote ∧
      (Function.update commitments a { commitments a with claimed := true } b).bondAmount =
        (commitments b).bondAmount := by
    intro b
    by_cases hba : b = a
    · subst hba
      rw [Function.update_self]
      exact ⟨rfl, rfl⟩
    · rw [Function.update_of_ne hba]
      exact ⟨rfl, rfl⟩
  have hvotes : ∀ vote, votes (Function.update commitments a
      { commitments a with claimed := true }) vote = votes commitments vote := by
    intro vote
    unfold votes
    exact Finset.sum_congr rfl fun b _ => by rw [(hvote b).1]
  refine ⟨{ h with
    absent := fun hn b => (hvote b).1.trans (h.absent hn b)
    blank := ?_
    bonded := fun b hb => (hvote b).2.trans (h.bonded b ((hvote b).1 ▸ hb))
    counted := fun side => (h.counted side).trans (hvotes _).symm
    committed := by rw [hvotes]; exact h.committed
    unclaimed := ?_ }, ?_⟩
  · intro b hb
    rw [(hvote b).1] at hb
    have hba : b ≠ a := fun heq => hvoted (heq ▸ hb)
    rw [Function.update_of_ne hba]
    exact h.blank b hb
  · intro hopen
    cases hopen with
    | inl hopen => rw [hopen] at hresolved; cases hresolved
    | inr hopen => rw [hopen] at hresolved; cases hresolved
  · have hdue := Ledger.sum_map_update (due request) commitments a
      { commitments a with claimed := true }
    have hnew : due request { commitments a with claimed := true } = 0 := if_pos (.inr rfl)
    have hpending : request.progress.state ≠ .pending := by
      intro hpending
      rw [hpending] at hresolved
      cases hresolved
    have hold : due request (commitments a) = (commitments a).bondAmount -
        slashAmountFor request request.progress.state (commitments a).vote + feeReward := by
      rw [due, if_neg (by simp [hvoted, hunclaimed]), worth, if_neg hpending, hreward]
      rfl
    rw [hnew, hold] at hdue
    unfold owed
    dsimp only at hdue
    omega

end Safenet.Contracts.SentinelOracleRequest
