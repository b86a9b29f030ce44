/-
The tally of a sentinel is that of the oracle.

As long as the commit window is open the only thing that can happen to a request is a commitment, and
after it nothing but reveals until it is finalized.  So the counters stay equal if they are equal when
the sentinel starts to count (`Entered`), which it does with zero: right when the request opens, or when
the check of an open request ends.  In the second case commitments can have gone by uncounted.
-/
import Safenet.Proofs.SentinelJoint
import Safenet.Proofs.SentinelOracleErrors

namespace Safenet.Sentinel

open Contracts
open Contracts.SentinelOracle (Call Deployment Event Record Turn Tallied Vacant Due ballots revealedOnce)
open SentinelRequestState
open SentinelOracleEvents (decode decode_turn)

variable {keccak256 : Keccak} {t : SentinelTransition} {r : B256} {env : Env} {asked : Call}
  {own : Address} {number number' : Nat} {point point' : Record} {e : Event}
  {event : SentinelOracleEvents} {entry : Option SentinelRequestState} {round : CollectingVotes}

/-! ### The record of a request -/

/-- The own vote is revealed. -/
def Opened (vote : SentinelOracleCommitment.Vote) : Prop := vote = .approved ∨ vote = .denied

/-- What holds of the record of every request. -/
structure Sound (number : Nat) (point : Record) : Prop where
  tallied : Tallied point
  vacant : Vacant point
  sealed : point.request.progress.state = .pending → number ≤ point.request.terms.commitDeadline →
    point.request.progress.revealedCount = 0
  ordered : point.request.progress.state ≠ .none →
    point.request.terms.commitDeadline < point.request.terms.revealDeadline

theorem sound_empty :
    Sound number ⟨SentinelOracleRequest.empty, fun _ => SentinelOracleCommitment.empty⟩ where
  tallied := SentinelOracle.tallied_none (fun _ => rfl) ⟨rfl, rfl, rfl, rfl⟩
  vacant _ _ := rfl
  sealed h := by cases h
  ordered h := absurd rfl h

/-- In the commit window there are only commitments. -/
theorem Sound.turn_early (h : Sound env.number point) (hturn : Turn keccak256 env asked r point e point')
    (hpending : point.request.progress.state = .pending)
    (hearly : env.number ≤ point.request.terms.commitDeadline) :
    ∃ commitHash, e = .committed r env.sender point.request.terms.bondTarget ∧
      (point.commitments env.sender).vote = .none ∧
      point' = ⟨{ point.request with progress := { point.request.progress with
          committedCount := point.request.progress.committedCount + 1 } },
        Function.update point.commitments env.sender
          ⟨commitHash, point.request.terms.bondTarget, .pending, false⟩⟩ := by
  have hsealed := h.sealed hpending hearly
  have hordered := h.ordered (by rw [hpending]; decide)
  have hnotdue : ¬ Due env.number point.request := by
    rintro (hlate | ⟨hpos, hall⟩ | ⟨-, hlate⟩) <;> omega
  cases hturn with
  | post _ _ _ _ _ _ _ absent => exact absurd (absent.symm.trans hpending) (by decide)
  | commit commitHash call pending window fresh => exact ⟨commitHash, rfl, fresh, rfl⟩
  | reveal _ _ _ _ _ opened => exact absurd hearly (Nat.not_le.mpr opened)
  | freeze _ _ due => exact absurd due hnotdue
  | expire _ due => exact absurd due hnotdue
  | settle _ _ _ due => exact absurd due hnotdue
  | rule _ _ _ _ frozen => exact absurd (frozen.symm.trans hpending) (by decide)
  | timeout frozen => exact absurd (frozen.symm.trans hpending) (by decide)
  | decline _ frozen => exact absurd (frozen.symm.trans hpending) (by decide)
  | @claim q c _ _ resolved =>
      have hstate : q.progress.state = .pending := hpending
      rw [hstate] at resolved
      cases resolved

/-- After the commit window a pending request is revealed to or finalized. -/
theorem turn_late (hturn : Turn keccak256 env asked r point e point')
    (hpending : point.request.progress.state = .pending)
    (hlate : point.request.terms.commitDeadline < env.number) :
    (∃ approve bond reason, e = .revealed r env.sender approve bond reason ∧
        (point.commitments env.sender).vote = .pending ∧
        point' = ⟨revealedOnce point.request approve, Function.update point.commitments env.sender
          { point.commitments env.sender with vote := SentinelOracleRequest.sideVote approve }⟩) ∨
      point'.commitments = point.commitments ∧
        ((∃ deadline, e = .disputeTriggered r deadline ∧
            point'.request.progress.state = .frozen ∧
            point'.request.progress.arbitrationDeadline = deadline) ∨
          (e = .requestTimedOut r ∨ ∃ sponsor side, e = .oracleResult r sponsor side) ∧
            point'.request.progress.state.resolved = true) := by
  cases hturn with
  | post _ _ _ _ _ _ _ absent => exact absurd (absent.symm.trans hpending) (by decide)
  | commit commitHash call pending window fresh => exact absurd hlate (Nat.not_lt.mpr window)
  | reveal approve salt reason _ _ _ _ sealed => exact .inl ⟨approve, _, reason, rfl, sealed, rfl⟩
  | freeze deadline => exact .inr ⟨rfl, .inl ⟨deadline, rfl, rfl, rfl⟩⟩
  | expire => exact .inr ⟨rfl, .inr ⟨.inl rfl, rfl⟩⟩
  | settle side =>
      refine .inr ⟨rfl, .inr ⟨.inr ⟨_, side, rfl⟩, ?_⟩⟩
      cases side <;> rfl
  | rule _ _ _ _ frozen => exact absurd (frozen.symm.trans hpending) (by decide)
  | timeout frozen => exact absurd (frozen.symm.trans hpending) (by decide)
  | decline _ frozen => exact absurd (frozen.symm.trans hpending) (by decide)
  | @claim q c _ _ resolved =>
      have hstate : q.progress.state = .pending := hpending
      rw [hstate] at resolved
      cases resolved

theorem Sound.turn (h : Sound env.number point)
    (hturn : Turn keccak256 env asked r point e point') : Sound env.number point' := by
  refine ⟨h.tallied.turn h.vacant hturn, h.vacant.turn hturn, ?_, ?_⟩
  · intro hpending hearly
    cases hturn with
    | post => rfl
    | commit _ _ pending window => exact h.sealed pending window
    | reveal _ _ _ _ _ opened => exact absurd hearly (Nat.not_le.mpr opened)
    | claim => exact h.sealed hpending hearly
    | settle side => exact absurd hpending (SentinelOracleRequest.sideState_ne side).2.1
    | rule side => exact absurd hpending (SentinelOracleRequest.sideState_ne side).2.1
    | _ => cases hpending
  · intro hstate
    cases hturn with
    | post _ _ _ _ _ _ _ _ _ ordered => exact ordered
    | commit _ _ pending => exact h.ordered (by rw [pending]; decide)
    | reveal _ _ _ _ pending => exact h.ordered (by rw [pending]; decide)
    | freeze _ pending => exact h.ordered (by rw [pending]; decide)
    | expire pending => exact h.ordered (by rw [pending]; decide)
    | settle _ _ pending => exact h.ordered (by rw [pending]; decide)
    | rule _ _ _ _ frozen => exact h.ordered (by rw [frozen]; decide)
    | timeout frozen => exact h.ordered (by rw [frozen]; decide)
    | decline _ frozen => exact h.ordered (by rw [frozen]; decide)
    | claim => exact h.ordered hstate

/-- What holds of a record goes on to hold. -/
theorem Sound.hears {message : Message} (h : Sound number point)
    (hhears : Hears keccak256 r message number point number' point') : Sound number' point' := by
  cases hhears with
  | block later =>
      exact ⟨h.tallied, h.vacant, fun hpending hearly => h.sealed hpending (by omega), h.ordered⟩
  | turn hturn => exact h.turn hturn
  | other => exact h
  | proposed => exact h
  | resume => exact h

/-! ### Counters and votes -/

/-- Committed is who has a pending or a revealed vote. -/
theorem ballots_committed (commitments : SentinelOracleCommitmentMap.T) :
    ballots commitments (· ≠ .none) = ballots commitments (· = .pending) +
      ballots commitments fun vote => vote = .approved || vote = .denied := by
  rw [SentinelOracle.ballots_eq_sum, SentinelOracle.ballots_eq_sum, SentinelOracle.ballots_eq_sum,
    ← Finset.sum_add_distrib]
  refine Finset.sum_congr rfl fun a _ => ?_
  cases (commitments a).vote <;> rfl

section Votes

variable (h : Tallied point)
include h

theorem vote_none (hcount : point.request.progress.committedCount = 0) (a : Address) :
    (point.commitments a).vote = .none := by
  by_contra hvote
  have hpos : 0 < ballots point.commitments (· ≠ .none) :=
    SentinelOracle.ballots_pos.mpr ⟨a, by simpa using hvote⟩
  have hcommitted := h.committed
  omega

theorem not_opened (hcount : point.request.progress.revealedCount = 0) (a : Address) :
    ¬ Opened (point.commitments a).vote := by
  intro hvote
  have hpos : 0 < ballots point.commitments fun vote => vote = .approved || vote = .denied :=
    SentinelOracle.ballots_pos.mpr ⟨a, by simpa [Opened] using hvote⟩
  have hrevealed := h.revealed
  omega

/-- Nobody waits with a vote when all are revealed. -/
theorem not_pending
    (hcount : point.request.progress.committedCount ≤ point.request.progress.revealedCount) (a : Address) :
    (point.commitments a).vote ≠ .pending := by
  intro hvote
  have hpos : 0 < ballots point.commitments (· = .pending) :=
    SentinelOracle.ballots_pos.mpr ⟨a, by simpa using hvote⟩
  have hcommitted := h.committed
  have hrevealed := h.revealed
  rw [ballots_committed] at hcommitted
  omega

theorem revealed_le :
    point.request.progress.revealedCount ≤ point.request.progress.committedCount := by
  rw [h.committed, h.revealed, ballots_committed]
  omega

end Votes

/-! ### What the sentinel counts -/

/-- The tally of the sentinel is that of the oracle. -/
def Agrees (own : Address) (q : Record) : SentinelRequestState → Prop
  | .collectingCommitments round =>
      round.committedCount = q.request.progress.committedCount ∧
        q.request.progress.revealedCount = 0 ∧ q.request.progress.approveSentinelCount = 0 ∧
        q.request.progress.denySentinelCount = 0 ∧
        (round.selfCommitted = true ↔ (q.commitments own).vote ≠ .none) ∧
        ¬ Opened (q.commitments own).vote
  | .collectingVotes round =>
      round.committedCount = q.request.progress.committedCount ∧
        round.revealedCount = q.request.progress.revealedCount ∧
        round.approveCount = q.request.progress.approveSentinelCount ∧
        round.denyCount = q.request.progress.denySentinelCount ∧
        (q.commitments own).vote ≠ .none ∧
        (round.selfRevealed = true ↔ Opened (q.commitments own).vote)
  | _ => True

/-- The commit window of the request is open, and these are its deadlines. -/
structure Collecting (number : Nat) (point : Record) (commitDeadline revealDeadline : Nat) : Prop where
  pending : point.request.progress.state = .pending
  early : number ≤ point.request.terms.commitDeadline
  commit : commitDeadline = point.request.terms.commitDeadline
  reveal : revealDeadline = point.request.terms.revealDeadline

/-- The reveal window of the request was opened. -/
structure Voting (number : Nat) (point : Record) (revealDeadline : Nat) : Prop where
  pending : point.request.progress.state = .pending
  late : point.request.terms.commitDeadline < number
  reveal : revealDeadline = point.request.terms.revealDeadline

/-- What the sentinel keeps of the request is so in the record. -/
def Entered (own : Address) (number : Nat) (point : Record) : SentinelRequestState → Prop
  | .waitingForEngineCheck _ (some request) =>
      Collecting number point request.commitDeadline request.revealDeadline ∧
        point.request.progress.committedCount = 0
  | .collectingCommitments round =>
      Collecting number point round.commitDeadline round.revealDeadline ∧
        Agrees own point (.collectingCommitments round)
  | .collectingVotes round =>
      Voting number point round.revealDeadline ∧ Agrees own point (.collectingVotes round)
  | _ => True

/-- The same of a request that need not be tracked. -/
def Tracks (own : Address) (number : Nat) (point : Record) (entry : Option SentinelRequestState) : Prop :=
  ∀ tracked, entry = some tracked → Entered own number point tracked

theorem tracks_none : Tracks own number point none := fun _ h => by cases h

theorem tracks_some {tracked : SentinelRequestState} (h : Entered own number point tracked) :
    Tracks own number point (some tracked) := by
  intro tracked' h'
  cases h'
  exact h

/-- The count starts with zero. -/
private theorem tracks_opened (h : Sound number point) {request : Request} {approve : Bool}
    {reason : String} (hopen : Collecting number point request.commitDeadline request.revealDeadline)
    (hcount : point.request.progress.committedCount = 0) :
    Tracks own number point (t.opened keccak256 r approve reason request).1 := by
  refine tracks_some ⟨hopen, hcount.symm, ?_⟩
  have hrevealed := h.sealed hopen.pending hopen.early
  have hsum := h.tallied.sum
  refine ⟨hrevealed, by omega, by omega, ?_, not_opened h.tallied hrevealed own⟩
  simp [vote_none h.tallied hcount own]

private theorem tracks_closed :
    Tracks own number point (SentinelTransition.closed r round).1 := by
  unfold SentinelTransition.closed
  split_ifs
  · exact tracks_none
  · exact tracks_some trivial

private theorem tracks_checked (h : Tracks own number point entry) (hsound : Sound number point)
    (outcome : CheckOutcome) : Tracks own number point (t.requestChecked keccak256 r outcome entry).1 := by
  cases entry with
  | none => exact h
  | some tracked =>
      cases tracked with
      | waitingForEngineCheck deadline request =>
          unfold SentinelTransition.requestChecked
          cases hvote : outcome.vote with
          | none => exact tracks_none
          | some vote =>
              cases request with
              | none => exact tracks_some trivial
              | some request =>
                  obtain ⟨hopen, hcount⟩ := h _ rfl
                  exact tracks_opened hsound hopen hcount
      | _ => exact h

private theorem tracks_block (h : Tracks own number point entry) (later : number < number') : Tracks own number' point (t.requestBlock r number' entry).1 := by
  cases entry with
  | none => exact tracks_none
  | some tracked =>
      cases tracked with
      | waitingForEngineCheck deadline request =>
          simp only [SentinelTransition.requestBlock]
          split_ifs with hopen
          · cases request with
            | none => exact tracks_some trivial
            | some request =>
                obtain ⟨hcollecting, hcount⟩ := h _ rfl
                have hearly : number' ≤ request.commitDeadline := hopen
                refine tracks_some ⟨⟨hcollecting.pending, ?_, hcollecting.commit, hcollecting.reveal⟩, hcount⟩
                exact hcollecting.commit ▸ hearly
          · exact tracks_none
      | waitingForRequest approve reason deadline =>
          simp only [SentinelTransition.requestBlock]
          split_ifs
          · exact tracks_some trivial
          · exact tracks_none
      | collectingCommitments round =>
          obtain ⟨hcollecting, hagrees⟩ := h _ rfl
          simp only [SentinelTransition.requestBlock]
          split_ifs with hopen hcommitted
          · refine tracks_some ⟨⟨hcollecting.pending, ?_, hcollecting.commit, hcollecting.reveal⟩, hagrees⟩
            exact hcollecting.commit ▸ hopen
          · exact tracks_none
          · -- the reveals start with none
            obtain ⟨hcount, hrevealed, happroved, hdenied, hself, hsealed⟩ := hagrees
            have hlate : point.request.terms.commitDeadline < number' := by
              rw [← hcollecting.commit]
              exact Nat.not_le.mp hopen
            refine tracks_some ⟨⟨hcollecting.pending, hlate, hcollecting.reveal⟩,
              hcount, hrevealed.symm, happroved.symm, hdenied.symm, hself.mp ?_, ?_⟩
            · simpa using hcommitted
            · exact ⟨fun h => Bool.noConfusion h, fun h => absurd h hsealed⟩
      | collectingVotes round =>
          obtain ⟨hvoting, hagrees⟩ := h _ rfl
          simp only [SentinelTransition.requestBlock]
          split_ifs
          · exact tracks_some ⟨⟨hvoting.pending, by have := hvoting.late; omega, hvoting.reveal⟩, hagrees⟩
          · exact tracks_closed
      | waitingForOutcome => exact tracks_some trivial
      | waitingForDisputeResolution =>
          simp only [SentinelTransition.requestBlock]
          split_ifs
          · exact tracks_some trivial
          · exact tracks_none

/-- A commitment is read while the open request waits for its check. -/
def overlooks : Option SentinelRequestState → SentinelOracleEvents → Bool
  | some (.waitingForEngineCheck _ (some _)), .committed _ _ => true
  | _, _ => false

private theorem tracks_counted (h : Sound env.number point) {round : CollectingCommitments}
    (hround : Entered t.signer.address env.number point (.collectingCommitments round))
    (hturn : Turn keccak256 env asked r point e point') (hdecode : decode e = some event) :
    Tracks t.signer.address env.number point'
      (t.requestEvent keccak256 r (some (.collectingCommitments round)) event).1 := by
  obtain ⟨hcollecting, hcount, hrevealed, happroved, hdenied, hself, hsealed⟩ := hround
  obtain ⟨commitHash, rfl, hfresh, rfl⟩ := h.turn_early hturn hcollecting.pending hcollecting.early
  cases hdecode
  refine tracks_some ⟨⟨hcollecting.pending, hcollecting.early, hcollecting.commit, hcollecting.reveal⟩,
    congrArg (· + 1) hcount, hrevealed, happroved, hdenied, ?_, ?_⟩
  · by_cases hown : t.signer.address = env.sender
    · simp [hown]
    · simp [Function.update_of_ne hown, Ne.symm hown, hself]
  · by_cases hown : t.signer.address = env.sender
    · simp [hown, Opened]
    · simpa [Function.update_of_ne hown] using hsealed

/-- One more revealed vote on both sides. -/
theorem agrees_counted {approve : Bool}
    (h : Agrees t.signer.address point (.collectingVotes round)) :
    Agrees t.signer.address
      ⟨revealedOnce point.request approve, Function.update point.commitments env.sender
        { point.commitments env.sender with vote := SentinelOracleRequest.sideVote approve }⟩
      (.collectingVotes (t.counted round env.sender approve)) := by
  obtain ⟨hcount, hrevealed, happroved, hdenied, hself, hopened⟩ := h
  refine ⟨hcount, congrArg (· + 1) hrevealed, ?_, ?_, ?_, ?_⟩
  · cases approve <;> simp [SentinelTransition.counted, revealedOnce, happroved]
  · cases approve <;> simp [SentinelTransition.counted, revealedOnce, hdenied]
  · dsimp only
    by_cases hown : t.signer.address = env.sender
    · rw [hown, Function.update_self]
      exact (SentinelOracle.sideVote_ne approve).1
    · rw [Function.update_of_ne hown]
      exact hself
  · dsimp only
    by_cases hown : t.signer.address = env.sender
    · rw [hown, Function.update_self]
      cases approve <;> simp [SentinelTransition.counted, hown, Opened, SentinelOracleRequest.sideVote]
    · rw [Function.update_of_ne hown, ← hopened]
      simp [SentinelTransition.counted, Ne.symm hown]

private theorem tracks_voted (hround : Entered t.signer.address env.number point (.collectingVotes round))
    (hturn : Turn keccak256 env asked r point e point') (hdecode : decode e = some event) :
    Tracks t.signer.address env.number point'
      (t.requestEvent keccak256 r (some (.collectingVotes round)) event).1 := by
  obtain ⟨hvoting, hagrees⟩ := hround
  obtain ⟨approve, _, _, rfl, -, rfl⟩ | ⟨-, hdecided⟩ :=
    turn_late hturn hvoting.pending hvoting.late
  · cases hdecode
    simp only [SentinelTransition.requestEvent]
    split_ifs
    · exact tracks_some ⟨⟨hvoting.pending, hvoting.late, hvoting.reveal⟩, agrees_counted hagrees⟩
    · exact tracks_closed
  · obtain ⟨deadline, rfl, -⟩ | ⟨rfl | ⟨_, _, rfl⟩, -⟩ := hdecided
    · cases hdecode
      exact tracks_some trivial
    · cases hdecode
      exact tracks_none
    · cases hdecode
      exact tracks_none

/-- **An event that both sides see keeps the tally equal**, if no commitment is overlooked. -/
private theorem tracks_event (h : Tracks t.signer.address env.number point entry)
    (hsound : Sound env.number point) (hturn : Turn keccak256 env asked r point e point')
    (hdecode : decode e = some event) (hseen : overlooks entry event = false) :
    Tracks t.signer.address env.number point' (t.requestEvent keccak256 r entry event).1 := by
  cases entry with
  | none => cases event <;> exact tracks_none
  | some tracked =>
      cases tracked with
      | waitingForEngineCheck deadline request =>
          cases request with
          | none =>
              cases hturn with
              | post _ _ _ _ _ _ _ _ ahead =>
                  cases hdecode
                  exact tracks_some ⟨⟨rfl, Nat.le_of_lt ahead, rfl, rfl⟩, rfl⟩
              | _ =>
                  cases hdecode
                  first
                    | exact tracks_none
                    | exact tracks_some trivial
          | some request =>
              obtain ⟨hcollecting, hcount⟩ := h _ rfl
              obtain ⟨_, rfl, -⟩ := hsound.turn_early hturn hcollecting.pending hcollecting.early
              cases hdecode
              cases hseen
      | waitingForRequest approve reason deadline =>
          have hsound' := hsound.turn hturn
          cases hturn with
          | post _ _ _ _ _ _ _ _ ahead =>
              cases hdecode
              exact tracks_opened hsound' ⟨rfl, Nat.le_of_lt ahead, rfl, rfl⟩ rfl
          | _ =>
              cases hdecode
              first
                | exact tracks_none
                | exact tracks_some trivial
      | collectingCommitments round => exact tracks_counted hsound (h _ rfl) hturn hdecode
      | collectingVotes round => exact tracks_voted (h _ rfl) hturn hdecode
      | waitingForOutcome =>
          cases event <;> first
            | exact tracks_none
            | exact tracks_some trivial
      | waitingForDisputeResolution =>
          cases event <;> first
            | exact tracks_none
            | exact tracks_some trivial

/-- In a new block a request is finalized only past its reveal deadline. -/
private theorem finalize_block {block : Nat} (h : .finalize r ∈ (t.requestBlock r block entry).2) :
    ∃ round, entry = some (.collectingVotes round) ∧ round.revealDeadline < block := by
  cases entry with
  | none => simp [SentinelTransition.requestBlock] at h
  | some tracked =>
      cases tracked with
      | collectingVotes round =>
          refine ⟨round, rfl, Nat.not_le.mp fun hopen => ?_⟩
          simp [SentinelTransition.requestBlock, hopen] at h
      | collectingCommitments round =>
          simp only [SentinelTransition.requestBlock, SentinelTransition.revealing] at h
          split_ifs at h <;> simp at h
      | _ =>
          simp only [SentinelTransition.requestBlock] at h
          first
            | (split_ifs at h <;> simp at h)
            | simp at h

/-- An event finalizes a request only if it tells of the last vote. -/
private theorem finalize_event (h : .finalize r ∈ (t.requestEvent keccak256 r entry event).2) :
    ∃ round requestId sentinel approve, entry = some (.collectingVotes round) ∧
      event = .revealed requestId sentinel approve ∧ round.committedCount ≤ round.revealedCount + 1 := by
  cases event with
  | revealed requestId sentinel approve =>
      cases entry with
      | none => simp [SentinelTransition.requestEvent] at h
      | some tracked =>
          cases tracked with
          | collectingVotes round =>
              refine ⟨round, requestId, sentinel, approve, rfl, rfl, Nat.not_lt.mp fun hopen => ?_⟩
              simp [SentinelTransition.requestEvent, SentinelTransition.counted, hopen] at h
          | _ => simp [SentinelTransition.requestEvent] at h
  | newRequest =>
      simp only [SentinelTransition.requestEvent] at h
      split at h <;> simp [SentinelTransition.opened] at h
  | committed =>
      simp only [SentinelTransition.requestEvent] at h
      split at h <;> simp at h
  | disputeResolved =>
      simp only [SentinelTransition.requestEvent] at h
      split at h <;> simp at h
  | disputeTriggered => simp [SentinelTransition.requestEvent] at h
  | claimed => simp [SentinelTransition.requestEvent] at h
  | _ =>
      cases entry <;> simp [SentinelTransition.requestEvent, SentinelTransition.settled,
        SentinelTransition.unruled] at h

private theorem finalize_checked {outcome : CheckOutcome} :
    .finalize r ∉ (t.requestChecked keccak256 r outcome entry).2 := by
  unfold SentinelTransition.requestChecked
  split
  · split <;> simp [SentinelTransition.opened]
  · simp

section Told

variable {message : Message} (hhears : Hears keccak256 r message number point number' point')
include hhears

/-- **What the sentinel keeps of the request stays true**, if no commitment is overlooked. -/
theorem Tracks.told (h : Tracks t.signer.address number point entry) (hsound : Sound number point)
    (hseen : ∀ event, oracleEvent? message = some event → event.requestId = r →
      overlooks entry event = false) :
    Tracks t.signer.address number' point' (t.requestStep keccak256 r entry message).1 := by
  cases hhears with
  | block later => exact tracks_block h later
  | @turn log _ _ env asked e event hturn hdecode hdata =>
      obtain ⟨event', hdecode', hown⟩ := decode_turn hturn
      cases hdecode.symm.trans hdecode'
      have hheard : oracleEvent? (.event log) = some event := by simp [oracleEvent?, hdata]
      simp only [SentinelTransition.requestStep, hdata, if_pos hown]
      exact tracks_event h hsound hturn hdecode (hseen event hheard hown)
  | other hdata hne =>
      simp only [SentinelTransition.requestStep, hdata, if_neg hne]
      exact h
  | proposed hdata =>
      simp only [SentinelTransition.requestStep, hdata]
      split_ifs
      · exact tracks_some trivial
      · exact h
  | @resume result =>
      obtain ⟨requestId, outcome⟩ := result
      simp only [SentinelTransition.requestStep]
      split_ifs
      · exact tracks_checked h hsound outcome
      · exact h

/-- A request that is to be finalized is due. -/
theorem due_of_finalize (h : Tracks t.signer.address number point entry) (hsound : Sound number point)
    (hfinalize : .finalize r ∈ (t.requestStep keccak256 r entry message).2) :
    point'.request.progress.state = .pending ∧ Due number' point'.request := by
  cases hhears with
  | block later =>
      obtain ⟨round, rfl, hlate⟩ := finalize_block hfinalize
      obtain ⟨hvoting, -⟩ := h _ rfl
      exact ⟨hvoting.pending, .inl (hvoting.reveal ▸ hlate)⟩
  | @turn log _ _ env asked e event hturn hdecode hdata =>
      obtain ⟨event', hdecode', hown⟩ := decode_turn hturn
      cases hdecode.symm.trans hdecode'
      simp only [SentinelTransition.requestStep, hdata, if_pos hown] at hfinalize
      obtain ⟨round, _, _, approve, rfl, rfl, hlast⟩ := finalize_event hfinalize
      obtain ⟨hvoting, hcount, hrevealed, -⟩ := h _ rfl
      have hsound' := hsound.turn hturn
      obtain ⟨_, _, _, -, -, rfl⟩ | ⟨-, hdecided⟩ := turn_late hturn hvoting.pending hvoting.late
      · have hle := revealed_le hsound'.tallied
        refine ⟨hvoting.pending, .inr (.inl ?_)⟩
        simp only [revealedOnce] at hle ⊢
        omega
      · obtain ⟨_, rfl, -⟩ | ⟨rfl | ⟨_, _, rfl⟩, -⟩ := hdecided <;> cases hdecode
  | other hdata hne =>
      simp only [SentinelTransition.requestStep, hdata, if_neg hne] at hfinalize
      cases hfinalize
  | proposed hdata =>
      simp only [SentinelTransition.requestStep, hdata] at hfinalize
      split_ifs at hfinalize <;> simp at hfinalize
  | @resume result =>
      obtain ⟨requestId, outcome⟩ := result
      simp only [SentinelTransition.requestStep] at hfinalize
      split_ifs at hfinalize
      · exact absurd hfinalize finalize_checked
      · cases hfinalize

end Told

/-! ### The oracle may be ahead -/

/-- A request that is finalized, votes unchanged, is pending no more. -/
theorem turn_kept (hturn : Turn keccak256 env asked r point e point')
    (hkept : point'.commitments = point.commitments)
    (hpending : point.request.progress.state = .pending) : point'.request.progress.state ≠ .pending := by
  cases hturn with
  | post _ _ _ _ _ _ _ absent => exact absurd (absent.symm.trans hpending) (by decide)
  | commit _ _ _ _ fresh =>
      have hvote := congrArg (fun c => (c env.sender).vote) hkept
      simp only [Function.update_self, fresh] at hvote
      cases hvote
  | reveal approve _ _ _ _ _ _ sealed =>
      have hvote := congrArg (fun c => (c env.sender).vote) hkept
      simp only [Function.update_self, sealed] at hvote
      exact absurd hvote (SentinelOracle.sideVote_ne approve).2
  | settle side => exact (SentinelOracleRequest.sideState_ne side).2.1
  | rule side => exact (SentinelOracleRequest.sideState_ne side).2.1
  | @claim q c _ _ resolved =>
      have hstate : q.progress.state = .pending := hpending
      rw [hstate] at resolved
      cases resolved
  | _ => exact fun h => by cases h

/-- The counters are determined by the votes. -/
theorem Agrees.ahead {tracked : SentinelRequestState} {q : Record} (h : Agrees own point tracked)
    (hpoint : Tallied point) (hq : Tallied q) (hkept : q.commitments = point.commitments) :
    Agrees own q tracked := by
  have hcommitted : q.request.progress.committedCount = point.request.progress.committedCount := by
    rw [hq.committed, hpoint.committed, hkept]
  have hrevealed : q.request.progress.revealedCount = point.request.progress.revealedCount := by
    rw [hq.revealed, hpoint.revealed, hkept]
  have happroved : q.request.progress.approveSentinelCount =
      point.request.progress.approveSentinelCount := by
    rw [hq.approved, hpoint.approved, hkept]
  have hdenied : q.request.progress.denySentinelCount = point.request.progress.denySentinelCount := by
    rw [hq.denied, hpoint.denied, hkept]
  cases tracked with
  | collectingCommitments round =>
      unfold Agrees
      rw [hcommitted, hrevealed, happroved, hdenied, hkept]
      exact h
  | collectingVotes round =>
      unfold Agrees
      rw [hcommitted, hrevealed, happroved, hdenied, hkept]
      exact h
  | _ => trivial

variable {joint : Joint} {deployment : Deployment}

/-- The tally agrees with the oracle, also when it is ahead. -/
theorem Behind.agrees (h : Behind keccak256 r joint point) (hsound : Sound joint.number point)
    (htracks : Tracks own joint.number point (joint.state.lookup r)) {tracked : SentinelRequestState}
    (htracked : joint.state.lookup r = some tracked) :
    Agrees own (joint.world.oracle.record r) tracked := by
  have hagrees : Agrees own point tracked := by
    have hentered := htracks tracked htracked
    cases tracked with
    | collectingCommitments round => exact hentered.2
    | collectingVotes round => exact hentered.2
    | _ => trivial
  cases h with
  | level => exact hagrees
  | late turn number decoded unread kept =>
      rw [← number] at hsound
      exact hagrees.ahead hsound.tallied (hsound.turn turn).tallied kept

/-- A request that is due can be finalized from now on, if nobody did it yet. -/
theorem Behind.ready (h : Behind keccak256 r joint point)
    (hpending : point.request.progress.state = .pending) (hdue : Due joint.number point.request) :
    (joint.world.oracle.requests r).progress.state ≠ .pending ∨
      ∀ env : Env, joint.number < env.number →
        SentinelOracle.finalize deployment env joint.world r ≠ .error .finalizeTooEarly := by
  cases h with
  | level =>
      refine .inr fun env hlater => SentinelOracle.finalize_due ?_
      exact hdue.later (Nat.le_of_lt hlater)
  | late turn number decoded unread kept => exact .inl (turn_kept turn kept hpending)

/-! ### Whole runs -/

/-- A step of the oracle and the sentinel. -/
abbrev JointStep (deployment : Deployment) := Trace.Step Joint (Joint.Input deployment) Answer

/-- The event about the request that is read in a step. -/
def readOf (r : B256) (x : JointStep deployment) : Option SentinelOracleEvents :=
  (x.out.message.bind oracleEvent?).filter fun event => event.requestId = r

/-- A commitment to the request is read while the request is open and waits for its check. -/
def Overlooked (r : B256) (x : JointStep deployment) : Prop :=
  (readOf r x).any (overlooks (x.pre.state.lookup r)) = true

instance decidableOverlooked (r : B256) (x : JointStep deployment) : Decidable (Overlooked r x) :=
  inferInstanceAs (Decidable ((readOf r x).any (overlooks (x.pre.state.lookup r)) = true))

/-- What the sentinel keeps is so at this point of the events. -/
def Follows (keccak256 : Keccak) (t : SentinelTransition) (r : B256) (joint : Joint) (point : Record) :
    Prop :=
  Behind keccak256 r joint point ∧ Sound joint.number point ∧
    Tracks t.signer.address joint.number point (joint.state.lookup r)

theorem readOf_eq {x : JointStep deployment} {message : Message} {event : SentinelOracleEvents}
    (hmessage : x.out.message = some message) (hevent : oracleEvent? message = some event)
    (hr : event.requestId = r) : readOf r x = some event := by
  rw [readOf, hmessage, Option.bind_some, hevent]
  simp [hr]

/-- What the sentinel keeps stays so. -/
theorem Follows.step (h : Follows keccak256 t r joint point) (input : Joint.Input deployment)
    (hseen : ¬ Overlooked r (Trace.take (Joint.step keccak256 t) joint input)) :
    ∃ point', Follows keccak256 t r (joint.step keccak256 t input).1 point' ∧
      Passes keccak256 t r joint.number joint.state point (joint.step keccak256 t input) point' ∧
      (.finalize r ∈ acts r (joint.step keccak256 t input).2.commands →
        point'.request.progress.state = .pending ∧
          Due (joint.step keccak256 t input).1.number point'.request) := by
  obtain ⟨hbehind, hsound, htracks⟩ := h
  obtain ⟨point', hbehind', hpasses⟩ := behind_step hbehind input
  refine ⟨point', ⟨hbehind', ?_⟩, hpasses, ?_⟩
  · cases hpasses with
    | quiet _ number_eq state_eq =>
        rw [number_eq, state_eq]
        exact ⟨hsound, htracks⟩
    | told message_eq hears request =>
        obtain ⟨hentry, -⟩ := Prod.mk.inj request
        rw [hentry]
        refine ⟨hsound.hears hears, htracks.told hears hsound fun event hevent hr => ?_⟩
        rw [Overlooked, readOf_eq message_eq hevent hr] at hseen
        simpa using hseen
  · intro hfinalize
    cases hpasses with
    | quiet answer_eq =>
        rw [answer_eq] at hfinalize
        cases hfinalize
    | told message_eq hears request =>
        obtain ⟨-, hacts⟩ := Prod.mk.inj request
        rw [hacts] at hfinalize
        exact due_of_finalize hears htracks hsound hfinalize

/-- After a step the tally is that of the oracle, and a request that the sentinel finalizes is due. -/
structure Refines (t : SentinelTransition) (r : B256) (x : JointStep deployment) : Prop where
  agrees : ∀ tracked, x.post.state.lookup r = some tracked →
    Agrees t.signer.address (x.post.world.oracle.record r) tracked
  due : .finalize r ∈ acts r x.out.commands →
    (x.post.world.oracle.requests r).progress.state ≠ .pending ∨
      ∀ env : Env, x.post.number < env.number →
        SentinelOracle.finalize deployment env x.post.world r ≠ .error .finalizeTooEarly

private theorem Follows.refines (h : Follows keccak256 t r joint point) (input : Joint.Input deployment)
    (hseen : ¬ Overlooked r (Trace.take (Joint.step keccak256 t) joint input)) :
    (∃ point', Follows keccak256 t r (joint.step keccak256 t input).1 point') ∧
      Refines t r (Trace.take (Joint.step keccak256 t) joint input) := by
  obtain ⟨point', hfollows, -, hdue⟩ := h.step input hseen
  obtain ⟨hbehind, hsound, htracks⟩ := hfollows
  refine ⟨⟨point', hbehind, hsound, htracks⟩, ?_, fun hfinalize => ?_⟩
  · exact fun tracked htracked => hbehind.agrees hsound htracks htracked
  · obtain ⟨hpending, hready⟩ := hdue hfinalize
    exact hbehind.ready hpending hready

theorem follows_start {this : Address} {params : SentinelOracle.ConstructorParams}
    {s : SentinelOracle.State} {token : ERC20.T}
    (hdeploy : SentinelOracle.deploy this params = .ok (deployment, s)) :
    Follows keccak256 t r (Joint.start number ⟨s, token⟩)
      ⟨SentinelOracleRequest.empty, fun _ => SentinelOracleCommitment.empty⟩ :=
  ⟨behind_start hdeploy, sound_empty, tracks_none⟩

/-- **The tally of a sentinel is that of the oracle.**  In every run of the oracle and of a sentinel that
reads its events in order, wherever the verdicts come, if no commitment to the request is read while the
open request waits for its check: after every step the counters are those of the oracle, the sentinel
knows whether it committed and revealed, and it finalizes only what is due. -/
theorem tally_agrees (keccak256 : Keccak) {this : Address} {params : SentinelOracle.ConstructorParams}
    {s : SentinelOracle.State} (hdeploy : SentinelOracle.deploy this params = .ok (deployment, s))
    (token : ERC20.T) (number : Nat) (t : SentinelTransition) (r : B256)
    (inputs : List (Joint.Input deployment))
    (hseen : ∀ x ∈ Trace.trace (Joint.step keccak256 t) (Joint.start number ⟨s, token⟩) inputs,
      ¬ Overlooked r x) :
    ∀ x ∈ Trace.trace (Joint.step keccak256 t) (Joint.start number ⟨s, token⟩) inputs, Refines t r x := by
  have hrun : (∀ x ∈ Trace.trace (Joint.step keccak256 t) (Joint.start number ⟨s, token⟩) inputs,
      Refines t r x) ∧ ∃ point, Follows keccak256 t r
        (Trace.final (Joint.step keccak256 t) (Joint.start number ⟨s, token⟩) inputs) point := by
    refine Trace.history_invariant (E := fun x : JointStep deployment => ¬ Overlooked r x)
      (I := fun (history : List (JointStep deployment)) (joint : Joint) =>
        (∀ x ∈ history, Refines t r x) ∧ ∃ point, Follows keccak256 t r joint point) ?_ ?_ inputs hseen
    · exact ⟨by simp, _, follows_start hdeploy⟩
    · intro history joint input h hseen
      obtain ⟨hhistory, point, hfollows⟩ := h
      obtain ⟨hnext, hrefines⟩ := hfollows.refines input hseen
      refine ⟨fun x hx => ?_, hnext⟩
      cases List.mem_append.mp hx with
      | inl hx => exact hhistory x hx
      | inr hx =>
          rw [List.mem_singleton.mp hx]
          exact hrefines
  exact hrun.1

/-! ### A request for two sentinels

The sentinels 21 and 22 vote on the request 7, and 21 is the one that is modelled.
-/

def duelKeccak : Keccak := fun _ => 7

def duelSentinel : SentinelTransition := ⟨9, 3, ⟨21, fun _ => 5⟩, 1, 20⟩

/-- The sentinels are registered and the request is proposed. -/
def duelStart : List (Joint.Input SentinelOracle.duelDeployment) :=
  [.chain (.call ⟨2, 0, 1, 1⟩ (.addSentinel 21)), .chain (.call ⟨2, 0, 1, 1⟩ (.addSentinel 22)),
    .newBlock 2, .proposed 0 ⟨0, 9, 0, [], ⟨0, 0, 0, 0, [], .call, 0, 0, 0, 0, 0, 0⟩⟩]

def duelVerdict : Joint.Input SentinelOracle.duelDeployment := .resume 7 .approved

def duelOpened : Joint.Input SentinelOracle.duelDeployment := .chain (.call ⟨4, 0, 2, 1⟩ (.postRequest 7 8))

def duelCommit (sentinel : Address) : Joint.Input SentinelOracle.duelDeployment :=
  .chain (.call ⟨sentinel, 0, 2, 1⟩ (.commit 7 7))

def duelReveal (sentinel : Address) : Joint.Input SentinelOracle.duelDeployment :=
  .chain (.call ⟨sentinel, 0, 13, 1⟩ (.reveal 7 true 5 []))

/-- The verdict comes before the commitments. -/
def duelRun : List (Joint.Input SentinelOracle.duelDeployment) :=
  duelStart ++ [duelOpened, duelVerdict, duelCommit 22, duelCommit 21, .newBlock 13]

def duelFinal (inputs : List (Joint.Input SentinelOracle.duelDeployment)) : Joint :=
  Trace.final (Joint.step duelKeccak duelSentinel)
    (Joint.start 1 ⟨SentinelOracle.duelState, SentinelOracle.duelToken⟩) inputs

theorem duel_agrees :
    Agrees 21 ((duelFinal (duelRun ++ [duelReveal 22])).world.oracle.record 7)
      (.collectingVotes ⟨true, 1, 22, 2, 1, 1, 0, false⟩) := by
  have hdeploy : SentinelOracle.deploy 9 SentinelOracle.duelParams =
      .ok (SentinelOracle.duelDeployment, SentinelOracle.duelState) := rfl
  have hrefines := tally_agrees duelKeccak hdeploy SentinelOracle.duelToken 1 duelSentinel 7
    (duelRun ++ [duelReveal 22]) (by decide +kernel)
  rw [Trace.trace_concat] at hrefines
  unfold duelFinal
  rw [Trace.final_concat]
  exact (hrefines _ (List.mem_append_right _ (List.mem_singleton.mpr rfl))).agrees _ (by decide +kernel)

/-- The commitment of the other sentinel comes before the verdict. -/
def duelOverlooked : List (Joint.Input SentinelOracle.duelDeployment) :=
  duelStart ++ [duelOpened, duelCommit 22, duelVerdict, duelCommit 21]

/-- The step after these inputs. -/
def duelTake (inputs : List (Joint.Input SentinelOracle.duelDeployment))
    (input : Joint.Input SentinelOracle.duelDeployment) : JointStep SentinelOracle.duelDeployment :=
  Trace.take (Joint.step duelKeccak duelSentinel) (duelFinal inputs) input

private def errorOf {α : Type} : Except SentinelOracle.Error α → Option SentinelOracle.Error
  | .error e => some e
  | .ok _ => none

/-- It is not counted: the sentinel knows of one commitment where there are two, and finalizes after the
first reveal, which the oracle refuses. -/
theorem overlooked_commitment :
    let history := Trace.trace (Joint.step duelKeccak duelSentinel)
      (Joint.start 1 ⟨SentinelOracle.duelState, SentinelOracle.duelToken⟩)
      (duelOverlooked ++ [.newBlock 13] ++ [duelReveal 21])
    (¬ ∀ x ∈ history, ∀ tracked, x.post.state.lookup 7 = some tracked →
        Agrees 21 (x.post.world.oracle.record 7) tracked) ∧
      ¬ ∀ x ∈ history, .finalize 7 ∈ acts 7 x.out.commands →
        (x.post.world.oracle.requests 7).progress.state ≠ .pending ∨
          ∀ env : Env, x.post.number < env.number →
            SentinelOracle.finalize SentinelOracle.duelDeployment env x.post.world 7 ≠
              .error .finalizeTooEarly := by
  intro history
  have hhistory : history = Trace.trace (Joint.step duelKeccak duelSentinel)
        (Joint.start 1 ⟨SentinelOracle.duelState, SentinelOracle.duelToken⟩) duelOverlooked ++
      [duelTake duelOverlooked (.newBlock 13)] ++
      [duelTake (duelOverlooked ++ [.newBlock 13]) (duelReveal 21)] := by
    simp only [history, duelTake, duelFinal, Trace.trace_concat]
  constructor
  · intro hagrees
    have hstep := hagrees (duelTake duelOverlooked (.newBlock 13)) (by simp [hhistory])
      (.collectingVotes ⟨true, 1, 22, 1, 0, 0, 0, false⟩) (by decide +kernel)
    have hcount : ((duelTake duelOverlooked (.newBlock 13)).post.world.oracle.record
        7).request.progress.committedCount = 2 := by
      decide +kernel
    have hsame : 1 = _ := hstep.1.trans hcount
    cases hsame
  · intro hdue
    have hstep := hdue (duelTake (duelOverlooked ++ [.newBlock 13]) (duelReveal 21)) (by simp [hhistory])
      (by decide +kernel)
    cases hstep with
    | inl hstate => exact hstate (by decide +kernel)
    | inr hfinalize =>
        have hearly : errorOf (SentinelOracle.finalize SentinelOracle.duelDeployment ⟨21, 0, 14, 1⟩
            (duelTake (duelOverlooked ++ [.newBlock 13]) (duelReveal 21)).post.world 7) =
              some .finalizeTooEarly := by
          decide +kernel
        have hrefused := hfinalize ⟨21, 0, 14, 1⟩ (by decide +kernel)
        cases hcall : SentinelOracle.finalize SentinelOracle.duelDeployment ⟨21, 0, 14, 1⟩
            (duelTake (duelOverlooked ++ [.newBlock 13]) (duelReveal 21)).post.world 7 with
        | ok result =>
            rw [hcall] at hearly
            cases hearly
        | error e =>
            rw [hcall] at hearly
            cases hearly
            exact hrefused hcall

end Safenet.Sentinel
