/-
A sentinel claims its bond once, when the request is over.

A sentinel that committed keeps the request until the oracle is done with it, and claims in the step in
which it forgets it.  There is one way to forget it without a claim: the reveal window closed, others
revealed, and the own vote is still sealed (`Forfeited`), so that it is never revealed any more.  A
message does one of five things to the bond (`Bonds`), and a run is the story of these.
-/
import Safenet.Proofs.SentinelTally

namespace Safenet.Sentinel

open Contracts
open Contracts.SentinelOracle (Call Deployment Event Record Turn Due revealedOnce)
open SentinelRequestState
open SentinelOracleEvents (decode decode_turn)

variable {keccak256 : Keccak} {t : SentinelTransition} {r : B256} {env : Env} {asked : Call}
  {own : Address} {number number' : Nat} {point point' : Record} {e : Event}
  {event : SentinelOracleEvents} {entry : Option SentinelRequestState}
  {next : Option SentinelRequestState × List SentinelActionKind} {message : Message}

/-! ### Where a request stands -/

/-- A bond is posted for the request. -/
def bonded (entry : Option SentinelRequestState) : Bool := (entry.bind approveAndSlashAmount).isSome

/-- The oracle is done with the votes on the request. -/
def Past (point : Record) : Prop :=
  point.request.progress.state ≠ .none ∧ point.request.progress.state ≠ .pending

theorem past_resolved (h : point.request.progress.state.resolved = true) : Past point := by
  unfold Past
  cases hstate : point.request.progress.state with
  | none =>
      rw [hstate] at h
      cases h
  | pending =>
      rw [hstate] at h
      cases h
  | _ => exact ⟨by simp, by simp⟩

/-- The own vote was not revealed in time. -/
structure Forfeited (own : Address) (number : Nat) (point : Record) : Prop where
  sealed : (point.commitments own).vote = .pending
  late : point.request.terms.revealDeadline < number
  posted : point.request.progress.state ≠ .none

/-- What the state of a tracked request says about the record. -/
def Stands (point : Record) : SentinelRequestState → Prop
  | .waitingForEngineCheck _ none | .waitingForRequest .. => point.request.progress.state = .none
  | .waitingForOutcome .. => point.request.progress.state = .pending
  | .waitingForDisputeResolution _ _ deadline =>
      point.request.progress.state = .frozen ∧ deadline = point.request.progress.arbitrationDeadline
  | _ => True

/-- The same of a request that need not be tracked. -/
def Placed (point : Record) (entry : Option SentinelRequestState) : Prop :=
  ∀ tracked, entry = some tracked → Stands point tracked

theorem placed_none : Placed point none := fun _ h => by cases h

theorem placed_some {tracked : SentinelRequestState} (h : Stands point tracked) :
    Placed point (some tracked) := by
  intro tracked' h'
  cases h'
  exact h

/-- The event ends the request. -/
def concludes : SentinelOracleEvents → Bool
  | .oracleResult _ | .requestTimedOut _ | .disputeResolved _ | .arbitrationTimedOut _
  | .disputeOutOfScope _ => true
  | _ => false

/-- The request is over with this message: an event ends it, or the arbitration is out of time. -/
def Ends (r : B256) (point : Record) (message : Message) : Prop :=
  (∃ event, oracleEvent? message = some event ∧ event.requestId = r ∧ concludes event = true) ∨
    ∃ block, message = .newBlock block ∧ point.request.progress.state = .frozen ∧
      point.request.progress.arbitrationDeadline < block

/-- The own commitment to a tracked request is read. -/
def Posts (own : Address) (r : B256) (entry : Option SentinelRequestState) (message : Message) : Prop :=
  oracleEvent? message = some (.committed r own) ∧ entry ≠ none

theorem vote_sealed {vote : SentinelOracleCommitment.Vote} (hvote : vote ≠ .none)
    (hopened : ¬ Opened vote) : vote = .pending := by
  cases vote with
  | none => exact absurd rfl hvote
  | pending => rfl
  | approved => exact absurd (.inl rfl) hopened
  | denied => exact absurd (.inr rfl) hopened

/-! ### What a message does to the bond -/

/-- What a message does to the bond. -/
inductive Bonds (own : Address) (r : B256) (point point' : Record) (number' : Nat)
    (entry : Option SentinelRequestState) (message : Message)
    (next : Option SentinelRequestState × List SentinelActionKind) : Prop
  | none (before : bonded entry = false) (after : bonded next.1 = false) (claims : .claim r ∉ next.2)
      (posts : ¬ Posts own r entry message)
  | posted (before : bonded entry = false) (after : bonded next.1 = true) (claims : .claim r ∉ next.2)
      (posts : Posts own r entry message) (ends : ¬ Ends r point message)
      (pending : point.request.progress.state = .pending)
  | held (before : bonded entry = true) (after : bonded next.1 = true) (claims : .claim r ∉ next.2)
      (ends : ¬ Ends r point message)
  | released (before : bonded entry = true) (after : bonded next.1 = false)
      (claims : next.2.count (.claim r) = 1) (ends : Ends r point message)
  | forfeited (before : bonded entry = true) (lost : Forfeited own number' point')

/-- Nothing happens to the request. -/
private theorem bonds_keep (hposts : ¬ Posts own r entry message) (hends : ¬ Ends r point message) :
    Bonds own r point point' number' entry message (entry, []) := by
  cases hbonded : bonded entry with
  | false => exact .none hbonded hbonded (by simp) hposts
  | true => exact .held hbonded hbonded (by simp) hends

private theorem not_posts_resume {result : Resume} : ¬ Posts own r entry (.resume result) := by
  rintro ⟨hread, -⟩
  cases hread

private theorem not_ends_resume {result : Resume} : ¬ Ends r point (.resume result) := by
  rintro (⟨_, hread, -⟩ | ⟨_, hblock, -⟩)
  · cases hread
  · cases hblock

private theorem not_posts_block {block : Nat} : ¬ Posts own r entry (.newBlock block) := by
  rintro ⟨hread, -⟩
  cases hread

private theorem not_ends_block {block : Nat} (h : point.request.progress.state ≠ .frozen) :
    ¬ Ends r point (.newBlock block) := by
  rintro (⟨_, hread, -⟩ | ⟨_, -, hfrozen, -⟩)
  · cases hread
  · exact h hfrozen

private theorem placed_checked (h : Placed point entry) (outcome : CheckOutcome) :
    Placed point (t.requestChecked keccak256 r outcome entry).1 := by
  cases entry with
  | none => exact h
  | some tracked =>
      cases tracked with
      | waitingForEngineCheck deadline request =>
          unfold SentinelTransition.requestChecked
          cases hvote : outcome.vote with
          | none => exact placed_none
          | some vote =>
              cases request with
              | none =>
                  have habsent : point.request.progress.state = .none := h _ rfl
                  exact placed_some habsent
              | some request => exact placed_some trivial
      | _ => exact h

private theorem bonds_checked {requestId : B256} {outcome : CheckOutcome} :
    Bonds own r point point' number' entry (.resume (.engineCheckResult requestId outcome))
      (t.requestChecked keccak256 r outcome entry) := by
  cases entry with
  | none => exact bonds_keep not_posts_resume not_ends_resume
  | some tracked =>
      cases tracked with
      | waitingForEngineCheck deadline request =>
          unfold SentinelTransition.requestChecked
          cases hvote : outcome.vote with
          | none => exact .none rfl rfl (by simp) not_posts_resume
          | some vote =>
              cases request with
              | none => exact .none rfl rfl (by simp) not_posts_resume
              | some request =>
                  exact .none rfl rfl (by simp [SentinelTransition.opened]) not_posts_resume
      | _ => exact bonds_keep not_posts_resume not_ends_resume

/-- The voting ends: the sentinel finalizes, or has lost its bond. -/
private theorem bonds_closed {round : CollectingVotes} (hbonded : bonded entry = true)
    (hends : ¬ Ends r point message)
    (hlost : round.selfRevealed = false → round.revealedCount ≠ 0 → Forfeited own number' point') :
    Bonds own r point point' number' entry message (SentinelTransition.closed r round) := by
  unfold SentinelTransition.closed
  split_ifs with hdrop
  · rw [Bool.and_eq_true, Bool.not_eq_true', decide_eq_true_eq] at hdrop
    exact .forfeited hbonded (hlost hdrop.1 hdrop.2)
  · exact .held hbonded rfl (by simp) hends

private theorem placed_closed {round : CollectingVotes} (h : point.request.progress.state = .pending) :
    Placed point (SentinelTransition.closed r round).1 := by
  unfold SentinelTransition.closed
  split_ifs
  · exact placed_none
  · exact placed_some h

private theorem placed_block (h : Placed point entry) (htracks : Tracks own number point entry)
    {block : Nat} : Placed point (t.requestBlock r block entry).1 := by
  cases entry with
  | none => exact h
  | some tracked =>
      cases tracked with
      | collectingCommitments round =>
          simp only [SentinelTransition.requestBlock]
          split_ifs
          · exact placed_some trivial
          · exact placed_none
          · exact placed_some trivial
      | collectingVotes round =>
          simp only [SentinelTransition.requestBlock]
          split_ifs
          · exact placed_some trivial
          · exact placed_closed (htracks _ rfl).1.pending
      | waitingForOutcome => exact h
      | _ =>
          simp only [SentinelTransition.requestBlock]
          split_ifs
          · exact h
          · exact placed_none

/-- **A new block ends a request only if its arbitration is out of time.** -/
private theorem bonds_block (h : Placed point entry) (htracks : Tracks own number point entry)
    {block : Nat} :
    Bonds own r point point block entry (.newBlock block) (t.requestBlock r block entry) := by
  cases entry with
  | none => exact .none rfl rfl (by simp [SentinelTransition.requestBlock]) not_posts_block
  | some tracked =>
      cases tracked with
      | waitingForEngineCheck deadline request =>
          simp only [SentinelTransition.requestBlock]
          split_ifs
          · exact .none rfl rfl (by simp) not_posts_block
          · exact .none rfl rfl (by simp) not_posts_block
      | waitingForRequest approve reason deadline =>
          simp only [SentinelTransition.requestBlock]
          split_ifs
          · exact .none rfl rfl (by simp) not_posts_block
          · exact .none rfl rfl (by simp) not_posts_block
      | collectingCommitments round =>
          have hpending := (htracks _ rfl).1.pending
          have hends : ¬ Ends r point (.newBlock block) := not_ends_block (by rw [hpending]; decide)
          simp only [SentinelTransition.requestBlock]
          split_ifs with hopen hself
          · exact bonds_keep not_posts_block hends
          · have hself' : round.selfCommitted = false := by simpa using hself
            exact .none (by simp [bonded, approveAndSlashAmount, hself']) rfl (by simp) not_posts_block
          · have hself' : round.selfCommitted = true := by simpa using hself
            exact .held (by simp [bonded, approveAndSlashAmount, hself']) rfl
              (by simp [SentinelTransition.revealing]) hends
      | collectingVotes round =>
          obtain ⟨hvoting, -, -, -, -, hself, hopened⟩ := htracks _ rfl
          have hends : ¬ Ends r point (.newBlock block) :=
            not_ends_block (by rw [hvoting.pending]; decide)
          simp only [SentinelTransition.requestBlock]
          split_ifs with hopen
          · exact bonds_keep not_posts_block hends
          · refine bonds_closed rfl hends fun hrevealed _ => ⟨?_, ?_, ?_⟩
            · exact vote_sealed hself fun h => Bool.false_ne_true (hrevealed.symm.trans (hopened.mpr h))
            · rw [← hvoting.reveal]
              exact Nat.not_le.mp hopen
            · rw [hvoting.pending]
              decide
      | waitingForOutcome approve slashAmount =>
          have hpending : point.request.progress.state = .pending := h _ rfl
          exact bonds_keep not_posts_block (not_ends_block (by rw [hpending]; decide))
      | waitingForDisputeResolution approve slashAmount deadline =>
          obtain ⟨hfrozen, hdeadline⟩ := h _ rfl
          simp only [SentinelTransition.requestBlock]
          split_ifs with hopen
          · refine .held rfl rfl (by simp) ?_
            rintro (⟨_, hread, -⟩ | ⟨_, hblock, -, hlate⟩)
            · cases hread
            · cases hblock
              omega
          · refine .released rfl rfl (by simp) (.inr ⟨block, rfl, hfrozen, ?_⟩)
            omega

/-! ### Events -/

/-- Before it opens the only event about a request is that it opens. -/
private theorem event_absent (hturn : Turn keccak256 env asked r point e point')
    (hdecode : decode e = some event) (habsent : point.request.progress.state = .none) :
    (∃ bondTarget slashAmount commitDeadline revealDeadline,
        event = .newRequest r bondTarget slashAmount commitDeadline revealDeadline) := by
  cases hturn with
  | post =>
      cases hdecode
      exact ⟨_, _, _, _, rfl⟩
  | commit _ _ pending => exact absurd (pending.symm.trans habsent) (by decide)
  | reveal _ _ _ _ pending => exact absurd (pending.symm.trans habsent) (by decide)
  | freeze _ pending => exact absurd (pending.symm.trans habsent) (by decide)
  | expire pending => exact absurd (pending.symm.trans habsent) (by decide)
  | settle _ _ pending => exact absurd (pending.symm.trans habsent) (by decide)
  | rule _ _ _ _ frozen => exact absurd (frozen.symm.trans habsent) (by decide)
  | timeout frozen => exact absurd (frozen.symm.trans habsent) (by decide)
  | decline _ frozen => exact absurd (frozen.symm.trans habsent) (by decide)
  | @claim q c _ _ resolved =>
      have hstate : q.progress.state = .none := habsent
      rw [hstate] at resolved
      cases resolved

/-- A frozen request is only unfrozen. -/
private theorem event_frozen (hturn : Turn keccak256 env asked r point e point')
    (hdecode : decode e = some event) (hfrozen : point.request.progress.state = .frozen) :
    event = .disputeResolved r ∨ event = .arbitrationTimedOut r ∨ event = .disputeOutOfScope r := by
  cases hturn with
  | post _ _ _ _ _ _ _ absent => exact absurd (absent.symm.trans hfrozen) (by decide)
  | commit _ _ pending => exact absurd (pending.symm.trans hfrozen) (by decide)
  | reveal _ _ _ _ pending => exact absurd (pending.symm.trans hfrozen) (by decide)
  | freeze _ pending => exact absurd (pending.symm.trans hfrozen) (by decide)
  | expire pending => exact absurd (pending.symm.trans hfrozen) (by decide)
  | settle _ _ pending => exact absurd (pending.symm.trans hfrozen) (by decide)
  | rule =>
      cases hdecode
      exact .inl rfl
  | timeout =>
      cases hdecode
      exact .inr (.inl rfl)
  | decline =>
      cases hdecode
      exact .inr (.inr rfl)
  | @claim q c _ _ resolved =>
      have hstate : q.progress.state = .frozen := hfrozen
      rw [hstate] at resolved
      cases resolved

/-- The votes on the request are counted. -/
def Decided (r : B256) (point' : Record) (event : SentinelOracleEvents) : Prop :=
  (∃ deadline, event = .disputeTriggered r deadline ∧ point'.request.progress.state = .frozen ∧
      deadline = point'.request.progress.arbitrationDeadline) ∨
    event = .requestTimedOut r ∨ event = .oracleResult r

/-- A pending request stays pending, or its votes are counted. -/
private theorem event_pending (hturn : Turn keccak256 env asked r point e point')
    (hdecode : decode e = some event) (hpending : point.request.progress.state = .pending) :
    ((∃ sentinel, event = .committed r sentinel) ∨ ∃ sentinel approve, event = .revealed r sentinel approve) ∧
        point'.request.progress.state = .pending ∨
      Decided r point' event := by
  cases hturn with
  | post _ _ _ _ _ _ _ absent => exact absurd (absent.symm.trans hpending) (by decide)
  | commit =>
      cases hdecode
      exact .inl ⟨.inl ⟨_, rfl⟩, hpending⟩
  | reveal =>
      cases hdecode
      exact .inl ⟨.inr ⟨_, _, rfl⟩, hpending⟩
  | freeze deadline =>
      cases hdecode
      exact .inr (.inl ⟨deadline, rfl, rfl, rfl⟩)
  | expire =>
      cases hdecode
      exact .inr (.inr (.inl rfl))
  | settle =>
      cases hdecode
      exact .inr (.inr (.inr rfl))
  | rule _ _ _ _ frozen => exact absurd (frozen.symm.trans hpending) (by decide)
  | timeout frozen => exact absurd (frozen.symm.trans hpending) (by decide)
  | decline _ frozen => exact absurd (frozen.symm.trans hpending) (by decide)
  | @claim q c _ _ resolved =>
      have hstate : q.progress.state = .pending := hpending
      rw [hstate] at resolved
      cases resolved

section Events

variable {log : Core.EventLog SentinelEvents} (hlog : log.data = .oracle event)
include hlog

private theorem oracleEvent_log : oracleEvent? (.event log) = some event := by
  simp [oracleEvent?, hlog]

private theorem not_ends_event (h : concludes event = false) : ¬ Ends r point (.event log) := by
  rintro (⟨_, hread, -, hconcludes⟩ | ⟨_, hblock, -⟩)
  · cases (oracleEvent_log hlog).symm.trans hread
    rw [h] at hconcludes
    cases hconcludes
  · cases hblock

private theorem ends_event (h : concludes event = true) (hown : event.requestId = r) :
    Ends r point (.event log) := .inl ⟨event, oracleEvent_log hlog, hown, h⟩

private theorem not_posts_event (h : event ≠ .committed r own) : ¬ Posts own r entry (.event log) := by
  rintro ⟨hread, -⟩
  exact h (Option.some.inj ((oracleEvent_log hlog).symm.trans hread))

private theorem bonds_absent (habsent : point.request.progress.state = .none)
    (hturn : Turn keccak256 env asked r point e point') (hdecode : decode e = some event)
    {tracked : SentinelRequestState}
    (hwaits : (∃ deadline, tracked = .waitingForEngineCheck deadline none) ∨
      ∃ approve reason deadline, tracked = .waitingForRequest approve reason deadline) :
    Bonds own r point point' number' (some tracked) (.event log)
        (t.requestEvent keccak256 r (some tracked) event) ∧
      Placed point' (t.requestEvent keccak256 r (some tracked) event).1 := by
  obtain ⟨_, _, _, _, rfl⟩ := event_absent hturn hdecode habsent
  have hposts : ∀ entry, ¬ Posts own r entry (.event log) := fun _ => not_posts_event hlog (by simp)
  obtain ⟨_, rfl⟩ | ⟨_, _, _, rfl⟩ := hwaits
  · exact ⟨.none rfl rfl (by simp [SentinelTransition.requestEvent]) (hposts _), placed_some trivial⟩
  · refine ⟨.none rfl rfl ?_ (hposts _), placed_some trivial⟩
    simp [SentinelTransition.requestEvent, SentinelTransition.opened]

private theorem bonds_collecting {round : CollectingCommitments}
    (hround : Entered t.signer.address env.number point (.collectingCommitments round))
    (hsound : Sound env.number point) (hturn : Turn keccak256 env asked r point e point')
    (hdecode : decode e = some event) :
    Bonds t.signer.address r point point' number' (some (.collectingCommitments round)) (.event log)
        (t.requestEvent keccak256 r (some (.collectingCommitments round)) event) ∧
      Placed point' (t.requestEvent keccak256 r (some (.collectingCommitments round)) event).1 := by
  obtain ⟨hcollecting, -, -, -, -, hself, -⟩ := hround
  obtain ⟨commitHash, rfl, hfresh, -⟩ := hsound.turn_early hturn hcollecting.pending hcollecting.early
  cases hdecode
  have hends : ¬ Ends r point (.event log) := not_ends_event hlog rfl
  refine ⟨?_, placed_some trivial⟩
  cases hcommitted : round.selfCommitted with
  | true =>
      refine .held ?_ ?_ (by simp [SentinelTransition.requestEvent]) hends
      · simp [bonded, approveAndSlashAmount, hcommitted]
      · simp [SentinelTransition.requestEvent, bonded, approveAndSlashAmount, hcommitted]
  | false =>
      have hbefore : bonded (some (.collectingCommitments round)) = false := by
        simp [bonded, approveAndSlashAmount, hcommitted]
      by_cases hown : env.sender = t.signer.address
      · refine .posted hbefore ?_ (by simp [SentinelTransition.requestEvent]) ⟨?_, by simp⟩ hends
          hcollecting.pending
        · simp [SentinelTransition.requestEvent, bonded, approveAndSlashAmount, hown]
        · rw [oracleEvent_log hlog, hown]
      · refine .none hbefore ?_ (by simp [SentinelTransition.requestEvent]) (not_posts_event hlog ?_)
        · simp [SentinelTransition.requestEvent, bonded, approveAndSlashAmount, hown, hcommitted]
        · simpa using hown

/-- With the votes counted, the sentinel claims or waits for the ruling. -/
private theorem bonds_decided {tracked : SentinelRequestState} (hbonded : bonded (some tracked) = true)
    (hdecided : Decided r point' event) :
    Bonds own r point point' number' (some tracked) (.event log)
        (t.requestEvent keccak256 r (some tracked) event) ∧
      Placed point' (t.requestEvent keccak256 r (some tracked) event).1 := by
  obtain ⟨posted, hposted⟩ : ∃ posted, tracked.approveAndSlashAmount = some posted :=
    Option.isSome_iff_exists.mp hbonded
  obtain ⟨deadline, rfl, hfrozen, hdeadline⟩ | hsettled := hdecided
  · have hnext : (t.requestEvent keccak256 r (some tracked) (.disputeTriggered r deadline)) =
        (some (.waitingForDisputeResolution posted.1 posted.2 deadline), []) := by
      simp [SentinelTransition.requestEvent, hposted]
    rw [hnext]
    exact ⟨.held hbonded rfl (by simp) (not_ends_event hlog rfl), placed_some ⟨hfrozen, hdeadline⟩⟩
  · have hnext : t.requestEvent keccak256 r (some tracked) event = (none, [.claim r]) := by
      obtain rfl | rfl := hsettled <;>
        simp [SentinelTransition.requestEvent, SentinelTransition.settled, hposted]
    have hends : Ends r point (.event log) := by
      obtain rfl | rfl := hsettled
      · exact ends_event hlog rfl rfl
      · exact ends_event hlog rfl rfl
    rw [hnext]
    exact ⟨.released hbonded rfl (by simp) hends, placed_none⟩

private theorem bonds_voting {round : CollectingVotes}
    (hround : Entered t.signer.address env.number point (.collectingVotes round))
    (hsound : Sound env.number point') (hturn : Turn keccak256 env asked r point e point')
    (hdecode : decode e = some event) :
    Bonds t.signer.address r point point' number' (some (.collectingVotes round)) (.event log)
        (t.requestEvent keccak256 r (some (.collectingVotes round)) event) ∧
      Placed point' (t.requestEvent keccak256 r (some (.collectingVotes round)) event).1 := by
  obtain ⟨hvoting, hagrees⟩ := hround
  obtain ⟨approve, _, _, rfl, -, rfl⟩ | ⟨-, hdecided⟩ :=
    turn_late hturn hvoting.pending hvoting.late
  · cases hdecode
    have hends : ¬ Ends r point (.event log) := not_ends_event hlog rfl
    obtain ⟨hcount, hrevealed, -, -, hself, hopened⟩ :
        Agrees t.signer.address _ (.collectingVotes (t.counted round env.sender approve)) :=
      agrees_counted hagrees
    simp only [SentinelTransition.requestEvent]
    split_ifs with hmore
    · exact ⟨.held rfl rfl (by simp) hends, placed_some trivial⟩
    · refine ⟨bonds_closed rfl hends fun hsealed _ => ?_, placed_closed hvoting.pending⟩
      -- all votes are revealed, so the own one is
      refine absurd (vote_sealed hself fun h => ?_) (not_pending hsound.tallied ?_ t.signer.address)
      · exact Bool.false_ne_true (hsealed.symm.trans (hopened.mpr h))
      · rw [← hcount, ← hrevealed]
        exact Nat.not_lt.mp hmore
  · refine bonds_decided hlog rfl ?_
    obtain ⟨deadline, rfl, hfrozen, hdeadline⟩ | ⟨rfl | ⟨_, _, rfl⟩, -⟩ := hdecided
    · cases hdecode
      exact .inl ⟨deadline, rfl, hfrozen, hdeadline.symm⟩
    · cases hdecode
      exact .inr (.inl rfl)
    · cases hdecode
      exact .inr (.inr rfl)

private theorem bonds_outcome {approve : Bool} {slashAmount : Nat}
    (hpending : point.request.progress.state = .pending)
    (hturn : Turn keccak256 env asked r point e point') (hdecode : decode e = some event) :
    Bonds own r point point' number' (some (.waitingForOutcome approve slashAmount)) (.event log)
        (t.requestEvent keccak256 r (some (.waitingForOutcome approve slashAmount)) event) ∧
      Placed point' (t.requestEvent keccak256 r (some (.waitingForOutcome approve slashAmount)) event).1 := by
  obtain ⟨⟨_, rfl⟩ | ⟨_, _, rfl⟩, hstill⟩ | hdecided := event_pending hturn hdecode hpending
  · exact ⟨.held rfl rfl (by simp [SentinelTransition.requestEvent]) (not_ends_event hlog rfl),
      placed_some hstill⟩
  · exact ⟨.held rfl rfl (by simp [SentinelTransition.requestEvent]) (not_ends_event hlog rfl),
      placed_some hstill⟩
  · exact bonds_decided hlog rfl hdecided

private theorem bonds_dispute {approve : Bool} {slashAmount deadline : Nat}
    (hfrozen : point.request.progress.state = .frozen)
    (hturn : Turn keccak256 env asked r point e point') (hdecode : decode e = some event) :
    Bonds own r point point' number' (some (.waitingForDisputeResolution approve slashAmount deadline))
        (.event log) (t.requestEvent keccak256 r
          (some (.waitingForDisputeResolution approve slashAmount deadline)) event) ∧
      Placed point' (t.requestEvent keccak256 r
        (some (.waitingForDisputeResolution approve slashAmount deadline)) event).1 := by
  obtain rfl | rfl | rfl := event_frozen hturn hdecode hfrozen
  · exact ⟨.released rfl rfl (by simp [SentinelTransition.requestEvent]) (ends_event hlog rfl rfl),
      placed_none⟩
  · exact ⟨.released rfl rfl (by simp [SentinelTransition.requestEvent, SentinelTransition.unruled])
      (ends_event hlog rfl rfl), placed_none⟩
  · exact ⟨.released rfl rfl (by simp [SentinelTransition.requestEvent, SentinelTransition.unruled])
      (ends_event hlog rfl rfl), placed_none⟩

/-- **What an event does to the bond.** -/
private theorem bonds_event (h : Placed point entry)
    (htracks : Tracks t.signer.address env.number point entry) (hsound : Sound env.number point)
    (hturn : Turn keccak256 env asked r point e point') (hdecode : decode e = some event)
    (hseen : overlooks entry event = false) :
    Bonds t.signer.address r point point' env.number entry (.event log)
        (t.requestEvent keccak256 r entry event) ∧
      Placed point' (t.requestEvent keccak256 r entry event).1 := by
  cases entry with
  | none =>
      have hnext : t.requestEvent keccak256 r none event = (none, []) := by cases event <;> rfl
      rw [hnext]
      exact ⟨.none rfl rfl (by simp) fun hposts => hposts.2 rfl, placed_none⟩
  | some tracked =>
      cases tracked with
      | waitingForEngineCheck deadline request =>
          cases request with
          | none => exact bonds_absent hlog (h _ rfl) hturn hdecode (.inl ⟨deadline, rfl⟩)
          | some request =>
              obtain ⟨hcollecting, -⟩ := htracks _ rfl
              obtain ⟨_, rfl, -⟩ := hsound.turn_early hturn hcollecting.pending hcollecting.early
              cases hdecode
              cases hseen
      | waitingForRequest approve reason deadline =>
          exact bonds_absent hlog (h _ rfl) hturn hdecode (.inr ⟨approve, reason, deadline, rfl⟩)
      | collectingCommitments round => exact bonds_collecting hlog (htracks _ rfl) hsound hturn hdecode
      | collectingVotes round => exact bonds_voting hlog (htracks _ rfl) (hsound.turn hturn) hturn hdecode
      | waitingForOutcome => exact bonds_outcome hlog (h _ rfl) hturn hdecode
      | waitingForDisputeResolution => exact bonds_dispute hlog (h _ rfl).1 hturn hdecode

end Events

/-! ### Messages -/

/-- The message proposes the transaction of the request. -/
def proposes (keccak256 : Keccak) (t : SentinelTransition) (r : B256) : Message → Bool
  | .event log =>
      match log.data with
      | .consensus event => event.oracle = t.oracle && t.proposalId keccak256 event = r
      | .oracle _ => false
  | _ => false

section Told

variable (hhears : Hears keccak256 r message number point number' point')
include hhears

/-- **What a message does to the bond**, if no commitment is overlooked and the request is not proposed
after it opened. -/
private theorem bonds_told (h : Placed point entry)
    (htracks : Tracks t.signer.address number point entry) (hsound : Sound number point)
    (hseen : ∀ event, oracleEvent? message = some event → event.requestId = r →
      overlooks entry event = false)
    (hproposed : proposes keccak256 t r message = true → point.request.progress.state = .none) :
    Bonds t.signer.address r point point' number' entry message (t.requestStep keccak256 r entry message) ∧
      Placed point' (t.requestStep keccak256 r entry message).1 := by
  cases hhears with
  | block later => exact ⟨bonds_block h htracks, placed_block h htracks⟩
  | turn hturn hdecode hdata =>
      obtain ⟨event', hdecode', hown⟩ := decode_turn hturn
      cases hdecode.symm.trans hdecode'
      simp only [SentinelTransition.requestStep, hdata, if_pos hown]
      exact bonds_event hdata h htracks hsound hturn hdecode (hseen _ (oracleEvent_log hdata) hown)
  | @other log _ _ event hdata hne =>
      simp only [SentinelTransition.requestStep, hdata, if_neg hne]
      refine ⟨bonds_keep (not_posts_event hdata ?_) ?_, h⟩
      · rintro rfl
        exact hne rfl
      · rintro (⟨_, hread, hown, -⟩ | ⟨_, hblock, -⟩)
        · cases (oracleEvent_log hdata).symm.trans hread
          exact hne hown
        · cases hblock
  | @proposed log _ _ event hdata =>
      have hread : oracleEvent? (.event log) = none := by simp [oracleEvent?, hdata]
      have hposts : ∀ entry, ¬ Posts t.signer.address r entry (.event log) := by
        rintro _ ⟨hposts, -⟩
        cases hread.symm.trans hposts
      simp only [SentinelTransition.requestStep, hdata]
      split_ifs with hnew
      · obtain ⟨horacle, hid, rfl⟩ := hnew
        have habsent := hproposed (by simp [proposes, hdata, horacle, hid])
        exact ⟨.none rfl rfl (by simp) (hposts none), placed_some habsent⟩
      · refine ⟨bonds_keep (hposts entry) ?_, h⟩
        rintro (⟨_, hends, -⟩ | ⟨_, hblock, -⟩)
        · cases hread.symm.trans hends
        · cases hblock
  | @resume result =>
      obtain ⟨requestId, outcome⟩ := result
      simp only [SentinelTransition.requestStep]
      split_ifs
      · exact ⟨bonds_checked, placed_checked h outcome⟩
      · exact ⟨bonds_keep not_posts_resume not_ends_resume, h⟩

/-- What the oracle is done with is not voted on again. -/
private theorem Past.hears (h : Past point) : Past point' := by
  cases hhears with
  | turn hturn =>
      cases hturn with
      | post _ _ _ _ _ _ _ absent => exact absurd absent h.1
      | commit _ _ pending => exact absurd pending h.2
      | reveal _ _ _ _ pending => exact absurd pending h.2
      | freeze _ pending => exact absurd pending h.2
      | expire pending => exact absurd pending h.2
      | settle _ _ pending => exact absurd pending h.2
      | rule side => exact past_resolved (by cases side <;> rfl)
      | timeout => exact past_resolved rfl
      | decline => exact past_resolved rfl
      | claim => exact h
  | _ => exact h

private theorem Ends.past (h : Ends r point message) : Past point' := by
  cases hhears with
  | turn hturn hdecode hdata =>
      obtain ⟨_, hread, -, hconcludes⟩ | ⟨_, hblock, -⟩ := h
      · cases (oracleEvent_log hdata).symm.trans hread
        cases hturn with
        | settle side => exact past_resolved (by cases side <;> rfl)
        | rule side => exact past_resolved (by cases side <;> rfl)
        | expire => exact past_resolved rfl
        | timeout => exact past_resolved rfl
        | decline => exact past_resolved rfl
        | _ =>
            cases hdecode
            cases hconcludes
      · cases hblock
  | block =>
      obtain ⟨_, hread, -⟩ | ⟨_, -, hfrozen, -⟩ := h
      · cases hread
      · exact ⟨by rw [hfrozen]; decide, by rw [hfrozen]; decide⟩
  | other hdata hne =>
      obtain ⟨_, hread, hown, -⟩ | ⟨_, hblock, -⟩ := h
      · cases (oracleEvent_log hdata).symm.trans hread
        exact absurd hown hne
      · cases hblock
  | proposed hdata =>
      obtain ⟨_, hread, -⟩ | ⟨_, hblock, -⟩ := h
      · simp [oracleEvent?, hdata] at hread
      · cases hblock
  | resume =>
      obtain ⟨_, hread, -⟩ | ⟨_, hblock, -⟩ := h
      · cases hread
      · cases hblock

/-- A vote that was not revealed in time never is. -/
private theorem Forfeited.hears (h : Forfeited own number point) :
    Forfeited own number' point' ∧
      ∀ approved, oracleEvent? message ≠ some (.revealed r own approved) := by
  cases hhears with
  | block later => exact ⟨⟨h.sealed, by have := h.late; omega, h.posted⟩, fun _ => by simp [oracleEvent?]⟩
  | @turn log _ _ env asked e event hturn hdecode hdata =>
      have hlate : point.request.terms.revealDeadline < env.number := h.late
      have hread := oracleEvent_log hdata
      have hquiet : (∀ sender approved bond reason, e ≠ .revealed r sender approved bond reason) →
          ∀ approved, oracleEvent? (.event log) ≠ some (.revealed r own approved) := by
        intro hne approved hrevealed
        cases hread.symm.trans hrevealed
        cases hturn with
        | reveal => exact hne _ _ _ _ rfl
        | _ => cases hdecode
      cases hturn with
      | post _ _ _ _ _ _ _ absent => exact absurd absent h.posted
      | commit _ _ pending _ fresh =>
          refine ⟨⟨?_, hlate, h.posted⟩, hquiet (by simp)⟩
          have hne : own ≠ env.sender := by
            rintro rfl
            cases fresh.symm.trans h.sealed
          simp only [Function.update_of_ne hne]
          exact h.sealed
      | reveal _ _ _ _ _ _ window => exact absurd hlate (Nat.not_lt.mpr window)
      | settle side => exact ⟨⟨h.sealed, hlate, (SentinelOracleRequest.sideState_ne side).1⟩, hquiet (by simp)⟩
      | rule side => exact ⟨⟨h.sealed, hlate, (SentinelOracleRequest.sideState_ne side).1⟩, hquiet (by simp)⟩
      | @claim q c =>
          refine ⟨⟨?_, hlate, h.posted⟩, hquiet (by simp)⟩
          exact (SentinelOracle.claimed_vote c env.sender own).trans h.sealed
      | _ => exact ⟨⟨h.sealed, hlate, fun h => by cases h⟩, hquiet (by simp)⟩
  | other hdata hne =>
      refine ⟨h, fun approved hrevealed => ?_⟩
      cases (oracleEvent_log hdata).symm.trans hrevealed
      exact hne rfl
  | proposed hdata => exact ⟨h, fun _ => by simp [oracleEvent?, hdata]⟩
  | resume => exact ⟨h, fun _ => by simp [oracleEvent?]⟩

/-- A revealed vote stays so. -/
private theorem opened_hears (h : Opened (point.commitments own).vote ∨
      ∃ approved, oracleEvent? message = some (.revealed r own approved)) :
    Opened (point'.commitments own).vote := by
  cases hhears with
  | @turn log _ _ env asked e event hturn hdecode hdata =>
      have hread := oracleEvent_log hdata
      cases hturn with
      | @reveal q c approve _ _ _ _ _ _ hsealed =>
          cases hdecode
          by_cases hown : own = env.sender
          · rw [hown]
            simp only [Function.update_self]
            cases approve
            · exact .inr rfl
            · exact .inl rfl
          · simp only [Function.update_of_ne hown]
            obtain hopened | ⟨_, hrevealed⟩ := h
            · exact hopened
            · cases hread.symm.trans hrevealed
              exact absurd rfl hown
      | commit _ _ _ _ fresh =>
          cases hdecode
          obtain hopened | ⟨_, hrevealed⟩ := h
          · have hown : own ≠ env.sender := by
              rintro rfl
              rw [fresh] at hopened
              obtain hvote | hvote := hopened <;> cases hvote
            simp only [Function.update_of_ne hown]
            exact hopened
          · cases hread.symm.trans hrevealed
      | @claim q c =>
          cases hdecode
          obtain hopened | ⟨_, hrevealed⟩ := h
          · have hvote := SentinelOracle.claimed_vote c env.sender own
            exact hvote.symm ▸ hopened
          · cases hread.symm.trans hrevealed
      | _ =>
          cases hdecode
          obtain hopened | ⟨_, hrevealed⟩ := h
          · exact hopened
          · cases hread.symm.trans hrevealed
  | other hdata hne =>
      obtain hopened | ⟨_, hrevealed⟩ := h
      · exact hopened
      · cases (oracleEvent_log hdata).symm.trans hrevealed
        exact absurd rfl hne
  | proposed hdata =>
      obtain hopened | ⟨_, hrevealed⟩ := h
      · exact hopened
      · simp [oracleEvent?, hdata] at hrevealed
  | _ =>
      obtain hopened | ⟨_, hrevealed⟩ := h
      · exact hopened
      · cases hrevealed

end Told

/-! ### Whole runs -/

variable {deployment : Deployment} {joint : Joint}

/-- The own commitment to a tracked request is read. -/
def Committed (t : SentinelTransition) (r : B256) (x : JointStep deployment) : Prop :=
  readOf r x = some (.committed r t.signer.address) ∧ x.pre.state.lookup r ≠ none

/-- The own reveal of the vote on the request is read. -/
def Revealed (t : SentinelTransition) (r : B256) (x : JointStep deployment) : Prop :=
  ∃ approved, readOf r x = some (.revealed r t.signer.address approved)

/-- The block that a message announces. -/
def newBlock? : Message → Option Nat
  | .newBlock block => some block
  | _ => none

/-- The request is over: an event ends it, or a new block comes after the end of its arbitration. -/
def Closes (r : B256) (x : JointStep deployment) : Prop :=
  (∃ event ∈ readOf r x, concludes event = true) ∨
    ∃ block ∈ x.out.message.bind newBlock?,
      (x.pre.world.oracle.requests r).progress.state = .frozen ∧
        (x.pre.world.oracle.requests r).progress.arbitrationDeadline < block

/-- The transaction of a request is proposed that is open already. -/
def Reproposed (keccak256 : Keccak) (t : SentinelTransition) (r : B256) (x : JointStep deployment) : Prop :=
  x.out.message.any (proposes keccak256 t r) = true ∧
    (x.pre.world.oracle.requests r).progress.state ≠ .none

instance decidableCommitted (t : SentinelTransition) (r : B256) (x : JointStep deployment) :
    Decidable (Committed t r x) :=
  inferInstanceAs (Decidable (readOf r x = some (.committed r t.signer.address) ∧
    x.pre.state.lookup r ≠ none))

instance decidableRevealed (t : SentinelTransition) (r : B256) (x : JointStep deployment) :
    Decidable (Revealed t r x) :=
  inferInstanceAs (Decidable (∃ approved, readOf r x = some (.revealed r t.signer.address approved)))

instance decidableCloses (r : B256) (x : JointStep deployment) : Decidable (Closes r x) :=
  inferInstanceAs (Decidable ((∃ event ∈ readOf r x, concludes event = true) ∨
    ∃ block ∈ x.out.message.bind newBlock?, (x.pre.world.oracle.requests r).progress.state = .frozen ∧
      (x.pre.world.oracle.requests r).progress.arbitrationDeadline < block))

instance decidableReproposed (keccak256 : Keccak) (t : SentinelTransition) (r : B256)
    (x : JointStep deployment) : Decidable (Reproposed keccak256 t r x) :=
  inferInstanceAs (Decidable (x.out.message.any (proposes keccak256 t r) = true ∧
    (x.pre.world.oracle.requests r).progress.state ≠ .none))

/-- How often the bond is claimed. -/
def claimsOf (r : B256) (history : List (JointStep deployment)) : Nat :=
  (history.flatMap fun x => acts r x.out.commands).count (.claim r)

/-- Where the bond is after a history. -/
inductive Course (t : SentinelTransition) (r : B256) (history : List (JointStep deployment))
    (joint : Joint) (point : Record) : Prop
  | early (committed : ∀ x ∈ history, ¬ Committed t r x) (claims : claimsOf r history = 0)
      (entry : bonded (joint.state.lookup r) = false)
  | held (closes : ∀ x ∈ history, ¬ Closes r x) (claims : claimsOf r history = 0)
      (entry : bonded (joint.state.lookup r) = true)
  | released (closes : ∃ x ∈ history, Closes r x) (claims : claimsOf r history = 1)
      (entry : bonded (joint.state.lookup r) = false)
  | forfeited (lost : Forfeited t.signer.address joint.number point)

/-- What is known after a history. -/
structure Knows (t : SentinelTransition) (r : B256) (history : List (JointStep deployment))
    (joint : Joint) (point : Record) : Prop where
  placed : Placed point (joint.state.lookup r)
  past : (∃ x ∈ history, Closes r x) → Past point
  opened : (∃ x ∈ history, Revealed t r x) → Opened (point.commitments t.signer.address).vote
  course : Course t r history joint point

theorem exists_concat {α : Type} {P : α → Prop} {x : α} {history : List α} :
    (∃ y ∈ history ++ [x], P y) ↔ (∃ y ∈ history, P y) ∨ P x := by
  simp [or_and_right, exists_or]

theorem not_concat {α : Type} {P : α → Prop} {x : α} {history : List α} (h : ∀ y ∈ history, ¬ P y)
    (hx : ¬ P x) : ∀ y ∈ history ++ [x], ¬ P y := by
  intro y hy hown
  cases List.mem_append.mp hy with
  | inl hy => exact h y hy hown
  | inr hy => exact hx (List.mem_singleton.mp hy ▸ hown)

theorem claimsOf_concat {history : List (JointStep deployment)} {x : JointStep deployment} :
    claimsOf r (history ++ [x]) = claimsOf r history + (acts r x.out.commands).count (.claim r) := by
  simp [claimsOf]

section Step

variable {history : List (JointStep deployment)} {x : JointStep deployment}

theorem readOf_iff (hmessage : x.out.message = some message) :
    readOf r x = some event ↔ oracleEvent? message = some event ∧ event.requestId = r := by
  rw [readOf, hmessage, Option.bind_some, Option.filter_eq_some_iff]
  simp

theorem committed_iff (hmessage : x.out.message = some message) :
    Committed t r x ↔ Posts t.signer.address r (x.pre.state.lookup r) message := by
  rw [Committed, readOf_iff hmessage, Posts]
  simp [SentinelOracleEvents.requestId]

theorem closes_iff (hmessage : x.out.message = some message)
    (hblock : ∀ block, message = .newBlock block → point = x.pre.world.oracle.record r) :
    Closes r x ↔ Ends r point message := by
  unfold Closes Ends
  refine or_congr ?_ ?_
  · simp only [Option.mem_def, readOf_iff hmessage, and_assoc]
  · rw [hmessage, Option.bind_some]
    cases message with
    | newBlock block =>
        rw [hblock block rfl]
        constructor
        · rintro ⟨_, hmem, hlate⟩
          cases hmem
          exact ⟨block, rfl, hlate⟩
        · rintro ⟨_, hmem, hlate⟩
          cases hmem
          exact ⟨block, rfl, hlate⟩
    | event => simp [newBlock?]
    | resume => simp [newBlock?]

/-- A step that tells the sentinel nothing. -/
private theorem Knows.quiet (h : Knows t r history joint point) (hanswer : x.out = ⟨none, []⟩)
    {joint' : Joint} (hnumber : joint'.number = joint.number) (hstate : joint'.state = joint.state) :
    Knows t r (history ++ [x]) joint' point := by
  have hread : readOf r x = none := by rw [readOf, hanswer]; rfl
  have hcommitted : ¬ Committed t r x := by
    rintro ⟨hcommitted, -⟩
    cases hread.symm.trans hcommitted
  have hrevealed : ¬ Revealed t r x := by
    rintro ⟨_, hrevealed⟩
    cases hread.symm.trans hrevealed
  have hcloses : ¬ Closes r x := by
    rintro (⟨_, hevent, -⟩ | ⟨_, hblock, -⟩)
    · cases hread.symm.trans hevent
    · rw [hanswer] at hblock
      cases hblock
  have hclaims : claimsOf r (history ++ [x]) = claimsOf r history := by
    rw [claimsOf_concat, hanswer]
    rfl
  refine ⟨by rw [hstate]; exact h.placed, fun hpast => ?_, fun hopened => ?_, ?_⟩
  · exact h.past ((exists_concat.mp hpast).resolve_right hcloses)
  · exact h.opened ((exists_concat.mp hopened).resolve_right hrevealed)
  · cases h.course with
    | early committed claims entry =>
        exact .early (not_concat committed hcommitted) (hclaims.trans claims) (by rw [hstate]; exact entry)
    | held closes claims entry =>
        exact .held (not_concat closes hcloses) (hclaims.trans claims) (by rw [hstate]; exact entry)
    | released closes claims entry =>
        exact .released (exists_concat.mpr (.inl closes)) (hclaims.trans claims) (by rw [hstate]; exact entry)
    | forfeited lost => exact .forfeited (by rw [hnumber]; exact lost)

/-- What a message does to the bond, seen from the run. -/
private theorem Course.told (h : Course t r history joint point)
    (hpast : (∃ y ∈ history, Closes r y) → Past point) {joint' : Joint} {point' : Record}
    (hmessage : x.out.message = some message) (hpre : x.pre = joint)
    (hblock : ∀ block, message = .newBlock block → point = joint.world.oracle.record r)
    (hears : Hears keccak256 r message joint.number point joint'.number point')
    (hbonds : Bonds t.signer.address r point point' joint'.number (joint.state.lookup r) message
      (joint'.state.lookup r, acts r x.out.commands)) :
    Course t r (history ++ [x]) joint' point' := by
  subst hpre
  have hcloses := closes_iff (r := r) hmessage hblock
  have hcommitted := committed_iff (t := t) (r := r) hmessage
  cases h with
  | early committed claims entry =>
      cases hbonds with
      | none before after hclaims posts =>
          refine .early (not_concat committed (mt hcommitted.mp posts)) ?_ after
          rw [claimsOf_concat, claims, List.count_eq_zero.mpr hclaims]
      | posted before after hclaims posts ends pending =>
          have hopen : ∀ y ∈ history, ¬ Closes r y := fun y hy hclosed => (hpast ⟨y, hy, hclosed⟩).2 pending
          refine .held (not_concat hopen (mt hcloses.mp ends)) ?_ after
          rw [claimsOf_concat, claims, List.count_eq_zero.mpr hclaims]
      | held before => exact absurd (before.symm.trans entry) (by decide)
      | released before => exact absurd (before.symm.trans entry) (by decide)
      | forfeited before => exact absurd (before.symm.trans entry) (by decide)
  | held closes claims entry =>
      cases hbonds with
      | none before => exact absurd (before.symm.trans entry) (by decide)
      | posted before => exact absurd (before.symm.trans entry) (by decide)
      | held before after hclaims ends =>
          refine .held (not_concat closes (mt hcloses.mp ends)) ?_ after
          rw [claimsOf_concat, claims, List.count_eq_zero.mpr hclaims]
      | released before after hclaims ends =>
          refine .released (exists_concat.mpr (.inr (hcloses.mpr ends))) ?_ after
          rw [claimsOf_concat, claims, hclaims]
      | forfeited before lost => exact .forfeited lost
  | released closes claims entry =>
      cases hbonds with
      | none before after hclaims posts =>
          refine .released (exists_concat.mpr (.inl closes)) ?_ after
          rw [claimsOf_concat, claims, List.count_eq_zero.mpr hclaims]
      | posted before after hclaims posts ends pending => exact absurd pending (hpast closes).2
      | held before => exact absurd (before.symm.trans entry) (by decide)
      | released before => exact absurd (before.symm.trans entry) (by decide)
      | forfeited before => exact absurd (before.symm.trans entry) (by decide)
  | forfeited lost => exact .forfeited (Forfeited.hears hears lost).1

/-- **What is known goes on to be known.** -/
private theorem Knows.step (h : Knows t r history joint point) (hfollows : Follows keccak256 t r joint point)
    (input : Joint.Input deployment)
    (hseen : ¬ Overlooked r (Trace.take (Joint.step keccak256 t) joint input))
    (hproposed : ¬ Reproposed keccak256 t r (Trace.take (Joint.step keccak256 t) joint input)) :
    ∃ point', Follows keccak256 t r (joint.step keccak256 t input).1 point' ∧
      Knows t r (history ++ [Trace.take (Joint.step keccak256 t) joint input])
        (joint.step keccak256 t input).1 point' := by
  obtain ⟨point', hfollows', hpasses, -⟩ := hfollows.step input hseen
  obtain ⟨hbehind, hsound, htracks⟩ := hfollows
  refine ⟨point', hfollows', ?_⟩
  cases hpasses with
  | quiet answer_eq number_eq state_eq => exact h.quiet answer_eq number_eq state_eq
  | @told _ message message_eq hears request =>
      have hblock : ∀ block, message = Core.Message.newBlock block → point = joint.world.oracle.record r :=
        fun block hmessage => hbehind.announced (hmessage ▸ message_eq)
      have hcounted : ∀ event, oracleEvent? message = some event → event.requestId = r →
          overlooks (joint.state.lookup r) event = false := by
        intro event hevent hr
        rw [Overlooked, readOf_eq message_eq hevent hr] at hseen
        simpa using hseen
      have habsent : proposes keccak256 t r message = true → point.request.progress.state = .none := by
        intro hproposes
        have hstate : (joint.world.oracle.requests r).progress.state = .none := by
          by_contra hstate
          exact hproposed ⟨by rw [Trace.take_out, message_eq]; exact hproposes, hstate⟩
        rw [hbehind.stored hstate]
        exact hstate
      obtain ⟨hbonds, hplaced⟩ := bonds_told hears h.placed htracks hsound hcounted habsent
      rw [← request] at hbonds hplaced
      refine ⟨hplaced, fun hpast => ?_, fun hopened => ?_, ?_⟩
      · cases exists_concat.mp hpast with
        | inl hpast => exact (h.past hpast).hears hears
        | inr hcloses => exact Ends.past hears ((closes_iff message_eq hblock).mp hcloses)
      · refine opened_hears hears ?_
        cases exists_concat.mp hopened with
        | inl hopened => exact .inl (h.opened hopened)
        | inr hrevealed =>
            obtain ⟨approved, hread⟩ := hrevealed
            exact .inr ⟨approved, ((readOf_iff message_eq).mp hread).1⟩
      · exact h.course.told h.past message_eq rfl hblock hears hbonds

end Step

/-- A vote that was not revealed in time is not revealed in the rest of the run. -/
private theorem forfeited_run (hbehind : Behind keccak256 r joint point)
    (hlost : Forfeited t.signer.address joint.number point) (inputs : List (Joint.Input deployment)) :
    ∀ x ∈ Trace.trace (Joint.step keccak256 t) joint inputs, ¬ Revealed t r x := by
  have hrun : (∀ x ∈ Trace.trace (Joint.step keccak256 t) joint inputs, ¬ Revealed t r x) ∧
      ∃ point, Behind keccak256 r (Trace.final (Joint.step keccak256 t) joint inputs) point ∧
        Forfeited t.signer.address (Trace.final (Joint.step keccak256 t) joint inputs).number point := by
    refine Trace.history_invariant (E := fun _ => True)
      (I := fun (history : List (JointStep deployment)) (joint : Joint) =>
        (∀ x ∈ history, ¬ Revealed t r x) ∧
          ∃ point, Behind keccak256 r joint point ∧ Forfeited t.signer.address joint.number point)
      ⟨by simp, point, hbehind, hlost⟩ ?_ inputs fun _ _ => trivial
    intro history joint input h _
    obtain ⟨hhistory, point, hbehind, hlost⟩ := h
    obtain ⟨point', hbehind', hpasses⟩ := behind_step hbehind input
    cases hpasses with
    | quiet answer_eq number_eq =>
        refine ⟨not_concat hhistory ?_, point, hbehind', by rw [number_eq]; exact hlost⟩
        rintro ⟨_, hread⟩
        rw [readOf, Trace.take_out, answer_eq] at hread
        cases hread
    | told message_eq hears =>
        obtain ⟨hlost', hquiet⟩ := hlost.hears hears
        refine ⟨not_concat hhistory ?_, point', hbehind', hlost'⟩
        rintro ⟨approved, hread⟩
        exact hquiet approved ((readOf_iff message_eq).mp hread).1
  exact hrun.1

private theorem knows_start {s : SentinelOracle.State} {token : ERC20.T} :
    Knows t r ([] : List (JointStep deployment)) (Joint.start number ⟨s, token⟩) point where
  placed := placed_none
  past h := by simp at h
  opened h := by simp at h
  course := .early (by simp) rfl rfl

/-- **A sentinel never abandons a bond that it can still claim.**  In every run in which no commitment to
the request is read while the open request waits for its check, and the request is proposed only before
it opens: once the own commitment to a tracked request is read, and if the own vote is revealed at any
time, the request stays tracked and unclaimed until the request is over, and is claimed exactly once from
then on. -/
theorem bond_is_claimed (keccak256 : Keccak) {this : Address} {params : SentinelOracle.ConstructorParams}
    {s : SentinelOracle.State} (hdeploy : SentinelOracle.deploy this params = .ok (deployment, s))
    (token : ERC20.T) (number : Nat) (t : SentinelTransition) (r : B256)
    (inputs later : List (Joint.Input deployment))
    (hseen : ∀ x ∈ Trace.trace (Joint.step keccak256 t) (Joint.start number ⟨s, token⟩) inputs,
      ¬ Overlooked r x)
    (hproposed : ∀ x ∈ Trace.trace (Joint.step keccak256 t) (Joint.start number ⟨s, token⟩) inputs,
      ¬ Reproposed keccak256 t r x)
    (hrevealed : ∃ x ∈ Trace.trace (Joint.step keccak256 t) (Joint.start number ⟨s, token⟩)
      (inputs ++ later), Revealed t r x) :
    let history := Trace.trace (Joint.step keccak256 t) (Joint.start number ⟨s, token⟩) inputs
    let joint := Trace.final (Joint.step keccak256 t) (Joint.start number ⟨s, token⟩) inputs
    (∃ x ∈ history, Committed t r x) →
      ((∀ x ∈ history, ¬ Closes r x) → joint.state.lookup r ≠ none ∧ claimsOf r history = 0) ∧
        ((∃ x ∈ history, Closes r x) → claimsOf r history = 1) := by
  intro history joint hcommitted
  have hrun : ∃ point, Follows keccak256 t r joint point ∧ Knows t r history joint point := by
    refine Trace.history_invariant
      (E := fun x : JointStep deployment => ¬ Overlooked r x ∧ ¬ Reproposed keccak256 t r x)
      (I := fun (history : List (JointStep deployment)) (joint : Joint) =>
        ∃ point, Follows keccak256 t r joint point ∧ Knows t r history joint point) ?_ ?_ inputs
      fun x hx => ⟨hseen x hx, hproposed x hx⟩
    · exact ⟨_, follows_start hdeploy, knows_start⟩
    · intro history joint input h hstep
      obtain ⟨point, hfollows, hknows⟩ := h
      exact hknows.step hfollows input hstep.1 hstep.2
  obtain ⟨point, hfollows, hknows⟩ := hrun
  cases hknows.course with
  | early committed =>
      obtain ⟨x, hx, hown⟩ := hcommitted
      exact absurd hown (committed x hx)
  | held closes claims entry =>
      refine ⟨fun _ => ⟨fun hnone => ?_, claims⟩, fun hclosed => ?_⟩
      · rw [hnone] at entry
        cases entry
      · obtain ⟨x, hx, hclosed⟩ := hclosed
        exact absurd hclosed (closes x hx)
  | released closes claims =>
      refine ⟨fun hopen => ?_, fun _ => claims⟩
      obtain ⟨x, hx, hclosed⟩ := closes
      exact absurd hclosed (hopen x hx)
  | forfeited lost =>
      -- the own vote is not revealed before, nor will it be
      exfalso
      obtain ⟨x, hx, hown⟩ := hrevealed
      rw [Trace.trace_append] at hx
      cases List.mem_append.mp hx with
      | inl hx =>
          have hopened := hknows.opened ⟨x, hx, hown⟩
          rw [lost.sealed] at hopened
          obtain hvote | hvote := hopened <;> cases hvote
      | inr hx => exact forfeited_run hfollows.1 lost later x hx hown

/-! ### The request for two sentinels -/

def duelTrace (inputs : List (Joint.Input SentinelOracle.duelDeployment)) :
    List (JointStep SentinelOracle.duelDeployment) :=
  Trace.trace (Joint.step duelKeccak duelSentinel)
    (Joint.start 1 ⟨SentinelOracle.duelState, SentinelOracle.duelToken⟩) inputs

theorem duel_claimed :
    claimsOf 7 (duelTrace (duelRun ++ [duelReveal 22, duelReveal 21, .read])) = 1 := by
  have hdeploy : SentinelOracle.deploy 9 SentinelOracle.duelParams =
      .ok (SentinelOracle.duelDeployment, SentinelOracle.duelState) := rfl
  exact (bond_is_claimed duelKeccak hdeploy SentinelOracle.duelToken 1 duelSentinel 7
    (duelRun ++ [duelReveal 22, duelReveal 21, .read]) [] (by decide +kernel) (by decide +kernel)
    (by decide +kernel) (by decide +kernel)).2 (by decide +kernel)

/-- With the commitment of the other sentinel overlooked, its reveal looks like the last one.  The sentinel
forgets the request, reveals too, and never claims. -/
theorem overlooked_bond :
    let history := duelTrace (duelOverlooked ++ [.newBlock 13, duelReveal 22, duelReveal 21, .read])
    (∀ x ∈ history, ¬ Reproposed duelKeccak duelSentinel 7 x) ∧
      (∃ x ∈ history, Revealed duelSentinel 7 x) ∧ (∃ x ∈ history, Committed duelSentinel 7 x) ∧
      ¬ ((∃ x ∈ history, Closes 7 x) → claimsOf 7 history = 1) := by
  intro history
  refine ⟨by decide +kernel, by decide +kernel, by decide +kernel, fun hclaimed => ?_⟩
  have hnever : claimsOf 7 history = 0 := by decide +kernel
  have honce := hclaimed (by decide +kernel)
  omega

end Safenet.Sentinel
