/-
The states of a request of the sentinel oracle, its counters and its outcome.

`Tallied` ties the counters to the commitments they count, `Told` the stored votes to the
events emitted so far.  Both survive every turn; `Advances` is what one step may change.
The block numbers of the calls do not matter for any of it.
-/
import Safenet.Proofs.SentinelOracle
import Safenet.Proofs.SentinelOracleTurns

namespace Safenet.Contracts.SentinelOracle

open SentinelOracleCommitment (Vote Commitment computeHash)
open SentinelOracleRequest

variable {keccak256 : Keccak} {deployment : Deployment} {env : Env} {asked : Call} {r : B256}
  {q q' : Record} {e : Event} {told events : List Event}

/-- How many committed with a vote of this kind. -/
def ballots (commitments : SentinelOracleCommitmentMap.T) (kind : Vote → Bool) : Nat :=
  (Finset.univ.filter fun a => kind (commitments a).vote = true).card

/-- The counters count commitments. -/
structure Tallied (q : Record) : Prop where
  committed : q.request.progress.committedCount = ballots q.commitments (· ≠ .none)
  revealed : q.request.progress.revealedCount =
    ballots q.commitments fun vote => vote = .approved || vote = .denied
  sum : q.request.progress.revealedCount =
    q.request.progress.approveSentinelCount + q.request.progress.denySentinelCount
  approved : q.request.progress.approveSentinelCount = ballots q.commitments (· = .approved)
  denied : q.request.progress.denySentinelCount = ballots q.commitments (· = .denied)

/-! ### Counting commitments -/

theorem ballots_eq_sum (commitments : SentinelOracleCommitmentMap.T) (kind : Vote → Bool) :
    ballots commitments kind = ∑ a, if kind (commitments a).vote = true then 1 else 0 :=
  Finset.card_filter _ _

/-- Changing the commitment of one address. -/
theorem ballots_update (commitments : SentinelOracleCommitmentMap.T) (a : Address)
    (commitment : Commitment) (kind : Vote → Bool) :
    ballots (Function.update commitments a commitment) kind +
        (if kind (commitments a).vote = true then 1 else 0) =
      ballots commitments kind + (if kind commitment.vote = true then 1 else 0) := by
  rw [ballots_eq_sum, ballots_eq_sum]
  exact Ledger.sum_map_update (fun c : Commitment => if kind c.vote = true then 1 else 0)
    commitments a commitment

theorem ballots_pos {commitments : SentinelOracleCommitmentMap.T} {kind : Vote → Bool} :
    0 < ballots commitments kind ↔ ∃ a, kind (commitments a).vote = true := by
  rw [ballots, Finset.card_pos]
  constructor
  · rintro ⟨a, ha⟩
    exact ⟨a, (Finset.mem_filter.mp ha).2⟩
  · rintro ⟨a, ha⟩
    exact ⟨a, Finset.mem_filter.mpr ⟨Finset.mem_univ a, ha⟩⟩

theorem ballots_none {commitments : SentinelOracleCommitmentMap.T} {kind : Vote → Bool}
    (h : ∀ a, (commitments a).vote = .none) (hkind : kind .none = false) :
    ballots commitments kind = 0 := by
  refine Nat.eq_zero_of_not_pos fun hpos => ?_
  obtain ⟨a, ha⟩ := ballots_pos.mp hpos
  rw [h a, hkind] at ha
  cases ha

/-- Nobody commits to a request that does not exist. -/
def Vacant (q : Record) : Prop :=
  q.request.progress.state = .none → ∀ a, (q.commitments a).vote = .none

/-- The counters of a new request count nothing. -/
theorem tallied_none {q : Record} (h : ∀ a, (q.commitments a).vote = .none)
    (hcounts : q.request.progress.committedCount = 0 ∧ q.request.progress.revealedCount = 0 ∧
      q.request.progress.approveSentinelCount = 0 ∧ q.request.progress.denySentinelCount = 0) :
    Tallied q := by
  obtain ⟨hcommitted, hrevealed, happroved, hdenied⟩ := hcounts
  refine ⟨?_, ?_, ?_, ?_, ?_⟩
  · rw [hcommitted, ballots_none h (by decide)]
  · rw [hrevealed, ballots_none h (by decide)]
  · rw [hrevealed, happroved, hdenied]
  · rw [happroved, ballots_none h (by decide)]
  · rw [hdenied, ballots_none h (by decide)]

/-- A turn that changes neither the counters nor the votes. -/
private theorem Tallied.same (h : Tallied q)
    (hcommitted : q'.request.progress.committedCount = q.request.progress.committedCount)
    (hrevealed : q'.request.progress.revealedCount = q.request.progress.revealedCount)
    (happroved : q'.request.progress.approveSentinelCount =
      q.request.progress.approveSentinelCount)
    (hdenied : q'.request.progress.denySentinelCount = q.request.progress.denySentinelCount)
    (hvotes : ∀ a, (q'.commitments a).vote = (q.commitments a).vote) : Tallied q' := by
  have hballots : ∀ kind, ballots q'.commitments kind = ballots q.commitments kind := by
    intro kind
    simp only [ballots, hvotes]
  refine ⟨?_, ?_, ?_, ?_, ?_⟩
  · rw [hcommitted, hballots]; exact h.committed
  · rw [hrevealed, hballots]; exact h.revealed
  · rw [hrevealed, happroved, hdenied]; exact h.sum
  · rw [happroved, hballots]; exact h.approved
  · rw [hdenied, hballots]; exact h.denied

/-- A mark on one commitment leaves all votes alone. -/
theorem claimed_vote (c : SentinelOracleCommitmentMap.T) (sender a : Address) :
    (Function.update c sender { c sender with claimed := true } a).vote = (c a).vote := by
  by_cases ha : a = sender
  · rw [ha, Function.update_self]
  · rw [Function.update_of_ne ha]

theorem Tallied.turn (h : Tallied q) (hvacant : Vacant q)
    (hturn : Turn keccak256 env asked r q e q') : Tallied q' := by
  cases hturn with
  | post sponsor fee bondTarget daoFeeShare slashAmount commitDeadline revealDeadline absent =>
      exact tallied_none (hvacant absent) ⟨rfl, rfl, rfl, rfl⟩
  | @commit q c commitHash call pending window fresh =>
      have hb := ballots_update c env.sender ⟨commitHash, q.terms.bondTarget, .pending, false⟩
      obtain ⟨hcommitted, hrevealed, hsum, happroved, hdenied⟩ := h
      have hc := hb (· ≠ .none)
      have hr := hb fun vote => vote = .approved || vote = .denied
      have ha := hb (· = .approved)
      have hd := hb (· = .denied)
      simp only [fresh] at hc hr ha hd
      simp at hc hr ha hd
      refine ⟨?_, ?_, hsum, ?_, ?_⟩
      · simpa [hc] using hcommitted
      · simpa [hr] using hrevealed
      · simpa [ha] using happroved
      · simpa [hd] using hdenied
  | @reveal q c approve salt reason call pending opened window sealed =>
      have hb := ballots_update c env.sender { c env.sender with vote := sideVote approve }
      obtain ⟨hcommitted, hrevealed, hsum, happroved, hdenied⟩ := h
      have hc := hb (· ≠ .none)
      have hr := hb fun vote => vote = .approved || vote = .denied
      have ha := hb (· = .approved)
      have hd := hb (· = .denied)
      simp only [sealed] at hc hr ha hd
      cases approve with
      | true =>
          simp [sideVote] at hc hr ha hd
          refine ⟨?_, ?_, ?_, ?_, ?_⟩
          · simpa [revealedOnce, sideVote, hc] using hcommitted
          · simpa [revealedOnce, sideVote, hr] using hrevealed
          · simp only [revealedOnce] at hsum ⊢; simp; omega
          · simpa [revealedOnce, sideVote, ha] using happroved
          · simpa [revealedOnce, sideVote, hd] using hdenied
      | false =>
          simp [sideVote] at hc hr ha hd
          refine ⟨?_, ?_, ?_, ?_, ?_⟩
          · simpa [revealedOnce, sideVote, hc] using hcommitted
          · simpa [revealedOnce, sideVote, hr] using hrevealed
          · simp only [revealedOnce] at hsum ⊢; simp; omega
          · simpa [revealedOnce, sideVote, ha] using happroved
          · simpa [revealedOnce, sideVote, hd] using hdenied
  | freeze => exact h.same rfl rfl rfl rfl fun _ => rfl
  | expire => exact h.same rfl rfl rfl rfl fun _ => rfl
  | settle => exact h.same rfl rfl rfl rfl fun _ => rfl
  | rule => exact h.same rfl rfl rfl rfl fun _ => rfl
  | timeout => exact h.same rfl rfl rfl rfl fun _ => rfl
  | decline => exact h.same rfl rfl rfl rfl fun _ => rfl
  | @claim q c => exact h.same rfl rfl rfl rfl fun a => claimed_vote c env.sender a

theorem Vacant.turn (h : Vacant q) (hturn : Turn keccak256 env asked r q e q') :
    Vacant q' := by
  intro hnone
  cases hturn with
  | post => cases hnone
  | commit _ _ pending => rw [pending] at hnone; cases hnone
  | reveal _ _ _ _ pending =>
      have hstate : _ = SentinelOracleRequest.State.none := hnone
      rw [revealedOnce, pending] at hstate
      cases hstate
  | freeze => cases hnone
  | expire => cases hnone
  | settle side => exact absurd hnone (sideState_ne side).1
  | rule side => exact absurd hnone (sideState_ne side).1
  | timeout => cases hnone
  | decline => cases hnone
  | claim _ _ resolved => rw [hnone] at resolved; cases resolved

/-! ### What was announced -/

/-- The event tells that `a` committed. -/
def tellsCommit (a : Address) : Event → Bool
  | .committed _ sentinel _ => sentinel = a
  | _ => false

/-- The event tells that `a` revealed this vote. -/
def tellsReveal (a : Address) (approve : Bool) : Event → Bool
  | .revealed _ sentinel approved _ _ => sentinel = a && approved = approve
  | _ => false

/-- The event announces this result. -/
def tellsResult (approve : Bool) : Event → Bool
  | .oracleResult _ _ approved => approved = approve
  | _ => false

/-- The events about a request tell its votes, each once, and its undisputed result. -/
structure Told (told : List Event) (q : Record) : Prop where
  commits : ∀ a, told.countP (tellsCommit a) = if (q.commitments a).vote = .none then 0 else 1
  reveals : ∀ a approve, told.countP (tellsReveal a approve) =
    if (q.commitments a).vote = sideVote approve then 1 else 0
  results : ∀ approve, told.countP (tellsResult approve) = 0 ∨
    told.countP (tellsResult approve) = 1 ∧ told.countP (tellsResult !approve) = 0 ∧
      q.request.progress.state = sideState approve ∧
      0 < sideCount q.request.progress approve ∧ sideCount q.request.progress (!approve) = 0

/-- A turn that tells of no commitment, vote or result and keeps the votes. -/
private theorem Told.quiet (h : Told told q)
    (hcommit : ∀ a, tellsCommit a e = false) (hreveal : ∀ a side, tellsReveal a side e = false)
    (hresult : ∀ side, tellsResult side e = false)
    (hvotes : ∀ a, (q'.commitments a).vote = (q.commitments a).vote)
    (hstate : ∀ side, q.request.progress.state = sideState side →
      q'.request.progress = q.request.progress) : Told (told ++ [e]) q' := by
  refine ⟨fun a => ?_, fun a side => ?_, fun side => ?_⟩
  · rw [List.countP_append, List.countP_singleton, hcommit, hvotes]
    exact h.commits a
  · rw [List.countP_append, List.countP_singleton, hreveal, hvotes]
    exact h.reveals a side
  · rw [List.countP_append, List.countP_singleton, hresult, List.countP_append,
      List.countP_singleton, hresult]
    cases h.results side with
    | inl hzero => exact .inl hzero
    | inr hone =>
        obtain ⟨hcount, hother, hside, hwon, hunopposed⟩ := hone
        refine .inr ⟨hcount, hother, ?_⟩
        rw [hstate side hside]
        exact ⟨hside, hwon, hunopposed⟩

/-- Before it is decided a request has no result. -/
private theorem Told.undecided (h : Told told q)
    (hstate : ∀ side, q.request.progress.state ≠ sideState side) (side : Bool) :
    told.countP (tellsResult side) = 0 := by
  cases h.results side with
  | inl hzero => exact hzero
  | inr hone => exact absurd hone.2.2.1 (hstate side)

/-- A turn from a state that is no result, and which tells of none. -/
private theorem Told.open_results (h : Told told q)
    (hstate : ∀ side, q.request.progress.state ≠ sideState side)
    (hresult : ∀ side, tellsResult side e = false) (side : Bool) :
    (told ++ [e]).countP (tellsResult side) = 0 := by
  rw [List.countP_append, List.countP_singleton, hresult, h.undecided hstate]
  rfl

private theorem pending_ne {q : SentinelOracleRequest.T} (h : q.progress.state = .pending)
    (side : Bool) : q.progress.state ≠ sideState side := by
  rw [h]
  exact Ne.symm (sideState_ne side).2.1

private theorem frozen_ne {q : SentinelOracleRequest.T} (h : q.progress.state = .frozen)
    (side : Bool) : q.progress.state ≠ sideState side := by
  rw [h]
  exact Ne.symm (sideState_ne side).2.2.1

theorem sideVote_ne (side : Bool) : sideVote side ≠ .none ∧ sideVote side ≠ .pending := by
  cases side <;> decide

private theorem sideVote_inj {side side' : Bool} :
    sideVote side = sideVote side' ↔ side = side' := by
  cases side <;> cases side' <;> decide

private theorem Told.turn (h : Told told q) (hturn : Turn keccak256 env asked r q e q') :
    Told (told ++ [e]) q' := by
  cases hturn with
  | post _ _ _ _ _ _ _ absent =>
      refine h.quiet (fun _ => rfl) (fun _ _ => rfl) (fun _ => rfl) (fun _ => rfl)
        fun side hside => ?_
      exact absurd (hside.symm.trans absent) (sideState_ne side).1
  | @commit q c commitHash call pending window fresh =>
      refine ⟨fun a => ?_, fun a side => ?_, fun side => ?_⟩
      · have hcount := h.commits a
        rw [List.countP_append, List.countP_singleton, hcount]
        by_cases ha : a = env.sender
        · subst ha
          simp [fresh, tellsCommit]
        · simp [Function.update_of_ne ha, tellsCommit, Ne.symm ha]
      · have hcount := h.reveals a side
        rw [List.countP_append, List.countP_singleton, hcount]
        by_cases ha : a = env.sender
        · subst ha
          simp [fresh, tellsReveal, Ne.symm (sideVote_ne side).1, Ne.symm (sideVote_ne side).2]
        · simp [Function.update_of_ne ha, tellsReveal]
      · exact .inl (h.open_results (pending_ne pending) (fun _ => rfl) side)
  | @reveal q c approve salt reason call pending opened window sealed preimage =>
      refine ⟨fun a => ?_, fun a side => ?_, fun side => ?_⟩
      · have hcount := h.commits a
        rw [List.countP_append, List.countP_singleton, hcount]
        by_cases ha : a = env.sender
        · subst ha
          simp [sealed, tellsCommit, (sideVote_ne approve).1]
        · simp [Function.update_of_ne ha, tellsCommit]
      · have hcount := h.reveals a side
        rw [List.countP_append, List.countP_singleton, hcount]
        by_cases ha : a = env.sender
        · subst ha
          simp [sealed, tellsReveal, Ne.symm (sideVote_ne side).2, sideVote_inj]
        · simp [Function.update_of_ne ha, tellsReveal, Ne.symm ha]
      · exact .inl (h.open_results (pending_ne pending) (fun _ => rfl) side)
  | freeze _ pending =>
      refine h.quiet (fun _ => rfl) (fun _ _ => rfl) (fun _ => rfl) (fun _ => rfl)
        fun side hside => ?_
      exact absurd hside (pending_ne pending side)
  | expire pending =>
      refine h.quiet (fun _ => rfl) (fun _ _ => rfl) (fun _ => rfl) (fun _ => rfl)
        fun side hside => ?_
      exact absurd hside (pending_ne pending side)
  | @settle q c side fee pending due won unopposed =>
      refine ⟨fun a => ?_, fun a side => ?_, fun approve => ?_⟩
      · rw [List.countP_append]
        exact h.commits a
      · rw [List.countP_append]
        exact h.reveals a side
      · -- the only turn that announces a result
        rw [List.countP_append, List.countP_append, h.undecided (pending_ne pending),
          h.undecided (pending_ne pending), List.countP_singleton, List.countP_singleton]
        by_cases hside : side = approve
        · subst hside
          exact .inr ⟨by simp [tellsResult], by simp [tellsResult], rfl, won, unopposed⟩
        · exact .inl (by simp [tellsResult, hside])
  | rule _ _ _ _ frozen =>
      refine h.quiet (fun _ => rfl) (fun _ _ => rfl) (fun _ => rfl) (fun _ => rfl)
        fun side hside => ?_
      exact absurd hside (frozen_ne frozen side)
  | timeout frozen =>
      refine h.quiet (fun _ => rfl) (fun _ _ => rfl) (fun _ => rfl) (fun _ => rfl)
        fun side hside => ?_
      exact absurd hside (frozen_ne frozen side)
  | decline _ frozen =>
      refine h.quiet (fun _ => rfl) (fun _ _ => rfl) (fun _ => rfl) (fun _ => rfl)
        fun side hside => ?_
      exact absurd hside (frozen_ne frozen side)
  | @claim q c =>
      exact h.quiet (fun _ => rfl) (fun _ _ => rfl) (fun _ => rfl)
        (fun a => claimed_vote c env.sender a) fun _ _ => rfl

/-! ### What one step may change -/

/-- The order of the states of a request. -/
inductive Moves : SentinelOracleRequest.State → SentinelOracleRequest.State → Prop
  | post : Moves .none .pending
  | freeze : Moves .pending .frozen
  | close {s s'} (before : s = .pending ∨ s = .frozen) (final : s'.resolved = true) : Moves s s'

/-- How the commitment of `a` to the request `r` changes. -/
inductive Recorded (keccak256 : Keccak) (env : Env) (asked : Call) (r : B256) (terms : Terms)
    (a : Address) (before after : Commitment) : Prop
  | same (vote : after.vote = before.vote) (hash : after.commitHash = before.commitHash)
  | committed (commitHash : B256) (call : asked = .commit r commitHash) (sender : env.sender = a)
      (window : env.number ≤ terms.commitDeadline) (fresh : before.vote = .none)
      (vote : after.vote = .pending) (hash : after.commitHash = commitHash)
  | revealed (approve : Bool) (salt : B256) (reason : Bytes)
      (call : asked = .reveal r approve salt reason) (sender : env.sender = a)
      (opened : terms.commitDeadline < env.number) (window : env.number ≤ terms.revealDeadline)
      (sealed : before.vote = .pending)
      (preimage : computeHash keccak256 a r approve salt reason = before.commitHash)
      (vote : after.vote = sideVote approve) (hash : after.commitHash = before.commitHash)

/-- What a call may change about a request. -/
structure Changed (keccak256 : Keccak) (env : Env) (asked : Call) (r : B256) (q q' : Record) :
    Prop where
  state : q'.request.progress.state = q.request.progress.state ∨
    Moves q.request.progress.state q'.request.progress.state
  terms : q.request.progress.state ≠ .none → q'.request.terms = q.request.terms
  recorded : ∀ a, Recorded keccak256 env asked r q.request.terms a (q.commitments a)
    (q'.commitments a)

/-- One commitment is written, the others stay. -/
private theorem recorded_update {terms : Terms} {c : SentinelOracleCommitmentMap.T}
    {commitment : Commitment}
    (h : Recorded keccak256 env asked r terms env.sender (c env.sender) commitment) (a : Address) :
    Recorded keccak256 env asked r terms a (c a) (Function.update c env.sender commitment a) := by
  by_cases ha : a = env.sender
  · subst ha
    rw [Function.update_self]
    exact h
  · rw [Function.update_of_ne ha]
    exact .same rfl rfl

private theorem resolved_sideState (side : Bool) : (sideState side).resolved = true := by
  cases side <;> rfl

private theorem Turn.changed (h : Turn keccak256 env asked r q e q') :
    Changed keccak256 env asked r q q' := by
  cases h with
  | post _ _ _ _ _ _ _ absent =>
      refine ⟨.inr ?_, fun hne => absurd absent hne, fun _ => .same rfl rfl⟩
      rw [absent]
      exact .post
  | commit commitHash call pending window fresh =>
      refine ⟨.inl rfl, fun _ => rfl, recorded_update ?_⟩
      exact .committed commitHash call rfl window fresh rfl rfl
  | reveal approve salt reason call pending opened window sealed preimage =>
      refine ⟨.inl rfl, fun _ => rfl, recorded_update ?_⟩
      exact .revealed approve salt reason call rfl opened window sealed preimage rfl rfl
  | freeze _ pending =>
      refine ⟨.inr ?_, fun _ => rfl, fun _ => .same rfl rfl⟩
      rw [pending]
      exact .freeze
  | expire pending =>
      exact ⟨.inr (.close (.inl pending) rfl), fun _ => rfl, fun _ => .same rfl rfl⟩
  | settle side _ pending =>
      exact ⟨.inr (.close (.inl pending) (resolved_sideState side)), fun _ => rfl,
        fun _ => .same rfl rfl⟩
  | rule side _ _ _ frozen =>
      exact ⟨.inr (.close (.inr frozen) (resolved_sideState side)), fun _ => rfl,
        fun _ => .same rfl rfl⟩
  | timeout frozen =>
      exact ⟨.inr (.close (.inr frozen) rfl), fun _ => rfl, fun _ => .same rfl rfl⟩
  | decline _ frozen =>
      exact ⟨.inr (.close (.inr frozen) rfl), fun _ => rfl, fun _ => .same rfl rfl⟩
  | claim =>
      exact ⟨.inl rfl, fun _ => rfl, recorded_update (.same rfl rfl)⟩

private theorem Turned.changed (h : Turned keccak256 env asked r q events q') :
    Changed keccak256 env asked r q q' := by
  cases h with
  | none => exact ⟨.inl rfl, fun _ => rfl, fun _ => .same rfl rfl⟩
  | one turn => exact turn.changed
  | revealFinalize turn quiet turn' kept =>
      have h₁ := turn.changed
      have h₂ := turn'.changed
      refine ⟨?_, fun hne => ?_, fun a => ?_⟩
      · rw [← quiet]
        exact h₂.state
      · rw [h₂.terms (by rw [quiet]; exact hne)]
        exact h₁.terms hne
      · rw [kept]
        exact h₁.recorded a

/-- What holds of a request after each step. -/
structure Lived (told : List Event) (q : Record) : Prop where
  tallied : Tallied q
  vacant : Vacant q
  told : Told told q

private theorem Lived.turned (h : Lived told q)
    (hturned : Turned keccak256 env asked r q events q') :
    Lived (told ++ events) q' := by
  cases hturned with
  | none =>
      rw [List.append_nil]
      exact h
  | one turn => exact ⟨h.tallied.turn h.vacant turn, h.vacant.turn turn, h.told.turn turn⟩
  | revealFinalize turn quiet turn' kept =>
      rw [List.append_cons]
      exact ⟨(h.tallied.turn h.vacant turn).turn (h.vacant.turn turn) turn',
        (h.vacant.turn turn).turn turn', (h.told.turn turn).turn turn'⟩

/-! ### Whole runs -/

/-- A step that is a call changes a request as it may; any other step leaves it alone. -/
def Advances (keccak256 : Keccak) (r : B256) (t : OracleStep deployment) : Prop :=
  match t.input with
  | .call env asked =>
      Changed keccak256 env asked r (t.pre.oracle.record r) (t.post.oracle.record r)
  | .token .. => t.post.oracle.record r = t.pre.oracle.record r

/-- The events about a request in a history. -/
def toldOf (r : B256) (history : List (OracleStep deployment)) : List Event :=
  history.flatMap fun t => about r (eventsOf t)

private theorem step_turned (world : World) (input : Input deployment) (r : B256) :
    let t := Trace.take (step keccak256 deployment) world input
    Advances keccak256 r t ∧ ∀ told, Lived told (world.oracle.record r) →
      Lived (told ++ about r (eventsOf t)) (t.post.oracle.record r) := by
  intro t
  cases input with
  | call env asked =>
      cases hcall : call keccak256 deployment env world asked with
      | error e =>
          have hpost : t.post = world := by
            simp [t, step, hcall, transact]
          have hevents : eventsOf t = [] := by
            simp [t, eventsOf, step, hcall, transact]
          have hturned : Turned keccak256 env asked r (world.oracle.record r)
              (about r (eventsOf t)) (t.post.oracle.record r) := by
            rw [hpost, hevents]
            exact .none
          exact ⟨hturned.changed, fun told h => h.turned hturned⟩
      | ok out =>
          obtain ⟨world', events⟩ := out
          have hpost : t.post = world' := by
            simp [t, step, hcall, transact]
          have hevents : eventsOf t = events := by
            simp [t, eventsOf, step, hcall, transact]
          have hturned : Turned keccak256 env asked r (world.oracle.record r)
              (about r (eventsOf t)) (t.post.oracle.record r) := by
            rw [hpost, hevents]
            exact call_turned hcall r
          exact ⟨hturned.changed, fun told h => h.turned hturned⟩
  | token sender c =>
      have hquiet : t.post.oracle = world.oracle ∧ eventsOf t = [] := by
        cases htoken : ERC20.call world.token sender c with
        | error e => simp [t, eventsOf, step, htoken, transact, Except.map]
        | ok token => simp [t, eventsOf, step, htoken, transact, Except.map]
      refine ⟨?_, fun told h => ?_⟩
      · show t.post.oracle.record r = world.oracle.record r
        rw [hquiet.1]
      · rw [hquiet.1, hquiet.2]
        simpa [about] using h

/-- Nothing is stored for a request at deployment. -/
theorem deploy_record {this : Address} {params : ConstructorParams} {s : State}
    (hdeploy : deploy this params = .ok (deployment, s)) (r : B256) :
    s.record r = ⟨SentinelOracleRequest.empty, fun _ => SentinelOracleCommitment.empty⟩ := by
  unfold deploy at hdeploy
  obtain ⟨_, -, hdeploy⟩ := Fallible.bind_eq_ok.mp hdeploy
  obtain ⟨_, -, hdeploy⟩ := Fallible.bind_eq_ok.mp hdeploy
  obtain ⟨_, -, hdeploy⟩ := Fallible.bind_eq_ok.mp hdeploy
  obtain ⟨_, -, hdeploy⟩ := Fallible.bind_eq_ok.mp hdeploy
  obtain ⟨_, -, hdeploy⟩ := Fallible.bind_eq_ok.mp hdeploy
  obtain ⟨_, -, hdeploy⟩ := Fallible.bind_eq_ok.mp hdeploy
  obtain ⟨_, -, hdeploy⟩ := Fallible.bind_eq_ok.mp hdeploy
  obtain ⟨_, -, hdeploy⟩ := Fallible.bind_eq_ok.mp hdeploy
  obtain ⟨_, -, hdeploy⟩ := Fallible.bind_eq_ok.mp hdeploy
  obtain ⟨_, -, hdeploy⟩ := Fallible.bind_eq_ok.mp hdeploy
  obtain ⟨_, -, hdeploy⟩ := Fallible.bind_eq_ok.mp hdeploy
  cases Fallible.pure_eq_ok.mp hdeploy
  rfl

private theorem lived_empty :
    Lived [] ⟨SentinelOracleRequest.empty, fun _ => SentinelOracleCommitment.empty⟩ := by
  refine ⟨tallied_none (fun _ => rfl) ⟨rfl, rfl, rfl, rfl⟩, fun _ _ => rfl,
    ⟨fun _ => rfl, fun _ side => ?_, fun _ => .inl rfl⟩⟩
  exact (if_neg (Ne.symm (sideVote_ne side).1)).symm

/-- A vote counted for a side is the vote of somebody. -/
private theorem Tallied.side (h : Tallied q) (side : Bool) :
    0 < sideCount q.request.progress side ↔ ∃ a, (q.commitments a).vote = sideVote side := by
  cases side with
  | true =>
      rw [sideCount, if_pos rfl, h.approved, ballots_pos]
      simp [sideVote]
  | false =>
      rw [sideCount, if_neg (by simp), h.denied, ballots_pos]
      simp [sideVote]

/-- A result that was announced was undisputed. -/
private theorem Lived.result (h : Lived told q) {sponsor : Address} {approved : Bool}
    (hmem : .oracleResult r sponsor approved ∈ told) :
    (∃ a, (q.commitments a).vote = sideVote approved) ∧
      ∀ a, (q.commitments a).vote ≠ sideVote !approved := by
  have hpos : 0 < told.countP (tellsResult approved) :=
    List.countP_pos_iff.mpr ⟨_, hmem, by simp [tellsResult]⟩
  cases h.told.results approved with
  | inl hzero => omega
  | inr hone =>
      obtain ⟨-, -, -, hwon, hunopposed⟩ := hone
      refine ⟨(h.tallied.side approved).mp hwon, fun a ha => ?_⟩
      have hcount := (h.tallied.side !approved).mpr ⟨a, ha⟩
      omega

private theorem Lived.result_once (h : Lived told q) :
    told.countP (tellsResult true) + told.countP (tellsResult false) ≤ 1 := by
  cases h.told.results true with
  | inl hzero =>
      cases h.told.results false with
      | inl hzero' => omega
      | inr hone => omega
  | inr hone =>
      have hother : told.countP (tellsResult false) = 0 := hone.2.1
      omega

/-- In every run, at whatever blocks the calls are made, every step changes a request only as
`Changed` says: its state moves on, a commitment is added in the commit window and a vote
revealed in the reveal window by the preimage of its hash.  The counters count the stored
commitments and votes, each of which was announced exactly once, and a result is announced at
most once and only if all revealed votes agree with it. -/
theorem request_lifecycle (keccak256 : Keccak) {this : Address} {params : ConstructorParams}
    {s : State} (hdeploy : deploy this params = .ok (deployment, s)) (token : ERC20.T)
    (inputs : List (Input deployment)) (r : B256) :
    let history := Trace.trace (step keccak256 deployment) ⟨s, token⟩ inputs
    let q := (Trace.final (step keccak256 deployment) ⟨s, token⟩ inputs).oracle.record r
    let told := toldOf r history
    (∀ t ∈ history, Advances keccak256 r t) ∧ Tallied q ∧
      (∀ a, told.countP (tellsCommit a) = if (q.commitments a).vote = .none then 0 else 1) ∧
      (∀ a approve, told.countP (tellsReveal a approve) =
        if (q.commitments a).vote = sideVote approve then 1 else 0) ∧
      told.countP (tellsResult true) + told.countP (tellsResult false) ≤ 1 ∧
      (∀ sponsor approved, .oracleResult r sponsor approved ∈ told →
        (∃ a, (q.commitments a).vote = sideVote approved) ∧
          ∀ a, (q.commitments a).vote ≠ sideVote !approved) ∧
      ((∃ a, (q.commitments a).vote = .approved) → (∃ a, (q.commitments a).vote = .denied) →
        ∀ sponsor approved, .oracleResult r sponsor approved ∉ told) := by
  intro history q told
  have h : (∀ t ∈ history, Advances keccak256 r t) ∧ Lived told q := by
    refine Trace.history_invariant (E := fun _ => True)
      (I := fun (history : List (OracleStep deployment)) (world : World) =>
        (∀ t ∈ history, Advances keccak256 r t) ∧
          Lived (toldOf r history) (world.oracle.record r)) ?_ ?_ inputs fun _ _ => trivial
    · refine ⟨fun _ ht => (nomatch ht), ?_⟩
      rw [deploy_record hdeploy]
      exact lived_empty
    · intro history world input h _
      obtain ⟨hadvances, hlived⟩ := @step_turned keccak256 deployment world input r
      refine ⟨fun t ht => ?_, ?_⟩
      · cases List.mem_append.mp ht with
        | inl ht => exact h.1 t ht
        | inr ht =>
            rw [List.mem_singleton.mp ht]
            exact hadvances
      · rw [toldOf, List.flatMap_append, List.flatMap_singleton]
        exact hlived _ h.2
  obtain ⟨hadvances, hlived⟩ := h
  refine ⟨hadvances, hlived.tallied, hlived.told.commits, hlived.told.reveals, hlived.result_once,
    fun sponsor approved hmem => hlived.result hmem, ?_⟩
  rintro ⟨a, ha⟩ ⟨b, hb⟩ sponsor approved hmem
  have hresult := (hlived.result hmem).2
  cases approved with
  | true => exact hresult b hb
  | false => exact hresult a ha

/-! ### A disputed request -/

/-- An oracle without a governance delay, a fee of one token and bonds of one token. -/
def duelParams : ConstructorParams := ⟨1, 2, 3, 4, 5, 1, 1, 1, 0, 10, 10, 0, 10⟩

def duelDeployment : Deployment := ⟨9, 1, 2, 4, 10, 10, 0, 10⟩

def duelState : State := ((deploy 9 duelParams).toOption.get (by rfl)).2

def duelToken : ERC20.T where
  balances := fun _ => 10
  allowances := fun a _ => if a = 9 then 0 else 2 ^ 256 - 1

/-- Two sentinels commit to the request 7 and reveal opposite votes. -/
private def duelRun : List (Input duelDeployment) :=
  [.call ⟨2, 0, 1, 1⟩ (.addSentinel 21), .call ⟨2, 0, 1, 1⟩ (.addSentinel 22),
    .call ⟨4, 0, 2, 1⟩ (.postRequest 7 8), .call ⟨21, 0, 3, 1⟩ (.commit 7 1),
    .call ⟨22, 0, 4, 1⟩ (.commit 7 1), .call ⟨21, 0, 13, 1⟩ (.reveal 7 true 5 []),
    .call ⟨22, 0, 14, 1⟩ (.reveal 7 false 6 [])]

theorem duel_lifecycle :
    let history := Trace.trace (step (fun _ => 1) duelDeployment) ⟨duelState, duelToken⟩ duelRun
    let q := (Trace.final (step (fun _ => 1) duelDeployment) ⟨duelState, duelToken⟩
      duelRun).oracle.record 7
    q.request.progress.state = .frozen ∧ q.request.progress.committedCount = 2 ∧ Tallied q ∧
      ∀ sponsor approved, .oracleResult 7 sponsor approved ∉ toldOf 7 history := by
  intro history q
  have hdeploy : deploy 9 duelParams = .ok (duelDeployment, duelState) := rfl
  obtain ⟨-, htallied, -, -, -, -, hdisputed⟩ :=
    request_lifecycle (fun _ => 1) hdeploy duelToken duelRun 7
  refine ⟨by decide +kernel, by decide +kernel, htallied, hdisputed ⟨21, ?_⟩ ⟨22, ?_⟩⟩
  · decide +kernel
  · decide +kernel

end Safenet.Contracts.SentinelOracle
