/-
The forest of epochs the guard trusts.

A rollover is a rule with one premise: it leads from the pair of its parent to the pair it
proposes.  `updateEpoch` applies it (`known_step`), and what the guard knows after a run is what
the accepted rollovers derive from genesis (`Forest`).  What is known after many rounds of the
same submissions depends on the submissions only, not on their order.
-/
import Safenet.Lib.Chaining
import Safenet.Proofs.SafenetGuard

namespace Safenet.Contracts.SafenetGuard

open Fallible Chaining

variable {crypto : Crypto} {imm : Immutables} {domainSeparator : B256}

/-- A group key at an epoch. -/
abbrev EpochPair := Secp256k1.Point × BitVec 64

/-- A rollover as it is submitted. -/
structure Rollover where
  parentKey : Secp256k1.Point
  parentEpoch : BitVec 64
  proposedEpoch : BitVec 64
  rolloverBlock : BitVec 64
  newGroupKey : Secp256k1.Point
  signature : FROST.Signature
deriving DecidableEq, Repr

namespace Rollover

/-- The call that submits it. -/
def call (r : Rollover) : Call :=
  .updateEpoch r.parentKey r.parentEpoch r.proposedEpoch r.rolloverBlock r.newGroupKey r.signature

def parent (r : Rollover) : EpochPair := (r.parentKey, r.parentEpoch)

def child (r : Rollover) : EpochPair := (r.newGroupKey, r.proposedEpoch)

/-- What the rollover announces when it is recorded. -/
def event (r : Rollover) : Event :=
  .epochRolledOver r.parentEpoch r.proposedEpoch r.parentKey r.newGroupKey

/-- A step of a chain: the epoch grows, the key is a point of the curve other than zero, and the
parent key signed exactly these four values for the consensus domain. -/
structure Valid (crypto : Crypto) (domainSeparator : B256) (r : Rollover) : Prop where
  advances : r.parentEpoch < r.proposedEpoch
  nonzero : r.newGroupKey ≠ Secp256k1.zero
  onCurve : Secp256k1.satisfiesCurveEquation r.newGroupKey.x.toNat r.newGroupKey.y.toNat = true
  signed : crypto.verify r.parentKey r.signature
    (ConsensusMessages.epochRollover crypto.keccak256 domainSeparator r.parentEpoch r.proposedEpoch
      r.rolloverBlock r.newGroupKey) = true

theorem call_injective {r r' : Rollover} (h : r.call = r'.call) : r = r' := by
  cases r
  cases r'
  simpa [call] using h

end Rollover

/-- The pairs the guard knows. -/
def State.known (state : State) : Set EpochPair :=
  { pair | EpochRollover.isKnown state.epochs pair.1 pair.2 = true }

instance (state : State) (pair : EpochPair) : Decidable (pair ∈ state.known) :=
  inferInstanceAs (Decidable (EpochRollover.isKnown state.epochs pair.1 pair.2 = true))

/-- The state with a pair recorded. -/
def State.learn (state : State) (pair : EpochPair) : State :=
  { state with epochs := EpochRollover.record state.epochs pair.1 pair.2 }

theorem State.mem_known_learn (state : State) (pair pair' : EpochPair) :
    pair' ∈ (state.learn pair).known ↔ pair' = pair ∨ pair' ∈ state.known := by
  obtain ⟨key, epoch⟩ := pair
  obtain ⟨key', epoch'⟩ := pair'
  simp only [State.known, State.learn, EpochRollover.isKnown, EpochRollover.record,
    Set.mem_ofPred_eq, Prod.mk.injEq]
  by_cases hkey : key' = key
  · subst hkey
    by_cases hepoch : epoch' = epoch
    · subst hepoch
      simp
    · simp [hepoch]
  · simp [hkey]

/-! ### One submission -/

/-- Zero does not satisfy the curve equation. -/
private theorem ne_zero_of_onCurve {p : Secp256k1.Point}
    (h : Secp256k1.satisfiesCurveEquation p.x.toNat p.y.toNat = true) : p ≠ Secp256k1.zero := by
  rintro rfl
  exact absurd h (by decide +kernel)

/-- What an accepted submission leaves: the pair is recorded, unless it is known. -/
def State.rolledOver (state : State) (r : Rollover) : State × List Event :=
  if r.child ∈ state.known then (state, []) else (state.learn r.child, [r.event])

theorem mem_known_rolledOver {state : State} {r : Rollover} {pair : EpochPair} :
    pair ∈ (state.rolledOver r).1.known ↔ pair = r.child ∨ pair ∈ state.known := by
  unfold State.rolledOver
  by_cases hknown : r.child ∈ state.known
  · rw [if_pos hknown]
    constructor
    · exact .inr
    · rintro (rfl | h)
      · exact hknown
      · exact h
  · rw [if_neg hknown]
    exact State.mem_known_learn _ _ _

/-- **A submission is accepted only if the parent is known and the rollover is valid.** -/
theorem updateEpoch_ok {state : State} {env : Env} {r : Rollover} {result : State × List Event}
    (h : call crypto imm state env r.call = .ok result) :
    r.parent ∈ state.known ∧ r.Valid crypto imm.consensusDomainSeparator ∧
      result = state.rolledOver r := by
  obtain ⟨⟨epochs, events⟩, hroll, h⟩ := bind_eq_ok.mp h
  cases pure_eq_ok.mp h
  unfold EpochRollover.rollover at hroll
  obtain ⟨_, hparent, hroll⟩ := bind_eq_ok.mp hroll
  obtain ⟨_, hadvances, hroll⟩ := bind_eq_ok.mp hroll
  obtain ⟨_, hcurve, hroll⟩ := bind_eq_ok.mp hroll
  obtain ⟨_, hsigned, hroll⟩ := bind_eq_ok.mp hroll
  have hcurve := require_eq_ok.mp (mapError_eq_ok.mp hcurve)
  refine ⟨require_eq_ok.mp hparent, ⟨by simpa using require_eq_ok.mp hadvances,
    ne_zero_of_onCurve hcurve, hcurve, require_eq_ok.mp hsigned⟩, ?_⟩
  unfold State.rolledOver
  split at hroll
  · rename_i hknown
    have hmem : r.child ∈ state.known := hknown
    cases pure_eq_ok.mp hroll
    rw [if_pos hmem]
  · rename_i hknown
    have hmem : r.child ∉ state.known := hknown
    cases pure_eq_ok.mp hroll
    rw [if_neg hmem]
    rfl

/-- A valid rollover of a known parent is accepted. -/
theorem updateEpoch_accepts {state : State} {r : Rollover} (env : Env)
    (hparent : r.parent ∈ state.known) (hvalid : r.Valid crypto imm.consensusDomainSeparator) :
    call crypto imm state env r.call = .ok (state.rolledOver r) := by
  have hroll : EpochRollover.rollover crypto state.epochs imm.consensusDomainSeparator r.parentKey
      r.parentEpoch r.proposedEpoch r.rolloverBlock r.newGroupKey r.signature =
        .ok ((state.rolledOver r).1.epochs, (state.rolledOver r).2) := by
    have hcurve : Secp256k1.requireNonZero r.newGroupKey = .ok ⟨⟩ :=
      require_eq_ok.mpr hvalid.onCurve
    refine bind_eq_ok.mpr ⟨⟨⟩, require_eq_ok.mpr hparent, ?_⟩
    refine bind_eq_ok.mpr ⟨⟨⟩, require_eq_ok.mpr (decide_eq_true hvalid.advances), ?_⟩
    refine bind_eq_ok.mpr ⟨⟨⟩, mapError_eq_ok.mpr hcurve, ?_⟩
    refine bind_eq_ok.mpr ⟨⟨⟩, require_eq_ok.mpr hvalid.signed, ?_⟩
    unfold State.rolledOver
    by_cases hknown : r.child ∈ state.known
    · rw [if_pos hknown]
      exact if_pos hknown
    · rw [if_neg hknown]
      exact if_neg hknown
  have hstate :
      { state with epochs := (state.rolledOver r).1.epochs } = (state.rolledOver r).1 := by
    unfold State.rolledOver
    split
    · rfl
    · rfl
  calc call crypto imm state env r.call
      = .ok ({ state with epochs := (state.rolledOver r).1.epochs }, (state.rolledOver r).2) :=
        bind_eq_ok.mpr ⟨_, hroll, rfl⟩
    _ = .ok (state.rolledOver r) := by rw [hstate]

/-- **A repeated submission changes nothing.** -/
theorem updateEpoch_again {state : State} {r : Rollover} (env : Env)
    (hparent : r.parent ∈ state.known) (hvalid : r.Valid crypto imm.consensusDomainSeparator)
    (hchild : r.child ∈ state.known) : step crypto imm state (env, r.call) = (state, .ok []) := by
  have hcall := updateEpoch_accepts env hparent hvalid
  rw [State.rolledOver, if_pos hchild] at hcall
  rw [step, hcall]
  rfl

/-! ### One call -/

/-- The pair an event says is new. -/
def Event.child? : Event → Option EpochPair
  | .epochRolledOver _ epoch _ groupKey => some (groupKey, epoch)
  | _ => none

/-- **A call applies a valid rollover of a known parent, or leaves the forest alone.** -/
theorem call_forest {state state' : State} {env : Env} {c : Call} {events : List Event}
    (h : call crypto imm state env c = .ok (state', events)) :
    (∃ r : Rollover, c = r.call ∧ r.parent ∈ state.known ∧
      r.Valid crypto imm.consensusDomainSeparator ∧ (state', events) = state.rolledOver r) ∨
    (∀ r : Rollover, c ≠ r.call) ∧ state'.known = state.known ∧
      events.filterMap Event.child? = [] := by
  cases call_ok h with
  | @epoch parentKey newGroupKey parentEpoch proposedEpoch rolloverBlock signature _ _ _ =>
      let r : Rollover :=
        ⟨parentKey, parentEpoch, proposedEpoch, rolloverBlock, newGroupKey, signature⟩
      obtain ⟨hparent, hvalid, hresult⟩ := updateEpoch_ok (r := r) h
      exact .inl ⟨r, rfl, hparent, hvalid, hresult⟩
  | announced => exact .inr ⟨fun _ => (nomatch ·), rfl, rfl⟩
  | cancelled => exact .inr ⟨fun _ => (nomatch ·), rfl, rfl⟩
  | autoAllowed => exact .inr ⟨fun _ => (nomatch ·), rfl, rfl⟩
  | attested => exact .inr ⟨fun _ => (nomatch ·), rfl, rfl⟩
  | consumed => exact .inr ⟨fun _ => (nomatch ·), rfl, rfl⟩

/-! ### Runs -/

/-- The events of a step. -/
def emitted (st : GuardStep) : List Event :=
  match st.out with
  | .ok events => events
  | .error _ => []

/-- The rollovers that were accepted. -/
def accepted (history : List GuardStep) : Set Rollover :=
  { r | ∃ st ∈ history, st.input.2 = r.call ∧ ∃ events, st.out = .ok events }

/-- How often `EpochRolledOver` was emitted for a pair. -/
def timesRolledOver (history : List GuardStep) (pair : EpochPair) : Nat :=
  ((history.flatMap emitted).filterMap Event.child?).count pair

theorem timesRolledOver_concat (history : List GuardStep) (st : GuardStep) (pair : EpochPair) :
    timesRolledOver (history ++ [st]) pair =
      timesRolledOver history pair + ((emitted st).filterMap Event.child?).count pair := by
  simp [timesRolledOver]

/-- A step that is no accepted rollover accepts nothing. -/
theorem accepted_concat_of_not {history : List GuardStep} {st : GuardStep}
    (h : ∀ r : Rollover, st.input.2 = r.call → ∀ events, st.out ≠ .ok events) :
    accepted (history ++ [st]) = accepted history := by
  ext r
  constructor
  · rintro ⟨st', hst', hinput, events, hout⟩
    cases List.mem_append.mp hst' with
    | inl hst' => exact ⟨st', hst', hinput, events, hout⟩
    | inr hst' =>
        rw [List.mem_singleton.mp hst'] at hinput hout
        exact absurd hout (h r hinput events)
  · rintro ⟨st', hst', hrest⟩
    exact ⟨st', List.mem_append_left _ hst', hrest⟩

theorem accepted_concat {history : List GuardStep} {st : GuardStep} {r : Rollover}
    {events : List Event} (hinput : st.input.2 = r.call) (hout : st.out = .ok events) :
    accepted (history ++ [st]) = insert r (accepted history) := by
  ext r'
  constructor
  · rintro ⟨st', hst', hinput', events', hout'⟩
    cases List.mem_append.mp hst' with
    | inl hst' => exact .inr ⟨st', hst', hinput', events', hout'⟩
    | inr hst' =>
        rw [List.mem_singleton.mp hst'] at hinput'
        exact .inl (Rollover.call_injective (hinput'.symm.trans hinput))
  · rintro (rfl | ⟨st', hst', hrest⟩)
    · exact ⟨st, List.mem_append_right _ (List.mem_singleton.mpr rfl), hinput, events, hout⟩
    · exact ⟨st', List.mem_append_left _ hst', hrest⟩

/-- What the guard knows is what the accepted rollovers derive. -/
structure Forest (crypto : Crypto) (domainSeparator : B256) (root : EpochPair)
    (history : List GuardStep) (state : State) : Prop where
  known : ∀ pair, pair ∈ state.known ↔
    Derives Rollover.parent Rollover.child (accepted history) root pair
  accepted : ∀ r ∈ accepted history, r.parent ∈ state.known ∧ r.Valid crypto domainSeparator
  announced : ∀ pair, timesRolledOver history pair =
    if pair ∈ state.known ∧ pair ≠ root then 1 else 0

/-- A step that changes nothing about the forest. -/
theorem Forest.idle {root : EpochPair} {history : List GuardStep} (st : GuardStep)
    (h : Forest crypto domainSeparator root history st.pre)
    (haccepted : SafenetGuard.accepted (history ++ [st]) = SafenetGuard.accepted history)
    (hknown : st.post.known = st.pre.known)
    (hevents : (emitted st).filterMap Event.child? = []) :
    Forest crypto domainSeparator root (history ++ [st]) st.post where
  known pair := by
    rw [haccepted, hknown]
    exact h.known pair
  accepted r hr := by
    rw [haccepted] at hr
    rw [hknown]
    exact h.accepted r hr
  announced pair := by
    rw [timesRolledOver_concat, hevents, h.announced pair]
    simp only [hknown, List.count_nil, Nat.add_zero]

/-- An accepted rollover. -/
theorem Forest.rollover {root : EpochPair} {history : List GuardStep} (st : GuardStep)
    {r : Rollover} (h : Forest crypto domainSeparator root history st.pre)
    (hinput : st.input.2 = r.call) (hout : st.out = .ok (st.pre.rolledOver r).2)
    (hpost : st.post = (st.pre.rolledOver r).1) (hparent : r.parent ∈ st.pre.known)
    (hvalid : r.Valid crypto domainSeparator) :
    Forest crypto domainSeparator root (history ++ [st]) st.post where
  known pair := by
    have hpremises := fun r' hr' => (h.known _).mp (h.accepted r' hr').1
    rw [accepted_concat hinput hout, derives_insert hpremises ((h.known _).mp hparent), hpost,
      mem_known_rolledOver, h.known]
  accepted r' hr' := by
    rw [accepted_concat hinput hout] at hr'
    rw [hpost, mem_known_rolledOver]
    rcases hr' with rfl | hr'
    · exact ⟨.inr hparent, hvalid⟩
    · exact ⟨.inr (h.accepted r' hr').1, (h.accepted r' hr').2⟩
  announced pair := by
    have hroot : root ∈ st.pre.known := (h.known root).mpr .root
    rw [timesRolledOver_concat, h.announced pair]
    simp only [emitted, hout, hpost, mem_known_rolledOver]
    unfold State.rolledOver
    by_cases hknown : r.child ∈ st.pre.known
    · rw [if_pos hknown]
      have hsame : (pair = r.child ∨ pair ∈ st.pre.known) ↔ pair ∈ st.pre.known :=
        ⟨fun hpair => hpair.elim (fun heq => heq ▸ hknown) id, .inr⟩
      simp only [hsame, List.filterMap_nil, List.count_nil, Nat.add_zero]
    · rw [if_neg hknown]
      have hchild : [r.event].filterMap Event.child? = [r.child] := rfl
      rw [hchild]
      by_cases hpair : pair = r.child
      · -- the pair is new, and it is not the root because the root is known
        subst hpair
        have hne : r.child ≠ root := fun heq => hknown (heq ▸ hroot)
        simp [hknown, hne]
      · have hne : r.child ≠ pair := fun heq => hpair heq.symm
        simp [hpair, hne]

/-- **Every call keeps the forest.** -/
theorem forest_step {root : EpochPair} {history : List GuardStep} {state : State}
    (h : Forest crypto imm.consensusDomainSeparator root history state) (input : Env × Call) :
    Forest crypto imm.consensusDomainSeparator root
      (history ++ [Trace.take (step crypto imm) state input]) (step crypto imm state input).1 := by
  obtain ⟨env, c⟩ := input
  have hstep : step crypto imm state (env, c) = transact state (call crypto imm state env c) := rfl
  cases hcall : call crypto imm state env c with
  | error e =>
      rw [hcall] at hstep
      refine Forest.idle (Trace.take (step crypto imm) state (env, c)) h
        (accepted_concat_of_not fun r _ events => ?_) ?_ ?_
      · rw [Trace.take_out, hstep]
        exact nofun
      · rw [Trace.take_post, hstep]
        rfl
      · rw [emitted, Trace.take_out, hstep]
        rfl
  | ok result =>
      obtain ⟨state', events⟩ := result
      rw [hcall] at hstep
      rcases call_forest hcall with ⟨r, rfl, hparent, hvalid, hresult⟩ | ⟨hother, hknown, hevents⟩
      · refine Forest.rollover (Trace.take (step crypto imm) state (env, r.call)) h rfl ?_ ?_
          hparent hvalid
        · rw [Trace.take_out, hstep, Trace.take_pre, ← hresult]
          rfl
        · rw [Trace.take_post, hstep, Trace.take_pre, ← hresult]
          rfl
      · refine Forest.idle (Trace.take (step crypto imm) state (env, c)) h
          (accepted_concat_of_not fun r hr => absurd hr (hother r)) ?_ ?_
        · rw [Trace.take_post, hstep]
          exact hknown
        · rw [emitted, Trace.take_out, hstep]
          exact hevents

/-- A deployed guard knows its genesis pair and nothing else. -/
theorem deploy_known {args : Deployment} {genesis : State}
    (h : deploy crypto args = .ok (imm, genesis)) :
    imm.consensusDomainSeparator =
        ConsensusMessages.domain crypto.keccak256 args.consensusChainId args.consensusAddress ∧
      genesis.known = {(args.initialGroupKey, args.initialEpoch)} := by
  unfold deploy at h
  obtain ⟨_, -, h⟩ := bind_eq_ok.mp h
  obtain ⟨_, -, h⟩ := bind_eq_ok.mp h
  obtain ⟨epochs, hepochs, h⟩ := bind_eq_ok.mp h
  obtain ⟨_, -, hepochs⟩ := bind_eq_ok.mp hepochs
  cases pure_eq_ok.mp hepochs
  cases pure_eq_ok.mp h
  refine ⟨rfl, Set.ext fun pair => ?_⟩
  -- the genesis state has learnt the pair with nothing known before
  refine (State.mem_known_learn ⟨fun _ _ => false, fun _ _ => TransactionAnnouncement.noWindow⟩
    (args.initialGroupKey, args.initialEpoch) pair).trans ?_
  simp [State.known, EpochRollover.isKnown]

theorem forest_deploy {args : Deployment} {genesis : State}
    (h : deploy crypto args = .ok (imm, genesis)) :
    Forest crypto imm.consensusDomainSeparator (args.initialGroupKey, args.initialEpoch) []
      genesis := by
  have haccepted : ∀ r : Rollover, r ∉ accepted [] := by
    rintro r ⟨st, hst, -⟩
    cases hst
  refine ⟨fun pair => ?_, fun r hr => absurd hr (haccepted r), fun pair => ?_⟩
  · rw [(deploy_known h).2]
    constructor
    · rintro rfl
      exact .root
    · intro hpair
      cases hpair with
      | root => rfl
      | rule _ mem => exact absurd mem (haccepted _)
  · have hnew : ¬ (pair ∈ genesis.known ∧ pair ≠ (args.initialGroupKey, args.initialEpoch)) := by
      rw [(deploy_known h).2]
      exact fun hpair => hpair.2 hpair.1
    rw [if_neg hnew]
    rfl

theorem forest_run {args : Deployment} {genesis : State}
    (h : deploy crypto args = .ok (imm, genesis)) (calls : List (Env × Call)) :
    Forest crypto imm.consensusDomainSeparator (args.initialGroupKey, args.initialEpoch)
      (Trace.trace (step crypto imm) genesis calls) (Trace.final (step crypto imm) genesis calls) :=
  Trace.history_invariant (E := fun _ => True) (forest_deploy h)
    (fun _ _ input hforest _ => forest_step hforest input) calls fun _ _ => trivial

/-- No call forgets a pair. -/
theorem known_subset_step (state : State) (input : Env × Call) :
    state.known ⊆ (step crypto imm state input).1.known := by
  obtain ⟨env, c⟩ := input
  intro pair hpair
  cases hcall : call crypto imm state env c with
  | error e =>
      simp only [step, hcall, transact]
      exact hpair
  | ok result =>
      obtain ⟨state', events⟩ := result
      simp only [step, hcall, transact]
      rcases call_forest hcall with ⟨r, -, -, -, hresult⟩ | ⟨-, hknown, -⟩
      · have hstate : state' = (state.rolledOver r).1 := congrArg Prod.fst hresult
        rw [hstate, mem_known_rolledOver]
        exact .inr hpair
      · rw [hknown]
        exact hpair

/-! ### The order of submissions -/

/-- A submission of the rollover by some account. -/
def submit (submission : Env × Rollover) : Env × Call := (submission.1, submission.2.call)

/-- **A submission applies the rollover as a rule if it is valid, and does nothing else.** -/
theorem known_submit (state : State) (submission : Env × Rollover) [Decidable
    (submission.2.Valid crypto imm.consensusDomainSeparator)] :
    (step crypto imm state (submit submission)).1.known =
      if submission.2.Valid crypto imm.consensusDomainSeparator then
        fire Rollover.parent Rollover.child state.known submission.2
      else state.known := by
  obtain ⟨env, r⟩ := submission
  simp only [submit, step]
  cases hcall : call crypto imm state env r.call with
  | error e =>
      simp only [transact]
      split
      · rename_i hvalid
        refine Set.ext fun pair => ⟨.inl, fun hpair => ?_⟩
        rcases hpair with hpair | ⟨hparent, -⟩
        · exact hpair
        · -- the parent would have been known
          rw [updateEpoch_accepts env hparent hvalid] at hcall
          cases hcall
      · rfl
  | ok result =>
      obtain ⟨hparent, hvalid, rfl⟩ := updateEpoch_ok hcall
      rw [if_pos hvalid]
      refine Set.ext fun pair => ?_
      simp only [transact, mem_known_rolledOver, fire, Set.mem_ofPred_eq, hparent, true_and]
      exact Or.comm

open Classical in
theorem known_submissions (submissions : List (Env × Rollover)) : ∀ state : State,
    (Trace.final (step crypto imm) state (submissions.map submit)).known =
      fired Rollover.parent Rollover.child state.known
        ((submissions.map Prod.snd).filter (·.Valid crypto imm.consensusDomainSeparator)) := by
  induction submissions with
  | nil => intro state; rfl
  | cons submission rest ih =>
      intro state
      rw [List.map_cons, Trace.final_cons, ih, known_submit, List.map_cons, List.filter_cons]
      by_cases hvalid : submission.2.Valid crypto imm.consensusDomainSeparator
      · simp only [hvalid, decide_true, if_true, fired, List.foldl_cons]
      · simp only [hvalid, decide_false, if_false, Bool.false_eq_true]

/-- **Enough rounds of the same submissions end in what the valid ones derive.** -/
theorem known_rounds {root : EpochPair} {state : State} (hstate : state.known = {root})
    (submissions : Finset Rollover) (rounds : List (List (Env × Rollover)))
    (hlength : submissions.card ≤ rounds.length)
    (hrounds : ∀ round ∈ rounds, ∀ r, r ∈ round.map Prod.snd ↔ r ∈ submissions) :
    (Trace.final (step crypto imm) state (rounds.flatten.map submit)).known =
      { pair | Derives Rollover.parent Rollover.child
        { r | r ∈ submissions ∧ r.Valid crypto imm.consensusDomainSeparator } root pair } := by
  classical
  let valid (r : Rollover) : Bool := r.Valid crypto imm.consensusDomainSeparator
  let filtered := rounds.map fun round => (round.map Prod.snd).filter valid
  have hflatten : (rounds.flatten.map Prod.snd).filter valid = filtered.flatten := by
    simp [filtered, List.map_flatten, List.filter_flatten, List.map_map, Function.comp_def]
  rw [known_submissions, hstate, hflatten]
  refine Set.ext fun pair => ⟨fun hpair => ?_, fun hpair => ?_⟩
  · refine derives_of_fired (fun r hr => ?_) (fun pair' hpair' => hpair' ▸ .root) pair hpair
    obtain ⟨round', hround', hr⟩ := List.mem_flatten.mp hr
    obtain ⟨round, hround, rfl⟩ := List.mem_map.mp hround'
    obtain ⟨hr, hvalid⟩ := List.mem_filter.mp hr
    exact ⟨(hrounds round hround r).mp hr, of_decide_eq_true hvalid⟩
  · have hrank : ∀ r ∈ { r | r ∈ submissions ∧ r.Valid crypto imm.consensusDomainSeparator },
        r.parent.2.toNat < r.child.2.toNat := fun r hr => hr.2.advances
    have hcard : (submissions.filter fun r => valid r = true).card ≤ filtered.length := by
      rw [List.length_map]
      exact (Finset.card_filter_le _ _).trans hlength
    refine fired_rounds (fun pair => pair.2.toNat) (submissions.filter fun r => valid r = true)
      (fun r hr => ?_) hrank hcard (fun round' hround' r hr => ?_) hpair
    · exact Finset.mem_coe.mpr (Finset.mem_filter.mpr ⟨hr.1, decide_eq_true hr.2⟩)
    · obtain ⟨hr, hvalid⟩ := Finset.mem_filter.mp hr
      obtain ⟨round, hround, rfl⟩ := List.mem_map.mp hround'
      exact List.mem_filter.mpr ⟨(hrounds round hround r).mpr hr, hvalid⟩

/--
**The epoch forest of the guard.**  In every run from a deployment:

* a pair is known exactly if it is the genesis pair or the end of a chain of accepted rollovers
  from it, each of which has a larger epoch, a key on the curve other than zero, and a signature
  of the parent key over the rollover message for this guard's consensus domain;
* no call forgets a pair, and submitting an accepted rollover again, whoever does it, returns,
  changes nothing and emits nothing;
* `EpochRolledOver` was emitted once for each known pair but genesis, and for no other.

For every finite set of rollovers, any submissions by any callers in as many rounds as there are
rollovers, in any order within each round, end in the same known pairs: the genesis pair and the
ends of the chains of valid rollovers in the set.
-/
theorem epoch_forest (crypto : Crypto) (args : Deployment) (imm : Immutables) (genesis : State)
    (hdeploy : deploy crypto args = .ok (imm, genesis)) :
    let root : EpochPair := (args.initialGroupKey, args.initialEpoch)
    let domain :=
      ConsensusMessages.domain crypto.keccak256 args.consensusChainId args.consensusAddress
    (∀ calls : List (Env × Call),
      let history := Trace.trace (step crypto imm) genesis calls
      let state := Trace.final (step crypto imm) genesis calls
      (∀ pair, pair ∈ state.known ↔ Derives Rollover.parent Rollover.child
        { r | r ∈ accepted history ∧ r.Valid crypto domain } root pair) ∧
      (∀ st ∈ history, st.pre.known ⊆ st.post.known) ∧
      (∀ r ∈ accepted history, ∀ env, step crypto imm state (env, r.call) = (state, .ok [])) ∧
      ∀ pair, timesRolledOver history pair =
        if pair ∈ state.known ∧ pair ≠ root then 1 else 0) ∧
    ∀ (submissions : Finset Rollover) (rounds : List (List (Env × Rollover))),
      submissions.card ≤ rounds.length →
      (∀ round ∈ rounds, ∀ r, r ∈ round.map Prod.snd ↔ r ∈ submissions) →
      (Trace.final (step crypto imm) genesis (rounds.flatten.map submit)).known =
        { pair | Derives Rollover.parent Rollover.child
          { r | r ∈ submissions ∧ r.Valid crypto domain } root pair } := by
  intro root domain
  obtain ⟨hdomain, hgenesis⟩ := deploy_known hdeploy
  refine ⟨fun calls => ?_, fun submissions rounds hlength hrounds => ?_⟩
  · intro history state
    have hforest := forest_run hdeploy calls
    rw [hdomain] at hforest
    have hvalid : { r | r ∈ accepted history ∧ r.Valid crypto domain } = accepted history :=
      Set.ext fun r => ⟨And.left, fun hr => ⟨hr, (hforest.accepted r hr).2⟩⟩
    refine ⟨fun pair => ?_, fun st hst => ?_, fun r hr env => ?_, hforest.announced⟩
    · rw [hvalid]
      exact hforest.known pair
    · obtain ⟨before, after, hrun⟩ := List.append_of_mem hst
      obtain ⟨_, _, -, -, htake, -⟩ := Trace.trace_split _ calls hrun
      rw [htake]
      exact known_subset_step _ _
    · obtain ⟨hparent, hr'⟩ := hforest.accepted r hr
      have hchild : r.child ∈ state.known :=
        (hforest.known _).mpr (.rule ((hforest.known _).mp hparent) hr)
      rw [← hdomain] at hr'
      exact updateEpoch_again env hparent hr' hchild
  · have hdomain : imm.consensusDomainSeparator = domain := hdomain
    rw [← hdomain]
    exact known_rounds hgenesis submissions rounds hlength hrounds

/-! ### A rollover signed by the genesis key -/

/-- The hash function on what the run below hashes, by length: the domain, the rollover with its
type hash, and the typed data. -/
def handOverKeccak (bytes : Bytes) : B256 :=
  match bytes.length with
  | 96 => 0xe781d478da582db15eaf76ee9c151915ce4bc6efcbac705fbeabdc7e379e44b4#256
  | 192 => 0xfe7c9e556615e31b7cf0392b8b14c3dfca664d05d9be731f69b8e80391f342f7#256
  | 66 => 0xb1d89c90b7aa573d02124fadb75595ad1cebdde796a08824712d96a23f19234f#256
  | _ => 0

/-- A signature by the secret of the genesis key, the generator, over the typed data above. -/
def handOverSignature : FROST.Signature where
  r :=
    ⟨0x5cbdf0646e5db4eaa398f365f2ea7a0e3d419b7e0330e39ce92bddedcac4f9bc#256,
      0x6aebca40ba255960a3178d6d861a54dba813d0b813fde7b5a5082628087264da#256⟩
  z := 0xa938bfe9ea685469edc802ec625edf3a404052a92073e4c4423899a050f145c7#256

/-- Only this signature is checked, and it is valid. -/
def handOverCrypto : Crypto where
  keccak256 := handOverKeccak
  verify key signature message :=
    key = sampleDeployment.initialGroupKey && signature = handOverSignature &&
      message = 0xb1d89c90b7aa573d02124fadb75595ad1cebdde796a08824712d96a23f19234f#256

/-- Epoch 1 hands over to epoch 2, whose key is twice the generator. -/
def handOver : Rollover where
  parentKey := sampleDeployment.initialGroupKey
  parentEpoch := 1#64
  proposedEpoch := 2#64
  rolloverBlock := 5#64
  newGroupKey :=
    ⟨0xc6047f9441ed7d6d3045406e95c07cd85c778e4b8cef3ca7abac09b95c709ee5#256,
      0x1ae168fea63dc339a3c58419466ceaeef7f632653266d0e1236431a950cfe52a#256⟩
  signature := handOverSignature

private theorem handOver_deploy :
    deploy handOverCrypto sampleDeployment = .ok (sampleImmutables, sampleGenesis) := by
  have hkey : Secp256k1.requireNonZero sampleDeployment.initialGroupKey = .ok ⟨⟩ :=
    require_eq_ok.mpr (by decide +kernel)
  unfold deploy EpochRollover.initializeEpochs
  rw [hkey]
  rfl

private theorem handOver_valid : handOver.Valid handOverCrypto
    (ConsensusMessages.domain handOverKeccak 100#256 0xc0#160) where
  advances := by decide
  nonzero := by decide
  onCurve := by decide +kernel
  signed := by decide +kernel

/-- Anyone may submit it. -/
def handOverSubmission : Env × Rollover := (⟨0xa#160, 1000, 1, 1#256⟩, handOver)

/-- One submission of the rollover makes its pair known. -/
theorem handOver_known : handOver.child ∈
    (Trace.final (step handOverCrypto sampleImmutables) sampleGenesis
      ([[handOverSubmission]].flatten.map submit)).known := by
  have hforest :=
    epoch_forest handOverCrypto sampleDeployment sampleImmutables sampleGenesis handOver_deploy
  have hsubmitted : ∀ round ∈ [[handOverSubmission]], ∀ r,
      r ∈ round.map Prod.snd ↔ r ∈ ({handOver} : Finset Rollover) := by
    simp [handOverSubmission]
  rw [hforest.2 {handOver} [[handOverSubmission]] (by simp) hsubmitted]
  exact .rule .root ⟨Finset.mem_singleton_self _, handOver_valid⟩

end Safenet.Contracts.SafenetGuard
