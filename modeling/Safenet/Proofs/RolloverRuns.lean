/-
Rollovers over whole runs: the machine only goes forward, and every key generation ends.

The epoch that the machine works toward and the participants that are excluded from it are a
position (`position`) that no message lowers, if the events of key generation name members of their
groups.  A key generation that starts is a step that climbs, so an epoch has at most as many of
them as its participants can spare.
-/
import Mathlib.Data.Prod.Lex
import Mathlib.Order.WithBot
import Safenet.Lib.Ascent
import Safenet.Proofs.RolloverGroups

namespace Safenet.Validator

open RolloverState Trace

variable {t : Transition}

/-! ### One message -/

/-- The group of an event of key generation, and the participants it names. -/
def Event.named : Event → Option (B256 × Finset Address)
  | .keyGenCommitted gid participant _ => some (gid, {participant})
  | .keyGenSecretShared gid participant _ => some (gid, {participant})
  | .keyGenConfirmed gid participant => some (gid, {participant})
  | .keyGenComplained gid plaintiff accused => some (gid, {plaintiff, accused})
  | .keyGenComplaintResponded gid plaintiff accused _ => some (gid, {plaintiff, accused})
  | _ => none

/-- Events of key generation only name members of the group they belong to. -/
def NamesMembers (s : State) : Message → Prop
  | .event log => ∀ gid named epoch group, log.data.named = some (gid, named) →
      s.rollover.underway = some (epoch, group) → group.id = gid → named ⊆ group.participants
  | _ => True

/-- The block of a message; a result has none. -/
def blockOf : Message → Option Nat
  | .newBlock block => some block
  | .event log => some log.block.number
  | .resume _ => none

/-- An event makes at most one advance. -/
theorem advance_onEvent {s : State} {log : Core.EventLog Event} (hsound : Sound t s.rollover)
    (hnamed : NamesMembers s (.event log)) :
    Advance t log.block.number s.rollover
      (t.onEvent s log.block.number log.address log.data).1.rollover := by
  have hmember : ∀ gid named participant, log.data.named = some (gid, named) → participant ∈ named →
      ∀ epoch group, s.rollover.underway = some (epoch, group) → group.id = gid →
        participant ∈ group.participants :=
    fun gid named participant hdata hin epoch group hunderway hid =>
      hnamed gid named epoch group hdata hunderway hid hin
  have hsession : log.data.ofSession = true → Advance t log.block.number s.rollover
      (t.onEvent s log.block.number log.address log.data).1.rollover := by
    intro h
    rw [(onEvent_ofSession h).1]
    exact .stay
  cases hdata : log.data with
  | keyGen gid => exact .genesisKeyGen gid
  | keyGenCommitted gid participant commitment =>
      exact .keyGenCommitted hsound
        (hmember gid _ participant (by rw [hdata]; rfl) (Finset.mem_singleton_self _))
  | keyGenSecretShared gid participant share =>
      exact .keyGenSecretShared hsound
        (hmember gid _ participant (by rw [hdata]; rfl) (Finset.mem_singleton_self _))
  | keyGenConfirmed gid participant =>
      exact .handleKeyGenConfirmed hsound
        (hmember gid _ participant (by rw [hdata]; rfl) (Finset.mem_singleton_self _))
  | keyGenComplained gid plaintiff accused =>
      exact .keyGenComplained hsound (hmember gid _ accused (by rw [hdata]; rfl)
        (Finset.mem_insert_of_mem (Finset.mem_singleton_self _)))
  | keyGenComplaintResponded gid plaintiff accused secretShare =>
      exact .keyGenComplaintResponded hsound
  | epochStaged proposedEpoch groupId signatureId => exact .handleEpochStaged
  | sign gid m sid => exact hdata ▸ hsession (by rw [hdata]; rfl)
  | signCommittedNonces sid participant nonces => exact hdata ▸ hsession (by rw [hdata]; rfl)
  | signShared sid root participant => exact hdata ▸ hsession (by rw [hdata]; rfl)
  | signCompleted sid => exact hdata ▸ hsession (by rw [hdata]; rfl)
  | transactionProposed oracle epoch oracleData tx =>
      exact hdata ▸ hsession (by rw [hdata]; rfl)
  | transactionAttested safeTxHash oracle epoch oracleDataHash signatureId =>
      exact hdata ▸ hsession (by rw [hdata]; rfl)
  | oracleResult m isApproved => exact hdata ▸ hsession (by rw [hdata]; rfl)
  | other => exact hdata ▸ hsession (by rw [hdata]; rfl)

theorem advance_onResume {s : State} {block : Nat} {result : Resume} (hsound : Sound t s.rollover) :
    Advance t block s.rollover (t.onResume s result).1.rollover := by
  cases result with
  | noop => exact .stay
  | setup groupId secrets => exact .keyGenSetup hsound
  | nonceCommitments sid nonces =>
      show Advance t block _ (Transition.handleNonceCommitments s sid nonces).1.rollover
      rw [Changes.handleNonceCommitments]
      exact .stay
  | nonces m nonces =>
      show Advance t block _ (t.handleNonces s m nonces).1.rollover
      rw [Changes.handleNonces]
      exact .stay

/-- **Every message makes two advances**: a new block moves the clock, then it times out. -/
theorem advance_applyTransition {s : State} {message : Message} (block : Nat)
    (hsound : Sound t s.rollover) (hnamed : NamesMembers s message)
    (hblock : ∀ b, blockOf message = some b → b = block) :
    ∃ r, Advance t block s.rollover r ∧
      Advance t block r (t.applyTransition s message).1.rollover := by
  cases message with
  | newBlock b =>
      cases hblock b rfl
      have hclock : Advance t block s.rollover (t.handleRolloverNewBlock s block).1.rollover :=
        .handleRolloverNewBlock
      refine ⟨_, hclock, ?_⟩
      show Advance t block _ (t.newBlock s block).1.rollover
      rw [newBlock_rollover]
      exact .keyGenTimeouts (hsound.advance hclock)
  | event log =>
      cases hblock _ rfl
      exact ⟨_, .stay, advance_onEvent hsound hnamed⟩
  | resume result => exact ⟨_, .stay, advance_onResume hsound⟩

theorem sound_default : Sound t State.default.rollover := sound_of_idle rfl trivial rfl

theorem Sound.applyTransition {s : State} {message : Message} (h : Sound t s.rollover)
    (hnamed : NamesMembers s message) : Sound t (t.applyTransition s message).1.rollover := by
  obtain ⟨r, hfirst, hsecond⟩ := advance_applyTransition ((blockOf message).getD 0) h hnamed
    fun b hb => by rw [hb]; rfl
  exact (h.advance hfirst).advance hsecond

/-! ### The position of the machine -/

/-- How far a ceremony is: nothing has begun, these participants are excluded, or it is over. -/
abbrev Stage := WithBot (WithTop (Finset Address))

/-- An epoch with the stage of its ceremony; nothing is further than a machine that halted. -/
abbrev Position := WithTop (EpochId ×ₗ Stage)

namespace Position

/-- The position of an epoch and a stage. -/
def of (epoch : EpochId) (stage : Stage) : Position := ((toLex (epoch, stage) : EpochId ×ₗ Stage) : Position)

variable {epoch epoch' : EpochId} {stage stage' : Stage}

theorem of_le_of : of epoch stage ≤ of epoch' stage' ↔ epoch < epoch' ∨ epoch = epoch' ∧ stage ≤ stage' :=
  WithTop.coe_le_coe.trans Prod.Lex.toLex_le_toLex

theorem of_lt_of : of epoch stage < of epoch' stage' ↔ epoch < epoch' ∨ epoch = epoch' ∧ stage < stage' :=
  WithTop.coe_lt_coe.trans Prod.Lex.toLex_lt_toLex

theorem of_lt_top : of epoch stage < ⊤ := WithTop.coe_lt_top _

end Position

/-- The stage of the epoch that the machine works toward. -/
def RolloverState.stage : RolloverState → Stage
  | .waitingForGenesis => ⊥
  | r => r.candidate.elim ⊤ fun candidate => ((candidate.2.excluded : WithTop (Finset Address)) : Stage)

def RolloverState.position (r : RolloverState) : Position :=
  r.nextEpoch.elim ⊤ fun epoch => .of epoch r.stage

section Positions

variable {r : RolloverState} {epoch : EpochId} {group : Group}

theorem position_of_nextEpoch (h : r.nextEpoch = some epoch) :
    r.position = .of epoch r.stage := by
  unfold RolloverState.position
  rw [h]
  rfl

/-- The group of a candidate is the one of the epoch that the machine works toward. -/
theorem position_of_candidate (h : r.candidate = some (epoch, group)) :
    r.position = .of epoch ((group.excluded : WithTop (Finset Address)) : Stage) := by
  cases r with
  | waitingForGenesis => cases h
  | halted => cases h
  | epochStaged n => cases h
  | epochSkipped n => cases h
  | collectingCommitments round => cases h; rfl
  | collectingShares round => cases h; rfl
  | collectingConfirmations round => cases h; rfl
  | signingRollover rollover => cases h; rfl

/-- A candidate is not yet the end of its epoch. -/
theorem lt_top_stage (h : r.candidate = some (epoch, group)) : r.position < .of epoch ⊤ := by
  rw [position_of_candidate h]
  exact Position.of_lt_of.mpr (.inr ⟨rfl, WithBot.coe_lt_coe.mpr (WithTop.coe_lt_top _)⟩)

theorem position_startKeyGen {participants : ParticipantSet} {deadline : Option Nat} :
    (t.startKeyGen epoch participants deadline).1.position =
      .of epoch ((participants.excluded : WithTop (Finset Address)) : Stage) :=
  position_of_candidate (candidate_of_underway underway_startKeyGen)

end Positions

/-- An advance stays, climbs, or goes on with the ceremony where it is. -/
theorem Advance.position {block : Nat} {r r' : RolloverState} (hmove : Advance t block r r') :
    r' = r ∨ r.position < r'.position ∨
      r'.position = r.position ∧ ∀ epoch, ¬ Begun t epoch r' := by
  cases hmove with
  | stay => exact .inl rfl
  | genesis =>
      rw [position_startKeyGen]
      exact .inr (.inl (Position.of_lt_of.mpr (.inr ⟨rfl, WithBot.bot_lt_coe _⟩)))
  | recovered hr =>
      rcases hr with rfl | ⟨n, rfl⟩
      · exact .inr (.inl Position.of_lt_top)
      · exact .inr (.inl (Position.of_lt_of.mpr (.inl Advance.genesis_lt_number)))
  | collect h h' _ hbegun =>
      refine .inr (.inr ⟨?_, hbegun⟩)
      rw [position_of_candidate (candidate_of_underway h),
        position_of_candidate (candidate_of_underway h')]
  | restart h hset hexcluded =>
      rw [position_startKeyGen, position_of_candidate (candidate_of_underway h),
        (epochParticipants_eq_some hset).2.1]
      refine .inr (.inl (Position.of_lt_of.mpr (.inr ⟨rfl, ?_⟩)))
      exact WithBot.coe_lt_coe.mpr (WithTop.coe_lt_coe.mpr hexcluded.1)
  | @fail _ epoch group h =>
      have hlt := lt_top_stage (candidate_of_underway h)
      rcases rolloverFailure_cases epoch with ⟨heq, -⟩ | ⟨n, heq, rfl⟩
      · rw [heq]
        exact .inr (.inl (hlt.trans Position.of_lt_top))
      · rw [heq]
        exact .inr (.inl hlt)
  | @sign _ group rollover h hgroup =>
      refine .inr (.inr ⟨?_, ?_⟩)
      · rw [position_of_candidate (candidate_of_underway h), ← hgroup]
        exact position_of_candidate rfl
      · intro epoch hbegun
        obtain ⟨_, heq, -⟩ := begun_eq hbegun
        cases heq
  | @staged rollover =>
      exact .inr (.inl (lt_top_stage (r := .signingRollover rollover) rfl))
  | skip h hlt =>
      rw [position_of_nextEpoch h]
      exact .inr (.inl (Position.of_lt_of.mpr (.inl hlt)))
  | begin h hlt =>
      rw [position_of_nextEpoch h, position_startKeyGen]
      exact .inr (.inl (Position.of_lt_of.mpr (.inl hlt)))

theorem Advance.position_le {block : Nat} {r r' : RolloverState} (hmove : Advance t block r r') :
    r.position ≤ r'.position := by
  rcases hmove.position with rfl | hlt | ⟨heq, -⟩
  · exact le_rfl
  · exact hlt.le
  · exact heq.ge

/-- A key generation starts: the machine changes to a ceremony that has only just begun. -/
def StartsKeyGen (t : Transition) (epoch : EpochId) (x : Step State Message (List Command)) : Prop :=
  x.post.rollover ≠ x.pre.rollover ∧ Begun t epoch x.post.rollover

/-- **No message takes the machine back, and a key generation that starts takes it forward.** -/
theorem position_applyTransition {s : State} {message : Message} (hsound : Sound t s.rollover)
    (hnamed : NamesMembers s message) :
    s.rollover.position ≤ (t.applyTransition s message).1.rollover.position ∧
      ∀ epoch, StartsKeyGen t epoch (take t.applyTransition s message) →
        s.rollover.position < (t.applyTransition s message).1.rollover.position := by
  obtain ⟨r, hfirst, hsecond⟩ := advance_applyTransition ((blockOf message).getD 0) hsound
    hnamed fun b hb => by rw [hb]; rfl
  refine ⟨hfirst.position_le.trans hsecond.position_le, ?_⟩
  rintro epoch ⟨hne, hbegun⟩
  rcases hsecond.position with heq | hlt | ⟨-, hnot⟩
  · -- the second advance changes nothing, so it is the first one that starts the ceremony
    rw [heq]
    rcases hfirst.position with heq' | hlt | ⟨-, hnot⟩
    · exact absurd (heq.trans heq') hne
    · exact hlt
    · exact absurd (heq ▸ hbegun) (hnot epoch)
  · exact lt_of_le_of_lt hfirst.position_le hlt
  · exact absurd hbegun (hnot epoch)

/-! ### Every run -/

section Runs

variable {messages : List Message}

/-- The machine is sound before and after every step. -/
theorem sound_run
    (hnamed : ∀ x ∈ trace t.applyTransition State.default messages, NamesMembers x.pre x.input)
    {x : Step State Message (List Command)} (hx : x ∈ trace t.applyTransition State.default messages) :
    Sound t x.pre.rollover ∧ Sound t x.post.rollover := by
  obtain ⟨before, after, hrun⟩ := List.append_of_mem hx
  have hinv : Sound t x.pre.rollover ∧ x = take t.applyTransition x.pre x.input :=
    split_invariant (I := fun _ s => Sound t s.rollover) (E := fun x => NamesMembers x.pre x.input)
      sound_default (fun _ _ _ h hnamed => h.applyTransition hnamed) hnamed hrun
  refine ⟨hinv.1, ?_⟩
  rw [hinv.2]
  exact hinv.1.applyTransition (hnamed x hx)

theorem position_run
    (hnamed : ∀ x ∈ trace t.applyTransition State.default messages, NamesMembers x.pre x.input)
    {x : Step State Message (List Command)} (hx : x ∈ trace t.applyTransition State.default messages) :
    x.pre.rollover.position ≤ x.post.rollover.position ∧
      ∀ epoch, StartsKeyGen t epoch x → x.pre.rollover.position < x.post.rollover.position := by
  have heq := eq_take hx
  have hstep := position_applyTransition (sound_run hnamed hx).1 (hnamed x hx)
  rw [heq]
  exact hstep

theorem candidate_of_starts {epoch : EpochId} {x : Step State Message (List Command)}
    (h : StartsKeyGen t epoch x) : ∃ group, x.post.rollover.candidate = some (epoch, group) := by
  obtain ⟨-, participants, deadline, heq⟩ := h
  rw [heq]
  exact ⟨_, candidate_of_underway underway_startKeyGen⟩

/-- Of two groups of an epoch the later one is the same, or without some of the members. -/
theorem shrinks {r r' : RolloverState} {epoch : EpochId} {group group' : Group}
    (hsound : Sound t r) (hsound' : Sound t r') (hle : r.position ≤ r'.position)
    (h : r.candidate = some (epoch, group)) (h' : r'.candidate = some (epoch, group')) :
    group' = group ∨
      group.excluded ⊂ group'.excluded ∧ group'.participants ⊂ group.participants := by
  have hformed := hsound.formed _ _ h
  have hformed' := hsound'.formed _ _ h'
  rw [position_of_candidate h, position_of_candidate h', Position.of_le_of] at hle
  have hsub : group.excluded ⊆ group'.excluded := by
    rcases hle with hlt | ⟨-, hle⟩
    · exact absurd hlt (lt_irrefl _)
    · exact WithTop.coe_le_coe.mp (WithBot.coe_le_coe.mp hle)
  cases epoch with
  | genesis => exact .inl (hformed'.trans hformed.symm)
  | number n =>
      rcases hsub.eq_or_ssubset with heq | hlt
      · exact .inl (hformed'.eq_of_excluded hformed heq.symm)
      · exact .inr ⟨hlt, hformed.participants_ssubset hformed' hlt⟩

/-- How many participants the group of a state leaves out. -/
def excludedCount (x : Step State Message (List Command)) : Nat :=
  x.post.rollover.candidate.elim 0 fun candidate => candidate.2.excluded.card

theorem excludedCount_lt {epoch : EpochId} {x y : Step State Message (List Command)}
    (hx : StartsKeyGen t epoch x) (hy : StartsKeyGen t epoch y)
    (hlt : x.post.rollover.position < y.post.rollover.position) :
    excludedCount x < excludedCount y := by
  obtain ⟨group, hgroup⟩ := candidate_of_starts hx
  obtain ⟨group', hgroup'⟩ := candidate_of_starts hy
  rw [position_of_candidate hgroup, position_of_candidate hgroup', Position.of_lt_of] at hlt
  have hsub : group.excluded ⊂ group'.excluded := by
    rcases hlt with hlt | ⟨-, hlt⟩
    · exact absurd hlt (lt_irrefl _)
    · exact WithTop.coe_lt_coe.mp (WithBot.coe_lt_coe.mp hlt)
  unfold excludedCount
  rw [hgroup, hgroup']
  exact Finset.card_lt_card hsub

/-- The key generations that start for one epoch leave out more and more participants. -/
theorem starts_ascend {epoch : EpochId} {starts : List (Step State Message (List Command))}
    (hnamed : ∀ x ∈ trace t.applyTransition State.default messages, NamesMembers x.pre x.input)
    (hsub : starts.Sublist (trace t.applyTransition State.default messages))
    (hstarts : ∀ x ∈ starts, StartsKeyGen t epoch x) :
    (starts.map excludedCount).Pairwise (· < ·) := by
  have hclimbs := climbs (fun s : State => s.rollover.position)
    (fun x hx => (position_run hnamed hx).1) hsub
    fun x hx => (position_run hnamed (hsub.subset hx)).2 epoch (hstarts x hx)
  rw [List.pairwise_map]
  exact hclimbs.imp_of_mem fun hx hy hlt => excludedCount_lt (hstarts _ hx) (hstarts _ hy) hlt

/--
**An epoch has finitely many key generations, and every group of them is a quorum.**  Whatever the
peers do, as long as the events of key generation name members of their groups: every restart,
for whichever reason, leaves out more of the participants than the one before.
-/
theorem key_generations_are_bounded (t : Transition) (messages : List Message)
    (hnamed : ∀ x ∈ trace t.applyTransition State.default messages, NamesMembers x.pre x.input) :
    let run := trace t.applyTransition State.default messages
    (∀ x ∈ run, ∀ n group, x.post.rollover.candidate = some (.number n, group) →
        group.Quorate (t.activeParticipants n)) ∧
      (run.Pairwise fun x y => ∀ epoch group group',
        x.post.rollover.candidate = some (epoch, group) →
          y.post.rollover.candidate = some (epoch, group') → group' = group ∨
            group.excluded ⊂ group'.excluded ∧ group'.participants ⊂ group.participants) ∧
      (∀ (n : ℕ+) (starts : List (Step State Message (List Command))), starts.Sublist run →
        (∀ x ∈ starts, StartsKeyGen t (.number n) x) → starts.length ≤
          (t.activeParticipants n).card + 1 - minParticipants (t.activeParticipants n).card) ∧
      ∀ starts : List (Step State Message (List Command)), starts.Sublist run →
        (∀ x ∈ starts, StartsKeyGen t .genesis x) → starts.length ≤ 1 := by
  dsimp only
  refine ⟨?_, ?_, ?_, ?_⟩
  · intro x hx n group hgroup
    exact ((sound_run hnamed hx).2.formed _ _ hgroup).quorate
  · refine (pairwise_position (fun s : State => s.rollover.position) messages
      fun x hx => (position_run hnamed hx).1).imp_of_mem ?_
    intro x y hx hy hle epoch group group' hgroup hgroup'
    exact shrinks (sound_run hnamed hx).2 (sound_run hnamed hy).2
      (hle.trans (position_run hnamed hy).1) hgroup hgroup'
  · intro n starts hsub hstarts
    have hcard : ∀ x ∈ starts, excludedCount x + minParticipants (t.activeParticipants n).card ≤
        (t.activeParticipants n).card := by
      intro x hx
      obtain ⟨group, hgroup⟩ := candidate_of_starts (hstarts x hx)
      have hformed := (sound_run hnamed (hsub.subset hx)).2.formed _ _ hgroup
      unfold excludedCount
      rw [hgroup]
      exact hformed.card_excluded
    cases starts with
    | nil => exact Nat.zero_le _
    | cons x rest =>
        have hfirst := hcard x List.mem_cons_self
        have hcounts : ∀ count ∈ (x :: rest).map excludedCount, count ≤
            (t.activeParticipants n).card - minParticipants (t.activeParticipants n).card := by
          intro count hcount
          obtain ⟨y, hy, rfl⟩ := List.mem_map.mp hcount
          exact Nat.le_sub_of_add_le (hcard y hy)
        have hlength := List.length_le_of_ascending (starts_ascend hnamed hsub hstarts) hcounts
        rw [List.length_map] at hlength
        omega
  · intro starts hsub hstarts
    have hcount : ∀ x ∈ starts, excludedCount x =
        (t.genesis.group t.externals.keccak256).excluded.card := by
      intro x hx
      obtain ⟨group, hgroup⟩ := candidate_of_starts (hstarts x hx)
      have hformed := (sound_run hnamed (hsub.subset hx)).2.formed _ _ hgroup
      unfold excludedCount
      rw [hgroup, hformed]
      rfl
    have hascend := starts_ascend hnamed hsub hstarts
    rcases starts with _ | ⟨x, _ | ⟨y, rest⟩⟩
    · exact Nat.zero_le _
    · exact le_rfl
    · have hlt : excludedCount x < excludedCount y :=
        List.rel_of_pairwise_cons hascend List.mem_cons_self
      rw [hcount x List.mem_cons_self, hcount y (by simp)] at hlt
      exact absurd hlt (lt_irrefl _)

end Runs

/-- The three participants of the second epoch. -/
def trioSecond : ParticipantSet where
  addresses := {1, 2, 3}
  excluded := ∅
  context := groupContext 0xc0 2
  two_le := trioValidator.genesis.two_le
  fits := trioValidator.genesis.fits

/-- The validator joins in the first epoch, and the second one begins. -/
def trioRollover : List Message := [eventAt 99 (.epochStaged 1 7 8), .newBlock 100]

theorem trioSecond_active : trioValidator.activeParticipants 2 = {1, 2, 3} := by decide

theorem trioRollover_final :
    (final trioValidator.applyTransition State.default trioRollover).rollover =
      (trioValidator.startKeyGen (.number 2) trioSecond (some 110)).1 :=
  rfl

/-- Events that name nobody name no outsiders. -/
theorem namesMembers_of_unnamed {s : State} {message : Message}
    (h : ∀ log, message = .event log → log.data.named = none) : NamesMembers s message := by
  cases message with
  | newBlock block => trivial
  | resume result => trivial
  | event log =>
      intro gid named epoch group hnamed
      rw [h log rfl] at hnamed
      cases hnamed

theorem trioRollover_unnamed {message : Message} (h : message ∈ trioRollover ++ [.newBlock 101]) :
    ∀ log, message = .event log → log.data.named = none := by
  rintro log rfl
  rcases List.mem_cons.mp h with heq | h
  · cases heq
    rfl
  · rcases List.mem_cons.mp h with heq | h
    · cases heq
    · cases List.mem_singleton.mp h

/-- The three participants are all needed, and the only key generation without them is the first. -/
theorem trio_starts_once :
    ∃ x ∈ trace trioValidator.applyTransition State.default trioRollover,
      StartsKeyGen trioValidator (.number 2) x ∧
        [x].length ≤ (trioValidator.activeParticipants 2).card + 1 -
          minParticipants (trioValidator.activeParticipants 2).card := by
  have hbounded := key_generations_are_bounded trioValidator trioRollover fun x hx =>
    namesMembers_of_unnamed (trioRollover_unnamed (List.mem_append_left _ (input_mem hx)))
  have hstarts : StartsKeyGen trioValidator (.number 2) (take trioValidator.applyTransition
      (final trioValidator.applyTransition State.default [eventAt 99 (.epochStaged 1 7 8)])
      (.newBlock 100)) := by
    refine ⟨?_, trioSecond, some 110, trioRollover_final⟩
    show (final trioValidator.applyTransition State.default trioRollover).rollover ≠ .epochSkipped 1
    rw [trioRollover_final]
    intro heq
    have hbegun : Begun trioValidator (.number 2)
        (trioValidator.startKeyGen (.number 2) trioSecond (some 110)).1 := ⟨trioSecond, some 110, rfl⟩
    obtain ⟨_, hround, -⟩ := begun_eq hbegun
    rw [hround] at heq
    cases heq
  refine ⟨_, List.mem_cons_of_mem _ List.mem_cons_self, hstarts, ?_⟩
  refine hbounded.2.2.1 2 _ (List.singleton_sublist.mpr ?_) ?_
  · exact List.mem_cons_of_mem _ List.mem_cons_self
  · intro x hx
    rw [List.mem_singleton.mp hx]
    exact hstarts

/-! ### Time -/

/-- The rounds of one key generation take five timeouts. -/
def Transition.keyGenTime (t : Transition) : Nat := 5 * t.config.keyGenTimeout

/-- No round takes longer than what is left of the five timeouts. -/
def Upper (t : Transition) (block : Nat) (r : RolloverState) : Prop :=
  ∀ deadline, r.timeout = some deadline →
    deadline + r.roundsLeft * t.config.keyGenTimeout ≤ block + t.keyGenTime

/-- No round ends before the block. -/
def Lower (block : Nat) (r : RolloverState) : Prop :=
  ∀ deadline, r.timeout = some deadline → block ≤ deadline

theorem timeout_of_idle {r : RolloverState} (h : r.underway = none) : r.timeout = none := by
  cases r with
  | collectingCommitments round => cases h
  | collectingShares round => cases h
  | collectingConfirmations round => cases h
  | _ => rfl

theorem underway_rolloverFailure (epoch : EpochId) : (rolloverFailure epoch).underway = none := by
  cases epoch with
  | genesis => rfl
  | number n => rfl

/-- Where the timeout after an advance comes from. -/
theorem Advance.timeout {block deadline' : Nat} {r r' : RolloverState} (hmove : Advance t block r r')
    (h : r'.timeout = some deadline') :
    (∃ epoch group deadline, r.underway = some (epoch, group) ∧ r'.underway = some (epoch, group) ∧
        r.timeout = some deadline ∧
        deadline' + r'.roundsLeft * t.config.keyGenTimeout ≤
          max deadline block + r.roundsLeft * t.config.keyGenTimeout ∧
        (block + 1 < 2 ^ 64 → min deadline (block + 1) ≤ deadline')) ∨
      deadline' = t.keyGenDeadline block ∧ r'.roundsLeft = 4 := by
  have hidle : r'.underway = none → False := by
    intro hnone
    rw [timeout_of_idle hnone] at h
    cases h
  cases hmove with
  | stay =>
      cases hunderway : r.underway with
      | none => exact (hidle hunderway).elim
      | some candidate =>
          exact .inl ⟨candidate.1, candidate.2, deadline', rfl, rfl, h,
            Nat.add_le_add_right (le_max_left _ _) _, fun _ => min_le_left _ _⟩
  | genesis =>
      rw [timeout_startKeyGen] at h
      cases h
  | recovered hr =>
      rcases hr with rfl | ⟨n, rfl⟩
      · cases h
      · cases h
  | @collect _ _ epoch group hunderway hunderway' _ _ hextends =>
      cases htimeout : r.timeout with
      | none =>
          rw [hextends.1 htimeout] at h
          cases h
      | some deadline =>
          obtain ⟨deadline'', hsome, hupper, hlower⟩ := hextends.2 _ htimeout
          cases hsome.symm.trans h
          exact .inl ⟨epoch, group, deadline, hunderway, hunderway', rfl, hupper, hlower⟩
  | restart =>
      rw [timeout_startKeyGen] at h
      obtain ⟨deadline, -, rfl⟩ := Option.map_eq_some_iff.mp h
      exact .inr ⟨rfl, roundsLeft_startKeyGen⟩
  | fail => exact (hidle (underway_rolloverFailure _)).elim
  | sign => exact (hidle rfl).elim
  | staged => exact (hidle rfl).elim
  | skip => exact (hidle rfl).elim
  | begin =>
      rw [timeout_startKeyGen] at h
      cases h
      exact .inr ⟨rfl, roundsLeft_startKeyGen⟩

section Bounds

variable {block : Nat} {r r' : RolloverState}

theorem roundsLeft_le (r : RolloverState) : r.roundsLeft ≤ 4 := by
  cases r with
  | collectingCommitments round => exact le_rfl
  | collectingShares round => exact Nat.le_succ 3
  | _ => exact Nat.zero_le 4

theorem Upper.advance (h : Upper t block r) (hmove : Advance t block r r') : Upper t block r' := by
  intro deadline' hdeadline'
  unfold Transition.keyGenTime
  rcases hmove.timeout hdeadline' with ⟨_, _, deadline, -, -, hdeadline, hle, -⟩ | ⟨rfl, hrounds⟩
  · have hold := h deadline hdeadline
    have hrounds := Nat.mul_le_mul_right (t.config.keyGenTimeout : Nat) (roundsLeft_le r)
    unfold Transition.keyGenTime at hold
    omega
  · have hle := (Advance.le_keyGenDeadline t block).1
    rw [hrounds]
    omega

theorem Upper.later {block' : Nat} (h : Upper t block r) (hle : block ≤ block') : Upper t block' r :=
  fun deadline hdeadline => (h deadline hdeadline).trans (Nat.add_le_add_right hle _)

theorem Lower.advance {bound : Nat} (h : Lower bound r) (hmove : Advance t block r r')
    (hbound : bound ≤ block + 1) (hfits : block + 1 < 2 ^ 64) : Lower bound r' := by
  intro deadline' hdeadline'
  rcases hmove.timeout hdeadline' with ⟨_, _, deadline, -, -, hdeadline, -, hle⟩ | ⟨rfl, -⟩
  · exact (le_min (h deadline hdeadline) hbound).trans (hle hfits)
  · exact hbound.trans ((Advance.le_keyGenDeadline t block).2 hfits)

/-- What has not stalled is not over. -/
theorem lower_of_stalled (h : Transition.stalled r block = none) : Lower (block + 1) r := by
  have hdue : ∀ deadline : Option Nat, (deadline.any fun d => d ≤ block) = false →
      ∀ d, deadline = some d → block + 1 ≤ d := by
    rintro _ hany d rfl
    exact not_le.mp (of_decide_eq_false hany)
  intro deadline hdeadline
  unfold Transition.stalled at h
  split at h
  · split at h
    · cases h
    · rename_i hany
      exact hdue _ (Bool.eq_false_of_not_eq_true hany) deadline hdeadline
  · split at h
    · cases h
    · rename_i hany
      exact hdue _ (Bool.eq_false_of_not_eq_true hany) deadline hdeadline
  · rename_i round
    have hlate := Option.map_eq_none_iff.mp h
    obtain ⟨deadlines, hdeadlines, rfl⟩ := Option.map_eq_some_iff.mp hdeadline
    unfold Transition.lateConfirmations at hlate
    rw [hdeadlines] at hlate
    dsimp only at hlate
    split at hlate
    · cases hlate
    · split at hlate
      · cases hlate
      · rename_i hconfirm
        exact not_le.mp hconfirm
  · cases r with
    | collectingCommitments round => rename_i hother _ _; exact absurd rfl (hother round)
    | collectingShares round => rename_i hother _; exact absurd rfl (hother round)
    | collectingConfirmations round => rename_i hother; exact absurd rfl (hother round)
    | _ => cases hdeadline

/-- After the timeouts of a block, every round that is underway ends later. -/
theorem lower_keyGenTimeouts (hfits : block + 1 < 2 ^ 64) :
    Lower (block + 1) (t.keyGenTimeouts r block).1 := by
  have hfailure : ∀ epoch, Lower (block + 1) (rolloverFailure epoch) := by
    intro epoch deadline hdeadline
    rw [timeout_of_idle (underway_rolloverFailure epoch)] at hdeadline
    cases hdeadline
  have hrestart : Lower (block + 1) (t.restartStalled r block).1 := by
    unfold Transition.restartStalled
    split
    · rename_i epoch excluded hstalled
      unfold Transition.restartKeyGenExcluding
      split
      · intro deadline hdeadline
        rw [timeout_startKeyGen] at hdeadline
        cases hdeadline
        exact (Advance.le_keyGenDeadline t block).2 hfits
      · exact hfailure epoch
    · rename_i hstalled
      exact lower_of_stalled hstalled
  unfold Transition.keyGenTimeouts
  split
  · split
    · exact hfailure _
    · exact hrestart
  · exact hrestart

/-- The key generations for an epoch end before a block. -/
def Within (t : Transition) (n : ℕ+) (last : Nat) (r : RolloverState) : Prop :=
  ∀ group deadline, r.underway = some (.number n, group) → r.timeout = some deadline →
    deadline + r.roundsLeft * t.config.keyGenTimeout +
      (group.participants.card - minParticipants (t.activeParticipants n).card) * t.keyGenTime ≤ last

/-- The machine has got to the epoch. -/
def Reached (n : ℕ+) (r : RolloverState) : Prop := .of (.number n) ⊥ ≤ r.position

theorem Reached.le {n : ℕ+} {epoch : EpochId} (h : Reached n r) (hnext : r.nextEpoch = some epoch) :
    .number n ≤ epoch := by
  unfold Reached at h
  rw [position_of_nextEpoch hnext, Position.of_le_of] at h
  rcases h with hlt | ⟨heq, -⟩
  · exact hlt.le
  · exact heq.le

theorem reached_of_underway {n : ℕ+} {group : Group} (h : r.underway = some (.number n, group)) :
    Reached n r := by
  unfold Reached
  rw [position_of_nextEpoch (next_of_underway h).1]
  exact Position.of_le_of.mpr (.inr ⟨rfl, bot_le⟩)

/-- A restart takes five timeouts, but the members it leaves out had five timeouts each. -/
theorem Within.advance {n : ℕ+} {last : Nat} (h : Within t n last r) (hmove : Advance t block r r')
    (hsound : Sound t r) (hreached : Reached n r) (hlower : Lower block r) : Within t n last r' := by
  intro group' deadline' hunderway' hdeadline'
  cases hmove with
  | stay => exact h group' deadline' hunderway' hdeadline'
  | genesis =>
      rw [timeout_startKeyGen] at hdeadline'
      cases hdeadline'
  | recovered hr =>
      rcases hr with rfl | ⟨m, rfl⟩
      · cases hunderway'
      · cases hunderway'
  | @collect _ _ epoch group hunderway hsame _ _ hextends =>
      cases hsame.symm.trans hunderway'
      obtain ⟨deadline, hdeadline⟩ := Option.ne_none_iff_exists'.mp (hsound.timed n _ hunderway)
      obtain ⟨deadline'', hsome, hle, -⟩ := hextends.2 _ hdeadline
      cases hsome.symm.trans hdeadline'
      have hold := h _ _ hunderway hdeadline
      rw [max_eq_left (hlower _ hdeadline)] at hle
      omega
  | @restart _ _ group excluded participants hunderway hset hexcluded =>
      rw [underway_startKeyGen] at hunderway'
      cases hunderway'
      rw [timeout_startKeyGen] at hdeadline'
      obtain ⟨deadline, hdeadline, rfl⟩ := Option.map_eq_some_iff.mp hdeadline'
      have hold := h _ _ hunderway hdeadline
      have hblock := hlower _ hdeadline
      have hstart := (Advance.le_keyGenDeadline t block).1
      have hformed := hsound.formed _ _ (candidate_of_underway hunderway)
      have hformed' : (participants.group t.externals.keccak256).Formed t (.number n) :=
        formed_group hexcluded.2 hset
      have hgrows : group.excluded ⊂ (participants.group t.externals.keccak256).excluded :=
        lt_of_lt_of_eq hexcluded.1 (epochParticipants_eq_some hset).2.1.symm
      have hcard := Finset.card_lt_card (hformed.participants_ssubset hformed' hgrows)
      have henough := hformed'.enough
      rw [roundsLeft_startKeyGen]
      have hshrinks := Nat.mul_le_mul_right t.keyGenTime (show
        (participants.group t.externals.keccak256).participants.card -
            minParticipants (t.activeParticipants n).card + 1 ≤
          group.participants.card - minParticipants (t.activeParticipants n).card by omega)
      rw [Nat.add_mul, Nat.one_mul] at hshrinks
      have htime : t.keyGenTime = 5 * t.config.keyGenTimeout := rfl
      omega
  | fail =>
      rw [underway_rolloverFailure] at hunderway'
      cases hunderway'
  | sign => cases hunderway'
  | staged => cases hunderway'
  | skip => cases hunderway'
  | begin hnext hlt =>
      rw [underway_startKeyGen] at hunderway'
      cases hunderway'
      exact absurd (hreached.le hnext) (not_le.mpr hlt)

end Bounds

/-! ### Blocks in order -/

/-- The last block after a message. -/
def clock (block : Nat) : Message → Nat
  | .newBlock next => next
  | _ => block

/-- The blocks come one by one, and an event with its block. -/
def Next (block : Nat) : Message → Prop
  | .newBlock next => next = block + 1 ∧ next + 1 < 2 ^ 64
  | .event log => log.block.number = block
  | .resume _ => True

def InOrder : Nat → List Message → Prop
  | _, [] => True
  | block, message :: messages => Next block message ∧ InOrder (clock block message) messages

/-- The last block after the messages. -/
def lastBlock (block : Nat) (messages : List Message) : Nat := messages.foldl clock block

theorem InOrder.append {before after : List Message} : ∀ {block : Nat},
    InOrder block (before ++ after) →
      InOrder block before ∧ InOrder (lastBlock block before) after := by
  induction before with
  | nil => intro block h; exact ⟨trivial, h⟩
  | cons message before ih =>
      intro block h
      exact ⟨⟨h.1, (ih h.2).1⟩, (ih h.2).2⟩

/-- What every message in order preserves, all of them do. -/
theorem inOrder_invariant {P : Nat → State → Prop}
    (hstep : ∀ block s message, P block s → Next block message → NamesMembers s message →
      P (clock block message) (t.applyTransition s message).1) (messages : List Message) :
    ∀ {block : Nat} {s : State}, P block s → InOrder block messages →
      (∀ x ∈ trace t.applyTransition s messages, NamesMembers x.pre x.input) →
        P (lastBlock block messages) (final t.applyTransition s messages) := by
  induction messages with
  | nil => intro block s h _ _; exact h
  | cons message messages ih =>
      intro block s h horder hnamed
      refine ih (hstep block s message h horder.1 (hnamed _ List.mem_cons_self)) horder.2 ?_
      exact fun x hx => hnamed x (List.mem_cons_of_mem _ hx)

/-- The machine in time: the round that is underway ends after the block, and not late. -/
structure OnTime (t : Transition) (block : Nat) (s : State) : Prop where
  sound : Sound t s.rollover
  lower : Lower (block + 1) s.rollover
  upper : Upper t block s.rollover
  fits : block + 1 < 2 ^ 64

theorem onTime_default {block : Nat} (h : block + 1 < 2 ^ 64) : OnTime t block State.default :=
  ⟨sound_default, nofun, nofun, h⟩

section OnTime

variable {block : Nat} {s : State} {message : Message}

/-- The advances of a message in order, the first of which starts in time. -/
theorem OnTime.advances (h : OnTime t block s) (hnext : Next block message)
    (hnamed : NamesMembers s message) :
    ∃ r, Advance t (clock block message) s.rollover r ∧
      Advance t (clock block message) r (t.applyTransition s message).1.rollover ∧
      clock block message + 1 < 2 ^ 64 ∧ block ≤ clock block message ∧
      Lower (clock block message) s.rollover ∧ Lower (clock block message) r ∧
      Lower (clock block message + 1) (t.applyTransition s message).1.rollover := by
  have hblock : ∀ b, blockOf message = some b → b = clock block message := by
    intro b hb
    cases message with
    | newBlock next => cases hb; rfl
    | event log => cases hb; exact hnext
    | resume result => cases hb
  obtain ⟨r, hfirst, hsecond⟩ := advance_applyTransition _ h.sound hnamed hblock
  have hlower : ∀ bound, bound ≤ clock block message + 1 → clock block message + 1 < 2 ^ 64 →
      Lower bound s.rollover → Lower bound r :=
    fun bound hbound hfits hs => hs.advance hfirst hbound hfits
  cases message with
  | newBlock next =>
      obtain ⟨rfl, hfits⟩ := hnext
      refine ⟨r, hfirst, hsecond, hfits, Nat.le_succ _, h.lower,
        hlower _ (Nat.le_succ _) hfits h.lower, ?_⟩
      exact lower_keyGenTimeouts hfits
  | event log =>
      have hweak : Lower block s.rollover := fun deadline hdeadline =>
        (Nat.le_succ _).trans (h.lower deadline hdeadline)
      exact ⟨r, hfirst, hsecond, h.fits, le_rfl, hweak, hlower _ (Nat.le_succ _) h.fits hweak,
        (hlower _ le_rfl h.fits h.lower).advance hsecond le_rfl h.fits⟩
  | resume result =>
      have hweak : Lower block s.rollover := fun deadline hdeadline =>
        (Nat.le_succ _).trans (h.lower deadline hdeadline)
      exact ⟨r, hfirst, hsecond, h.fits, le_rfl, hweak, hlower _ (Nat.le_succ _) h.fits hweak,
        (hlower _ le_rfl h.fits h.lower).advance hsecond le_rfl h.fits⟩

theorem OnTime.applyTransition (h : OnTime t block s) (hnext : Next block message)
    (hnamed : NamesMembers s message) :
    OnTime t (clock block message) (t.applyTransition s message).1 := by
  obtain ⟨r, hfirst, hsecond, hfits, hle, -, -, hlower⟩ := h.advances hnext hnamed
  exact ⟨h.sound.applyTransition hnamed, hlower,
    ((h.upper.later hle).advance hfirst).advance hsecond, hfits⟩

/-- The machine in time, at an epoch whose key generations end before a block. -/
structure Ending (t : Transition) (n : ℕ+) (last block : Nat) (s : State) : Prop where
  onTime : OnTime t block s
  reached : Reached n s.rollover
  within : Within t n last s.rollover

theorem Ending.applyTransition {n : ℕ+} {last : Nat} (h : Ending t n last block s)
    (hnext : Next block message) (hnamed : NamesMembers s message) :
    Ending t n last (clock block message) (t.applyTransition s message).1 := by
  obtain ⟨r, hfirst, hsecond, -, -, hlower, hlower', -⟩ := h.onTime.advances hnext hnamed
  refine ⟨h.onTime.applyTransition hnext hnamed, ?_, ?_⟩
  · exact le_trans h.reached (hfirst.position_le.trans hsecond.position_le)
  · exact (h.within.advance hfirst h.onTime.sound h.reached hlower).advance hsecond
      (h.onTime.sound.advance hfirst) (le_trans h.reached hfirst.position_le) hlower'

end OnTime

/--
**Every key generation of an epoch ends.**  If the blocks come one by one, each with its events,
the key generations of a numbered epoch are over five timeouts for each of the participants that
the epoch can spare, and one, after any block at which one of them was underway.
-/
theorem key_generations_end (t : Transition) {start : Nat} {before after : List Message} {n : ℕ+}
    {group group' : Group} (hstart : start + 1 < 2 ^ 64) (horder : InOrder start (before ++ after))
    (hnamed : ∀ x ∈ trace t.applyTransition State.default (before ++ after), NamesMembers x.pre x.input)
    (h : (final t.applyTransition State.default before).rollover.underway = some (.number n, group))
    (h' : (final t.applyTransition State.default (before ++ after)).rollover.underway =
      some (.number n, group')) :
    lastBlock start (before ++ after) < lastBlock start before +
      ((t.activeParticipants n).card + 1 - minParticipants (t.activeParticipants n).card) *
        t.keyGenTime := by
  obtain ⟨hbefore, hafter⟩ := horder.append
  rw [trace_append] at hnamed
  have hontime := inOrder_invariant (P := OnTime t) (fun _ _ _ h => h.applyTransition) before
    (onTime_default hstart) hbefore fun x hx => hnamed x (List.mem_append_left _ hx)
  have hformed := hontime.sound.formed _ _ (candidate_of_underway h)
  have hending := inOrder_invariant
    (P := Ending t n (lastBlock start before +
      ((t.activeParticipants n).card + 1 - minParticipants (t.activeParticipants n).card) *
        t.keyGenTime)) (fun _ _ _ h => h.applyTransition) after
    ⟨hontime, reached_of_underway h, ?_⟩ hafter fun x hx => hnamed x (List.mem_append_right _ hx)
  · rw [final_append] at h'
    obtain ⟨deadline, hdeadline⟩ := Option.ne_none_iff_exists'.mp
      (hending.onTime.sound.timed n _ h')
    have hlower := hending.onTime.lower _ hdeadline
    have hwithin := hending.within _ _ h' hdeadline
    have happend : lastBlock start (before ++ after) = lastBlock (lastBlock start before) after :=
      List.foldl_append ..
    rw [happend]
    omega
  · intro group'' deadline hunderway hdeadline
    cases hunderway.symm.trans h
    have hupper := hontime.upper _ hdeadline
    have hcard := hformed.card_excluded
    have henough := hformed.enough
    have hmembers : group.participants.card ≤ (t.activeParticipants n).card := by
      rw [hformed.participants_eq]
      exact Finset.card_le_card Finset.sdiff_subset
    have hspare := Nat.mul_le_mul_right t.keyGenTime (show
      group.participants.card - minParticipants (t.activeParticipants n).card + 1 ≤
        (t.activeParticipants n).card + 1 - minParticipants (t.activeParticipants n).card by omega)
    rw [Nat.add_mul, Nat.one_mul] at hspare
    omega

/-- The second epoch's key generation is underway at one block and at the next. -/
theorem trio_ends :
    lastBlock 99 (trioRollover ++ [.newBlock 101]) < lastBlock 99 trioRollover +
      ((trioValidator.activeParticipants 2).card + 1 -
          minParticipants (trioValidator.activeParticipants 2).card) * trioValidator.keyGenTime := by
  have hunderway : (final trioValidator.applyTransition State.default trioRollover).rollover.underway =
      some (.number 2, trioSecond.group trioValidator.externals.keccak256) := by
    rw [trioRollover_final]
    exact underway_startKeyGen
  have horder : InOrder 99 (trioRollover ++ [.newBlock 101]) :=
    ⟨rfl, ⟨rfl, by omega⟩, ⟨rfl, by decide⟩, trivial⟩
  refine key_generations_end trioValidator (by omega) horder ?_ hunderway hunderway
  exact fun x hx => namesMembers_of_unnamed (trioRollover_unnamed (input_mem hx))

end Safenet.Validator
