/-
The groups and keys that a validator keeps.

The epochs in the state lie behind the target of the rollover machine (`Past`), which only moves
forward, so an epoch is registered at most once.  A session names the group and the key share of
its epoch, and the epochs of the sessions survive the reaping.
-/
import Safenet.Lib.Trace
import Safenet.Proofs.ValidatorCommands

namespace Safenet.Validator

open RolloverState SigningState Trace

/-! ### Vocabulary -/

/-- The group and key share of a session; an attestation needs neither. -/
def SigningState.signer? : SigningState → Option (B256 × KeyShare)
  | .waitingForRequest s => some (s.groupId, s.keyShare)
  | .waitingForOracle s => some (s.groupId, s.keyShare)
  | .collectNonceCommitments s => some (s.groupId, s.keyShare)
  | .collectSigningShares s => some (s.groupId, s.keyShare)
  | .waitingForAttestation _ => none

/-- The group of a key generation that this validator has no key share of yet. -/
def RolloverState.unconfirmed : RolloverState → Option Group
  | .collectingCommitments round =>
      match round.secrets with
      | .participating _ _ => some round.group
      | .observing => none
  | .collectingShares round =>
      match round.participation with
      | .participating _ => some round.group
      | .observing _ => none
  | .collectingConfirmations round =>
      match round.participation, round.status with
      | .participating _, .confirmed _ => none
      | .participating _, _ => some round.group
      | .observing _, _ => none
  | _ => none

/-- The group of a key generation that this validator has a key share of, before it is staged. -/
def RolloverState.confirmed : RolloverState → Option Group
  | .collectingConfirmations round => round.status.keyShare.map fun _ => round.group
  | .signingRollover rollover => rollover.keyShare.map fun _ => rollover.group
  | _ => none

/-- What a reconciliation has to keep for a state. -/
structure Retains (groups : Table B256 RetainedSecrets) (s : State) : Prop where
  sessions : ∀ m session, s.signing.lookup m = some session →
    ∃ epoch retained, s.epochs.lookup session.packet.epoch = some epoch ∧
      groups.lookup epoch.group.id = some retained
  epochs : ∀ e epoch, s.epochs.lookup e = some epoch →
    ∃ retained, groups.lookup epoch.group.id = some retained
  confirmed : ∀ group, s.rollover.confirmed = some group →
    ∃ retained, groups.lookup group.id = some retained
  unconfirmed : ∀ group, s.rollover.unconfirmed = some group → groups.lookup group.id = some .all

/-! ### Epochs behind the target -/

/-- The epoch lies behind the one that the rollover machine works toward. -/
def Past (e : EpochId) : RolloverState → Prop
  | .epochStaged next => e ≤ .number next
  | r => ∀ next, r.nextEpoch = some next → e < next

variable {t : Transition} {message : Message} {s₀ s s' : State} {e : EpochId}

theorem not_lt_genesis : ¬ e < .genesis := by
  rw [EpochId.lt_def]
  exact Nat.not_lt_zero _

theorem Past.lt_of_underway {r : RolloverState} {next : EpochId} {group : Group} (h : Past e r)
    (hr : r.underway = some (next, group)) : e < next := by
  cases r with
  | collectingCommitments round => cases hr; exact h _ rfl
  | collectingShares round => cases hr; exact h _ rfl
  | collectingConfirmations round => cases hr; exact h _ rfl
  | waitingForGenesis => cases hr
  | halted => cases hr
  | epochStaged n => cases hr
  | epochSkipped n => cases hr
  | signingRollover rollover => cases hr

theorem past_epochSkipped {next : ℕ+} : Past e (.epochSkipped next) ↔ e < .number next := by
  constructor
  · intro h
    exact h _ rfl
  · rintro h _ ⟨⟩
    exact h

theorem past_startKeyGen {next : EpochId} {participants : ParticipantSet} {deadline : Option Nat}
    (h : e < next) : Past e (t.startKeyGen next participants deadline).1 := by
  unfold Transition.startKeyGen
  split
  · rintro _ ⟨⟩
    exact h
  · rintro _ ⟨⟩
    exact h

theorem past_rolloverFailure {next : EpochId} (h : e < next) : Past e (rolloverFailure next) := by
  cases next with
  | genesis => exact absurd h not_lt_genesis
  | number n => exact past_epochSkipped.mpr h

/-- Within a ceremony the target stays, unless the machine gives up. -/
theorem Past.keyGen {r r' : RolloverState} (hmove : KeyGenMove t message s₀ r r') (h : Past e r) :
    Past e r' := by
  cases hmove with
  | stay => exact h
  | genesis => exact absurd (h _ rfl) not_lt_genesis
  | restart hr => exact past_startKeyGen (h.lt_of_underway hr)
  | fail hr => exact past_rolloverFailure (h.lt_of_underway hr)
  | secrets => exact h
  | commit => exact h
  | shares _ hepoch =>
      rintro _ ⟨⟩
      exact hepoch ▸ h _ rfl
  | share hepoch =>
      rintro _ ⟨⟩
      exact hepoch ▸ h _ rfl
  | confirmations _ hepoch =>
      rintro _ ⟨⟩
      exact hepoch ▸ h _ rfl
  | confirmation hepoch =>
      rintro _ ⟨⟩
      exact hepoch ▸ h _ rfl

/-- A numbered target is not behind any past epoch. -/
theorem Past.le_target {r : RolloverState} {target : ℕ+} (h : Past e r)
    (hr : r.nextEpoch = some (.number target)) : e ≤ .number target := by
  cases r with
  | epochStaged n => cases hr; exact h
  | waitingForGenesis => cases hr
  | halted => cases hr
  | epochSkipped n => exact (h _ hr).le
  | collectingCommitments round => exact (h _ hr).le
  | collectingShares round => exact (h _ hr).le
  | collectingConfirmations round => exact (h _ hr).le
  | signingRollover rollover => exact (h _ hr).le

theorem lookup_finalizeKeyGen {epoch : EpochId} {group : Group} {keyShare : Option KeyShare}
    {x : Epoch} (h : (Transition.finalizeKeyGen s epoch group keyShare).epochs.lookup e = some x) :
    e = epoch ∨ s.epochs.lookup e = some x := by
  unfold Transition.finalizeKeyGen at h
  split at h
  · rw [Table.lookup_insert] at h
    by_cases he : e = epoch
    · exact .inl he
    · exact .inr (by rwa [if_neg he] at h)
  · exact .inr h

theorem finalizeKeyGen_eq {epoch : EpochId} {group : Group} {keyShare : Option KeyShare} :
    (Transition.finalizeKeyGen s epoch group keyShare).rollover = s.rollover ∧
      (Transition.finalizeKeyGen s epoch group keyShare).signing = s.signing ∧
      (Transition.finalizeKeyGen s epoch group keyShare).activeEpoch = s.activeEpoch ∧
      (Transition.finalizeKeyGen s epoch group keyShare).signatureIdToMessage =
        s.signatureIdToMessage := by
  unfold Transition.finalizeKeyGen
  split
  · exact ⟨rfl, rfl, rfl, rfl⟩
  · exact ⟨rfl, rfl, rfl, rfl⟩

/-- A registered epoch other than the new one is untouched. -/
theorem lookup_finalizeKeyGen_of_ne {epoch : EpochId} {group : Group} {keyShare : Option KeyShare}
    (h : e ≠ epoch) :
    (Transition.finalizeKeyGen s epoch group keyShare).epochs.lookup e = s.epochs.lookup e := by
  unfold Transition.finalizeKeyGen
  split
  · rw [Table.lookup_insert, if_neg h]
  · rfl

/-- The epochs in the state are past. -/
def EpochsPast (s : State) : Prop := ∀ e epoch, s.epochs.lookup e = some epoch → Past e s.rollover

theorem handleSignAttested_eq (m : B256) :
    (Transition.handleSignAttested s m).1.rollover = s.rollover ∧
      (Transition.handleSignAttested s m).1.activeEpoch = s.activeEpoch ∧
      (Transition.handleSignAttested s m).1.epochs = s.epochs ∧
      (Transition.handleSignAttested s m).1.signing = s.signing.erase m :=
  ⟨rfl, rfl, rfl, rfl⟩

/-- An epoch that is past stays past. -/
theorem Past.change (h : Change t message s₀ s s') (hpast : Past e s.rollover) : Past e s'.rollover := by
  cases h with
  | rollover hmove => exact hpast.keyGen hmove
  | genesisConfirmed hrollover hepoch =>
      rw [hrollover] at hpast
      exact absurd (hpast _ rfl) (hepoch ▸ not_lt_genesis)
  | begin hrollover =>
      rw [hrollover] at hpast
      exact past_startKeyGen (past_epochSkipped.mp hpast)
  | epochConfirmed _ _ hrollover hepoch =>
      rw [hrollover] at hpast
      rintro _ ⟨⟩
      exact hepoch ▸ hpast _ rfl
  | staged hrollover =>
      rw [hrollover] at hpast
      rw [finalizeKeyGen_eq.1]
      exact (hpast _ rfl).le
  | attested => exact hpast
  | recovered hrollover _ =>
      rw [hrollover] at hpast
      exact absurd (hpast _ rfl) not_lt_genesis
  | due htarget hlt _ =>
      refine past_epochSkipped.mpr (lt_of_le_of_lt (hpast.le_target htarget) ?_)
      exact EpochId.lt_def.mpr hlt
  | session => exact hpast
  | requested => exact hpast
  | rejected => exact hpast
  | proposed => exact hpast
  | timeouts => exact hpast
  | reaped => exact hpast

theorem EpochsPast.change (h : Change t message s₀ s s') (hpast : EpochsPast s) : EpochsPast s' := by
  intro e epoch he
  -- an epoch of the new state is an old one, or the one that was just registered
  have hold : s.epochs.lookup e = some epoch → Past e s'.rollover := fun hx =>
    (hpast e epoch hx).change h
  cases h with
  | genesisConfirmed hrollover hepoch =>
      rcases lookup_finalizeKeyGen he with rfl | hx
      · rw [finalizeKeyGen_eq.1]
        exact past_epochSkipped.mpr (EpochId.lt_def.mpr (PNat.pos _))
      · exact hold hx
  | staged hrollover =>
      rcases lookup_finalizeKeyGen he with rfl | hx
      · rw [finalizeKeyGen_eq.1]
        exact le_refl _
      · exact hold hx
  | reaped => exact hold (Table.lookup_filter_eq_some.mp he).1
  | rollover => exact hold he
  | begin => exact hold he
  | epochConfirmed => exact hold he
  | attested => exact hold he
  | recovered => exact hold he
  | due => exact hold he
  | session => exact hold he
  | requested => exact hold he
  | rejected => exact hold he
  | proposed => exact hold he
  | timeouts => exact hold he

/-! ### An epoch is registered once -/

/-- The epoch is past, and what the state has for it is `epoch`. -/
def Registered (e : EpochId) (epoch : Epoch) (s : State) : Prop :=
  Past e s.rollover ∧ ∀ x, s.epochs.lookup e = some x → x = epoch

theorem Registered.change {epoch : Epoch} (h : Change t message s₀ s s') (hreg : Registered e epoch s) :
    Registered e epoch s' := by
  refine ⟨hreg.1.change h, fun x hx => ?_⟩
  have hold : s.epochs.lookup e = some x → x = epoch := hreg.2 x
  cases h with
  | genesisConfirmed hrollover hepoch =>
      have hpast := hreg.1
      rw [hrollover] at hpast
      exact absurd (hpast _ rfl) (hepoch ▸ not_lt_genesis)
  | @staged s rollover hrollover =>
      have hpast := hreg.1
      rw [hrollover] at hpast
      have hlt : e < .number rollover.nextEpoch := hpast _ rfl
      rw [lookup_finalizeKeyGen_of_ne hlt.ne] at hx
      exact hold hx
  | reaped => exact hold (Table.lookup_filter_eq_some.mp hx).1
  | rollover => exact hold hx
  | begin => exact hold hx
  | epochConfirmed => exact hold hx
  | attested => exact hold hx
  | recovered => exact hold hx
  | due => exact hold hx
  | session => exact hold hx
  | requested => exact hold hx
  | rejected => exact hold hx
  | proposed => exact hold hx
  | timeouts => exact hold hx

/-! ### Sessions -/

/-- The session is about an epoch of the state and carries its group and key share. -/
def Belongs (s : State) (session : SigningState) : Prop :=
  ∃ epoch, s.epochs.lookup session.packet.epoch = some epoch ∧
    ∀ signer, session.signer? = some signer → signer = (epoch.group.id, epoch.keyShare)

def SessionsBelong (s : State) : Prop := ∀ m session, s.signing.lookup m = some session → Belongs s session

/-- The packet stays, and so do the group and the key share as long as they are needed. -/
def Continues (x x' : SigningState) : Prop :=
  x'.packet = x.packet ∧ (x'.signer? = x.signer? ∨ x'.signer? = none)

theorem Belongs.continues {x x' : SigningState} (h : Continues x x') (hx : Belongs s x) : Belongs s x' := by
  obtain ⟨epoch, hepoch, hsigner⟩ := hx
  refine ⟨epoch, h.1 ▸ hepoch, fun signer hsigner' => ?_⟩
  rcases h.2 with heq | hnone
  · exact hsigner signer (heq ▸ hsigner')
  · rw [hnone] at hsigner'
    cases hsigner'

theorem requested_continues {session : WaitingForRequest} {sid : B256} {block : Nat} :
    Continues (.waitingForRequest session) (t.requested session sid block).1 := by
  unfold Transition.requested
  split
  · exact ⟨rfl, .inl rfl⟩
  · exact ⟨rfl, .inl rfl⟩

theorem SessionMove.continues {m : B256} {x x' : SigningState} (h : SessionMove t message s₀ m x x') :
    Continues x x' := by
  cases h with
  | approved => exact ⟨rfl, .inl rfl⟩
  | nonces =>
      unfold Transition.nonceCommitted
      dsimp only
      split
      · exact ⟨rfl, .inl rfl⟩
      · exact ⟨rfl, .inl rfl⟩
  | shared => exact ⟨rfl, .inl rfl⟩
  | completed => exact ⟨rfl, .inr rfl⟩

theorem timedOut_continues {block : Nat} {m : B256} {x x' : SigningState}
    (h : (t.timedOut block m x).kept = some x') : Continues x x' := by
  unfold Transition.timedOut at h
  split at h
  · cases h
    exact ⟨rfl, .inl rfl⟩
  · split at h
    · unfold Transition.requestTimedOut at h
      split at h
      · cases h
      · dsimp only at h
        split at h
        · cases h
        · cases h
          exact ⟨rfl, .inl rfl⟩
    · cases h
    · unfold Transition.noncesTimedOut at h
      split at h
      · cases h
      · cases h
        exact ⟨rfl, .inl rfl⟩
    · unfold Transition.sharesTimedOut at h
      dsimp only at h
      split at h
      · cases h
      · cases h
        exact ⟨rfl, .inl rfl⟩
    · cases h

/-- A session of the state after the timeouts was one before. -/
theorem lookup_handleSigningTimeouts {block : Nat} {m : B256} {x' : SigningState}
    (h : (t.handleSigningTimeouts s block).1.signing.lookup m = some x') :
    ∃ x, s.signing.lookup m = some x ∧ (t.timedOut block m x).kept = some x' := by
  have hlookup : (s.signing.filterMap fun m x => (t.timedOut block m x).kept).lookup m = some x' := h
  rw [Table.lookup_filterMap] at hlookup
  exact Option.bind_eq_some_iff.mp hlookup

theorem foldl_min_le (l : List EpochId) :
    ∀ e : EpochId, l.foldl min e ≤ e ∧ ∀ x ∈ l, l.foldl min e ≤ x := by
  induction l with
  | nil =>
      intro e
      exact ⟨le_refl _, by simp⟩
  | cons y l ih =>
      intro e
      obtain ⟨hle, hall⟩ := ih (min e y)
      refine ⟨hle.trans (min_le_left _ _), fun x hx => ?_⟩
      rcases List.mem_cons.mp hx with rfl | hx
      · exact hle.trans (min_le_right _ _)
      · exact hall x hx

theorem oldestEpoch_le_active (s : State) : Transition.oldestEpoch s ≤ s.activeEpoch :=
  (foldl_min_le _ _).1

theorem oldestEpoch_le {m : B256} {x : SigningState} (h : s.signing.lookup m = some x) :
    Transition.oldestEpoch s ≤ x.packet.epoch := by
  refine (foldl_min_le _ _).2 _ (List.mem_map.mpr ⟨(m, x), ?_, rfl⟩)
  exact Table.lookup_eq_some.mp h

/-- Writing a session that belongs keeps the others. -/
theorem SessionsBelong.insert (hs : SessionsBelong s) {m : B256} {x : SigningState} {s' : State}
    (hepochs : s'.epochs = s.epochs) (hsigning : s'.signing = s.signing.insert m x)
    (hx : Belongs s x) : SessionsBelong s' := by
  intro m' x' h
  rw [hsigning, Table.lookup_insert] at h
  unfold Belongs
  rw [hepochs]
  split at h
  · cases h
    exact hx
  · exact hs m' x' h

theorem SessionsBelong.change (h : Change t message s₀ s s') (hpast : EpochsPast s)
    (hs : SessionsBelong s) : SessionsBelong s' := by
  cases h with
  | rollover => exact hs
  | @genesisConfirmed s round next hrollover hepoch =>
      -- before genesis there are no epochs, so there are no sessions
      intro m x hx
      rw [finalizeKeyGen_eq.2.1] at hx
      obtain ⟨epoch, he, -⟩ := hs m x hx
      have hpast := hpast _ _ he
      rw [hrollover] at hpast
      exact absurd (hpast _ rfl) (hepoch ▸ not_lt_genesis)
  | begin => exact hs
  | @epochConfirmed round proposed participant log _ _ hrollover hepoch =>
      intro m x hx
      rcases lookup_epochConfirmed hx with hold | ⟨epoch, hactive, -, rfl⟩
      · exact hs m x hold
      · exact ⟨epoch, hactive, by rintro _ ⟨⟩; rfl⟩
  | @staged s rollover hrollover =>
      intro m x hx
      rw [finalizeKeyGen_eq.2.1] at hx
      obtain ⟨epoch, he, hsigner⟩ := hs m x hx
      have hpast := hpast _ _ he
      rw [hrollover] at hpast
      have hlt : x.packet.epoch < .number rollover.nextEpoch := hpast _ rfl
      refine ⟨epoch, ?_, hsigner⟩
      rw [lookup_finalizeKeyGen_of_ne hlt.ne]
      exact he
  | attested =>
      intro m x hx
      rw [(handleSignAttested_eq _).2.2.2, Table.lookup_erase] at hx
      split at hx
      · cases hx
      · exact hs m x hx
  | recovered => exact hs
  | due => exact hs
  | session hx hmove => exact hs.insert rfl rfl ((hs _ _ hx).continues hmove.continues)
  | requested _ _ hx => exact hs.insert rfl rfl ((hs _ _ hx).continues requested_continues)
  | rejected hx =>
      intro m x hx'
      rw [Table.lookup_erase] at hx'
      split at hx'
      · cases hx'
      · exact hs m x hx'
  | proposed hepoch _ _ =>
      refine hs.insert rfl rfl ⟨_, hepoch, ?_⟩
      rintro _ ⟨⟩
      rfl
  | timeouts =>
      intro m x' hx'
      obtain ⟨x, hx, hkept⟩ := lookup_handleSigningTimeouts hx'
      exact (hs m x hx).continues (timedOut_continues hkept)
  | reaped =>
      intro m x hx
      obtain ⟨epoch, he, hsigner⟩ := hs m x hx
      refine ⟨epoch, Table.lookup_filter_eq_some.mpr ⟨he, ?_⟩, hsigner⟩
      exact decide_eq_true (oldestEpoch_le hx)

/-- What holds of the epochs and the sessions of every reachable state. -/
structure Kept (s : State) : Prop where
  past : EpochsPast s
  belong : SessionsBelong s

theorem kept_default : Kept State.default where
  past := fun _ _ h => nomatch h
  belong := fun _ _ h => nomatch h

theorem Kept.applyTransition (t : Transition) (message : Message) (h : Kept s) :
    Kept (t.applyTransition s message).1 :=
  Changes.preserves (fun _ _ hchange hs => ⟨hs.past.change hchange, hs.belong.change hchange hs.past⟩)
    (Changes.applyTransition t s message) h

/-! ### Reconciliation -/

/-- A new block asks for one reconciliation, that of the state it leaves. -/
theorem reconciliation_of_newBlock {block block' : Nat} {groups : Table B256 RetainedSecrets} :
    .effect (.reconcileGroupSecrets block' groups) ∈ (t.newBlock s block).2 ↔
      block' = block ∧ groups = Transition.retainedGroups (t.newBlock s block).1 := by
  constructor
  · intro h
    cases Emitted.newBlock h with
    | keyGen hc => cases hc
    | reconcile hmessage =>
        cases hmessage
        exact ⟨rfl, rfl⟩
  · rintro ⟨rfl, rfl⟩
    exact List.mem_append_right _ (List.mem_singleton.mpr rfl)

theorem mem_foldl_insert (rows : List (EpochId × Epoch)) : ∀ (groups : Table B256 RetainedSecrets)
    {id : B256}, ((∃ r, groups.lookup id = some r) ∨ ∃ row ∈ rows, row.2.group.id = id) →
    ∃ r, (rows.foldl (fun groups row => groups.insert row.2.group.id .nonces) groups).lookup id =
      some r := by
  induction rows with
  | nil =>
      intro groups id h
      rcases h with h | ⟨row, hrow, -⟩
      · exact h
      · cases hrow
  | cons row rows ih =>
      intro groups id h
      refine ih _ ?_
      by_cases hid : id = row.2.group.id
      · exact .inl ⟨.nonces, by rw [hid]; exact Table.lookup_insert_self _ _ _⟩
      · rcases h with ⟨r, hr⟩ | ⟨row', hrow', hid'⟩
        · refine .inl ⟨r, ?_⟩
          rw [Table.lookup_insert, if_neg hid]
          exact hr
        · rcases List.mem_cons.mp hrow' with rfl | hmem
          · exact absurd hid'.symm hid
          · exact .inr ⟨row', hmem, hid'⟩

/-- The groups of the epochs are retained. -/
theorem retainedGroups_epochs {epoch : Epoch} (h : s.epochs.lookup e = some epoch) :
    ∃ r, (Transition.retainedGroups s).lookup epoch.group.id = some r := by
  obtain ⟨r, hr⟩ := mem_foldl_insert s.epochs.rows Table.empty
    (.inr ⟨(e, epoch), Table.lookup_eq_some.mp h, rfl⟩)
  unfold Transition.retainedGroups
  dsimp only
  split
  · rename_i groupId retained _
    rw [Table.lookup_insert]
    split
    · exact ⟨retained, rfl⟩
    · exact ⟨r, hr⟩
  · exact ⟨r, hr⟩

theorem retainedGroups_keyGen {groupId : B256} {retained : RetainedSecrets}
    (h : Transition.retainedKeyGen s.rollover = some (groupId, retained)) :
    (Transition.retainedGroups s).lookup groupId = some retained := by
  unfold Transition.retainedGroups
  rw [h]
  exact Table.lookup_insert_self _ _ _

theorem retainedKeyGen_unconfirmed {r : RolloverState} {group : Group}
    (h : r.unconfirmed = some group) : Transition.retainedKeyGen r = some (group.id, .all) := by
  cases r with
  | collectingCommitments round =>
      cases hsecrets : round.secrets with
      | observing => simp [RolloverState.unconfirmed, hsecrets] at h
      | participating poap secrets =>
          simp only [RolloverState.unconfirmed, hsecrets, Option.some.injEq] at h
          simp only [Transition.retainedKeyGen, hsecrets, h]
  | collectingShares round =>
      cases hparticipation : round.participation with
      | observing commitments => simp [RolloverState.unconfirmed, hparticipation] at h
      | participating sharingState =>
          simp only [RolloverState.unconfirmed, hparticipation, Option.some.injEq] at h
          simp only [Transition.retainedKeyGen, hparticipation, h]
  | collectingConfirmations round =>
      cases hparticipation : round.participation with
      | observing commitments => simp [RolloverState.unconfirmed, hparticipation] at h
      | participating sharingState =>
          cases hstatus : round.status with
          | confirmed keyShare => simp [RolloverState.unconfirmed, hparticipation, hstatus] at h
          | observing =>
              simp only [RolloverState.unconfirmed, hparticipation, hstatus, Option.some.injEq] at h
              simp only [Transition.retainedKeyGen, hparticipation, hstatus, h]
          | collecting shares =>
              simp only [RolloverState.unconfirmed, hparticipation, hstatus, Option.some.injEq] at h
              simp only [Transition.retainedKeyGen, hparticipation, hstatus, h]
  | waitingForGenesis => cases h
  | halted => cases h
  | epochStaged next => cases h
  | epochSkipped next => cases h
  | signingRollover rollover => cases h

theorem retainedKeyGen_confirmed {r : RolloverState} {group : Group} (h : r.confirmed = some group) :
    Transition.retainedKeyGen r = some (group.id, .nonces) := by
  unfold RolloverState.confirmed at h
  split at h
  · rename_i round
    obtain ⟨keyShare, hks, rfl⟩ := Option.map_eq_some_iff.mp h
    have hstatus : round.status = .confirmed keyShare := by
      unfold KeyGenConfirmation.keyShare at hks
      split at hks
      · rename_i heq
        cases hks
        exact heq
      · cases hks
    simp only [Transition.retainedKeyGen, hstatus]
  · obtain ⟨keyShare, hks, rfl⟩ := Option.map_eq_some_iff.mp h
    simp only [Transition.retainedKeyGen, hks, Option.map_some]
  · cases h

theorem Kept.retains (h : Kept s) : Retains (Transition.retainedGroups s) s where
  sessions := by
    intro m session hx
    obtain ⟨epoch, he, -⟩ := h.belong m session hx
    obtain ⟨r, hr⟩ := retainedGroups_epochs he
    exact ⟨epoch, r, he, hr⟩
  epochs := fun e epoch he => retainedGroups_epochs he
  confirmed := fun group hgroup => ⟨_, retainedGroups_keyGen (retainedKeyGen_confirmed hgroup)⟩
  unconfirmed := fun group hgroup => retainedGroups_keyGen (retainedKeyGen_unconfirmed hgroup)

/-- A new block drops an epoch only if it is before the active one. -/
theorem newBlock_keeps_epochs {block : Nat} {epoch : Epoch} (h : s.epochs.lookup e = some epoch)
    (hactive : (t.newBlock s block).1.activeEpoch ≤ e) :
    (t.newBlock s block).1.epochs.lookup e = some epoch := by
  -- the clock and the timeouts leave the epochs alone
  have hrollover : (t.handleRolloverNewBlock s block).1.epochs = s.epochs := by
    have hactivate : ∀ target, (Transition.activate s target).epochs = s.epochs := by
      intro target
      unfold Transition.activate
      split
      · rfl
      · rfl
    unfold Transition.handleRolloverNewBlock
    split
    · rfl
    · dsimp only
      split
      · rfl
      · split
        · exact hactivate _
        · exact hactivate _
  refine Table.lookup_filter_eq_some.mpr ⟨?_, decide_eq_true ?_⟩
  · exact (congrArg (Table.lookup · e) hrollover).trans h
  · exact (oldestEpoch_le_active _).trans hactive

/--
**A validator keeps the groups and keys that its sessions and its key generation need.**  In every
reachable state a session is about an epoch of the state and carries its group and key share.  No
epoch is ever registered with anything else.  The reconciliation of a new block retains the
groups of the sessions left, of the active epoch and of every later one, and everything of a key
generation that this validator has no key share of yet.
-/
theorem groups_and_keys_are_retained (t : Transition) (messages : List Message) :
    let s := final t.applyTransition State.default messages
    (∀ m session, s.signing.lookup m = some session →
      ∃ epoch, s.epochs.lookup session.packet.epoch = some epoch ∧
        ∀ groupId keyShare, session.signer? = some (groupId, keyShare) →
          groupId = epoch.group.id ∧ keyShare = epoch.keyShare) ∧
    (∀ later e epoch epoch', s.epochs.lookup e = some epoch →
      (final t.applyTransition s later).epochs.lookup e = some epoch' → epoch' = epoch) ∧
    ∀ block, let after := t.applyTransition s (.newBlock block)
      (∃ groups, .effect (.reconcileGroupSecrets block groups) ∈ after.2) ∧
      (∀ block' groups, .effect (.reconcileGroupSecrets block' groups) ∈ after.2 →
        Retains groups after.1) ∧
      ∀ e epoch, s.epochs.lookup e = some epoch → after.1.activeEpoch ≤ e →
        after.1.epochs.lookup e = some epoch := by
  intro s
  have hkept : Kept s :=
    final_invariant kept_default (fun _ message h => h.applyTransition t message) messages
  refine ⟨?_, ?_, ?_⟩
  · intro m session hx
    obtain ⟨epoch, he, hsigner⟩ := hkept.belong m session hx
    refine ⟨epoch, he, fun groupId keyShare hs => ?_⟩
    have heq := hsigner _ hs
    exact ⟨congrArg Prod.fst heq, congrArg Prod.snd heq⟩
  · intro later e epoch epoch' he he'
    have hreg : Registered e epoch s :=
      ⟨hkept.past e epoch he, fun x hx => Option.some.inj (hx.symm.trans he)⟩
    have hlater : Registered e epoch (final t.applyTransition s later) := by
      refine final_invariant hreg (fun s' message h => ?_) later
      exact Changes.preserves (fun _ _ hchange h => h.change hchange)
        (Changes.applyTransition t s' message) h
    exact hlater.2 epoch' he'
  · intro block after
    refine ⟨⟨_, reconciliation_of_newBlock.mpr ⟨rfl, rfl⟩⟩, ?_, ?_⟩
    · intro block' groups h
      obtain ⟨-, rfl⟩ := reconciliation_of_newBlock.mp h
      exact (hkept.applyTransition t (.newBlock block)).retains
    · intro e epoch he hactive
      exact newBlock_keeps_epochs he hactive

end Safenet.Validator
