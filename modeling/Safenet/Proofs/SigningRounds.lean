/-
What a signing session goes back to.

A session signs for the ceremony that was started for its message, and the nonces that it has collected
were committed to in that ceremony.  Both are read off the events, so they are followed over every run
(`followed_final`): a commitment is found through the index of signature ids, which gives the session of
its own ceremony (`Linked`).  A signature share is only emitted for such a session (`signShare_emitted`).
-/
import Safenet.Proofs.KeyShares

namespace Safenet.Validator

open Contracts.Coordinator (SignNonces)
open SigningState

variable {t : Transition} {messages : List Message} {message : Message} {s s' : State}

/-! ### What a session has read -/

/-- Every commitment was published in the ceremony, and verified. -/
def Gathered (messages : List Message) (sid : B256) (committed : Table Address CommittedNonces) : Prop :=
  ∀ p n, committed.lookup p = some n → ∃ nonces : SignNonces,
    Heard messages (.signCommittedNonces sid p nonces) ∧ verifyCommittedNonces p nonces = .ok n

/-- The ceremony of a session was started for its message, and its nonces are of that ceremony. -/
def FollowsCeremony (messages : List Message) (m : B256) : SigningState → Prop
  | .waitingForRequest _ => True
  | .waitingForOracle session => Heard messages (.sign session.groupId m session.signatureId)
  | .collectNonceCommitments session =>
      Heard messages (.sign session.groupId m session.signatureId) ∧
        Gathered messages session.signatureId session.committed
  | .collectSigningShares session =>
      Heard messages (.sign session.groupId m session.signatureId) ∧
        Gathered messages session.signatureId session.committed
  | .waitingForAttestation _ => True

def Followed (messages : List Message) (s : State) : Prop :=
  ∀ m x, s.signing.lookup m = some x → FollowsCeremony messages m x

theorem Gathered.concat {sid : B256} {committed : Table Address CommittedNonces}
    (h : Gathered messages sid committed) : Gathered (messages ++ [message]) sid committed := by
  intro p n hn
  obtain ⟨nonces, hheard, hverified⟩ := h p n hn
  exact ⟨nonces, hheard.concat, hverified⟩

theorem gathered_empty {sid : B256} : Gathered messages sid .empty := fun _ _ h => by cases h

theorem FollowsCeremony.concat {m : B256} {x : SigningState} (h : FollowsCeremony messages m x) :
    FollowsCeremony (messages ++ [message]) m x := by
  cases x with
  | waitingForRequest session => trivial
  | waitingForOracle session => exact Heard.concat h
  | collectNonceCommitments session => exact ⟨h.1.concat, h.2.concat⟩
  | collectSigningShares session => exact ⟨h.1.concat, h.2.concat⟩
  | waitingForAttestation session => trivial

theorem Followed.concat (h : Followed messages s) : Followed (messages ++ [message]) s :=
  fun m x hx => (h m x hx).concat

/-! ### One session -/

theorem follows_requested {session : WaitingForRequest} {m sid : B256} {block : Nat}
    (h : Heard messages (.sign session.groupId m sid)) :
    FollowsCeremony messages m (t.requested session sid block).1 := by
  unfold Transition.requested
  split
  · exact h
  · exact ⟨h, gathered_empty⟩

theorem gathered_addNonces {session : CollectNonceCommitments} {participant : Address} {nonces : SignNonces}
    (h : Gathered messages session.signatureId session.committed)
    (hheard : Heard messages (.signCommittedNonces session.signatureId participant nonces)) :
    Gathered messages session.signatureId (Transition.addNonces session participant nonces) := by
  unfold Transition.addNonces
  split
  · split
    · next n _ hverified =>
      intro p n' hn
      rw [Table.lookup_insert] at hn
      split at hn
      · next hp =>
        cases hn
        rw [hp]
        exact ⟨nonces, hheard, hverified⟩
      · exact h p n' hn
    · exact h
  · exact h

theorem follows_nonceCommitted {session : CollectNonceCommitments} {m : B256} {block : Nat}
    {participant : Address} {nonces : SignNonces} (h : FollowsCeremony messages m (.collectNonceCommitments session))
    (hheard : Heard messages (.signCommittedNonces session.signatureId participant nonces)) :
    FollowsCeremony messages m (t.nonceCommitted session m block participant nonces).1 := by
  have hgathered := gathered_addNonces h.2 hheard
  unfold Transition.nonceCommitted
  dsimp only
  split
  · exact ⟨h.1, hgathered⟩
  · exact ⟨h.1, hgathered⟩

theorem follows_timedOut {block : Nat} {m : B256} {x x' : SigningState} (h : FollowsCeremony messages m x)
    (hkept : (t.timedOut block m x).kept = some x') : FollowsCeremony messages m x' := by
  unfold Transition.timedOut at hkept
  split at hkept
  · cases hkept
    exact h
  · cases x with
    | waitingForRequest session =>
        dsimp only at hkept
        unfold Transition.requestTimedOut at hkept
        split at hkept
        · cases hkept
        · dsimp only at hkept
          split at hkept
          · cases hkept
          · cases hkept
            trivial
    | waitingForOracle session => cases hkept
    | collectNonceCommitments session =>
        dsimp only at hkept
        unfold Transition.noncesTimedOut at hkept
        split at hkept
        · cases hkept
        · cases hkept
          exact h
    | collectSigningShares session =>
        dsimp only at hkept
        unfold Transition.sharesTimedOut at hkept
        dsimp only at hkept
        split at hkept
        · cases hkept
        · cases hkept
          trivial
    | waitingForAttestation session => cases hkept

/-! ### One message -/

theorem Followed.of_signing (h : Followed messages s) (hsigning : s'.signing = s.signing) :
    Followed messages s' := by
  intro m x hx
  rw [hsigning] at hx
  exact h m x hx

theorem Followed.insert (h : Followed messages s) {m : B256} {x : SigningState} (hx : FollowsCeremony messages m x)
    (hsigning : s'.signing = s.signing.insert m x) : Followed messages s' := by
  intro m' x' hx'
  rw [hsigning, Table.lookup_insert] at hx'
  split at hx'
  · next hm =>
    cases hx'
    rw [hm]
    exact hx
  · exact h m' x' hx'

theorem Followed.erase (h : Followed messages s) {m : B256} (hsigning : s'.signing = s.signing.erase m) :
    Followed messages s' := by
  intro m' x' hx'
  rw [hsigning, Table.lookup_erase] at hx'
  split at hx'
  · cases hx'
  · exact h m' x' hx'

theorem Followed.handleSign (h : Followed messages s) {block : Nat} {gid m sid : B256}
    (hheard : Heard messages (.sign gid m sid)) :
    Followed messages (t.handleSign s block gid m sid).1 := by
  unfold Transition.handleSign
  split
  · split
    · next session hx hgid =>
      exact h.insert (follows_requested (hgid ▸ hheard)) rfl
    · exact h
  · exact h

theorem Followed.handleOracleResult (h : Followed messages s) {block : Nat} {oracle : Address} {m : B256}
    {isApproved : Bool} : Followed messages (t.handleOracleResult s block oracle m isApproved).1 := by
  unfold Transition.handleOracleResult
  split
  · next session hx =>
    split
    · split
      · have hheard : Heard messages (.sign session.groupId m session.signatureId) := h m _ hx
        exact h.insert (x := (t.approved session block).1) ⟨hheard, gathered_empty⟩ rfl
      · exact h.erase rfl
    · exact h
  · exact h

theorem Followed.handleSignCommittedNonces (h : Followed messages s) (hlinked : Linked s) {block : Nat}
    {sid : B256} {participant : Address} {nonces : SignNonces}
    (hheard : Heard messages (.signCommittedNonces sid participant nonces)) :
    Followed messages (t.handleSignCommittedNonces s block sid participant nonces).1 := by
  unfold Transition.handleSignCommittedNonces
  split
  · exact h
  · next m hm =>
    split
    · next session hx =>
      obtain ⟨x, hx', hsid⟩ := (hlinked sid m).mp hm
      cases hx.symm.trans hx'
      cases hsid
      exact h.insert (follows_nonceCommitted (h m _ hx) hheard) rfl
    · exact h

theorem Followed.handleSignShared (h : Followed messages s) {sid root : B256} {participant : Address} :
    Followed messages (Transition.handleSignShared s sid root participant).1 := by
  unfold Transition.handleSignShared
  split
  · exact h
  · next m hm =>
    split
    · next session hx =>
      have hold := h m _ hx
      exact h.insert (x := .collectSigningShares (Transition.shared session root participant))
        ⟨hold.1, hold.2⟩ rfl
    · exact h

theorem Followed.handleSignCompleted (h : Followed messages s) {block : Nat} {sid : B256} :
    Followed messages (t.handleSignCompleted s block sid).1 := by
  unfold Transition.handleSignCompleted
  split
  · exact h
  · next m hm =>
    split
    · next session hx => exact h.insert (x := t.completed session block) trivial rfl
    · exact h

theorem Followed.handleTransactionProposed (h : Followed messages s) {block : Nat} {oracle : Address}
    {epoch : EpochId} {oracleData : Bytes} {tx : SafeTransaction} :
    Followed messages (t.handleTransactionProposed s block oracle epoch oracleData tx).1 := by
  unfold Transition.handleTransactionProposed
  split
  · exact h
  · split
    · dsimp only
      split
      · exact h
      · next participating _ _ _ _ =>
        exact h.insert (x := t.proposalSession participating (.transaction epoch oracle oracleData tx) block)
          trivial rfl
    · exact h

theorem Followed.handleKeyGenConfirmed (h : Followed messages s) {block : Nat} {gid : B256}
    {participant : Address} : Followed messages (t.handleKeyGenConfirmed s block gid participant).1 := by
  unfold Transition.handleKeyGenConfirmed
  split
  · next round hround =>
    split
    · dsimp only
      split
      · exact h.of_signing rfl
      · split
        · refine h.of_signing ?_
          unfold Transition.genesisConfirmed
          dsimp only
          split <;> exact finalizeKeyGen_eq.2.1
        · next proposed hepoch =>
          intro m x hx
          rcases lookup_epochConfirmed hx with hold | ⟨epoch, -, -, rfl⟩
          · exact h m x hold
          · trivial
    · exact h
  · exact h

theorem Followed.handleSignAttested (h : Followed messages s) (m : B256) :
    Followed messages (Transition.handleSignAttested s m).1 :=
  h.erase (handleSignAttested_eq m).2.2.2

theorem Followed.handleEpochStaged (h : Followed messages s) {proposedEpoch : Nat} {groupId : B256} :
    Followed messages (Transition.handleEpochStaged s proposedEpoch groupId).1 := by
  unfold Transition.handleEpochStaged
  split
  · split
    · refine Followed.handleSignAttested ?_ _
      exact h.of_signing finalizeKeyGen_eq.2.1
    · exact h
  · exact h.of_signing rfl
  · exact h

theorem Followed.newBlock (h : Followed messages s) (block : Nat) :
    Followed messages (t.newBlock s block).1 := by
  have hclock : Followed messages (t.handleRolloverNewBlock s block).1 :=
    h.of_signing (Emitted.handleRolloverNewBlock_signing block)
  intro m x hx
  -- the key generation and the reconciliation keep the sessions
  change ((t.handleRolloverNewBlock s block).1.signing.filterMap fun m x =>
    (t.timedOut block m x).kept).lookup m = some x at hx
  rw [Table.lookup_filterMap] at hx
  obtain ⟨old, hold, hkept⟩ := Option.bind_eq_some_iff.mp hx
  exact follows_timedOut (hclock m old hold) hkept

theorem Followed.onEvent (h : Followed messages s) (hlinked : Linked s) (block : Nat) (oracle : Address)
    {event : Event} (hheard : Heard messages event) :
    Followed messages (t.onEvent s block oracle event).1 := by
  cases event with
  | keyGen gid => exact h.of_signing rfl
  | keyGenCommitted gid participant commitment => exact h.of_signing rfl
  | keyGenSecretShared gid participant share => exact h.of_signing rfl
  | keyGenConfirmed gid participant => exact h.handleKeyGenConfirmed
  | keyGenComplained gid plaintiff accused => exact h.of_signing rfl
  | keyGenComplaintResponded gid plaintiff accused secretShare => exact h.of_signing rfl
  | epochStaged proposedEpoch gid signatureId => exact h.handleEpochStaged
  | sign gid m sid => exact h.handleSign hheard
  | signCommittedNonces sid participant nonces => exact h.handleSignCommittedNonces hlinked hheard
  | signShared sid root participant => exact h.handleSignShared
  | signCompleted sid => exact h.handleSignCompleted
  | transactionProposed eventOracle epoch oracleData tx => exact h.handleTransactionProposed
  | transactionAttested safeTxHash eventOracle epoch oracleDataHash sid =>
      exact h.handleSignAttested (t.consensus.transactionProposalHash t.externals.keccak256
        (.fromRaw epoch) eventOracle oracleDataHash safeTxHash)
  | oracleResult requestId isApproved => exact h.handleOracleResult
  | other => exact h

theorem Followed.onResume (h : Followed messages s) (result : Resume) :
    Followed messages (t.onResume s result).1 := by
  cases result with
  | noop => exact h
  | setup groupId secrets => exact h.of_signing rfl
  | nonceCommitments signatureId nonces =>
      show Followed messages (Transition.handleNonceCommitments s signatureId nonces).1
      unfold Transition.handleNonceCommitments
      split
      · split <;> exact h
      · exact h
  | nonces m nonces =>
      have hsame : (t.onResume s (.nonces m nonces)).1 = s := Changes.handleNonces m nonces
      rw [hsame]
      exact h

/-! ### Every run -/

/-- What the crate documents of key generation covers the thresholds. -/
theorem GeneratesKeys.keepsThreshold {crate : FrostCrate} (hcrate : GeneratesKeys crate) :
    KeepsThreshold crate where
  part2 := fun h => (hcrate.part2 h).2.2.2.1
  part3 := fun h => (hcrate.part3 h).2.1

/-- A run with fresh signature ids whose messages keep the promises. -/
structure Orderly (t : Transition) (messages : List Message) : Prop where
  fresh : (messages.filterMap signedId).Nodup
  promised : ∀ st ∈ Trace.trace t.applyTransition State.default messages, Promised t st.input st.pre

theorem Orderly.before {later : List Message} (h : Orderly t (messages ++ later)) : Orderly t messages where
  fresh := by
    have hfresh := h.fresh
    rw [List.filterMap_append] at hfresh
    exact hfresh.of_append_left
  promised := fun st hst => h.promised st (by
    rw [Trace.trace_append]
    exact List.mem_append_left _ hst)

/-- What a further message leaves true, further messages do. -/
theorem append_of_concat {P : List Message → Prop}
    (hP : ∀ messages message, P messages → P (messages ++ [message])) (h : P messages) (later : List Message) :
    P (messages ++ later) := by
  induction later using List.reverseRecOn with
  | nil => rwa [List.append_nil]
  | append_singleton later message ih =>
      rw [← List.append_assoc]
      exact hP _ _ ih

/-- **In every reachable state the sessions follow their ceremonies.** -/
theorem followed_final (hcrate : KeepsThreshold t.externals.toFrostCrate) (h : Orderly t messages) :
    Followed messages (Trace.final t.applyTransition State.default messages) := by
  induction messages using List.reverseRecOn with
  | nil => exact fun m x hx => by cases hx
  | append_singleton messages message ih =>
      have hs : Followed (messages ++ [message]) (Trace.final t.applyTransition State.default messages) :=
        (ih h.before).concat
      have hlinked := (tracked_final hcrate messages h.before.fresh h.before.promised).1.linked
      rw [Trace.final_concat]
      cases message with
      | newBlock block => exact hs.newBlock block
      | event log => exact hs.onEvent hlinked log.block.number log.address heard_last
      | resume result => exact hs.onResume result

/-- What a signature share is made of, in the state that it is emitted in. -/
structure Signing (t : Transition) (messages : List Message) (s : State) (sid : B256) (share : SignatureShare)
    (m : B256) (session : CollectSigningShares) (epoch : Epoch) (nonces : SigningNonces) : Prop where
  round : s.signing.lookup m = some (.collectSigningShares session)
  named : session.signatureId = sid
  registered : s.epochs.lookup session.packet.epoch = some epoch
  group : epoch.group.id = session.groupId
  held : Held t messages epoch.group session.keyShare
  started : Heard messages (.sign session.groupId m sid)
  gathered : Gathered messages sid session.committed
  resumed : .resume (.nonces m nonces) ∈ messages
  made : signatureShare t.externals.toFrostCrate t.externals.keccak256 session.keyShare nonces
    session.committed m = .ok share

/-- The command that submits a share comes from a signing round with resumed nonces. -/
theorem Emitted.of_signShare {c : Command} (h : Emitted t message s s' c) {sid : B256}
    {share : SignatureShare} {callback : Callback} {deadline : Nat}
    (hc : c = .action (.signShare sid share callback deadline)) :
    ∃ m session nonces, s'.signing.lookup m = some (.collectSigningShares session) ∧
      session.signatureId = sid ∧ message = .resume (.nonces m nonces) ∧
      signatureShare t.externals.toFrostCrate t.externals.keccak256 session.keyShare nonces
        session.committed m = .ok share := by
  cases h with
  | share hx hmessage hshare =>
      cases hc
      exact ⟨_, _, _, hx, rfl, hmessage, hshare⟩
  | keyGen hkeyGen =>
      subst hc
      cases hkeyGen
  | attest hx =>
      simp only [Core.Command.action.injEq, Packet.attestationAction] at hc
      split at hc <;> cases hc
  | reconcile => cases hc
  | generate => cases hc
  | use => cases hc
  | commit => cases hc
  | sign => cases hc

/-- **A signature share is only emitted in the signing round of a ceremony that was started.** -/
theorem signShare_emitted (hcrate : GeneratesKeys t.externals.toFrostCrate) (hsamples : Samples t messages)
    (horderly : Orderly t messages) {st : Trace.Step State Message (List Command)}
    (hst : st ∈ Trace.trace t.applyTransition State.default messages) {sid : B256} {share : SignatureShare}
    {callback : Callback} {deadline : Nat}
    (hout : .action (.signShare sid share callback deadline) ∈ st.out) :
    ∃ m session epoch nonces, Signing t messages st.post sid share m session epoch nonces := by
  obtain ⟨before, after, hrun⟩ := List.append_of_mem hst
  obtain ⟨js, ks, rfl, -, htake, -⟩ := Trace.trace_split t.applyTransition messages hrun
  rw [show js ++ st.input :: ks = js ++ [st.input] ++ ks by simp] at hsamples horderly ⊢
  have hpost : st.post = Trace.final t.applyTransition State.default (js ++ [st.input]) := by
    rw [Trace.final_concat, htake]
    rfl
  have hemitted : Emitted t st.input st.pre st.post (.action (.signShare sid share callback deadline)) := by
    rw [htake] at hout ⊢
    exact Emitted.applyTransition hout
  have hfollowed := followed_final hcrate.keepsThreshold horderly.before
  have hheld : StateHeld t (js ++ [st.input]) _ := stateHeld_final hcrate fun gid secrets h =>
    hsamples gid secrets (List.mem_append_left _ h)
  have hkept := kept_final t (js ++ [st.input])
  rw [← hpost] at hfollowed hheld hkept
  obtain ⟨m, session, nonces, hx, hsid, hmessage, hshare⟩ := hemitted.of_signShare rfl
  obtain ⟨hstarted, hgathered⟩ := hfollowed m _ hx
  obtain ⟨epoch, hepoch, hsame⟩ := hkept.belong m _ hx
  have hpair := hsame _ rfl
  simp only [Prod.mk.injEq] at hpair
  obtain ⟨hgroup, hkeyShare⟩ := hpair
  rw [hsid] at hstarted hgathered
  have hepochHeld : Held t (js ++ [st.input]) epoch.group session.keyShare := hkeyShare ▸ hheld.epochs _ _ hepoch
  refine ⟨m, session, epoch, nonces, hx, hsid, hepoch, hgroup.symm, ?_, ?_, ?_, ?_, hshare⟩
  · exact append_of_concat (P := (Held t · epoch.group session.keyShare)) (fun _ _ h => h.concat) hepochHeld ks
  · exact append_of_concat (P := (Heard · _)) (fun _ _ h => h.concat) hstarted ks
  · exact append_of_concat (P := (Gathered · sid session.committed)) (fun _ _ h => h.concat) hgathered ks
  · exact List.mem_append_left _ (List.mem_append_right _ (hmessage ▸ List.mem_cons_self))

end Safenet.Validator
