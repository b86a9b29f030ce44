/-
No transaction is signed before its oracle approved it.

The approval is not stored: it is implied by the stage of a session (`Beyond`) and, once a ceremony
is restarted, by the flag of its request.  `Gate` ties both to an approving result among the
messages so far.
-/
import Safenet.Proofs.Sessions

namespace Safenet.Validator

open RolloverState SigningState Trace

/-! ### Vocabulary -/

/-- The oracle approved the request in one of the messages. -/
def ApprovedIn (messages : List Message) (m : B256) (oracle : Address) : Prop :=
  ∃ log, Core.Message.event log ∈ messages ∧ log.data = .oracleResult m true ∧ log.address = oracle

/-- The session of a message asks for the command. -/
inductive AsksFor (m : B256) : SigningState → Command → Prop
  | generate {session : CollectNonceCommitments} : AsksFor m (.collectNonceCommitments session)
      (.effect (.generateNonces session.groupId session.signatureId session.keyShare))
  | use {session : CollectSigningShares} : AsksFor m (.collectSigningShares session)
      (.effect (.useNonces m session.signatureId))
  | commit {session : CollectNonceCommitments} {nonces : Contracts.Coordinator.SignNonces}
      {expiresAt : Nat} : AsksFor m (.collectNonceCommitments session)
      (.action (.commitNonces session.signatureId nonces expiresAt))
  | share {session : CollectSigningShares} {share : SignatureShare} {callback : Callback}
      {expiresAt : Nat} : AsksFor m (.collectSigningShares session)
      (.action (.signShare session.signatureId share callback expiresAt))

/-- The commands that only a session past its oracle may ask for. -/
def Gated : Command → Bool
  | .effect (.generateNonces _ _ _) => true
  | .effect (.useNonces _ _) => true
  | .action (.commitNonces _ _ _) => true
  | .action (.signShare _ _ _ _) => true
  | _ => false

/-- The session is past its oracle. -/
def Beyond : SigningState → Prop
  | .waitingForRequest session => session.oracleApproved = true
  | .waitingForOracle _ => False
  | _ => True

/-- What the messages so far must hold for a session of a transaction. -/
structure Gate (t : Transition) (messages : List Message) (m : B256) (x : SigningState) : Prop where
  awaits : ∀ session epoch oracle oracleData tx, x = .waitingForOracle session →
    session.packet = .transaction epoch oracle oracleData tx → session.oracle = oracle
  vouched : ∀ epoch oracle oracleData tx, x.packet = .transaction epoch oracle oracleData tx →
    oracle ∈ t.config.oracles ∧ m = t.packetHash x.packet
  approved : ∀ epoch oracle oracleData tx, x.packet = .transaction epoch oracle oracleData tx →
    Beyond x → ApprovedIn messages m oracle

/-! ### The gate of one session -/

variable {t : Transition} {message : Message} {s₀ s s' : State} {messages : List Message} {m : B256}
  {x x' : SigningState}

theorem ApprovedIn.mono {messages' : List Message} {oracle : Address} (hle : messages ⊆ messages')
    (h : ApprovedIn messages m oracle) : ApprovedIn messages' m oracle := by
  obtain ⟨log, hmem, hdata, hlog⟩ := h
  exact ⟨log, hle hmem, hdata, hlog⟩

theorem Gate.mono {messages' : List Message} (hle : messages ⊆ messages') (h : Gate t messages m x) :
    Gate t messages' m x where
  awaits := h.awaits
  vouched := h.vouched
  approved := fun epoch oracle oracleData tx hp hb => (h.approved epoch oracle oracleData tx hp hb).mono hle

/-- A session with the same packet that is no further than before. -/
theorem Gate.continue (h : Gate t messages m x) (hpacket : x'.packet = x.packet)
    (hbeyond : Beyond x' → Beyond x) (hawaits : ∀ session, x' ≠ .waitingForOracle session) :
    Gate t messages m x' where
  awaits := fun session _ _ _ _ hx => absurd hx (hawaits session)
  vouched := by
    rw [hpacket]
    exact h.vouched
  approved := by
    rw [hpacket]
    exact fun epoch oracle oracleData tx hp hb => h.approved epoch oracle oracleData tx hp (hbeyond hb)

/-- A request goes to the oracle, unless the oracle approved already. -/
theorem Gate.requested {session : WaitingForRequest} {sid : B256} {block : Nat}
    (h : Gate t messages m (.waitingForRequest session)) :
    Gate t messages m (t.requested session sid block).1 := by
  unfold Transition.requested
  split
  · rename_i epoch oracle oracleData tx hpacket happroved
    refine ⟨?_, h.vouched, fun _ _ _ _ _ hb => hb.elim⟩
    rintro _ _ _ _ _ ⟨⟩ hp
    rw [hpacket] at hp
    cases hp
    rfl
  · rename_i hother
    refine ⟨fun _ _ _ _ _ hx => (nomatch hx), h.vouched, fun epoch oracle oracleData tx hp _ => ?_⟩
    refine h.approved epoch oracle oracleData tx hp ?_
    -- a transaction that does not wait was approved
    by_contra hb
    exact hother epoch oracle oracleData tx hp (Bool.eq_false_iff.mpr hb)

theorem Gate.sessionMove (hmove : SessionMove t message s₀ m x x') (hmem : message ∈ messages)
    (h : Gate t messages m x) : Gate t messages m x' := by
  cases hmove with
  | @approved session log hmessage hdata horacle =>
      refine ⟨fun _ _ _ _ _ hx => (nomatch hx), h.vouched, fun epoch oracle oracleData tx hp _ => ?_⟩
      have hawaited := h.awaits session epoch oracle oracleData tx rfl hp
      exact ⟨log, hmessage ▸ hmem, hdata, horacle.trans hawaited⟩
  | nonces =>
      unfold Transition.nonceCommitted
      dsimp only
      split
      · exact h.continue rfl id fun _ hx => nomatch hx
      · exact h.continue rfl id fun _ hx => nomatch hx
  | shared => exact h.continue rfl id fun _ hx => nomatch hx
  | completed => exact h.continue rfl id fun _ hx => nomatch hx

theorem Gate.timedOut {block : Nat} (hkept : (t.timedOut block m x).kept = some x')
    (h : Gate t messages m x) : Gate t messages m x' := by
  have hpacket := (timedOut_continues hkept).1
  unfold Transition.timedOut at hkept
  split at hkept
  · cases hkept
    exact h
  · cases x with
    | waitingForRequest session =>
        dsimp only at hkept
        unfold Transition.requestTimedOut at hkept
        split at hkept
        · cases hkept
        · dsimp only at hkept
          split at hkept
          · cases hkept
          · cases hkept
            exact h.continue hpacket id fun _ hx => nomatch hx
    | waitingForOracle session => cases hkept
    | collectNonceCommitments session =>
        dsimp only at hkept
        unfold Transition.noncesTimedOut at hkept
        split at hkept
        · cases hkept
        · cases hkept
          exact h.continue hpacket id fun _ hx => nomatch hx
    | collectSigningShares session =>
        dsimp only at hkept
        unfold Transition.sharesTimedOut at hkept
        dsimp only at hkept
        split at hkept
        · cases hkept
        · cases hkept
          exact h.continue hpacket (fun _ => trivial) fun _ hx => nomatch hx
    | waitingForAttestation session => cases hkept

/-! ### Every session -/

/-- The gate of every session. -/
def Gates (t : Transition) (messages : List Message) (s : State) : Prop :=
  ∀ m x, s.signing.lookup m = some x → Gate t messages m x

theorem Gates.change (hmem : message ∈ messages) (h : Change t message s₀ s s')
    (hs : Gates t messages s) : Gates t messages s' := by
  intro m x hx
  cases h with
  | rollover => exact hs m x hx
  | genesisConfirmed =>
      rw [finalizeKeyGen_eq.2.1] at hx
      exact hs m x hx
  | begin => exact hs m x hx
  | epochConfirmed =>
      rcases lookup_epochConfirmed hx with hold | ⟨epoch, -, -, rfl⟩
      · exact hs m x hold
      · -- a rollover has no oracle
        exact ⟨fun _ _ _ _ _ hx => (nomatch hx), fun _ _ _ _ hp => (nomatch hp),
          fun _ _ _ _ hp => (nomatch hp)⟩
  | staged =>
      rw [finalizeKeyGen_eq.2.1] at hx
      exact hs m x hx
  | attested =>
      rw [(handleSignAttested_eq _).2.2.2, Table.lookup_erase] at hx
      split at hx
      · cases hx
      · exact hs m x hx
  | recovered => exact hs m x hx
  | due => exact hs m x hx
  | session hy hmove =>
      rw [Table.lookup_insert] at hx
      split at hx
      · rename_i hm
        cases hx
        subst hm
        exact (hs _ _ hy).sessionMove hmove hmem
      · exact hs m x hx
  | requested _ _ hy =>
      rw [Table.lookup_insert] at hx
      split at hx
      · rename_i hm
        cases hx
        subst hm
        exact (hs _ _ hy).requested
      · exact hs m x hx
  | rejected =>
      rw [Table.lookup_erase] at hx
      split at hx
      · cases hx
      · exact hs m x hx
  | proposed hepoch horacle =>
      rw [Table.lookup_insert] at hx
      split at hx
      · rename_i hm
        cases hx
        refine ⟨fun _ _ _ _ _ hx => (nomatch hx), ?_, fun _ _ _ _ _ hb => absurd hb Bool.false_ne_true⟩
        rintro _ _ _ _ ⟨⟩
        exact ⟨horacle, hm⟩
      · exact hs m x hx
  | timeouts =>
      obtain ⟨y, hy, hkept⟩ := lookup_handleSigningTimeouts hx
      exact (hs m y hy).timedOut hkept
  | reaped => exact hs m x hx

theorem gates_final (t : Transition) (messages : List Message) :
    Gates t messages (final t.applyTransition State.default messages) := by
  induction messages using List.reverseRecOn with
  | nil => exact fun _ _ h => nomatch h
  | append_singleton messages message ih =>
      rw [final_concat]
      have hbefore : Gates t (messages ++ [message])
          (final t.applyTransition State.default messages) := fun m x hx =>
        (ih m x hx).mono (List.subset_append_left _ _)
      exact Changes.preserves (fun _ _ hchange h => h.change (by simp) hchange)
        (Changes.applyTransition t _ message) hbefore

/-- A gated command is asked for by a session of the state after the message. -/
theorem asksFor_of_emitted {c : Command} (h : Emitted t message s s' c) (hgated : Gated c = true) :
    ∃ m x, s'.signing.lookup m = some x ∧ AsksFor m x c := by
  cases h with
  | keyGen hc => cases hc <;> cases hgated
  | reconcile => cases hgated
  | generate hx => exact ⟨_, _, hx, .generate⟩
  | use hx => exact ⟨_, _, hx, .use⟩
  | commit hx => exact ⟨_, _, hx, .commit⟩
  | share hx => exact ⟨_, _, hx, .share⟩
  | sign => cases hgated
  | @attest m session deadline hx =>
      unfold Packet.attestationAction at hgated
      split at hgated
      · cases hgated
      · cases hgated

theorem AsksFor.beyond {c : Command} (h : AsksFor m x c) : Beyond x := by
  cases h with
  | generate => trivial
  | use => trivial
  | commit => trivial
  | share => trivial

/--
**Nothing is signed for a transaction before its oracle approved it.**  After any messages, whenever
a further message makes the validator generate or use nonces, commit them or publish a share, it
does so for a session.  If the session is about a transaction, its oracle is configured, its message
is the hash of the packet, and one of the messages so far is an approving result of that oracle for
it.  The flag of a restarted ceremony is only set after such an approval.
-/
theorem oracle_gate (t : Transition) (earlier : List Message) (message : Message) :
    let s := final t.applyTransition State.default earlier
    let after := t.applyTransition s message
    (∀ c ∈ after.2, Gated c = true →
      (∃ m x, after.1.signing.lookup m = some x ∧ AsksFor m x c) ∧
      ∀ m x, after.1.signing.lookup m = some x → AsksFor m x c →
        ∀ epoch oracle oracleData tx, x.packet = .transaction epoch oracle oracleData tx →
          oracle ∈ t.config.oracles ∧
          m = t.consensus.transactionPacketHash t.externals.keccak256 epoch oracle oracleData tx ∧
          ApprovedIn (earlier ++ [message]) m oracle) ∧
    ∀ m session, s.signing.lookup m = some (.waitingForRequest session) →
      session.oracleApproved = true →
      ∀ epoch oracle oracleData tx, session.packet = .transaction epoch oracle oracleData tx →
        ApprovedIn earlier m oracle := by
  intro s after
  have hafter : after.1 = final t.applyTransition State.default (earlier ++ [message]) :=
    (final_concat t.applyTransition State.default earlier message).symm
  constructor
  · intro c hc hgated
    refine ⟨asksFor_of_emitted (Emitted.applyTransition hc) hgated, ?_⟩
    intro m x hx hasks epoch oracle oracleData tx hp
    rw [hafter] at hx
    have hgate := gates_final t (earlier ++ [message]) m x hx
    obtain ⟨horacle, hm⟩ := hgate.vouched epoch oracle oracleData tx hp
    rw [hp] at hm
    exact ⟨horacle, hm, hgate.approved epoch oracle oracleData tx hp hasks.beyond⟩
  · intro m session hx happroved epoch oracle oracleData tx hp
    exact (gates_final t earlier m _ hx).approved epoch oracle oracleData tx hp happroved

end Safenet.Validator
