/-
Two validators that follow the same chain agree on their signing sessions.

Sessions that were opened by the same message stay equal up to the key share, because a message
does the same to both of them, and the rollover machines stay in step.
-/
import Safenet.Proofs.Lockstep

namespace Safenet.Validator

open RolloverState SigningState Trace

variable {t : Transition} {message : Message} {s : State} {m : B256} {x : SigningState}

/-! ### Two validators of one network -/

/-- Both validators open a session for `m` at the same input, as members of one signing group. -/
structure OpenTogether (t : Transition) (a b : Address) (m : B256) (inputs : List NetInput)
    (input : NetInput) : Prop where
  vacant : (stateOf t inputs a).signing.lookup m = none
  vacant' : (stateOf t inputs b).signing.lookup m = none
  opened : ∃ x y e e', (stateOf t (inputs ++ [input]) a).signing.lookup m = some x ∧
    (stateOf t (inputs ++ [input]) b).signing.lookup m = some y ∧
    (stateOf t inputs a).epochs.lookup x.packet.epoch = some e ∧
    (stateOf t inputs b).epochs.lookup y.packet.epoch = some e' ∧ e.group = e'.group

/-- Both validators opened a session for `m` at the same input, and have tracked it since. -/
inductive Shared (t : Transition) (a b : Address) (m : B256) : List NetInput → Prop
  | opened {inputs : List NetInput} {input : NetInput} (h : OpenTogether t a b m inputs input) :
      Shared t a b m (inputs ++ [input])
  | kept {inputs : List NetInput} {input : NetInput} (h : Shared t a b m inputs)
      (ha : (stateOf t (inputs ++ [input]) a).signing.lookup m ≠ none)
      (hb : (stateOf t (inputs ++ [input]) b).signing.lookup m ≠ none) :
      Shared t a b m (inputs ++ [input])

/-- What the chain, the hash function and the effect handlers promise two validators. -/
structure NetPromised (t : Transition) (a b : Address) (inputs : List NetInput) : Prop where
  /-- Signature ids are not used twice. -/
  fresh : ∀ c, c = a ∨ c = b → ((view c inputs).filterMap signedId).Nodup
  promised : ∀ c, c = a ∨ c = b →
    ∀ st ∈ trace (t.withAccount c).applyTransition State.default (view c inputs),
      Promised (t.withAccount c) st.input st.pre
  /-- The hash of a proposed transaction is not the one of the rollover being signed. -/
  proposals : ∀ {before log after oracle epoch oracleData tx}, inputs = before ++ .event log :: after →
    log.data = .transactionProposed oracle epoch oracleData tx → ∀ c, c = a ∨ c = b →
    ¬ Signs (t.packetHash (.transaction (.fromRaw epoch) oracle oracleData tx)) (stateOf t before c)
  /-- Rollovers with the same hash are the same. -/
  rollovers : ∀ {before after round round' proposed proposed'}, inputs = before ++ after →
    (stateOf t before a).rollover = .collectingConfirmations round →
    (stateOf t before b).rollover = .collectingConfirmations round' →
    round.nextEpoch = .number proposed → round'.nextEpoch = .number proposed' →
    t.rolloverMessage (stateOf t before a).activeEpoch round proposed =
      t.rolloverMessage (stateOf t before b).activeEpoch round' proposed' →
    (t.rolloverPacket (stateOf t before a).activeEpoch round proposed).hashed =
      (t.rolloverPacket (stateOf t before b).activeEpoch round' proposed').hashed

section Network

variable {a b : Address} {inputs : List NetInput} {input : NetInput}

theorem view_append (c : Address) (before after : List NetInput) :
    view c (before ++ after) = view c before ++ view c after := List.filterMap_append

/-- The promises hold of every part of a run. -/
theorem NetPromised.before {after : List NetInput} (h : NetPromised t a b (inputs ++ after)) :
    NetPromised t a b inputs where
  fresh := by
    intro c hc
    have hall := h.fresh c hc
    rw [view_append, List.filterMap_append] at hall
    exact hall.of_append_left
  promised := by
    intro c hc st hst
    refine h.promised c hc st ?_
    rw [view_append, trace_append]
    exact List.mem_append_left _ hst
  proposals := by
    intro before log after' oracle epoch oracleData tx heq hdata
    have hall : inputs ++ after = before ++ .event log :: (after' ++ after) := by
      rw [heq]
      simp
    exact h.proposals hall hdata
  rollovers := by
    intro before after' round round' proposed proposed' heq
    have hall : inputs ++ after = before ++ (after' ++ after) := by
      rw [heq]
      simp
    exact h.rollovers hall

theorem NetPromised.symm (h : NetPromised t a b inputs) : NetPromised t b a inputs where
  fresh := fun c hc => h.fresh c hc.symm
  promised := fun c hc => h.promised c hc.symm
  proposals := fun heq hdata c hc => h.proposals heq hdata c hc.symm
  rollovers := fun heq hround hround' hnext hnext' hhash =>
    (h.rollovers heq hround' hround hnext' hnext hhash.symm).symm

variable (hcrate : KeepsThreshold t.externals.toFrostCrate)

include hcrate in
theorem NetPromised.tracked (h : NetPromised t a b inputs) {c : Address} (hc : c = a ∨ c = b) :
    Tracked (t.withAccount c) (stateOf t inputs c) :=
  (tracked_final (t := t.withAccount c) hcrate (view c inputs) (h.fresh c hc) (h.promised c hc)).1

/-- The message that a validator receives next keeps the promises. -/
theorem NetPromised.next (h : NetPromised t a b (inputs ++ [input])) {c : Address} (hc : c = a ∨ c = b)
    (hmessage : input.messageTo c = some message) :
    Promised (t.withAccount c) message (stateOf t inputs c) := by
  refine h.promised c hc (take (t.withAccount c).applyTransition (stateOf t inputs c) message) ?_
  have hview : view c (inputs ++ [input]) = view c inputs ++ [message] := by
    rw [view_append]
    congr 1
    exact List.filterMap_cons_some hmessage
  rw [hview, trace_concat]
  exact List.mem_append_right _ (List.mem_singleton.mpr rfl)

/-- Both sessions are there and agree, and the rollover machines are in step. -/
def InSession (m : B256) (s s' : State) : Prop :=
  ∃ x y, s.signing.lookup m = some x ∧ s'.signing.lookup m = some y ∧ Agrees x y ∧ InStep m s s'

/-- What a validator's session becomes when a message reaches it. -/
theorem evolve_of_lookup (h : NetPromised t a b (inputs ++ [input])) (hs : Tracked (t.withAccount a)
    (stateOf t inputs a)) (hmessage : input.messageTo a = some message)
    (hx : (stateOf t inputs a).signing.lookup m = some x)
    (hstaged : ¬ StagedFor (stateOf t inputs a) m message) :
    (stateOf t (inputs ++ [input]) a).signing.lookup m = (t.withAccount a).evolve m x message := by
  rw [stateOf_concat, hmessage]
  exact lookup_applyTransition hs (h.next (.inl rfl) hmessage) hx hstaged

theorem InSession.symm {s s' : State} (h : InSession m s s') : InSession m s' s := by
  obtain ⟨x, y, hx, hy, hagrees, hstep⟩ := h
  exact ⟨y, x, hy, hx, hagrees.symm, hstep.symm⟩

include hcrate in
/-- A block or an event that one of them keeps the session through evolves both sessions. -/
theorem InStep.chain_evolve {x y : SigningState} (h : NetPromised t a b (inputs ++ [input]))
    (hmessage : ∀ c, input.messageTo c = some message)
    (hstep : InStep m (stateOf t inputs a) (stateOf t inputs b))
    (hx : (stateOf t inputs a).signing.lookup m = some x)
    (hy : (stateOf t inputs b).signing.lookup m = some y)
    (ha : (stateOf t (inputs ++ [input]) a).signing.lookup m ≠ none) :
    (stateOf t (inputs ++ [input]) a).signing.lookup m = (t.withAccount a).evolve m x message ∧
      (stateOf t (inputs ++ [input]) b).signing.lookup m = (t.withAccount b).evolve m y message := by
  have hstaged : ¬ StagedFor (stateOf t inputs a) m message := by
    intro hstaged
    refine ha ?_
    rw [stateOf_concat, hmessage a]
    exact lookup_of_stagedFor hstaged
  constructor
  · exact evolve_of_lookup h (h.before.tracked hcrate (.inl rfl)) (hmessage a) hx hstaged
  · exact evolve_of_lookup h.symm (h.before.tracked hcrate (.inr rfl)) (hmessage b) hy
      (hstep.stagedFor.not.mp hstaged)

include hcrate in
/-- A block or an event that both keep the session through. -/
theorem InSession.chain (h : NetPromised t a b (inputs ++ [input]))
    (hmessage : ∀ c, input.messageTo c = some message)
    (hin : InSession m (stateOf t inputs a) (stateOf t inputs b))
    (ha : (stateOf t (inputs ++ [input]) a).signing.lookup m ≠ none)
    (hb : (stateOf t (inputs ++ [input]) b).signing.lookup m ≠ none) :
    InSession m (stateOf t (inputs ++ [input]) a) (stateOf t (inputs ++ [input]) b) := by
  obtain ⟨x, y, hx, hy, hagrees, hstep⟩ := hin
  obtain ⟨hevolve, hevolve'⟩ := hstep.chain_evolve hcrate h hmessage hx hy ha
  obtain ⟨x', hx'⟩ := Option.ne_none_iff_exists'.mp ha
  obtain ⟨y', hy'⟩ := Option.ne_none_iff_exists'.mp hb
  refine ⟨x', y', hx', hy', hagrees.evolve (hevolve.symm.trans hx') (hevolve'.symm.trans hy'), ?_⟩
  rw [stateOf_concat, stateOf_concat, hmessage a, hmessage b]
  exact hstep.applyTransition (h.before.tracked hcrate (.inl rfl)) (h.before.tracked hcrate (.inr rfl))
    (h.next (.inl rfl) (hmessage a)) (h.next (.inr rfl) (hmessage b)) hx hy

include hcrate in
/-- A resume of one of the two. -/
theorem InSession.resume (hab : a ≠ b) {result : Resume}
    (h : NetPromised t a b (inputs ++ [.resume a result]))
    (hin : InSession m (stateOf t inputs a) (stateOf t inputs b)) :
    InSession m (stateOf t (inputs ++ [.resume a result]) a)
      (stateOf t (inputs ++ [.resume a result]) b) := by
  obtain ⟨x, y, hx, hy, hagrees, hstep⟩ := hin
  have hs := h.before.tracked hcrate (.inl rfl)
  have hmessage : (NetInput.resume a result).messageTo a = some (.resume result) := if_pos rfl
  have hother : (NetInput.resume a result).messageTo b = none := if_neg hab
  have hstaged : ¬ StagedFor (stateOf t inputs a) m (.resume result) := by
    rintro ⟨log, proposedEpoch, signatureId, rollover, heq, -⟩
    cases heq
  have hevolve := evolve_of_lookup h hs hmessage hx hstaged
  have hstays : stateOf t (inputs ++ [.resume a result]) b = stateOf t inputs b := by
    rw [stateOf_concat, hother]
  refine ⟨x, y, hevolve, hstays ▸ hy, hagrees, ?_⟩
  rw [hstays, stateOf_concat, hmessage]
  exact hstep.resume hs (h.next (.inl rfl) hmessage) hx

/-- An input that reaches neither of the two. -/
theorem stateOf_unreached (hmessage : input.messageTo a = none) :
    stateOf t (inputs ++ [input]) a = stateOf t inputs a := by
  rw [stateOf_concat, hmessage]

include hcrate in
theorem InSession.step (hab : a ≠ b) (h : NetPromised t a b (inputs ++ [input]))
    (hin : InSession m (stateOf t inputs a) (stateOf t inputs b))
    (ha : (stateOf t (inputs ++ [input]) a).signing.lookup m ≠ none)
    (hb : (stateOf t (inputs ++ [input]) b).signing.lookup m ≠ none) :
    InSession m (stateOf t (inputs ++ [input]) a) (stateOf t (inputs ++ [input]) b) := by
  cases input with
  | newBlock number => exact hin.chain hcrate h (fun c => rfl) ha hb
  | event log => exact hin.chain hcrate h (fun c => rfl) ha hb
  | resume c result =>
      by_cases hc : c = a
      · subst hc
        exact hin.resume hcrate hab h
      · by_cases hc' : c = b
        · subst hc'
          exact (hin.symm.resume hcrate hab.symm h.symm).symm
        · have hnone : (NetInput.resume c result).messageTo a = none := if_neg hc
          have hnone' : (NetInput.resume c result).messageTo b = none := if_neg hc'
          rw [stateOf_unreached hnone, stateOf_unreached hnone']
          exact hin

/-- Sessions of one group that start with the same packet agree. -/
theorem Tracked.sameThreshold {s s' : State} (hs : Tracked (t.withAccount a) s)
    (hs' : Tracked (t.withAccount b) s') {i i' : EpochId} {e e' : Epoch} (he : s.epochs.lookup i = some e)
    (he' : s'.epochs.lookup i' = some e') (hgroup : e.group = e'.group) :
    e.keyShare.groupThreshold = e'.keyShare.groupThreshold := by
  rw [(hs.epochs i e he).2.2, (hs'.epochs i' e' he').2.2, hgroup]

theorem NetInput.eq_event {c : Address} {log : Core.EventLog Event}
    (h : input.messageTo c = some (.event log)) : input = .event log := by
  cases input with
  | newBlock number => cases h
  | event log' => cases h; rfl
  | resume c' result =>
      change (if c' = c then some (Core.Message.resume result) else none) = _ at h
      split at h
      · cases h
      · cases h

theorem proposalSession_agrees {e e' : Epoch} (hgroup : e.group = e'.group)
    (hthreshold : e.keyShare.groupThreshold = e'.keyShare.groupThreshold) {packet : Packet} {block : Nat} :
    Agrees ((t.withAccount a).proposalSession e packet block)
      ((t.withAccount b).proposalSession e' packet block) := by
  refine ⟨t.proposalSession e packet block, e.keyShare, e'.keyShare, hthreshold, rfl, ?_⟩
  unfold Transition.proposalSession
  rw [hgroup]
  rfl

theorem rolloverSession_agrees {e e' : Epoch} (hgroup : e.group = e'.group)
    (hthreshold : e.keyShare.groupThreshold = e'.keyShare.groupThreshold) (packet : Packet)
    (participant : Address) (block : Nat) :
    Agrees ((t.withAccount a).rolloverSession e packet participant block)
      ((t.withAccount b).rolloverSession e' packet participant block) := by
  refine ⟨t.rolloverSession e packet participant block, e.keyShare, e'.keyShare, hthreshold, rfl, ?_⟩
  unfold Transition.rolloverSession
  rw [hgroup]
  rfl

/-- The hash leaves out the group id of a rollover only. -/
theorem rolloverPacket_ext {e e' : EpochId} {round round' : CollectingConfirmations} {p p' : ℕ+}
    (h : (t.rolloverPacket e round p).hashed = (t.rolloverPacket e' round' p').hashed)
    (hid : round.group.id = round'.group.id) :
    t.rolloverPacket e round p = t.rolloverPacket e' round' p' := by
  obtain ⟨he, hp, hblock, -, hkey⟩ := Packet.epochRollover.inj h
  unfold Transition.rolloverPacket
  rw [he, hp, hid, hkey]

include hcrate in
/-- The sessions agree when they are opened. -/
theorem OpenTogether.inSession (h : NetPromised t a b (inputs ++ [input]))
    (hopen : OpenTogether t a b m inputs input)
    (hmessage : ∀ c, input.messageTo c = some message) :
    InSession m (stateOf t (inputs ++ [input]) a) (stateOf t (inputs ++ [input]) b) := by
  have hs := h.before.tracked hcrate (.inl rfl)
  have hs' := h.before.tracked hcrate (.inr rfl)
  obtain ⟨x, y, e, e', hx, hy, he, he', hgroup⟩ := hopen.opened
  refine ⟨x, y, hx, hy, ?_⟩
  rw [stateOf_concat, hmessage] at hx hy
  rw [stateOf_concat, hmessage, stateOf_concat, hmessage]
  have hthreshold := hs.sameThreshold hs' he he' hgroup
  have hopening := opening_applyTransition hopen.vacant hx
  have hopening' := opening_applyTransition hopen.vacant' hy
  cases hopening with
  | @proposed log oracle epoch oracleData tx participating hdata hm hepoch hrollover =>
      cases hopening' with
      | @proposed _ _ _ _ _ participating' hdata' hm' hepoch' hrollover' =>
          rw [hdata, Event.transactionProposed.injEq] at hdata'
          obtain ⟨rfl, rfl, rfl, rfl⟩ := hdata'
          obtain rfl : participating = e := Option.some.inj (hepoch.symm.trans he)
          obtain rfl : participating' = e' := Option.some.inj (hepoch'.symm.trans he')
          have hnot : ∀ c, c = a ∨ c = b → ¬ Signs m (stateOf t inputs c) := by
            intro c hc
            rw [hm]
            rw [NetInput.eq_event (hmessage a)] at h
            exact h.proposals rfl hdata c hc
          refine ⟨proposalSession_agrees hgroup hthreshold, .inr ⟨?_, ?_⟩⟩
          · rintro ⟨rollover, hr, hmessage⟩
            exact hnot a (.inl rfl) ⟨rollover, hrollover.symm.trans hr, hmessage⟩
          · rintro ⟨rollover, hr, hmessage⟩
            exact hnot b (.inr rfl) ⟨rollover, hrollover'.symm.trans hr, hmessage⟩
      | confirmed hdata' =>
          rw [hdata] at hdata'
          cases hdata'
  | @confirmed log round proposed participant epoch hdata hround hnext hm hepoch hrollover =>
      cases hopening' with
      | proposed hdata' =>
          rw [hdata] at hdata'
          cases hdata'
      | @confirmed _ round' proposed' participant' epoch' hdata' hround' hnext' hm' hepoch' hrollover' =>
          rw [hdata, Event.keyGenConfirmed.injEq] at hdata'
          obtain ⟨hid, rfl⟩ := hdata'
          obtain rfl : epoch = e := Option.some.inj (hepoch.symm.trans he)
          obtain rfl : epoch' = e' := Option.some.inj (hepoch'.symm.trans he')
          have hhashed := h.rollovers rfl hround hround' hnext hnext' (hm.symm.trans hm')
          have hpacket := rolloverPacket_ext hhashed hid
          refine ⟨?_, .inl ⟨_, _, hrollover, hrollover', rfl, rfl, ?_, hid⟩⟩
          · have hagrees := rolloverSession_agrees (t := t) (a := a) (b := b) hgroup hthreshold
              (t.rolloverPacket (stateOf t inputs a).activeEpoch round proposed) participant
              log.block.number
            nth_rewrite 2 [hpacket] at hagrees
            exact hagrees
          · exact (Packet.epochRollover.inj hpacket).2.1

include hcrate in
/-- **The sessions of two validators agree for as long as both track them.** -/
theorem Shared.inSession (hab : a ≠ b) (hshared : Shared t a b m inputs) (h : NetPromised t a b inputs) :
    InSession m (stateOf t inputs a) (stateOf t inputs b) := by
  induction hshared with
  | @opened inputs input hopen =>
      cases input with
      | newBlock number => exact hopen.inSession hcrate h fun c => rfl
      | event log => exact hopen.inSession hcrate h fun c => rfl
      | resume c result =>
          -- a resume opens no session
          obtain ⟨x, y, e, e', hx, -⟩ := hopen.opened
          by_cases hc : c = a
          · have hmessage : (NetInput.resume c result).messageTo a = some (.resume result) := if_pos hc
            rw [stateOf_concat, hmessage] at hx
            cases opening_applyTransition hopen.vacant hx
          · have hnone : (NetInput.resume c result).messageTo a = none := if_neg hc
            rw [stateOf_unreached hnone, hopen.vacant] at hx
            cases hx
  | kept hshared ha hb ih => exact (ih h.before).step hcrate hab h ha hb

include hcrate in
/-- A block or an event that only one of the two keeps the session through is a timeout. -/
theorem InSession.chain_dropped (h : NetPromised t a b (inputs ++ [input]))
    (hmessage : ∀ c, input.messageTo c = some message)
    (hin : InSession m (stateOf t inputs a) (stateOf t inputs b))
    (ha : (stateOf t (inputs ++ [input]) a).signing.lookup m ≠ none)
    (hb : (stateOf t (inputs ++ [input]) b).signing.lookup m = none) :
    ∃ y number, (stateOf t inputs b).signing.lookup m = some y ∧ message = .newBlock number ∧
      y.deadline ≤ number ∧ b ∉ y.survivors := by
  obtain ⟨x, y, hx, hy, hagrees, hstep⟩ := hin
  obtain ⟨hevolve, hevolve'⟩ := hstep.chain_evolve hcrate h hmessage hx hy ha
  obtain ⟨x', hx'⟩ := Option.ne_none_iff_exists'.mp ha
  obtain ⟨number, hnumber, hlate, hout⟩ :=
    hagrees.evolve_none (hevolve.symm.trans hx') (hevolve'.symm.trans hb)
  exact ⟨y, number, hy, hnumber, hlate, hout⟩

include hcrate in
/-- A validator that drops a shared session does not survive a timeout. -/
theorem InSession.dropped (h : NetPromised t a b (inputs ++ [input]))
    (hin : InSession m (stateOf t inputs a) (stateOf t inputs b))
    (ha : (stateOf t (inputs ++ [input]) a).signing.lookup m ≠ none)
    (hb : (stateOf t (inputs ++ [input]) b).signing.lookup m = none) :
    ∃ y number, (stateOf t inputs b).signing.lookup m = some y ∧ input = .newBlock number ∧
      y.deadline ≤ number ∧ b ∉ y.survivors := by
  cases input with
  | newBlock block =>
      obtain ⟨y, number, hy, heq, hlate⟩ := hin.chain_dropped hcrate h (fun c => rfl) ha hb
      cases heq
      exact ⟨y, block, hy, rfl, hlate⟩
  | event log =>
      obtain ⟨y, number, hy, heq, hlate⟩ := hin.chain_dropped hcrate h (fun c => rfl) ha hb
      cases heq
  | resume c result =>
      obtain ⟨x, y, -, hy, -⟩ := hin
      by_cases hc : c = b
      · have hs' := h.before.tracked hcrate (.inr rfl)
        have hmessage : (NetInput.resume c result).messageTo b = some (.resume result) := if_pos hc
        have hstaged : ¬ StagedFor (stateOf t inputs b) m (.resume result) := by
          rintro ⟨log, proposedEpoch, signatureId, rollover, heq, -⟩
          cases heq
        have hevolve := evolve_of_lookup h.symm hs' hmessage hy hstaged
        rw [hb] at hevolve
        cases hevolve
      · have hnone : (NetInput.resume c result).messageTo b = none := if_neg hc
        rw [stateOf_unreached hnone, hy] at hb
        cases hb

/-- A session in the shares round that is over asks to sign again only if it was the last signer. -/
theorem sign_of_newBlock {block : Nat} {session : CollectSigningShares}
    (hx : s.signing.lookup m = some (.collectSigningShares session)) (hlate : session.deadline ≤ block)
    {gid : B256} {expiresAt : Nat}
    (hc : .action (.sign gid m expiresAt) ∈ (t.newBlock s block).2) :
    (Transition.canonicalSelection session).lastSigner = some t.account := by
  have hsigning : .action (.sign gid m expiresAt) ∈
      s.signing.rows.flatMap fun row => (t.timedOut block row.1 row.2).commands := by
    unfold Transition.newBlock at hc
    dsimp only at hc
    rcases List.mem_append.mp hc with hc | hc
    · rcases List.mem_append.mp hc with hc | hc
      · rcases List.mem_append.mp hc with hc | hc
        · cases AllKeyGen.handleRolloverNewBlock s block _ hc
        · cases AllKeyGen.keyGenTimeouts _ block _ hc
      · change _ ∈ (t.handleRolloverNewBlock s block).1.signing.rows.flatMap _ at hc
        rw [Emitted.handleRolloverNewBlock_signing] at hc
        exact hc
    · cases List.mem_singleton.mp hc
  obtain ⟨⟨m', x'⟩, hrow, hc⟩ := List.mem_flatMap.mp hsigning
  have hm : m' = m := by
    rcases mem_timedOut hc with ⟨session, -, heq⟩ | ⟨session, -, heq⟩ | ⟨session, -, heq⟩
    · cases heq
      rfl
    · cases heq
    · cases hp : session.packet with
      | epochRollover activeEpoch proposedEpoch rolloverBlock groupId groupKey =>
          rw [hp] at heq
          cases heq
      | transaction epoch oracle oracleData tx =>
          rw [hp] at heq
          cases heq
  subst hm
  have hx' : s.signing.lookup m' = some x' := Table.lookup_eq_some.mpr hrow
  rw [hx, Option.some.injEq] at hx'
  subst hx'
  change _ ∈ (if block < session.deadline then _ else t.sharesTimedOut session m' block).commands at hc
  rw [if_neg (not_lt.mpr hlate)] at hc
  unfold Transition.sharesTimedOut at hc
  dsimp only at hc
  split at hc
  · cases hc
  · split at hc
    · rename_i hlast
      exact hlast
    · cases hc

/-- So only one of two validators asks. -/
theorem InSession.sign_unique {s s' : State} (hab : a ≠ b) (hin : InSession m s s') {block : Nat}
    {session : CollectSigningShares} (hx : s.signing.lookup m = some (.collectSigningShares session))
    (hlate : session.deadline ≤ block) {gid gid' : B256} {expiresAt expiresAt' : Nat}
    (hc : .action (.sign gid m expiresAt) ∈ ((t.withAccount a).newBlock s block).2)
    (hc' : .action (.sign gid' m expiresAt') ∈ ((t.withAccount b).newBlock s' block).2) : False := by
  obtain ⟨x, y, hx', hy, ⟨z, k, k', hk, hz, hz'⟩, -⟩ := hin
  rw [hx, Option.some.injEq] at hx'
  rw [← hx'] at hz
  cases z with
  | collectSigningShares shares =>
      obtain rfl := SigningState.collectSigningShares.inj hz
      have hlast := sign_of_newBlock hx hlate hc
      rw [hz'] at hy
      have hlast' := sign_of_newBlock hy hlate hc'
      rw [canonicalSelection_withKeyShare hk, hlast', Option.some.injEq] at hlast
      exact hab hlast.symm
  | waitingForRequest shares => cases hz
  | waitingForOracle shares => cases hz
  | collectNonceCommitments shares => cases hz
  | waitingForAttestation shares => cases hz

end Network

/--
**Two validators that follow the same chain agree on their signing sessions.**  They have the same
configuration and different accounts, and see the same blocks and events; each gets its own resumes,
at any point.  Take a message for which both open a session at the same input, with the group of the
epoch in common.  As long as both track it, their sessions differ in the key share only.  One of
them drops a session that the other keeps only at a timeout, if it is not among the signers that are
still in.  When the shares round times out, at most one of them requests a new signature.
-/
theorem signing_sessions_agree (t : Transition) (hcrate : KeepsThreshold t.externals.toFrostCrate)
    (a b : Address) (hab : a ≠ b) (inputs : List NetInput) (hnet : NetPromised t a b inputs) (m : B256) :
    (∀ before after, inputs = before ++ after → Shared t a b m before →
      ∃ x y, (stateOf t before a).signing.lookup m = some x ∧
        (stateOf t before b).signing.lookup m = some y ∧ Agrees x y) ∧
    (∀ before input after, inputs = before ++ input :: after → Shared t a b m before →
      (stateOf t (before ++ [input]) a).signing.lookup m ≠ none →
      (stateOf t (before ++ [input]) b).signing.lookup m = none →
      ∃ y number, (stateOf t before b).signing.lookup m = some y ∧ input = .newBlock number ∧
        y.deadline ≤ number ∧ b ∉ y.survivors) ∧
    ∀ before number after, inputs = before ++ .newBlock number :: after → Shared t a b m before →
      ∀ session, (stateOf t before a).signing.lookup m = some (.collectSigningShares session) →
        session.deadline ≤ number → ∀ gid gid' expiresAt expiresAt',
        .action (.sign gid m expiresAt) ∈ commandsOf t before (.newBlock number) a →
        .action (.sign gid' m expiresAt') ∉ commandsOf t before (.newBlock number) b := by
  refine ⟨?_, ?_, ?_⟩
  · rintro before after rfl hshared
    obtain ⟨x, y, hx, hy, hagrees, -⟩ := hshared.inSession hcrate hab hnet.before
    exact ⟨x, y, hx, hy, hagrees⟩
  · rintro before input after rfl hshared ha hb
    have hnext : NetPromised t a b (before ++ [input] ++ after) := by
      rw [List.append_assoc]
      exact hnet
    exact (hshared.inSession hcrate hab hnet.before).dropped hcrate hnext.before ha hb
  · rintro before number after rfl hshared session hx hlate gid gid' expiresAt expiresAt' hc hc'
    exact (hshared.inSession hcrate hab hnet.before).sign_unique hab hx hlate hc hc'

/-! ### A network that shares a session -/

open Contracts.Secp256k1 (zero) in
/-- A crate that accepts what participants with zero secrets publish. -/
def honestCrate : FrostCrate where
  identifier := Contracts.toWord
  verifiedPublicKey := fun package _ => .ok package.publicKey
  ecdh := fun _ _ share => share
  verifyProofOfKnowledge := fun _ _ _ => .ok ⟨⟩
  part2 := fun secret peers => .ok
    (⟨secret.identifier, secret.commitment, 0, secret.minSigners, secret.maxSigners⟩,
      peers.rows.foldl (fun packages row => packages.insert row.1 ⟨0⟩) .empty)
  part3 := fun secret _ _ => .ok ⟨secret.identifier, 0, zero, zero, secret.minSigners⟩
  sumCommitments := fun _ => .ok []
  verifyingKey := fun _ => .ok zero
  verifyingShare := fun _ _ => zero
  verifySecretShare := fun _ _ _ => .ok ⟨⟩
  sign := fun _ _ _ => .error .other
  bindingFactors := fun _ _ => .error .other
  interpolatingValue := fun _ _ => .error .other
  commitmentShare := fun commitments _ => commitments.hidingPoint
  signingCommitment := fun _ _ => .error .other

/-- The group of three with that crate. -/
def trioNetwork : Transition :=
  { trioValidator with
    externals := { honestCrate with keccak256 := trioValidator.externals.keccak256 } }

open Contracts.Secp256k1 (zero) in
def zeroSecrets (a : Address) : Secrets where
  encryptionKey := 0
  encryptionPackage := ⟨zero, ⟨zero, 0⟩⟩
  secretPackage := ⟨Contracts.toWord a, [0, 0], [zero, zero], 2, 3⟩
  proofOfKnowledge := ⟨zero, 0⟩

def netEvent (block : Nat) (data : Event) : NetInput := .event ⟨⟨block, 0⟩, 0, 0xc1, data⟩

open Contracts.Secp256k1 (zero) in
/-- The genesis ceremony of the group. -/
def trioCeremony : List NetInput :=
  [netEvent 1 (.keyGen trioGid), .resume 1 (.setup trioGid (zeroSecrets 1)),
    .resume 2 (.setup trioGid (zeroSecrets 2))] ++
  [1, 2, 3].map (fun a => netEvent 2 (.keyGenCommitted trioGid a (zeroSecrets a).commitment)) ++
  [1, 2, 3].map (fun a => netEvent 3 (.keyGenSecretShared trioGid a ⟨zero, [0, 0]⟩)) ++
  [1, 2, 3].map (fun a => netEvent 4 (.keyGenConfirmed trioGid a))

def trioTransaction : SafeTransaction := ⟨1, 2, 3, 4, [], .call, 0, 0, 0, 0, 0, 7⟩

/-- A transaction is proposed to the genesis group. -/
def trioProposal : NetInput := netEvent 5 (.transactionProposed 0xa 0 [] trioTransaction)

def trioMessage : B256 := trioNetwork.packetHash (.transaction .genesis 0xa [] trioTransaction)

/-- The machine neither signs a numbered rollover nor is about to, and a group has threshold two. -/
def State.quiet (s : State) : Bool :=
  match s.rollover with
  | .signingRollover _ => false
  | .collectingConfirmations round => round.nextEpoch == .genesis
  | .collectingCommitments round => round.group.threshold == 2
  | _ => true

/-- A setup for threshold two, and no share. -/
def plainMessage : Message → Bool
  | .resume (.setup _ secrets) => secrets.secretPackage.minSigners == 2
  | .event log =>
      match log.data with
      | .signShared _ _ _ => false
      | _ => true
  | _ => true

private theorem trio_quiet : (List.range 14).all (fun n =>
    (stateOf trioNetwork ((trioCeremony ++ [trioProposal]).take n) 1).quiet &&
      (stateOf trioNetwork ((trioCeremony ++ [trioProposal]).take n) 2).quiet) = true := by
  decide +kernel

private theorem trio_steps (c : Address) (hc : c = 1 ∨ c = 2) :
    ((trace (trioNetwork.withAccount c).applyTransition State.default
      (view c (trioCeremony ++ [trioProposal]))).all
        fun st => st.pre.quiet && plainMessage st.input) = true := by
  rcases hc with rfl | rfl
  · decide +kernel
  · decide +kernel

/-- The session of the message is for the genesis epoch. -/
private theorem trio_sessions (c : Address) (hc : c = 1 ∨ c = 2) :
    (stateOf trioNetwork trioCeremony c).signing.lookup trioMessage = none ∧
      ((stateOf trioNetwork (trioCeremony ++ [trioProposal]) c).signing.lookup trioMessage).map
        (fun x => x.packet.epoch) = some .genesis ∧
      ((stateOf trioNetwork trioCeremony c).epochs.lookup .genesis).map Epoch.group =
        some (trioNetwork.genesis.group trioNetwork.externals.keccak256) := by
  rcases hc with rfl | rfl
  · decide +kernel
  · decide +kernel

theorem promised_of_quiet (hs : s.quiet = true) (hmessage : plainMessage message = true) :
    Promised t message s where
  members := by
    rintro log sid root participant m x epoch rfl hdata
    simp [plainMessage, hdata] at hmessage
  setup := by
    rintro round secrets rfl hrollover
    unfold State.quiet at hs
    rw [hrollover] at hs
    exact (beq_iff_eq.mp hmessage).trans (beq_iff_eq.mp hs).symm
  distinct := by
    intro m x round proposed hx hrollover hepoch
    unfold State.quiet at hs
    rw [hrollover] at hs
    dsimp only at hs
    rw [hepoch] at hs
    cases beq_iff_eq.mp hs

/-- Every state of the run is quiet. -/
private theorem trio_before {before after : List NetInput} (h : trioCeremony ++ [trioProposal] = before ++ after)
    (c : Address) (hc : c = 1 ∨ c = 2) : (stateOf trioNetwork before c).quiet = true := by
  have hlength : (trioCeremony ++ [trioProposal]).length = 13 := rfl
  rw [h, List.length_append] at hlength
  have hquiet := List.all_eq_true.mp trio_quiet before.length (List.mem_range.mpr (by omega))
  rw [h, List.take_left, Bool.and_eq_true] at hquiet
  rcases hc with rfl | rfl
  · exact hquiet.1
  · exact hquiet.2

private theorem trio_promised : NetPromised trioNetwork 1 2 (trioCeremony ++ [trioProposal]) where
  fresh := by
    rintro c (rfl | rfl)
    · decide +kernel
    · decide +kernel
  promised := by
    intro c hc st hst
    have hstep := List.all_eq_true.mp (trio_steps c hc) st hst
    rw [Bool.and_eq_true] at hstep
    exact promised_of_quiet hstep.1 hstep.2
  proposals := by
    rintro before log after oracle epoch oracleData tx heq - c hc ⟨rollover, hrollover, -⟩
    have hquiet := trio_before heq c hc
    unfold State.quiet at hquiet
    rw [hrollover] at hquiet
    cases hquiet
  rollovers := by
    intro before after round round' proposed proposed' heq hround _ hnext
    have hquiet := trio_before heq 1 (.inl rfl)
    unfold State.quiet at hquiet
    rw [hround] at hquiet
    dsimp only at hquiet
    rw [hnext] at hquiet
    cases beq_iff_eq.mp hquiet

private theorem trio_shared :
    Shared trioNetwork 1 2 trioMessage (trioCeremony ++ [trioProposal]) := by
  obtain ⟨hvacant, hsession, hgroup⟩ := trio_sessions 1 (.inl rfl)
  obtain ⟨hvacant', hsession', hgroup'⟩ := trio_sessions 2 (.inr rfl)
  obtain ⟨x, hx, hepoch⟩ := Option.map_eq_some_iff.mp hsession
  obtain ⟨y, hy, hepoch'⟩ := Option.map_eq_some_iff.mp hsession'
  obtain ⟨e, he, heq⟩ := Option.map_eq_some_iff.mp hgroup
  obtain ⟨e', he', heq'⟩ := Option.map_eq_some_iff.mp hgroup'
  refine .opened ⟨hvacant, hvacant', x, y, e, e', hx, hy, ?_, ?_, heq.trans heq'.symm⟩
  · rw [hepoch]
    exact he
  · rw [hepoch']
    exact he'

private theorem honestCrate_keepsThreshold : KeepsThreshold trioNetwork.externals.toFrostCrate where
  part2 := by
    rintro secret packages result ⟨⟩
    rfl
  part3 := by
    rintro secret round1 round2 key ⟨⟩
    rfl

/-- Validators 1 and 2 open sessions for a proposed transaction, and these agree. -/
theorem trioSessions_agree :
    ∃ x y, (stateOf trioNetwork (trioCeremony ++ [trioProposal]) 1).signing.lookup trioMessage = some x ∧
      (stateOf trioNetwork (trioCeremony ++ [trioProposal]) 2).signing.lookup trioMessage = some y ∧
      Agrees x y :=
  (signing_sessions_agree trioNetwork honestCrate_keepsThreshold 1 2 (by decide)
    (trioCeremony ++ [trioProposal]) trio_promised trioMessage).1 _ [] (List.append_nil _).symm trio_shared

end Safenet.Validator
