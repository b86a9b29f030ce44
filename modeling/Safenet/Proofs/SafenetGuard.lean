/-
Who may pass the transaction guard.

`Returns` says what each call that does not revert does, one constructor for each way
through the guard.  `Outstanding` ties the storage to the history: an entry of the
announcements that is not deleted comes from an announcement of that Safe with that
hash, made before, whose window it holds, and which no later call cancelled or
consumed.  The two together give `check_authorised`, the soundness of
`checkTransaction` over whole runs, and `checkTransaction_frame`, that a call made for
one Safe does not change the answer any other Safe gets.
-/
import Mathlib.Data.Set.Function
import Safenet.Lib.Trace
import Safenet.Contracts.SafenetGuard

namespace Safenet.Contracts.SafenetGuard

open Fallible TransactionAnnouncement

variable {crypto : Crypto} {imm : Immutables}

/-- A step of the guard in a run. -/
abbrev GuardStep := Trace.Step State (Env × Call) (Except Error (List Event))

/-! ### What a call that returns does -/

/-- The attestation in the signatures verifies for a known key, over the transaction at its nonce. -/
def Attested (crypto : Crypto) (imm : Immutables) (state : State) (env : Env) (args : CheckArgs)
    (safeNonce : Option B256) : Prop :=
  ∃ (attestation : AttestationTrailer.Attestation) (next nonce : B256),
    AttestationTrailer.decode crypto.keccak256 args.signatures = .ok attestation ∧
    EpochRollover.isKnown state.epochs attestation.groupKey attestation.epoch = true ∧
    safeNonce = some next ∧ next.toNat = nonce.toNat + 1 ∧
    crypto.verify attestation.groupKey attestation.signature
      (ConsensusMessages.transactionProposal crypto.keccak256 imm.consensusDomainSeparator
        attestation.epoch attestation.oracle attestation.oracleDataHash
        (SafeTransaction.hash crypto.keccak256 (safeTransaction env args.tx nonce))) = true

/-- The state with one entry of the announcements written. -/
def State.write (state : State) (safe : Address) (txHash : B256) (window : Window) : State :=
  { state with announcements := set state.announcements safe txHash window }

/-- The window of an announcement made at a time. -/
def announcedWindow (imm : Immutables) (timestamp : Nat) : Window :=
  ⟨timestamp + imm.allowTxDelay, timestamp + imm.allowTxDelay + imm.allowTxWindow⟩

/-- A call that returned, with the state and the events it leaves. -/
inductive Returns (crypto : Crypto) (imm : Immutables) (state : State) (env : Env) :
    Call → State → List Event → Prop
  | epoch {parentKey newGroupKey : Secp256k1.Point}
      {parentEpoch proposedEpoch rolloverBlock : BitVec 64} {signature : FROST.Signature}
      {epochs : EpochRollover.Entries} {events : List Event}
      (hroll : EpochRollover.rollover crypto state.epochs imm.consensusDomainSeparator parentKey
        parentEpoch proposedEpoch rolloverBlock newGroupKey signature = .ok (epochs, events)) :
      Returns crypto imm state env
        (.updateEpoch parentKey parentEpoch proposedEpoch rolloverBlock newGroupKey signature)
        { state with epochs } events
  | announced {tx : AnnouncedTransaction} :
      Returns crypto imm state env (.announceTransaction tx)
        (state.write env.sender (hash crypto.keccak256 tx) (announcedWindow imm env.timestamp))
        [.transactionAnnounced env.sender (hash crypto.keccak256 tx)
          (announcedWindow imm env.timestamp).activeFrom
          (announcedWindow imm env.timestamp).activeUntil]
  | cancelled {announcementHash : B256} :
      Returns crypto imm state env (.cancelAnnouncement announcementHash)
        (state.write env.sender announcementHash noWindow)
        [.announcementCancelled env.sender announcementHash]
  | autoAllowed {args : CheckArgs} {safeNonce : Option B256}
      (hauto : isAutoAllowed crypto imm args.tx = true) :
      Returns crypto imm state env (.checkTransaction args safeNonce) state []
  | attested {args : CheckArgs} {safeNonce : Option B256}
      (hattested : Attested crypto imm state env args safeNonce) :
      Returns crypto imm state env (.checkTransaction args safeNonce) state []
  | consumed {args : CheckArgs} {safeNonce : Option B256} {window : Window}
      (hwindow : state.announcements env.sender (hash crypto.keccak256 args.tx) = window)
      (hlive : window.activeFrom ≠ 0) (hstart : window.activeFrom ≤ env.timestamp)
      (hend : env.timestamp ≤ window.activeUntil) :
      Returns crypto imm state env (.checkTransaction args safeNonce)
        (state.write env.sender (hash crypto.keccak256 args.tx) noWindow)
        [.announcementConsumed env.sender (hash crypto.keccak256 args.tx)]

private theorem announce_ok {entries entries' : Entries} {timestamp delay window activeFrom activeUntil : Nat}
    {safe : Address} {txHash : B256}
    (h : announce entries timestamp safe txHash delay window =
      .ok (entries', activeFrom, activeUntil)) :
    activeFrom = timestamp + delay ∧ activeUntil = timestamp + delay + window ∧
      entries' = set entries safe txHash ⟨activeFrom, activeUntil⟩ := by
  unfold announce at h
  obtain ⟨_, -, h⟩ := bind_eq_ok.mp h
  obtain ⟨start, hstart, h⟩ := bind_eq_ok.mp h
  obtain ⟨stop, hstop, h⟩ := bind_eq_ok.mp h
  obtain ⟨_, hfits, h⟩ := bind_eq_ok.mp h
  obtain ⟨-, rfl⟩ := checkedAdd_ok.mp hstart
  obtain ⟨-, rfl⟩ := checkedAdd_ok.mp hstop
  have hfits : timestamp + delay + window ≤ 2 ^ 128 - 1 := by simpa using require_eq_ok.mp hfits
  have heq := pure_eq_ok.mp h
  simp only [Prod.mk.injEq] at heq
  obtain ⟨rfl, rfl, rfl⟩ := heq
  -- the casts to `uint128` lose nothing
  have hfrom : (timestamp + delay) % 2 ^ 128 = timestamp + delay := Nat.mod_eq_of_lt (by omega)
  have huntil : (timestamp + delay + window) % 2 ^ 128 = timestamp + delay + window :=
    Nat.mod_eq_of_lt (by omega)
  exact ⟨rfl, rfl, by rw [hfrom, huntil]⟩

theorem checkAttestation_ok {state : State} {env : Env} {args : CheckArgs}
    {safeNonce : Option B256} {u : PUnit}
    (h : checkAttestation crypto imm state env args safeNonce = .ok u) :
    Attested crypto imm state env args safeNonce := by
  unfold checkAttestation at h
  obtain ⟨attestation, hdecode, h⟩ := bind_eq_ok.mp h
  obtain ⟨_, hknown, h⟩ := bind_eq_ok.mp h
  cases safeNonce with
  | none => exact (throw_eq_ok.mp h).elim
  | some next =>
      obtain ⟨nonce, hnonce, h⟩ := bind_eq_ok.mp h
      obtain ⟨hpos, rfl⟩ := checkedSub_ok.mp hnonce
      refine ⟨attestation, next, BitVec.ofNat 256 (next.toNat - 1), hdecode,
        require_eq_ok.mp hknown, rfl, ?_, require_eq_ok.mp h⟩
      have hlt := next.isLt
      rw [BitVec.toNat_ofNat, Nat.mod_eq_of_lt (by omega)]
      omega

/-- **Every call that returns is one of the ways through the guard.** -/
theorem call_ok {state state' : State} {env : Env} {c : Call} {events : List Event}
    (h : call crypto imm state env c = .ok (state', events)) :
    Returns crypto imm state env c state' events := by
  cases c with
  | updateEpoch parentKey parentEpoch proposedEpoch rolloverBlock newGroupKey signature =>
      obtain ⟨⟨epochs, events'⟩, hroll, h⟩ := bind_eq_ok.mp h
      have heq := pure_eq_ok.mp h
      simp only [Prod.mk.injEq] at heq
      obtain ⟨rfl, rfl⟩ := heq
      exact .epoch hroll
  | announceTransaction tx =>
      obtain ⟨⟨entries, activeFrom, activeUntil⟩, hannounce, h⟩ := bind_eq_ok.mp h
      obtain ⟨rfl, rfl, rfl⟩ := announce_ok hannounce
      have heq := pure_eq_ok.mp h
      simp only [Prod.mk.injEq] at heq
      obtain ⟨rfl, rfl⟩ := heq
      exact .announced
  | cancelAnnouncement announcementHash =>
      obtain ⟨entries, hcancel, h⟩ := bind_eq_ok.mp h
      obtain ⟨_, -, hcancel⟩ := bind_eq_ok.mp hcancel
      have heq := pure_eq_ok.mp h
      simp only [Prod.mk.injEq] at heq
      obtain ⟨rfl, rfl⟩ := heq
      rw [← pure_eq_ok.mp hcancel]
      exact .cancelled
  | checkTransaction args safeNonce =>
      simp only [call, checkTransaction] at h
      split at h
      · rename_i hauto
        have heq := pure_eq_ok.mp h
        simp only [Prod.mk.injEq] at heq
        obtain ⟨rfl, rfl⟩ := heq
        exact .autoAllowed hauto
      · split at h
        · obtain ⟨_, hcheck, h⟩ := bind_eq_ok.mp h
          have heq := pure_eq_ok.mp h
          simp only [Prod.mk.injEq] at heq
          obtain ⟨rfl, rfl⟩ := heq
          exact .attested (checkAttestation_ok hcheck)
        · split at h
          · rename_i entries hconsume
            have heq := pure_eq_ok.mp h
            simp only [Prod.mk.injEq] at heq
            obtain ⟨rfl, rfl⟩ := heq
            unfold consume at hconsume
            dsimp only at hconsume
            split at hconsume
            · rename_i hw
              rw [← Option.some.inj hconsume]
              exact .consumed rfl hw.1 hw.2.1 hw.2.2
            · cases hconsume
          · exact (throw_eq_ok.mp h).elim

theorem State.write_announcements (state : State) (safe safe' : Address) (txHash txHash' : B256)
    (window : Window) :
    (state.write safe txHash window).announcements safe' txHash' =
      if safe' = safe ∧ txHash' = txHash then window else state.announcements safe' txHash' := by
  unfold State.write TransactionAnnouncement.set
  by_cases hs : safe' = safe
  · subst hs
    by_cases ht : txHash' = txHash
    · subst ht
      simp
    · simp [ht]
  · simp [hs]

/-- A rollover leaves every known pair known. -/
theorem rollover_isKnown {entries entries' : EpochRollover.Entries} {domainSeparator : B256}
    {parentKey newGroupKey : Secp256k1.Point} {parentEpoch proposedEpoch rolloverBlock : BitVec 64}
    {signature : FROST.Signature} {events : List Event}
    (h : EpochRollover.rollover crypto entries domainSeparator parentKey parentEpoch proposedEpoch
      rolloverBlock newGroupKey signature = .ok (entries', events))
    {key : Secp256k1.Point} {epoch : BitVec 64}
    (hknown : EpochRollover.isKnown entries key epoch = true) :
    EpochRollover.isKnown entries' key epoch = true := by
  unfold EpochRollover.rollover at h
  obtain ⟨_, -, h⟩ := bind_eq_ok.mp h
  obtain ⟨_, -, h⟩ := bind_eq_ok.mp h
  obtain ⟨_, -, h⟩ := bind_eq_ok.mp h
  obtain ⟨_, -, h⟩ := bind_eq_ok.mp h
  split at h
  · have heq := pure_eq_ok.mp h
    simp only [Prod.mk.injEq] at heq
    rw [← heq.1]
    exact hknown
  · have heq := pure_eq_ok.mp h
    simp only [Prod.mk.injEq] at heq
    rw [← heq.1]
    unfold EpochRollover.isKnown at hknown ⊢
    unfold EpochRollover.record
    by_cases hk : key = newGroupKey
    · subst hk
      by_cases he : epoch = proposedEpoch
      · subst he
        simp
      · simpa [he] using hknown
    · simpa [hk] using hknown

/-- A rollover emits nothing about announcements. -/
theorem rollover_events {entries entries' : EpochRollover.Entries} {domainSeparator : B256}
    {parentKey newGroupKey : Secp256k1.Point} {parentEpoch proposedEpoch rolloverBlock : BitVec 64}
    {signature : FROST.Signature} {events : List Event}
    (h : EpochRollover.rollover crypto entries domainSeparator parentKey parentEpoch proposedEpoch
      rolloverBlock newGroupKey signature = .ok (entries', events)) :
    ∀ event ∈ events, event = .epochRolledOver parentEpoch proposedEpoch parentKey newGroupKey := by
  unfold EpochRollover.rollover at h
  obtain ⟨_, -, h⟩ := bind_eq_ok.mp h
  obtain ⟨_, -, h⟩ := bind_eq_ok.mp h
  obtain ⟨_, -, h⟩ := bind_eq_ok.mp h
  obtain ⟨_, -, h⟩ := bind_eq_ok.mp h
  intro event hevent
  split at h
  · have heq := pure_eq_ok.mp h
    simp only [Prod.mk.injEq] at heq
    rw [← heq.2] at hevent
    cases hevent
  · have heq := pure_eq_ok.mp h
    simp only [Prod.mk.injEq] at heq
    rw [← heq.2] at hevent
    exact List.mem_singleton.mp hevent

/-! ### Announcements and the history -/

/-- The Safe announced the transaction in this step. -/
def Announces (st : GuardStep) (safe : Address) (tx : AnnouncedTransaction) : Prop :=
  st.input.1.sender = safe ∧ st.input.2 = .announceTransaction tx ∧ ∃ events, st.out = .ok events

/-- The step cancelled or consumed the announcement of the Safe with this hash. -/
def Spends (st : GuardStep) (safe : Address) (txHash : B256) : Prop :=
  ∃ events, st.out = .ok events ∧
    (.announcementCancelled safe txHash ∈ events ∨ .announcementConsumed safe txHash ∈ events)

/-- Every entry that is there was announced, and has not been spent since. -/
def Outstanding (crypto : Crypto) (imm : Immutables) (history : List GuardStep) (state : State) :
    Prop :=
  ∀ safe txHash, (state.announcements safe txHash).activeFrom ≠ 0 →
    ∃ prior announcing later tx, history = prior ++ announcing :: later ∧
      Announces announcing safe tx ∧ hash crypto.keccak256 tx = txHash ∧
      state.announcements safe txHash = announcedWindow imm announcing.input.1.timestamp ∧
      ∀ st ∈ later, ¬ Spends st safe txHash

/-- An entry that a step neither writes nor spends keeps its origin. -/
private theorem Outstanding.keep {history : List GuardStep} {state state' : State}
    (h : Outstanding crypto imm history state) {st : GuardStep} {safe : Address} {txHash : B256}
    (hsame : state'.announcements safe txHash = state.announcements safe txHash)
    (hspends : ¬ Spends st safe txHash)
    (hlive : (state'.announcements safe txHash).activeFrom ≠ 0) :
    ∃ prior announcing later tx, history ++ [st] = prior ++ announcing :: later ∧
      Announces announcing safe tx ∧ hash crypto.keccak256 tx = txHash ∧
      state'.announcements safe txHash = announcedWindow imm announcing.input.1.timestamp ∧
      ∀ st ∈ later, ¬ Spends st safe txHash := by
  rw [hsame] at hlive ⊢
  obtain ⟨prior, announcing, later, tx, rfl, hann, hhash, hwindow, hlater⟩ := h safe txHash hlive
  refine ⟨prior, announcing, later ++ [st], tx, by simp, hann, hhash, hwindow, ?_⟩
  intro x hx
  rcases List.mem_append.mp hx with hx | hx
  · exact hlater x hx
  · rw [List.mem_singleton.mp hx]
    exact hspends

/-- The entry a step deletes has no origin to keep. -/
private theorem write_noWindow_live {state : State} {safe safe' : Address} {txHash txHash' : B256}
    (hlive : ((state.write safe txHash noWindow).announcements safe' txHash').activeFrom ≠ 0) :
    ¬ (safe' = safe ∧ txHash' = txHash) := by
  intro heq
  rw [State.write_announcements, if_pos heq] at hlive
  exact hlive rfl

/-- **One call keeps the announcements tied to the history.** -/
theorem outstanding_step {history : List GuardStep} {state : State}
    (h : Outstanding crypto imm history state) (input : Env × Call) :
    Outstanding crypto imm (history ++ [Trace.take (step crypto imm) state input])
      (step crypto imm state input).1 := by
  obtain ⟨env, c⟩ := input
  intro safe txHash hlive
  rcases hout : (step crypto imm state (env, c)).2 with error | events
  · -- a revert changes nothing and spends nothing
    have hsame : (step crypto imm state (env, c)).1 = state := transact_error hout
    refine h.keep (by rw [hsame]) ?_ hlive
    rintro ⟨events, hok, -⟩
    rw [Trace.take_out, hout] at hok
    cases hok
  · have hret := call_ok (transact_ok hout)
    have hspends : ∀ safe' txHash', Spends (Trace.take (step crypto imm) state (env, c))
        safe' txHash' → .announcementCancelled safe' txHash' ∈ events ∨
          .announcementConsumed safe' txHash' ∈ events := by
      rintro safe' txHash' ⟨events', hok, hmem⟩
      rw [Trace.take_out, hout] at hok
      cases hok
      exact hmem
    change ((transact state (call crypto imm state env c)).1.announcements safe
      txHash).activeFrom ≠ 0 at hlive
    show ∃ prior announcing later tx, _ ∧ _ ∧ _ ∧
      (transact state (call crypto imm state env c)).1.announcements safe txHash = _ ∧ _
    generalize (transact state (call crypto imm state env c)).1 = state' at hret hlive ⊢
    cases hret with
    | epoch hroll =>
        refine h.keep rfl (fun hs => ?_) hlive
        rcases hspends safe txHash hs with hm | hm
        · cases rollover_events hroll _ hm
        · cases rollover_events hroll _ hm
    | @announced tx =>
        by_cases heq : safe = env.sender ∧ txHash = hash crypto.keccak256 tx
        · obtain ⟨rfl, rfl⟩ := heq
          refine ⟨history, _, [], tx, rfl, ⟨rfl, rfl, _, hout⟩, rfl, ?_, ?_⟩
          · rw [State.write_announcements, if_pos ⟨rfl, rfl⟩]
            rfl
          · intro x hx
            cases hx
        · refine h.keep (by rw [State.write_announcements, if_neg heq]) (fun hs => ?_) hlive
          rcases hspends safe txHash hs with hm | hm
          · cases List.mem_singleton.mp hm
          · cases List.mem_singleton.mp hm
    | @cancelled announcementHash =>
        have hne := write_noWindow_live hlive
        refine h.keep (by rw [State.write_announcements, if_neg hne]) (fun hs => hne ?_) hlive
        rcases hspends safe txHash hs with hm | hm
        · cases List.mem_singleton.mp hm
          exact ⟨rfl, rfl⟩
        · cases List.mem_singleton.mp hm
    | autoAllowed hauto =>
        refine h.keep rfl (fun hs => ?_) hlive
        rcases hspends safe txHash hs with hm | hm
        · cases hm
        · cases hm
    | attested hattested =>
        refine h.keep rfl (fun hs => ?_) hlive
        rcases hspends safe txHash hs with hm | hm
        · cases hm
        · cases hm
    | consumed hwindow hfrom hstart hend =>
        have hne := write_noWindow_live hlive
        refine h.keep (by rw [State.write_announcements, if_neg hne]) (fun hs => hne ?_) hlive
        rcases hspends safe txHash hs with hm | hm
        · cases List.mem_singleton.mp hm
        · cases List.mem_singleton.mp hm
          exact ⟨rfl, rfl⟩

/-! ### One Safe does not reach another -/

/-- The answer of `checkTransaction` depends on the epochs and on the caller's announcements only. -/
theorem checkTransaction_congr {state state' : State} {env : Env} (args : CheckArgs)
    (safeNonce : Option B256) (hepochs : state'.epochs = state.epochs)
    (hentries : state'.announcements env.sender = state.announcements env.sender) :
    (step crypto imm state' (env, .checkTransaction args safeNonce)).2 =
      (step crypto imm state (env, .checkTransaction args safeNonce)).2 := by
  unfold step call checkTransaction
  dsimp only
  split
  · rfl
  · split
    · have hcheck : checkAttestation crypto imm state' env args safeNonce =
          checkAttestation crypto imm state env args safeNonce := by
        unfold checkAttestation
        rw [hepochs]
      rw [hcheck]
      cases checkAttestation crypto imm state env args safeNonce with
      | error e => rfl
      | ok u => rfl
    · unfold consume
      rw [hentries]
      dsimp only
      generalize state.announcements env.sender (hash crypto.keccak256 args.tx) = w
      by_cases hw : w.activeFrom ≠ 0 ∧ w.activeFrom ≤ env.timestamp ∧ env.timestamp ≤ w.activeUntil
      · rw [if_pos hw, if_pos hw]
        rfl
      · rw [if_neg hw, if_neg hw]
        rfl

/-- **A call made for one Safe does not change the answer another Safe gets.** -/
theorem checkTransaction_frame {state state' : State} {env : Env} {c : Call} {events : List Event}
    (h : Returns crypto imm state env c state' events)
    (hcall : ∀ a b d e f g, c ≠ .updateEpoch a b d e f g) {env' : Env}
    (hother : env'.sender ≠ env.sender) (args : CheckArgs) (safeNonce : Option B256) :
    (step crypto imm state' (env', .checkTransaction args safeNonce)).2 =
      (step crypto imm state (env', .checkTransaction args safeNonce)).2 := by
  have hwrite : ∀ txHash window,
      (state.write env.sender txHash window).announcements env'.sender =
        state.announcements env'.sender := by
    intro txHash window
    funext txHash'
    rw [State.write_announcements, if_neg fun heq => hother heq.1]
  cases h with
  | epoch hroll => exact absurd rfl (hcall _ _ _ _ _ _)
  | announced => exact checkTransaction_congr args safeNonce rfl (hwrite _ _)
  | cancelled => exact checkTransaction_congr args safeNonce rfl (hwrite _ _)
  | autoAllowed hauto => rfl
  | attested hattested => rfl
  | consumed hwindow hfrom hstart hend => exact checkTransaction_congr args safeNonce rfl (hwrite _ _)

/-! ### The hash names the transaction -/

/-- The transaction a call is about. -/
def Call.transaction? : Call → Option AnnouncedTransaction
  | .announceTransaction tx => some tx
  | .checkTransaction args _ => some args.tx
  | _ => none

/-- Everything that is hashed to key an announcement in a run. -/
def preimages (crypto : Crypto) (calls : List (Env × Call)) : Set Bytes :=
  { bytes | ∃ call ∈ calls, ∃ tx ∈ call.2.transaction?,
      bytes = tx.data ∨ bytes = encode crypto.keccak256 tx }

private theorem operation_toWord_injective {a b : Operation} (h : a.toWord = b.toWord) : a = b := by
  cases a <;> cases b <;> first | rfl | exact absurd h (by decide)

/-- Without collisions among what is hashed, equal hashes mean equal transactions. -/
theorem hash_injective {inputs : Set Bytes} (hinj : Set.InjOn crypto.keccak256 inputs)
    {tx tx' : AnnouncedTransaction} (hdata : tx.data ∈ inputs) (hdata' : tx'.data ∈ inputs)
    (henc : encode crypto.keccak256 tx ∈ inputs) (henc' : encode crypto.keccak256 tx' ∈ inputs)
    (h : hash crypto.keccak256 tx = hash crypto.keccak256 tx') : tx = tx' := by
  have hwords := Bytes.flatMap_word_injective _ _ (by simp) (hinj henc henc' h)
  simp only [List.cons.injEq, and_true] at hwords
  obtain ⟨htarget, hvalue, hd, hop, hgas, hbase, hprice, htoken, hreceiver⟩ := hwords
  cases tx
  cases tx'
  simp only [AnnouncedTransaction.mk.injEq]
  exact ⟨toWord_injective (by omega) htarget, hvalue, hinj hdata hdata' hd,
    operation_toWord_injective hop, hgas, hbase, hprice, toWord_injective (by omega) htoken,
    toWord_injective (by omega) hreceiver⟩

/-! ### Every run -/

/-- A step of a run that returned. -/
private theorem returns_of_take {pre post : State} {env : Env} {c : Call} {events : List Event}
    (h : (⟨pre, (env, c), .ok events, post⟩ : GuardStep) =
      Trace.take (step crypto imm) pre (env, c)) :
    Returns crypto imm pre env c post events := by
  have hout : (transact pre (call crypto imm pre env c)).2 = .ok events :=
    (congrArg Trace.Step.out h).symm
  have hpost : post = (transact pre (call crypto imm pre env c)).1 := congrArg Trace.Step.post h
  rw [hpost]
  exact call_ok (transact_ok hout)

/-- Every run keeps the announcements tied to its history. -/
theorem outstanding_run {crypto : Crypto} {deployment : Deployment} {imm : Immutables}
    {genesis : State} (hdeploy : deploy crypto deployment = .ok (imm, genesis))
    {calls : List (Env × Call)} {before after : List GuardStep} {st : GuardStep}
    (hrun : Trace.trace (step crypto imm) genesis calls = before ++ st :: after) :
    Outstanding crypto imm before st.pre ∧ st = Trace.take (step crypto imm) st.pre st.input := by
  have hgenesis : Outstanding crypto imm [] genesis := by
    unfold deploy at hdeploy
    obtain ⟨_, -, hdeploy⟩ := bind_eq_ok.mp hdeploy
    obtain ⟨_, -, hdeploy⟩ := bind_eq_ok.mp hdeploy
    obtain ⟨epochs, -, hdeploy⟩ := bind_eq_ok.mp hdeploy
    have heq := pure_eq_ok.mp hdeploy
    simp only [Prod.mk.injEq] at heq
    rw [← heq.2]
    intro safe txHash hlive
    exact absurd rfl hlive
  have hstep : ∀ history state input, Outstanding crypto imm history state → True →
      Outstanding crypto imm (history ++ [Trace.take (step crypto imm) state input])
        (step crypto imm state input).1 := by
    intro history state input h _
    exact outstanding_step h input
  exact Trace.split_invariant hgenesis hstep (fun _ _ => trivial) hrun

/--
**Authorisation soundness of the guard.**  In every run from a deployment whose
announced and checked transactions have no hash collision:

* a `checkTransaction` that returns is an auto-allowed call of the guard, or carries an
  attestation that verifies for a known key over this transaction of this Safe at the
  nonce being executed, or uses an announcement: the same Safe announced the same
  transaction earlier, nothing cancelled or consumed it since, and the time lies in its
  window.  The first two leave the state unchanged; the last consumes the announcement.
* A call for one Safe never changes the answer another Safe gets, and an epoch update
  touches no announcement and forgets no known key.
-/
theorem guard_authorisation_sound (crypto : Crypto) (deployment : Deployment) (imm : Immutables)
    (genesis : State) (hdeploy : deploy crypto deployment = .ok (imm, genesis))
    (calls : List (Env × Call))
    (hcollision : Set.InjOn crypto.keccak256 (preimages crypto calls)) :
    (∀ before after st env args safeNonce events,
      Trace.trace (step crypto imm) genesis calls = before ++ st :: after →
      st.input = (env, .checkTransaction args safeNonce) → st.out = .ok events →
      (isAutoAllowed crypto imm args.tx = true ∧ st.post = st.pre) ∨
      (Attested crypto imm st.pre env args safeNonce ∧ st.post = st.pre) ∨
      (∃ prior announcing later, before = prior ++ announcing :: later ∧
        Announces announcing env.sender args.tx ∧
        (∀ x ∈ later, ¬ Spends x env.sender (hash crypto.keccak256 args.tx)) ∧
        announcing.input.1.timestamp + imm.allowTxDelay ≤ env.timestamp ∧
        env.timestamp ≤
          announcing.input.1.timestamp + imm.allowTxDelay + imm.allowTxWindow ∧
        Spends st env.sender (hash crypto.keccak256 args.tx) ∧
        st.post = st.pre.write env.sender (hash crypto.keccak256 args.tx) noWindow)) ∧
    (∀ st ∈ Trace.trace (step crypto imm) genesis calls,
      (∀ a b c d e f, st.input.2 = .updateEpoch a b c d e f →
        st.post.announcements = st.pre.announcements ∧
        ∀ key epoch, EpochRollover.isKnown st.pre.epochs key epoch = true →
          EpochRollover.isKnown st.post.epochs key epoch = true) ∧
      ((∀ a b c d e f, st.input.2 ≠ .updateEpoch a b c d e f) →
        ∀ env' args safeNonce, env'.sender ≠ st.input.1.sender →
          (step crypto imm st.post (env', .checkTransaction args safeNonce)).2 =
            (step crypto imm st.pre (env', .checkTransaction args safeNonce)).2)) := by
  constructor
  · intro before after st env args safeNonce events hrun hinput hout
    obtain ⟨hinv, hst⟩ := outstanding_run hdeploy hrun
    have hmem : ∀ x ∈ before ++ st :: after, x.input ∈ calls := by
      intro x hx
      rw [← hrun] at hx
      exact Trace.input_mem hx
    have hchecked := hmem st (by simp)
    rw [hinput] at hchecked
    obtain ⟨pre, input, out, post⟩ := st
    simp only at hinput hout hst
    subst hinput hout
    have hret := returns_of_take hst
    cases hret with
    | autoAllowed hauto => exact Or.inl ⟨hauto, rfl⟩
    | attested hattested => exact Or.inr (Or.inl ⟨hattested, rfl⟩)
    | consumed hwindow hfrom hstart hend =>
        subst hwindow
        obtain ⟨prior, announcing, later, tx, rfl, hann, hhash, hwin, hlater⟩ := hinv _ _ hfrom
        rw [hwin] at hstart hend
        have htx : tx = args.tx := by
          have hannounced := hmem announcing (by simp)
          have hin : ∀ bytes, bytes = tx.data ∨ bytes = encode crypto.keccak256 tx →
              bytes ∈ preimages crypto calls := fun bytes h =>
            ⟨_, hannounced, tx, by rw [hann.2.1]; rfl, h⟩
          have hin' : ∀ bytes, bytes = args.tx.data ∨ bytes = encode crypto.keccak256 args.tx →
              bytes ∈ preimages crypto calls := fun bytes h => ⟨_, hchecked, args.tx, rfl, h⟩
          exact hash_injective hcollision (hin _ (Or.inl rfl)) (hin' _ (Or.inl rfl))
            (hin _ (Or.inr rfl)) (hin' _ (Or.inr rfl)) hhash
        subst htx
        exact Or.inr (Or.inr ⟨prior, announcing, later, rfl, hann, hlater, hstart, hend,
          ⟨_, rfl, Or.inr (List.mem_singleton.mpr rfl)⟩, rfl⟩)
  · intro st hst
    obtain ⟨before, after, hrun⟩ := List.append_of_mem hst
    obtain ⟨-, htake⟩ := outstanding_run hdeploy hrun
    obtain ⟨pre, ⟨env, c⟩, out, post⟩ := st
    cases out with
    | error e =>
        -- a reverted call changes nothing at all
        have hsame : post = pre := by
          have hpost := congrArg Trace.Step.post htake
          have hout := congrArg Trace.Step.out htake
          exact hpost.trans (transact_error hout.symm)
        subst hsame
        exact ⟨fun _ _ _ _ _ _ _ => ⟨rfl, fun _ _ hk => hk⟩, fun _ _ _ _ _ => rfl⟩
    | ok events =>
        have hret := returns_of_take htake
        refine ⟨?_, fun hcall env' args safeNonce hother =>
          checkTransaction_frame hret hcall hother args safeNonce⟩
        intro a b c' d e f hc
        simp only at hc
        subst hc
        cases hret with
        | epoch hroll => exact ⟨rfl, fun key epoch hk => rollover_isKnown hroll hk⟩

/-! ### A run that uses the escape hatch -/

/-- The hash function on what the run below hashes, by length: nothing, three words, nine words. -/
def sampleKeccak (bytes : Bytes) : B256 :=
  match bytes.length with
  | 0 => 0xc5d2460186f7233c927e7db2dcc703c0e500b653ca82273b7bfad8045d85a470#256
  | 96 => 0xe781d478da582db15eaf76ee9c151915ce4bc6efcbac705fbeabdc7e379e44b4#256
  | 288 => 0x14972fa9053278dbcec8a89b944935fe5b4829ae55a5fb84ccdbe6fded4204dc#256
  | _ => 0

/-- No signature is checked in the run below. -/
def sampleCrypto : Crypto := ⟨sampleKeccak, fun _ _ _ => false⟩

/-- A guard whose genesis key is the generator of the curve. -/
def sampleDeployment : Deployment where
  self := 0x51#160
  consensusChainId := 100#256
  consensusAddress := 0xc0#160
  initialEpoch := 1#64
  initialGroupKey :=
    ⟨0x79be667ef9dcbbac55a06295ce870b07029bfcdb2dce28d959f2815b16f81798#256,
      0x483ada7726a3c4655da4fbfc0e1108a8fd17b448a68554199c47d08ffb10d4b8#256⟩
  allowTransactionDelay := 10
  allowTransactionWindow := 100

/-- A call without value or data. -/
def sampleTx : AnnouncedTransaction where
  target := 0xb#160
  value := 0
  data := []
  operation := .call
  safeTxGas := 0
  baseGas := 0
  gasPrice := 0
  gasToken := 0
  refundReceiver := 0

/-- The Safe announces the transaction. -/
def sampleAnnounce : Env × Call := (⟨0xa#160, 1000, 1, 1#256⟩, .announceTransaction sampleTx)

/-- It executes the transaction when the delay is over. -/
def sampleCheck : Env × Call :=
  (⟨0xa#160, 1010, 2, 1#256⟩, .checkTransaction ⟨sampleTx, [], 0#160⟩ (some 1#256))

private theorem sample_collisionFree :
    Set.InjOn sampleCrypto.keccak256 (preimages sampleCrypto [sampleAnnounce, sampleCheck]) := by
  have hpre : ∀ bytes ∈ preimages sampleCrypto [sampleAnnounce, sampleCheck],
      bytes = [] ∨ bytes = encode sampleCrypto.keccak256 sampleTx := by
    rintro bytes ⟨c, hc, tx, htx, hbytes⟩
    simp only [List.mem_cons, List.not_mem_nil, or_false] at hc
    rcases hc with rfl | rfl
    · cases htx
      exact hbytes
    · cases htx
      exact hbytes
  have hne : sampleCrypto.keccak256 [] ≠
      sampleCrypto.keccak256 (encode sampleCrypto.keccak256 sampleTx) := by
    decide +kernel
  intro a ha b hb hab
  rcases hpre a ha with rfl | rfl <;> rcases hpre b hb with rfl | rfl
  · rfl
  · exact absurd hab hne
  · exact absurd hab.symm hne
  · rfl

/-- What the deployment fixes. -/
def sampleImmutables : Immutables where
  self := 0x51#160
  consensusDomainSeparator := ConsensusMessages.domain sampleKeccak 100#256 0xc0#160
  allowTxDelay := 10
  allowTxWindow := 100

/-- The storage after the deployment. -/
def sampleGenesis : State where
  epochs := EpochRollover.record (fun _ _ => false) sampleDeployment.initialGroupKey 1#64
  announcements := fun _ _ => noWindow

private theorem sample_deploy :
    deploy sampleCrypto sampleDeployment = .ok (sampleImmutables, sampleGenesis) := by
  have hkey : Secp256k1.requireNonZero sampleDeployment.initialGroupKey = .ok ⟨⟩ :=
    require_eq_ok.mpr (by decide +kernel)
  unfold deploy EpochRollover.initializeEpochs
  rw [hkey]
  rfl

/-- The run above: the check returns because of the announcement, which it consumes. -/
theorem announced_transaction_executes :
    ∃ announcing checking,
      Trace.trace (step sampleCrypto sampleImmutables) sampleGenesis [sampleAnnounce, sampleCheck] =
        [announcing, checking] ∧
      checking.out = .ok [.announcementConsumed 0xa#160 (hash sampleKeccak sampleTx)] ∧
      Announces announcing 0xa#160 sampleTx ∧
      checking.post = checking.pre.write 0xa#160 (hash sampleKeccak sampleTx) noWindow := by
  have hout : (step sampleCrypto sampleImmutables
      (step sampleCrypto sampleImmutables sampleGenesis sampleAnnounce).1 sampleCheck).2 =
        .ok [.announcementConsumed 0xa#160 (hash sampleKeccak sampleTx)] := by decide +kernel
  have hauthorised := (guard_authorisation_sound sampleCrypto sampleDeployment _ _ sample_deploy
    [sampleAnnounce, sampleCheck] sample_collisionFree).1
    [Trace.take (step sampleCrypto sampleImmutables) sampleGenesis sampleAnnounce] []
    (Trace.take (step sampleCrypto sampleImmutables)
      (step sampleCrypto sampleImmutables sampleGenesis sampleAnnounce).1 sampleCheck)
    _ _ _ _ (by simp) rfl ((Trace.take_out _ _ _).trans hout)
  refine ⟨Trace.take (step sampleCrypto sampleImmutables) sampleGenesis sampleAnnounce,
    Trace.take (step sampleCrypto sampleImmutables)
      (step sampleCrypto sampleImmutables sampleGenesis sampleAnnounce).1 sampleCheck,
    by simp only [Trace.trace_cons, Trace.trace_nil], (Trace.take_out _ _ _).trans hout, ?_⟩
  rcases hauthorised with ⟨hauto, -⟩ | ⟨⟨_, _, _, hdecode, -⟩, -⟩ |
    ⟨prior, announcing, later, hsplit, hann, -, -, -, -, hpost⟩
  · exact absurd hauto (by decide +kernel)
  · cases hdecode
  · have hfirst : announcing =
        Trace.take (step sampleCrypto sampleImmutables) sampleGenesis sampleAnnounce := by
      cases prior with
      | nil => exact (List.cons.inj hsplit).1.symm
      | cons a prior => simp at hsplit
    rw [hfirst] at hann
    exact ⟨hann, hpost⟩

end Safenet.Contracts.SafenetGuard
