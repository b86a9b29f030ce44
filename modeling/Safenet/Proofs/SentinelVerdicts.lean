/-
A sentinel reveals what it committed to.

Whatever the checks of a request do to each other, a verdict that was recorded stays the only one until
a prune removes it (`Settled`).  A vote enters the state with a verdict that a check resumed with, and
is carried from there into the commitment and into the reveal (`Votes`), in every state there has ever
been.
-/
import Safenet.Proofs.Hashing
import Safenet.Proofs.SentinelOracleErrors
import Safenet.Proofs.SentinelRequests
import Safenet.Sentinel.Verdicts

namespace Safenet.Sentinel

open Contracts
open SentinelRequestState

/-! ### Rules as text -/

theorem splitOnce_append {c : Char} {before after : List Char} (h : c ∉ before) :
    splitOnce c (before ++ c :: after) = some (before, after) := by
  induction before with
  | nil => simp [splitOnce]
  | cons x xs ih =>
      rw [List.mem_cons, not_or] at h
      rw [List.cons_append, splitOnce, if_neg (Ne.symm h.1), ih h.2]
      rfl

theorem parseU32_toDigits (n : BitVec 32) : parseU32 (Nat.toDigits 10 n.toNat) = some n := by
  have hdigits : ∀ c ∈ Nat.toDigits 10 n.toNat, c.isDigit = true := fun c hc =>
    Nat.isDigit_of_mem_toDigits (by decide) (by decide) hc
  have hplus : (Nat.toDigits 10 n.toNat).head? ≠ some '+' := by
    intro h
    have hdigit := hdigits '+' (List.mem_of_mem_head? h)
    revert hdigit
    decide
  unfold parseU32
  rw [if_neg hplus, if_neg]
  · simp only [Nat.ofDigitChars_ten_toDigits]
    rw [if_pos n.isLt, BitVec.ofNat_toNat, BitVec.setWidth_eq]
  · rintro (hnil | hall)
    · exact Nat.toDigits_ne_nil hnil
    · exact Bool.false_ne_true (hall.symm.trans (List.all_eq_true.mpr hdigits))

/-- **A rule that was written is read back.** -/
theorem RuleId.parse_toString (id : RuleId) : RuleId.parse id.toString = some id := by
  have htext : id.toString.toList = 'R' :: '-' :: (Nat.toDigits 10 id.sectionNumber.toNat ++
      '.' :: Nat.toDigits 10 id.ruleNumber.toNat) := by
    simp [RuleId.toString, String.toList_append, Nat.toList_repr]
  have hdot : '.' ∉ Nat.toDigits 10 id.sectionNumber.toNat := by
    intro h
    have hdigit := Nat.isDigit_of_mem_toDigits (by decide) (by decide) h
    revert hdigit
    decide
  unfold RuleId.parse
  rw [htext]
  simp [splitOnce_append hdot, parseU32_toDigits]

/-! ### Where votes come from -/

section Votes

variable (keccak256 : Keccak) (t : SentinelTransition) (r : B256)

/-- The vote is kept for the request, or comes with the message. -/
inductive Origin (entry : Option SentinelRequestState) (message : Message) (approve : Bool)
    (reason : String) : Prop
  | kept (deadline : Nat) (h : entry = some (.waitingForRequest approve reason deadline))
  | resumed (outcome : CheckOutcome) (hmessage : message = .resume (.engineCheckResult r outcome))
      (hvote : outcome.vote = some (approve, reason))

/-- What a message does to the vote on a request. -/
structure Votes (entry : Option SentinelRequestState) (message : Message)
    (next : Option SentinelRequestState × List SentinelActionKind) : Prop where
  waiting : ∀ approve reason deadline, next.1 = some (.waitingForRequest approve reason deadline) →
    Origin r entry message approve reason
  collecting : ∀ round, next.1 = some (.collectingCommitments round) →
    (∃ round₀, entry = some (.collectingCommitments round₀) ∧ round₀.approve = round.approve ∧
        round₀.reason = round.reason) ∨
      Origin r entry message round.approve round.reason ∧
        .commit r (t.sealed keccak256 r round.approve round.reason) ∈ next.2
  commits : ∀ hash, .commit r hash ∈ next.2 → ∃ approve reason,
    hash = t.sealed keccak256 r approve reason ∧ Origin r entry message approve reason
  reveals : ∀ approve salt reason, .reveal r approve salt reason ∈ next.2 →
    salt = t.signer.revealSalt r ∧
      ∃ round, entry = some (.collectingCommitments round) ∧ round.approve = approve ∧
        round.reason = reason

variable {keccak256 t r} {entry : Option SentinelRequestState} {message : Message}

/-- An action that is neither a commitment nor a reveal. -/
def Mute : SentinelActionKind → Prop
  | .commit .. | .reveal .. => False
  | _ => True

private theorem votes_keep : Votes keccak256 t r entry message (entry, []) where
  waiting _ _ deadline h := .kept deadline h
  collecting round h := .inl ⟨round, h, rfl, rfl⟩
  commits _ h := by simp at h
  reveals _ _ _ h := by simp at h

/-- The vote is gone, or needed no more. -/
private theorem votes_past {next : Option SentinelRequestState × List SentinelActionKind}
    (hwaiting : ∀ approve reason deadline, next.1 ≠ some (.waitingForRequest approve reason deadline))
    (hcollecting : ∀ round, next.1 ≠ some (.collectingCommitments round))
    (hmute : ∀ kind ∈ next.2, Mute kind) : Votes keccak256 t r entry message next where
  waiting approve reason deadline h := absurd h (hwaiting approve reason deadline)
  collecting round h := absurd h (hcollecting round)
  commits _ h := (hmute _ h).elim
  reveals _ _ _ h := (hmute _ h).elim

private theorem votes_opened {approve : Bool} {reason : String} {request : Request}
    (h : Origin r entry message approve reason) :
    Votes keccak256 t r entry message (t.opened keccak256 r approve reason request) where
  waiting _ _ _ h := by simp [SentinelTransition.opened] at h
  collecting round hround := by
    simp only [SentinelTransition.opened, Option.some.injEq, collectingCommitments.injEq] at hround
    subst hround
    exact .inr ⟨h, List.mem_singleton.mpr rfl⟩
  commits hash hcommit := by
    simp only [SentinelTransition.opened, List.mem_singleton, SentinelActionKind.commit.injEq, true_and]
      at hcommit
    exact ⟨approve, reason, hcommit, h⟩
  reveals _ _ _ h := by simp [SentinelTransition.opened] at h

private theorem votes_erase {kinds : List SentinelActionKind} (h : ∀ kind ∈ kinds, Mute kind) :
    Votes keccak256 t r entry message (none, kinds) :=
  votes_past (fun _ _ _ => by simp) (fun _ => by simp) h

private theorem votes_closed (round : CollectingVotes) :
    Votes keccak256 t r entry message (SentinelTransition.closed r round) := by
  unfold SentinelTransition.closed
  split_ifs
  · exact votes_erase (by simp)
  · exact votes_past (fun _ _ _ => by simp) (fun _ => by simp) (by simp [Mute])

private theorem votes_revealing (round : CollectingCommitments) :
    Votes keccak256 t r (some (.collectingCommitments round)) message (t.revealing r round) where
  waiting _ _ _ h := by simp [SentinelTransition.revealing] at h
  collecting _ h := by simp [SentinelTransition.revealing] at h
  commits _ h := by simp [SentinelTransition.revealing] at h
  reveals approve salt reason h := by
    simp only [SentinelTransition.revealing, List.mem_singleton, SentinelActionKind.reveal.injEq,
      true_and] at h
    exact ⟨h.2.1, round, rfl, h.1.symm, h.2.2.symm⟩

private theorem votes_block (block : Nat) :
    Votes keccak256 t r entry message (t.requestBlock r block entry) := by
  cases entry with
  | none => exact votes_keep
  | some entry =>
      cases entry with
      | waitingForEngineCheck =>
          simp only [SentinelTransition.requestBlock]
          split_ifs
          · exact votes_keep
          · exact votes_erase (by simp)
      | waitingForRequest =>
          simp only [SentinelTransition.requestBlock]
          split_ifs
          · exact votes_keep
          · exact votes_erase (by simp)
      | collectingCommitments round =>
          simp only [SentinelTransition.requestBlock]
          split_ifs
          · exact votes_keep
          · exact votes_erase (by simp)
          · exact votes_revealing round
      | collectingVotes round =>
          simp only [SentinelTransition.requestBlock]
          split_ifs
          · exact votes_keep
          · exact votes_closed round
      | waitingForOutcome => exact votes_keep
      | waitingForDisputeResolution =>
          simp only [SentinelTransition.requestBlock]
          split_ifs
          · exact votes_keep
          · exact votes_erase (by simp [Mute])

private theorem votes_settled : Votes keccak256 t r entry message (SentinelTransition.settled r entry) := by
  cases entry with
  | none => exact votes_keep
  | some entry =>
      simp only [SentinelTransition.settled]
      split_ifs
      · exact votes_erase (by simp)
      · exact votes_erase (by simp [Mute])

private theorem votes_unruled : Votes keccak256 t r entry message (SentinelTransition.unruled r entry) := by
  cases entry with
  | none => exact votes_keep
  | some entry => exact votes_erase (by simp [Mute])

private theorem votes_event (event : SentinelOracleEvents) :
    Votes keccak256 t r entry message (t.requestEvent keccak256 r entry event) := by
  cases event with
  | newRequest =>
      cases entry with
      | none => exact votes_keep
      | some entry =>
          cases entry with
          | waitingForRequest approve reason deadline => exact votes_opened (.kept deadline rfl)
          | waitingForEngineCheck deadline request =>
              cases request with
              | none =>
                  simp only [SentinelTransition.requestEvent]
                  exact votes_past (fun _ _ _ => by simp) (fun _ => by simp) (by simp)
              | some request => exact votes_keep
          | _ => exact votes_keep
  | committed requestId sentinel =>
      cases entry with
      | none => exact votes_keep
      | some entry =>
          cases entry with
          | collectingCommitments round =>
              simp only [SentinelTransition.requestEvent]
              refine ⟨fun _ _ _ h => by simp at h, fun counted h => .inl ⟨round, rfl, ?_⟩,
                fun _ h => by simp at h, fun _ _ _ h => by simp at h⟩
              simp only [Option.some.injEq, collectingCommitments.injEq] at h
              subst h
              exact ⟨rfl, rfl⟩
          | _ => exact votes_keep
  | revealed requestId sentinel approved =>
      cases entry with
      | none => exact votes_keep
      | some entry =>
          cases entry with
          | collectingVotes round =>
              simp only [SentinelTransition.requestEvent]
              split_ifs
              · exact votes_past (fun _ _ _ => by simp) (fun _ => by simp) (by simp)
              · exact votes_closed _
          | _ => exact votes_keep
  | disputeTriggered requestId deadline =>
      simp only [SentinelTransition.requestEvent]
      cases entry.bind approveAndSlashAmount with
      | none => exact votes_erase (by simp)
      | some posted => exact votes_past (fun _ _ _ => by simp) (fun _ => by simp) (by simp)
  | disputeResolved =>
      cases entry with
      | none => exact votes_keep
      | some entry =>
          cases entry with
          | waitingForDisputeResolution => exact votes_erase (by simp [Mute])
          | _ => exact votes_keep
  | requestTimedOut => exact votes_settled
  | oracleResult => exact votes_settled
  | arbitrationTimedOut => exact votes_unruled
  | disputeOutOfScope => exact votes_unruled
  | claimed => exact votes_keep

private theorem votes_checked (outcome : CheckOutcome) :
    Votes keccak256 t r entry (.resume (.engineCheckResult r outcome))
      (t.requestChecked keccak256 r outcome entry) := by
  cases entry with
  | none => exact votes_keep
  | some entry =>
      cases entry with
      | waitingForEngineCheck deadline request =>
          cases hvote : outcome.vote with
          | none =>
              simp only [SentinelTransition.requestChecked, hvote]
              exact votes_erase (by simp)
          | some vote =>
              obtain ⟨approve, reason⟩ := vote
              have horigin : Origin r (some (.waitingForEngineCheck deadline request))
                  (.resume (.engineCheckResult r outcome)) approve reason := .resumed outcome rfl hvote
              cases request with
              | none =>
                  simp only [SentinelTransition.requestChecked, hvote]
                  refine ⟨fun approve' reason' _ h => ?_, fun _ h => by simp at h,
                    fun _ h => by simp at h, fun _ _ _ h => by simp at h⟩
                  simp only [Option.some.injEq, waitingForRequest.injEq] at h
                  obtain ⟨rfl, rfl, -⟩ := h
                  exact horigin
              | some request =>
                  simp only [SentinelTransition.requestChecked, hvote]
                  exact votes_opened horigin
      | _ => exact votes_keep

/-- **A vote is committed and revealed as it came from a verdict.** -/
theorem requestStep_votes (message : Message) :
    Votes keccak256 t r entry message (t.requestStep keccak256 r entry message) := by
  cases message with
  | newBlock block => exact votes_block block
  | event log =>
      obtain ⟨block, index, address, data⟩ := log
      cases data with
      | oracle event =>
          simp only [SentinelTransition.requestStep]
          split_ifs
          · exact votes_event event
          · exact votes_keep
      | consensus event =>
          simp only [SentinelTransition.requestStep]
          split_ifs
          · exact votes_past (fun _ _ _ => by simp) (fun _ => by simp) (by simp)
          · exact votes_keep
  | resume result =>
      obtain ⟨requestId, outcome⟩ := result
      simp only [SentinelTransition.requestStep]
      split_ifs with hr
      · subst hr
        exact votes_checked outcome
      · exact votes_keep

end Votes

/-! ### What the checks do to the store -/

section Store

variable {verdicts verdicts' : VerdictStore} {requestId r : B256} {block : Nat}

/-- The verdict on a request is recorded. -/
def Stored (verdicts : VerdictStore) (r : B256) (outcome : CheckOutcome) : Prop :=
  ∃ row, verdicts.lookup r = some row ∧ VerdictStore.decode row.rule = .ok outcome

theorem Stored.unique {outcome outcome' : CheckOutcome} (h : Stored verdicts r outcome)
    (h' : Stored verdicts r outcome') : outcome = outcome' := by
  obtain ⟨row, hrow, hdecode⟩ := h
  obtain ⟨row', hrow', hdecode'⟩ := h'
  cases hrow.symm.trans hrow'
  exact Except.ok.inj (hdecode.symm.trans hdecode')

/-- No verdict is changed or removed. -/
def Keeps (verdicts verdicts' : VerdictStore) : Prop :=
  ∀ r row, verdicts.lookup r = some row → ∃ row', verdicts'.lookup r = some row' ∧ row'.rule = row.rule

theorem Keeps.refl (verdicts : VerdictStore) : Keeps verdicts verdicts :=
  fun _ row h => ⟨row, h, rfl⟩

theorem Keeps.stored (h : Keeps verdicts verdicts') {outcome : CheckOutcome}
    (hstored : Stored verdicts r outcome) : Stored verdicts' r outcome := by
  obtain ⟨row, hrow, hdecode⟩ := hstored
  obtain ⟨row', hrow', hrule⟩ := h r row hrow
  exact ⟨row', hrow', by rw [hrule]; exact hdecode⟩

/-- A row may be written again with the same rule, or if there is none. -/
private theorem keeps_insert {row : VerdictRow}
    (h : ∀ before, verdicts.lookup requestId = some before → row.rule = before.rule) :
    Keeps verdicts (verdicts.insert requestId row) := by
  intro id before hbefore
  by_cases hid : id = requestId
  · subst hid
    exact ⟨row, Table.lookup_insert_self .., h before hbefore⟩
  · exact ⟨before, by rw [Table.lookup_insert, if_neg hid]; exact hbefore, rfl⟩

private theorem get_spec (verdicts : VerdictStore) (requestId : B256) (block : Nat) :
    Keeps verdicts (VerdictStore.get verdicts requestId block).1 ∧
      ∀ outcome, (VerdictStore.get verdicts requestId block).2 = .ok (some outcome) →
        Stored (VerdictStore.get verdicts requestId block).1 requestId outcome := by
  unfold VerdictStore.get
  cases VerdictStore.storedBlock block with
  | error error => exact ⟨.refl _, fun _ h => by simp at h⟩
  | ok block =>
      cases hrow : verdicts.lookup requestId with
      | none => exact ⟨.refl _, fun _ h => by simp at h⟩
      | some row =>
          refine ⟨keeps_insert fun before hbefore => ?_, fun outcome h => ?_⟩
          · cases hrow.symm.trans hbefore
            rfl
          · refine ⟨row.seen block, Table.lookup_insert_self .., ?_⟩
            have h : (VerdictStore.decode row.rule).map some = .ok (some outcome) := h
            cases hdecode : VerdictStore.decode row.rule with
            | error error =>
                rw [hdecode] at h
                cases h
            | ok decoded =>
                rw [hdecode] at h
                cases h
                exact hdecode

private theorem record_spec (verdicts : VerdictStore) (requestId : B256) (block : Nat)
    (outcome : CheckOutcome) :
    Keeps verdicts (VerdictStore.record verdicts requestId block outcome).1 ∧
      ∀ recorded, (VerdictStore.record verdicts requestId block outcome).2 = .ok recorded →
        recorded ≠ .unknown →
          Stored (VerdictStore.record verdicts requestId block outcome).1 requestId recorded := by
  unfold VerdictStore.record
  cases hrule : VerdictStore.ruleOf outcome with
  | none =>
      refine ⟨.refl _, fun recorded h hdecisive => ?_⟩
      cases h
      cases outcome with
      | unknown => exact absurd rfl hdecisive
      | approved => cases hrule
      | denied rule => cases hrule
  | some rule =>
      cases VerdictStore.storedBlock block with
      | error error => exact ⟨.refl _, fun _ h => by simp at h⟩
      | ok block =>
          refine ⟨keeps_insert fun before hbefore => ?_, fun recorded h _ => ?_⟩
          · rw [hbefore]
            rfl
          · exact ⟨_, Table.lookup_insert_self .., h⟩

private theorem prune_spec (verdicts : VerdictStore) (safe : Nat) {row : VerdictRow}
    (h : (VerdictStore.prune verdicts safe).1.lookup r = some row) : verdicts.lookup r = some row := by
  unfold VerdictStore.prune at h
  cases hsafe : VerdictStore.storedBlock safe with
  | error error =>
      rw [hsafe] at h
      exact h
  | ok safe =>
      rw [hsafe] at h
      exact (Table.lookup_filter_eq_some.mp h).1

/-- A statement that fails has taken effect or not; one that succeeds has. -/
private theorem fault_spec {α : Type} (fault : Option Fault)
    {result : VerdictStore × Except VerdictError α} {P : VerdictStore → Prop} (hbefore : P verdicts)
    (hafter : P result.1) :
    P (Fault.result fault verdicts result).1 ∧
      ∀ a, (Fault.result fault verdicts result).2 = .ok a → Fault.result fault verdicts result = result := by
  cases fault with
  | none => exact ⟨hafter, fun _ _ => rfl⟩
  | some fault =>
      cases fault with
      | before => exact ⟨hbefore, fun _ h => by cases h⟩
      | after => exact ⟨hafter, fun _ h => by cases h⟩

/-- A check changes no verdict, and one that ends without the engine has read the recorded one. -/
theorem readVerdict_spec (verdicts : VerdictStore) (requestId : B256) (block : Nat)
    (fault : Option Fault) :
    Keeps verdicts (Handler.readVerdict verdicts requestId block fault).1 ∧
      ∀ outcome, (Handler.readVerdict verdicts requestId block fault).2 = some outcome →
        outcome ≠ .unknown →
          Stored (Handler.readVerdict verdicts requestId block fault).1 requestId outcome := by
  obtain ⟨hkeeps, hstored⟩ := get_spec verdicts requestId block
  obtain ⟨hfault, hresult⟩ := fault_spec (P := Keeps verdicts) fault (.refl verdicts) hkeeps
  unfold Handler.readVerdict
  rcases hpair : Fault.result fault verdicts (VerdictStore.get verdicts requestId block) with ⟨store, read⟩
  rw [hpair] at hfault hresult
  cases read with
  | error error =>
      refine ⟨hfault, fun outcome h hdecisive => ?_⟩
      cases h
      exact absurd rfl hdecisive
  | ok read =>
      rw [← hresult read rfl] at hstored
      cases read with
      | none => exact ⟨hfault, fun _ h => by cases h⟩
      | some recorded =>
          refine ⟨hfault, fun outcome h _ => ?_⟩
          cases h
          exact hstored recorded rfl

/-- The end of a check changes no verdict, and answers the one that is now recorded. -/
theorem recordVerdict_spec (verdicts : VerdictStore) (requestId : B256) (block : Nat)
    (outcome : CheckOutcome) (fault : Option Fault) :
    Keeps verdicts (Handler.recordVerdict verdicts requestId block outcome fault).1 ∧
      ((Handler.recordVerdict verdicts requestId block outcome fault).2 ≠ .unknown →
        Stored (Handler.recordVerdict verdicts requestId block outcome fault).1 requestId
          (Handler.recordVerdict verdicts requestId block outcome fault).2) := by
  obtain ⟨hkeeps, hstored⟩ := record_spec verdicts requestId block outcome
  obtain ⟨hfault, hresult⟩ := fault_spec (P := Keeps verdicts) fault (.refl verdicts) hkeeps
  unfold Handler.recordVerdict
  rcases hpair : Fault.result fault verdicts (VerdictStore.record verdicts requestId block outcome)
    with ⟨store, recorded⟩
  rw [hpair] at hfault hresult
  cases recorded with
  | error error => exact ⟨hfault, fun hdecisive => absurd rfl hdecisive⟩
  | ok recorded =>
      rw [← hresult recorded rfl] at hstored
      exact ⟨hfault, hstored recorded rfl⟩

/-- A prune adds no verdict. -/
theorem housekeeping_spec (verdicts : VerdictStore) (safe : Nat) (fault : Option Fault) {row : VerdictRow}
    (h : (Handler.housekeeping verdicts safe fault).lookup r = some row) : verdicts.lookup r = some row := by
  have hpruned := (fault_spec (P := fun store => ∀ row, store.lookup r = some row →
    verdicts.lookup r = some row) fault (fun _ h => h) fun _ h => prune_spec verdicts safe h).1
  exact hpruned row h

end Store

/-! ### All runs -/

namespace System

abbrev Step := Trace.Step System Input (List Command)

/-- The check that the step is about. -/
def Input.check? : Input → Option Check
  | .starts check _ => some check
  | .records check _ _ => some check
  | _ => none

/-- The step removes the recorded verdict on a request. -/
def Forgets (r : B256) (x : Step) : Prop :=
  x.pre.verdicts.lookup r ≠ none ∧ x.post.verdicts.lookup r = none

instance decidableForgets (r : B256) (x : Step) : Decidable (Forgets r x) :=
  inferInstanceAs (Decidable (_ ∧ _))

/-- The actions about a request in a history. -/
def actsOf (r : B256) (steps : List Step) : List SentinelActionKind :=
  steps.flatMap fun x => acts r x.out

/-- No check of the request starts or records once its verdict is removed. -/
def Remembers (r : B256) (before : List Step) (x : Step) : Prop :=
  ∀ check ∈ x.input.check?, check.requestId = r → ∀ y ∈ before, ¬Forgets r y

instance decidableRemembers (r : B256) (before : List Step) (x : Step) : Decidable (Remembers r before x) :=
  inferInstanceAs (Decidable (∀ check ∈ x.input.check?, check.requestId = r → ∀ y ∈ before, ¬Forgets r y))

variable {keccak256 : Keccak} {t : SentinelTransition} {r : B256} {history : List Step} {system : System}

/-- The decisive outcomes of a request are the recorded one. -/
structure Settled (r : B256) (history : List Step) (system : System) : Prop where
  stored : ∀ outcome, (r, outcome) ∈ system.resumed → outcome ≠ .unknown →
    Stored system.verdicts r outcome ∨ ∃ y ∈ history, Forgets r y
  agree : ∀ outcome outcome', (r, outcome) ∈ system.resumed → (r, outcome') ∈ system.resumed →
    outcome ≠ .unknown → outcome' ≠ .unknown → outcome = outcome'

/-- A check resumes with an outcome. -/
private theorem Settled.resume (h : Settled r history system) {x : Step} {id : B256}
    {verdicts : VerdictStore} {outcome : CheckOutcome} (hkeeps : Keeps system.verdicts verdicts)
    (hstored : outcome ≠ .unknown → Stored verdicts id outcome)
    (hremembers : id = r → ∀ y ∈ history, ¬Forgets r y) {running : List Check} :
    Settled r (history ++ [x])
      { system with verdicts, running, resumed := (id, outcome) :: system.resumed } := by
  have hold : ∀ earlier, (r, earlier) ∈ system.resumed → earlier ≠ .unknown →
      Stored verdicts r earlier ∨ ∃ y ∈ history, Forgets r y := fun earlier hearlier hdecisive =>
    (h.stored earlier hearlier hdecisive).imp_left hkeeps.stored
  -- all verdicts so far are the one that is stored now
  have hnew : ∀ earlier, (r, earlier) ∈ system.resumed → earlier ≠ .unknown → id = r →
      outcome ≠ .unknown → earlier = outcome := by
    intro earlier hearlier hdecisive hid hnew
    rcases hold earlier hearlier hdecisive with hrow | ⟨y, hy, hforgets⟩
    · exact hrow.unique (hid ▸ hstored hnew)
    · exact absurd hforgets (hremembers hid y hy)
  refine ⟨fun earlier hmem hdecisive => ?_, fun earlier later hmem hmem' h₁ h₂ => ?_⟩
  · rcases List.mem_cons.mp hmem with heq | hearlier
    · cases heq
      exact .inl (hstored hdecisive)
    · refine (hold earlier hearlier hdecisive).imp_right ?_
      rintro ⟨y, hy, hforgets⟩
      exact ⟨y, List.mem_append_left _ hy, hforgets⟩
  · rcases List.mem_cons.mp hmem with heq | hearlier
    · cases heq
      rcases List.mem_cons.mp hmem' with heq' | hlater
      · cases heq'
        rfl
      · exact (hnew later hlater h₂ rfl h₁).symm
    · rcases List.mem_cons.mp hmem' with heq' | hlater
      · cases heq'
        exact hnew earlier hearlier h₁ rfl h₂
      · exact h.agree earlier later hearlier hlater h₁ h₂

/-- A step that changes no verdict and resumes nothing. -/
private theorem Settled.quiet (h : Settled r history system) {x : Step} {system' : System}
    (hkeeps : Keeps system.verdicts system'.verdicts) (hresumed : system'.resumed = system.resumed) :
    Settled r (history ++ [x]) system' := by
  refine ⟨fun outcome hmem hdecisive => ?_, fun outcome outcome' hmem hmem' => ?_⟩
  · rw [hresumed] at hmem
    refine (h.stored outcome hmem hdecisive).imp hkeeps.stored ?_
    rintro ⟨y, hy, hforgets⟩
    exact ⟨y, List.mem_append_left _ hy, hforgets⟩
  · rw [hresumed] at hmem hmem'
    exact h.agree outcome outcome' hmem hmem'

private theorem Settled.step (h : Settled r history system) (input : Input)
    (hremembers : Remembers r history (Trace.take (step keccak256 t) system input)) :
    Settled r (history ++ [Trace.take (step keccak256 t) system input])
      (step keccak256 t system input).1 := by
  cases input with
  | starts check fault =>
      obtain ⟨hkeeps, hstored⟩ :=
        readVerdict_spec system.verdicts check.requestId check.block fault
      simp only [System.step]
      cases hread : (Handler.readVerdict system.verdicts check.requestId check.block fault).2 with
      | none => exact h.quiet hkeeps rfl
      | some outcome =>
          exact h.resume hkeeps (hstored outcome hread) (hremembers check rfl)
  | records check outcome fault =>
      simp only [System.step]
      split_ifs
      · obtain ⟨hkeeps, hstored⟩ :=
          recordVerdict_spec system.verdicts check.requestId check.block outcome fault
        exact h.resume hkeeps hstored (hremembers check rfl)
      · exact h.quiet (.refl _) rfl
  | housekeeping safe fault =>
      refine ⟨fun outcome hmem hdecisive => ?_, h.agree⟩
      rcases h.stored outcome hmem hdecisive with hstored | ⟨y, hy, hforgets⟩
      · obtain ⟨row, hrow, hdecode⟩ := hstored
        cases hafter : (Handler.housekeeping system.verdicts safe fault).lookup r with
        | none => exact .inr ⟨_, List.mem_append_right _ List.mem_cons_self, by simp [hrow], hafter⟩
        | some row' =>
            cases hrow.symm.trans (housekeeping_spec system.verdicts safe fault hafter)
            exact .inl ⟨row, hafter, hdecode⟩
      · exact .inr ⟨y, List.mem_append_left _ hy, hforgets⟩
  | message message =>
      simp only [System.step]
      split_ifs
      · exact h.quiet (.refl _) rfl
      · exact h.quiet (.refl _) rfl
  | rollback state =>
      simp only [System.step]
      split_ifs
      · exact h.quiet (.refl _) rfl
      · exact h.quiet (.refl _) rfl
  | restart state =>
      simp only [System.step]
      split_ifs
      · exact h.quiet (.refl _) rfl
      · exact h.quiet (.refl _) rfl

/-- A check resumed with a verdict that has this vote. -/
def Decided (r : B256) (resumed : List (B256 × CheckOutcome)) (approve : Bool) (reason : String) : Prop :=
  ∃ outcome, (r, outcome) ∈ resumed ∧ outcome.vote = some (approve, reason)

/-- The vote on a request is one that was decided, and once it is being collected it is committed. -/
structure Voted (keccak256 : Keccak) (t : SentinelTransition) (r : B256)
    (resumed : List (B256 × CheckOutcome)) (kinds : List SentinelActionKind)
    (entry : Option SentinelRequestState) : Prop where
  waiting : ∀ approve reason deadline, entry = some (.waitingForRequest approve reason deadline) →
    Decided r resumed approve reason
  collecting : ∀ round, entry = some (.collectingCommitments round) →
    Decided r resumed round.approve round.reason ∧
      .commit r (t.sealed keccak256 r round.approve round.reason) ∈ kinds

/-- What was committed and revealed, and what any earlier state may still lead to. -/
structure Carried (keccak256 : Keccak) (t : SentinelTransition) (r : B256) (history : List Step)
    (system : System) : Prop where
  present : system.state ∈ system.states
  voted : ∀ state ∈ system.states,
    Voted keccak256 t r system.resumed (actsOf r history) (state.lookup r)
  commits : ∀ hash, .commit r hash ∈ actsOf r history → ∃ approve reason,
    hash = t.sealed keccak256 r approve reason ∧ Decided r system.resumed approve reason
  reveals : ∀ approve salt reason, .reveal r approve salt reason ∈ actsOf r history →
    salt = t.signer.revealSalt r ∧ .commit r (t.sealed keccak256 r approve reason) ∈ actsOf r history

theorem actsOf_concat (history : List Step) (x : Step) :
    actsOf r (history ++ [x]) = actsOf r history ++ acts r x.out := by
  rw [actsOf, List.flatMap_append, List.flatMap_singleton, actsOf]

private theorem Voted.mono {resumed resumed' : List (B256 × CheckOutcome)}
    {kinds kinds' : List SentinelActionKind} {entry : Option SentinelRequestState}
    (h : Voted keccak256 t r resumed kinds entry) (hresumed : resumed ⊆ resumed') (hkinds : kinds ⊆ kinds') :
    Voted keccak256 t r resumed' kinds' entry where
  waiting approve reason deadline hentry := by
    obtain ⟨outcome, hmem, hvote⟩ := h.waiting approve reason deadline hentry
    exact ⟨outcome, hresumed hmem, hvote⟩
  collecting round hentry := by
    obtain ⟨⟨outcome, hmem, hvote⟩, hcommit⟩ := h.collecting round hentry
    exact ⟨⟨outcome, hresumed hmem, hvote⟩, hkinds hcommit⟩

/-- A step that emits nothing and leads to no new state. -/
private theorem Carried.quiet (h : Carried keccak256 t r history system) {x : Step} {system' : System}
    (hout : x.out = []) (hresumed : system.resumed ⊆ system'.resumed)
    (hstates : system'.states = system.states) (hstate : system'.state ∈ system.states) :
    Carried keccak256 t r (history ++ [x]) system' := by
  have hacts : actsOf r (history ++ [x]) = actsOf r history := by
    rw [actsOf_concat, hout, acts_nil, List.append_nil]
  refine ⟨hstates ▸ hstate, fun state hmem => ?_, fun hash hcommit => ?_, ?_⟩
  · rw [hacts]
    exact (h.voted state (hstates ▸ hmem)).mono hresumed (List.Subset.refl _)
  · rw [hacts] at hcommit
    obtain ⟨approve, reason, hhash, outcome, hmem, hvote⟩ := h.commits hash hcommit
    exact ⟨approve, reason, hhash, outcome, hresumed hmem, hvote⟩
  · rw [hacts]
    exact h.reveals

/-- Where a vote comes from, it was decided. -/
private theorem Carried.decided (h : Carried keccak256 t r history system) {message : Message}
    {approve : Bool} {reason : String} (hdelivers : system.delivers message = true)
    (horigin : Origin r (system.state.lookup r) message approve reason) :
    Decided r system.resumed approve reason := by
  cases horigin with
  | kept deadline hentry =>
      exact (h.voted system.state h.present).waiting approve reason deadline hentry
  | resumed outcome hmessage hvote =>
      subst hmessage
      exact ⟨outcome, of_decide_eq_true hdelivers, hvote⟩

/-- A message carries the votes on. -/
private theorem Carried.message (h : Carried keccak256 t r history system) {message : Message} {x : Step}
    (hdelivers : system.delivers message = true)
    (hout : x.out = (t.applyTransition keccak256 system.state message).2) :
    Carried keccak256 t r (history ++ [x])
      { system with
        state := (t.applyTransition keccak256 system.state message).1
        states := (t.applyTransition keccak256 system.state message).1 :: system.states } := by
  have hvotes : Votes keccak256 t r (system.state.lookup r) message
      ((t.applyTransition keccak256 system.state message).1.lookup r, acts r x.out) := by
    rw [hout, SentinelTransition.applyTransition_request]
    exact requestStep_votes message
  have hacts := actsOf_concat (r := r) history x
  have hearlier : actsOf r history ⊆ actsOf r (history ++ [x]) := by
    rw [hacts]
    exact List.subset_append_left ..
  have hlater : acts r x.out ⊆ actsOf r (history ++ [x]) := by
    rw [hacts]
    exact List.subset_append_right ..
  have hpresent := h.voted system.state h.present
  refine ⟨List.mem_cons_self, fun state hmem => ?_, fun hash hcommit => ?_, fun approve salt reason hreveal => ?_⟩
  · rcases List.mem_cons.mp hmem with rfl | hmem
    · refine ⟨fun approve reason deadline hentry => ?_, fun round hentry => ?_⟩
      · exact h.decided hdelivers (hvotes.waiting approve reason deadline hentry)
      · rcases hvotes.collecting round hentry with ⟨round₀, hround₀, happrove, hreason⟩ | ⟨horigin, hcommit⟩
        · rw [← happrove, ← hreason]
          exact (hpresent.collecting round₀ hround₀).imp id (hearlier ·)
        · exact ⟨h.decided hdelivers horigin, hlater hcommit⟩
    · exact (h.voted state hmem).mono (List.Subset.refl _) hearlier
  · rw [hacts] at hcommit
    rcases List.mem_append.mp hcommit with hcommit | hcommit
    · exact h.commits hash hcommit
    · obtain ⟨approve, reason, hhash, horigin⟩ := hvotes.commits hash hcommit
      exact ⟨approve, reason, hhash, h.decided hdelivers horigin⟩
  · rw [hacts] at hreveal
    rcases List.mem_append.mp hreveal with hreveal | hreveal
    · exact (h.reveals approve salt reason hreveal).imp id (hearlier ·)
    · obtain ⟨hsalt, round, hround, rfl, rfl⟩ := hvotes.reveals approve salt reason hreveal
      exact ⟨hsalt, hearlier (hpresent.collecting round hround).2⟩

private theorem Carried.step (h : Carried keccak256 t r history system) (input : Input) :
    Carried keccak256 t r (history ++ [Trace.take (step keccak256 t) system input])
      (step keccak256 t system input).1 := by
  cases input with
  | starts check fault =>
      simp only [System.step, Trace.take]
      cases (Handler.readVerdict system.verdicts check.requestId check.block fault).2 with
      | none => exact h.quiet rfl (List.Subset.refl _) rfl h.present
      | some outcome => exact h.quiet rfl (List.subset_cons_self ..) rfl h.present
  | records check outcome fault =>
      simp only [System.step, Trace.take]
      split_ifs
      · exact h.quiet rfl (List.subset_cons_self ..) rfl h.present
      · exact h.quiet rfl (List.Subset.refl _) rfl h.present
  | housekeeping safe fault => exact h.quiet rfl (List.Subset.refl _) rfl h.present
  | message message =>
      simp only [System.step, Trace.take]
      split_ifs with hdelivers
      · exact h.message hdelivers rfl
      · exact h.quiet rfl (List.Subset.refl _) rfl h.present
  | rollback state =>
      simp only [System.step, Trace.take]
      split_ifs with hstate
      · exact h.quiet rfl (List.Subset.refl _) rfl hstate
      · exact h.quiet rfl (List.Subset.refl _) rfl h.present
  | restart state =>
      simp only [System.step, Trace.take]
      split_ifs with hstate
      · exact h.quiet rfl (List.Subset.refl _) rfl hstate
      · exact h.quiet rfl (List.Subset.refl _) rfl h.present

private theorem carried_start : Carried keccak256 t r [] start where
  present := List.mem_singleton.mpr rfl
  voted state hmem := by
    rw [List.mem_singleton.mp hmem]
    exact ⟨fun _ _ _ h => by simp at h, fun _ h => by simp at h⟩
  commits _ h := by simp [actsOf] at h
  reveals _ _ _ h := by simp [actsOf] at h

/-- After every run in which no check follows the removal of a verdict. -/
private theorem settled_run (keccak256 : Keccak) (t : SentinelTransition) (r : B256) (inputs : List Input)
    (h : Trace.Throughout (Remembers r) (Trace.trace (step keccak256 t) start inputs)) :
    Settled r (Trace.trace (step keccak256 t) start inputs) (Trace.final (step keccak256 t) start inputs) ∧
      Carried keccak256 t r (Trace.trace (step keccak256 t) start inputs)
        (Trace.final (step keccak256 t) start inputs) := by
  have hrun : (Trace.Throughout (Remembers r) (Trace.trace (step keccak256 t) start inputs) → Settled r
        (Trace.trace (step keccak256 t) start inputs) (Trace.final (step keccak256 t) start inputs)) ∧
      Carried keccak256 t r (Trace.trace (step keccak256 t) start inputs)
        (Trace.final (step keccak256 t) start inputs) := Trace.history_invariant (E := fun _ => True)
    (I := fun history system =>
      (Trace.Throughout (Remembers r) history → Settled r history system) ∧
        Carried keccak256 t r history system)
    ⟨fun _ => ⟨fun _ h => by simp [start] at h, fun _ _ h => by simp [start] at h⟩, carried_start⟩
    (fun history system input hI _ => by
      refine ⟨fun hremembers => ?_, hI.2.step input⟩
      exact (hI.1 hremembers.of_append).step input (hremembers history _ [] (by simp)))
    inputs fun _ _ => trivial
  exact ⟨hrun.1 h, hrun.2⟩

/-- **A sentinel reveals exactly what it committed.**  In every run in which no check of a request starts
or records once a prune has removed its verdict, however the checks interleave, fail and come again:
all decisive outcomes of the request are equal, all its commitments carry one hash, and a reveal opens
that hash, so that the oracle does not refuse it as a mismatch. -/
theorem reveals_what_it_committed (keccak256 : Keccak) (t : SentinelTransition) (r : B256)
    (inputs : List Input)
    (hremembers : Trace.Throughout (Remembers r) (Trace.trace (step keccak256 t) start inputs)) :
    let history := Trace.trace (step keccak256 t) start inputs
    let system := Trace.final (step keccak256 t) start inputs
    (∀ rule, RuleId.parse rule.toString = some rule) ∧
      (∀ outcome outcome', (r, outcome) ∈ system.resumed → (r, outcome') ∈ system.resumed →
        outcome ≠ .unknown → outcome' ≠ .unknown → outcome = outcome') ∧
      (∀ hash hash', .commit r hash ∈ actsOf r history → .commit r hash' ∈ actsOf r history → hash = hash') ∧
      ∀ approve salt reason, .reveal r approve salt reason ∈ actsOf r history →
        (∃ hash, .commit r hash ∈ actsOf r history) ∧
        ∀ hash, .commit r hash ∈ actsOf r history →
          SentinelOracleCommitment.computeHash keccak256 t.signer.address r approve salt (utf8 reason) = hash ∧
          ∀ deployment env (world : SentinelOracle.World), env.sender = t.signer.address →
            (world.oracle.commitments r env.sender).commitHash = hash →
            SentinelOracle.reveal keccak256 deployment env world r approve salt (utf8 reason) ≠
              .error .invalidReveal := by
  intro history system
  obtain ⟨hsettled, hcarried⟩ := settled_run keccak256 t r inputs hremembers
  have hhash : ∀ hash hash', .commit r hash ∈ actsOf r history → .commit r hash' ∈ actsOf r history →
      hash = hash' := by
    intro hash hash' hcommit hcommit'
    obtain ⟨approve, reason, rfl, outcome, hmem, hvote⟩ := hcarried.commits hash hcommit
    obtain ⟨approve', reason', rfl, outcome', hmem', hvote'⟩ := hcarried.commits hash' hcommit'
    have hsame : outcome = outcome' := by
      refine hsettled.agree outcome outcome' hmem hmem' ?_ ?_
      · rintro rfl
        cases hvote
      · rintro rfl
        cases hvote'
    subst hsame
    cases hvote.symm.trans hvote'
    rfl
  refine ⟨RuleId.parse_toString, hsettled.agree, hhash, fun approve salt reason hreveal => ?_⟩
  obtain ⟨rfl, hcommitted⟩ := hcarried.reveals approve salt reason hreveal
  refine ⟨⟨_, hcommitted⟩, fun hash hcommit => ?_⟩
  have hopens : SentinelOracleCommitment.computeHash keccak256 t.signer.address r approve
      (t.signer.revealSalt r) (utf8 reason) = hash := by
    rw [hhash hash _ hcommit hcommitted, SentinelTransition.sealed, commitHash_eq]
  refine ⟨hopens, fun deployment env world hsender hstored => ?_⟩
  refine SentinelOracle.reveal_matches ?_
  rw [hstored, hsender, hopens]

/-! ### A request that is proposed again

The proposal is seen in block 5, which is reorganized away, and again in block 6, after the verdict of
block 5 was removed.
-/

/-- The safe block of a prune. -/
def Input.safe? : Input → Option Nat
  | .housekeeping safe _ => some safe
  | _ => none

/-- No check of a proposal seen in a block starts or records after a prune above that block. -/
def Timely (before : List Step) (x : Step) : Prop :=
  ∀ check ∈ x.input.check?, ∀ y ∈ before, ∀ safe ∈ y.input.safe?, safe ≤ check.block

instance decidableTimely (before : List Step) (x : Step) : Decidable (Timely before x) :=
  inferInstanceAs (Decidable (∀ check ∈ x.input.check?, ∀ y ∈ before, ∀ safe ∈ y.input.safe?,
    safe ≤ check.block))

private def lengthKeccak (bytes : Bytes) : B256 := BitVec.ofNat 256 bytes.length

private def loneSentinel : SentinelTransition := ⟨1, 2, ⟨3, fun _ => 4⟩, 1, 10⟩

/-- The proposal of the request 66. -/
private def proposedIn (block : Nat) : Input :=
  .message (.event ⟨⟨block, 0⟩, 0, 2, .consensus ⟨0, 1, 0, [], ⟨0, 0, 0, 0, [], .call, 0, 0, 0, 0, 0, 0⟩⟩⟩)

private def openedIn (block : Nat) : Input :=
  .message (.event ⟨⟨block, 0⟩, 1, 1, .oracle (.newRequest 66 1 1 (block + 10) (block + 20))⟩)

/-- The engine answers, and the sentinel hears of it. -/
private def checkedIn (block : Nat) (outcome : CheckOutcome) : List Input :=
  [.starts ⟨66, block⟩ none, .records ⟨66, block⟩ outcome none,
    .message (.resume (.engineCheckResult 66 outcome))]

private def votingRun : List Input :=
  proposedIn 5 :: checkedIn 5 (.denied ⟨1, 1⟩) ++
    [openedIn 5, .message (.event ⟨⟨6, 0⟩, 0, 1, .oracle (.committed 66 3)⟩), .message (.newBlock 16)]

theorem voting_run_opens :
    SentinelOracleCommitment.computeHash lengthKeccak 3 66 false 4 (utf8 "R-1.1") = 90 := by
  obtain ⟨-, -, -, hreveals⟩ := reveals_what_it_committed lengthKeccak loneSentinel 66 votingRun
    (by decide +kernel)
  exact ((hreveals false 4 "R-1.1" (by decide +kernel)).2 90 (by decide +kernel)).1

private def reorganizedRun : List Input :=
  proposedIn 5 :: checkedIn 5 .approved ++
    [openedIn 5, .rollback .empty, .housekeeping 6 none, proposedIn 6] ++ checkedIn 6 (.denied ⟨1, 1⟩) ++
    [openedIn 6]

/-- A verdict that was removed can come out differently, and so can the commitment. -/
theorem removed_verdict_changes :
    let history := Trace.trace (step lengthKeccak loneSentinel) start reorganizedRun
    let system := Trace.final (step lengthKeccak loneSentinel) start reorganizedRun
    Trace.Throughout Timely history ∧
      ¬ (∀ outcome outcome', (66, outcome) ∈ system.resumed → (66, outcome') ∈ system.resumed →
        outcome ≠ .unknown → outcome' ≠ .unknown → outcome = outcome') ∧
      ¬ ∀ hash hash', .commit 66 hash ∈ actsOf 66 history → .commit 66 hash' ∈ actsOf 66 history →
        hash = hash' := by
  intro history system
  refine ⟨by decide +kernel, fun hall => ?_, fun hall => ?_⟩
  · have hsame := hall .approved (.denied ⟨1, 1⟩) (by decide +kernel) (by decide +kernel) (by decide)
      (by decide)
    cases hsame
  · have hsame := hall 85 90 (by decide +kernel) (by decide +kernel)
    revert hsame
    decide

end System

end Safenet.Sentinel
