/-
The address poisoning check does not depend on how its requests are split.

The reference is a check that sees all events of the window at once (`assess`): a call is matched if its
recipient has received some of the token before, and denied if it has not but resembles one that has.  A
node that answers every request leads to the reference, whatever the ranges and the order of the events
are (`check_eq_assess`).  A failed request can only hide events: a match that is found has been there, and
a denial needs a complete scan, so what is left is an abstention or what the reference concludes
(`degrades`).
-/
import Safenet.Lib.Loop
import Safenet.Lib.Tiling
import Safenet.Proofs.SecureVerdict

namespace Safenet.SentinelEngine

/-! ### Ranges of blocks -/

/-- The state of the iterator over the ranges. -/
structure ChunkState where
  start : Nat
  done : Bool
deriving DecidableEq, Repr

/-- The body of the iterator. -/
def nextChunk (last maxRange : Nat) (state : ChunkState) : Option ((Nat × Nat) × ChunkState) :=
  if state.done then none
  else
    let stop := min (saturatingAdd state.start maxRange) last
    some ((state.start, stop), ⟨saturatingAdd stop 1, decide (last ≤ stop)⟩)

section Chunks

variable {last maxRange start fuel : Nat}

theorem blockChunks_succ :
    blockChunks last maxRange (fuel + 1) start =
      (start, min (saturatingAdd start maxRange) last) ::
        if last ≤ min (saturatingAdd start maxRange) last then []
        else blockChunks last maxRange fuel (saturatingAdd (min (saturatingAdd start maxRange) last) 1) := rfl

/-- A range that is not the last one. -/
theorem stop_of_more (hlast : last < 2 ^ 64) (h : ¬last ≤ min (saturatingAdd start maxRange) last) :
    min (saturatingAdd start maxRange) last = start + maxRange ∧
      saturatingAdd (min (saturatingAdd start maxRange) last) 1 = start + maxRange + 1 ∧
        start + maxRange < last := by
  unfold saturatingAdd at *
  omega

/-- **The ranges are those that the iterator gives, and then it ends.** -/
theorem yields_blockChunks (hlast : last < 2 ^ 64) (hstart : start ≤ last) (hfuel : last - start < fuel) :
    Loop.Yields (nextChunk last maxRange) ⟨start, false⟩ (blockChunks last maxRange fuel start) := by
  induction fuel generalizing start with
  | zero => omega
  | succ fuel ih =>
      rw [blockChunks_succ]
      refine .cons rfl ?_
      split
      · next hdone =>
          rw [decide_eq_true hdone]
          exact .nil rfl
      · next hmore =>
          obtain ⟨-, hnext, hlt⟩ := stop_of_more hlast hmore
          rw [decide_eq_false hmore, hnext]
          exact ih (by omega) (by omega)

/-- **The ranges follow one another over the whole window.** -/
theorem tiles_blockChunks (hlast : last < 2 ^ 64) (hstart : start ≤ last) (hfuel : last - start < fuel) :
    Tiles maxRange last start (blockChunks last maxRange fuel start) := by
  induction fuel generalizing start with
  | zero => omega
  | succ fuel ih =>
      rw [blockChunks_succ]
      split
      · next hdone =>
          have hstop : min (saturatingAdd start maxRange) last = last := by omega
          rw [hstop]
          refine .last hstart ?_
          unfold saturatingAdd at hstop
          omega
      · next hmore =>
          obtain ⟨hstop, hnext, hlt⟩ := stop_of_more hlast hmore
          rw [hnext, hstop]
          exact .cons (Nat.le_add_right _ _) (by omega) hlt (ih (by omega) (by omega))

/-- Without a limit there is one range. -/
theorem blockChunks_unlimited (hlast : last < 2 ^ 64) :
    blockChunks last (2 ^ 64 - 1) (fuel + 1) start = [(start, last)] := by
  have hstop : min (saturatingAdd start (2 ^ 64 - 1)) last = last := by
    unfold saturatingAdd
    omega
  rw [blockChunks_succ, hstop, if_pos (Nat.le_refl last)]

end Chunks

/-! ### Events -/

/-- The event moves or approves an amount to the address. -/
def Moves (abi : Abi) (log : Log) (recipient : Address) : Prop :=
  ∃ amount, decodeTargetAndAmount abi log = some (recipient, amount) ∧ amount ≠ 0

/-- Whenever the node answers, then with all events that were asked for, in some order. -/
def Provider.Answers (history : List Log) (provider : Provider) : Prop :=
  ∀ index request filter logs, provider.getLogs index request filter = some logs →
    logs.Perm (history.filter filter.selects)

/-- The node answers every request for events. -/
def Provider.NeverFails (provider : Provider) : Prop :=
  ∀ index request filter, provider.getLogs index request filter ≠ none

section Scan

variable {abi : Abi} {history : List Log} {token safe candidate : Address}

theorem moves_cons {log : Log} {logs : List Log} {recipient : Address} :
    (∃ l ∈ log :: logs, Moves abi l recipient) ↔
      Moves abi log recipient ∨ ∃ l ∈ logs, Moves abi l recipient :=
  List.exists_mem_cons_iff _ _ _

/-- A scan of some events finds the candidate, or all that is moved to others. -/
theorem scanLogs_spec (logs : List Log) : ∀ recipients,
    (scanLogs abi candidate recipients logs = none → ∃ log ∈ logs, Moves abi log candidate) ∧
    ∀ found, scanLogs abi candidate recipients logs = some found →
      (¬∃ log ∈ logs, Moves abi log candidate) ∧
      ∀ recipient,
        recipient ∈ found ↔ recipient ∈ recipients ∨ ∃ log ∈ logs, Moves abi log recipient := by
  induction logs with
  | nil =>
      intro recipients
      refine ⟨by simp [scanLogs], fun found h => ?_⟩
      cases h
      exact ⟨by simp, fun recipient => by simp⟩
  | cons log logs ih =>
      intro recipients
      -- an event without an amount is passed over
      have hpass : (∀ recipient, ¬Moves abi log recipient) →
          scanLogs abi candidate recipients (log :: logs) = scanLogs abi candidate recipients logs →
            (scanLogs abi candidate recipients (log :: logs) = none →
              ∃ l ∈ log :: logs, Moves abi l candidate) ∧
            ∀ found, scanLogs abi candidate recipients (log :: logs) = some found →
              (¬∃ l ∈ log :: logs, Moves abi l candidate) ∧ ∀ recipient, recipient ∈ found ↔
                recipient ∈ recipients ∨ ∃ l ∈ log :: logs, Moves abi l recipient := by
        intro hnone hskip
        rw [hskip]
        simp only [moves_cons, hnone, false_or]
        exact ih recipients
      cases hdecode : decodeTargetAndAmount abi log with
      | none =>
          refine hpass (fun recipient hmoves => ?_) ?_
          · obtain ⟨amount, hsome, -⟩ := hmoves
            rw [hdecode] at hsome
            cases hsome
          · simp only [scanLogs, hdecode]
      | some decoded =>
          obtain ⟨target, amount⟩ := decoded
          by_cases hzero : amount = 0
          · refine hpass (fun recipient hmoves => ?_) ?_
            · obtain ⟨amount', hsome, hne⟩ := hmoves
              rw [hdecode] at hsome
              cases hsome
              exact hne hzero
            · simp only [scanLogs, hdecode, if_pos hzero]
          · have hmoves : ∀ recipient, Moves abi log recipient ↔ recipient = target := by
              intro recipient
              unfold Moves
              rw [hdecode]
              constructor
              · rintro ⟨amount', hsome, -⟩
                cases hsome
                rfl
              · rintro rfl
                exact ⟨amount, rfl, hzero⟩
            by_cases htarget : target = candidate
            · have hfound : scanLogs abi candidate recipients (log :: logs) = none := by
                simp only [scanLogs, hdecode, if_neg hzero, if_pos htarget]
              rw [hfound]
              exact ⟨fun _ => ⟨log, List.mem_cons_self .., (hmoves candidate).mpr htarget.symm⟩, by simp⟩
            · have hnext : scanLogs abi candidate recipients (log :: logs) =
                  scanLogs abi candidate (target :: recipients) logs := by
                simp only [scanLogs, hdecode, if_neg hzero, if_neg htarget]
              obtain ⟨hnone, hsome⟩ := ih (target :: recipients)
              rw [hnext]
              refine ⟨fun h => moves_cons.mpr (.inr (hnone h)), fun found h => ?_⟩
              obtain ⟨hcandidate, hfound⟩ := hsome found h
              refine ⟨fun hmem => ?_, fun recipient => ?_⟩
              · rcases moves_cons.mp hmem with hfirst | hrest
                · exact htarget ((hmoves candidate).mp hfirst).symm
                · exact hcandidate hrest
              · rw [hfound, moves_cons, hmoves, List.mem_cons]
                tauto

/-- The request for one range. -/
def query (token safe : Address) (range : Nat × Nat) : Filter :=
  ⟨token, [TRANSFER_HASH, APPROVAL_HASH], Contracts.toWord safe, range.1, range.2⟩

/-- The ranges hold an event that moves something to the address. -/
def SeenIn (abi : Abi) (history : List Log) (token safe : Address) (chunks : List (Nat × Nat))
    (recipient : Address) : Prop :=
  ∃ range ∈ chunks, ∃ log ∈ history.filter (query token safe range).selects, Moves abi log recipient

/-- What is known after a scan; without a complete one, only that a request has failed. -/
def RecipientLookup.Tells (seen : Address → Prop) (candidate : Address) (before : List Address)
    (failed : Prop) : RecipientLookup → Prop
  | .exactMatch => seen candidate
  | .noExactMatch recipients true =>
      ¬seen candidate ∧ ∀ recipient, recipient ∈ recipients ↔ recipient ∈ before ∨ seen recipient
  | .noExactMatch _ false => failed
  | .failed => failed

theorem RecipientLookup.Tells.imp {seen seen' : Address → Prop} {before before' : List Address} {failed : Prop}
    {lookup : RecipientLookup} (h : lookup.Tells seen candidate before failed)
    (hcandidate : seen candidate ↔ seen' candidate)
    (hseen : ∀ recipient, recipient ∈ before ∨ seen recipient ↔ recipient ∈ before' ∨ seen' recipient) :
    lookup.Tells seen' candidate before' failed := by
  cases lookup with
  | exactMatch => exact hcandidate.mp h
  | failed => exact h
  | noExactMatch recipients complete =>
      cases complete with
      | false => exact h
      | true =>
          exact ⟨fun hmem => h.1 (hcandidate.mpr hmem),
            fun recipient => (h.2 recipient).trans (hseen recipient)⟩

theorem scanChunks_cons {getLogs : Nat → Filter → Option (List Log)} {request : Nat}
    {recipients : List Address} {range : Nat × Nat} {chunks : List (Nat × Nat)} :
    scanChunks abi token safe candidate getLogs request recipients (range :: chunks) =
      match getLogs request (query token safe range) with
      | none => if recipients ≠ [] then .noExactMatch recipients false else .failed
      | some logs =>
          match scanLogs abi candidate recipients logs with
          | none => .exactMatch
          | some recipients => scanChunks abi token safe candidate getLogs (request + 1) recipients chunks := rfl

/-- **What a scan of ranges tells.** -/
theorem scanChunks_tells {getLogs : Nat → Filter → Option (List Log)}
    (hanswers : ∀ request filter logs, getLogs request filter = some logs →
      logs.Perm (history.filter filter.selects)) (chunks : List (Nat × Nat)) : ∀ request recipients,
    (scanChunks abi token safe candidate getLogs request recipients chunks).Tells
      (SeenIn abi history token safe chunks) candidate recipients
      (∃ request filter, getLogs request filter = none) := by
  induction chunks with
  | nil =>
      refine fun request recipients => ⟨?_, fun recipient => ?_⟩
      · rintro ⟨_, ⟨⟩, -⟩
      · simp [SeenIn]
  | cons range chunks ih =>
      intro request recipients
      have hcons : ∀ recipient, SeenIn abi history token safe (range :: chunks) recipient ↔
          (∃ log ∈ history.filter (query token safe range).selects, Moves abi log recipient) ∨
            SeenIn abi history token safe chunks recipient := fun recipient =>
        List.exists_mem_cons_iff _ _ _
      rw [scanChunks_cons]
      cases hlogs : getLogs request (query token safe range) with
      | none =>
          dsimp only
          split
          · exact ⟨request, _, hlogs⟩
          · exact ⟨request, _, hlogs⟩
      | some logs =>
          have hmem : ∀ recipient, (∃ log ∈ logs, Moves abi log recipient) ↔
              ∃ log ∈ history.filter (query token safe range).selects, Moves abi log recipient := by
            intro recipient
            simp only [(hanswers request _ logs hlogs).mem_iff]
          obtain ⟨hnone, hsome⟩ : _ ∧ ∀ found, scanLogs abi candidate recipients logs = some found → _ :=
            scanLogs_spec logs recipients
          dsimp only
          cases hfound : scanLogs abi candidate recipients logs with
          | none => exact (hcons candidate).mpr (.inl ((hmem candidate).mp (hnone hfound)))
          | some found =>
              obtain ⟨hcandidate, hrecipients⟩ := hsome found hfound
              refine (ih (request + 1) found).imp ?_ fun recipient => ?_
              · rw [hcons, ← hmem, or_iff_right hcandidate]
              · rw [hcons, hrecipients, hmem, or_assoc]

theorem topic_of_moves {log : Log} {recipient : Address} (h : Moves abi log recipient) :
    log.topics[0]?.any (· ∈ [TRANSFER_HASH, APPROVAL_HASH]) = true := by
  obtain ⟨amount, hdecode, -⟩ := h
  unfold decodeTargetAndAmount at hdecode
  rw [List.head?_eq_getElem?] at hdecode
  cases htopic : log.topics[0]? with
  | none =>
      rw [htopic] at hdecode
      cases hdecode
  | some topic =>
      rw [htopic] at hdecode
      dsimp only at hdecode
      split at hdecode
      · next heq => simp [heq]
      · split at hdecode
        · next heq => simp [heq]
        · cases hdecode

theorem query_selects_iff {range : Nat × Nat} {log : Log} : (query token safe range).selects log = true ↔
    log.address = token ∧ log.topics[0]?.any (· ∈ [TRANSFER_HASH, APPROVAL_HASH]) = true ∧
      log.topics[1]? = some (Contracts.toWord safe) ∧ range.1 ≤ log.block ∧ log.block ≤ range.2 := by
  unfold Filter.selects
  simp only [Bool.and_eq_true, decide_eq_true_eq, and_assoc]
  rfl

/-- What is seen in ranges that cover the window is what is established in it. -/
theorem seenIn_iff_established {span first last : Nat} {chunks : List (Nat × Nat)}
    (htiles : Tiles span last first chunks) (recipient : Address) :
    SeenIn abi history token safe chunks recipient ↔ Established abi history safe token recipient first last := by
  constructor
  · rintro ⟨range, hrange, log, hlog, amount, hdecode, hamount⟩
    obtain ⟨hmem, hselects⟩ := List.mem_filter.mp hlog
    obtain ⟨haddress, -, htopic, hlow, hhigh⟩ := query_selects_iff.mp hselects
    obtain ⟨hfirst, hlast⟩ := (htiles.exists_iff log.block).mp ⟨range, hrange, hlow, hhigh⟩
    exact ⟨log, hmem, haddress, htopic, hfirst, hlast, amount, hdecode, hamount⟩
  · rintro ⟨log, hmem, haddress, htopic, hfirst, hlast, hmoves⟩
    obtain ⟨range, hrange, hlow, hhigh⟩ := (htiles.exists_iff log.block).mpr ⟨hfirst, hlast⟩
    refine ⟨range, hrange, log, List.mem_filter.mpr ⟨hmem, ?_⟩, hmoves⟩
    exact query_selects_iff.mpr ⟨haddress, topic_of_moves hmoves, htopic, hlow, hhigh⟩

/-- **What is known of a recipient after its lookup.** -/
theorem establishedRecipients_tells (abi : Abi) (config : PoisoningConfig) (token safe candidate : Address)
    {getLogs : Nat → Filter → Option (List Log)}
    (hanswers : ∀ request filter logs, getLogs request filter = some logs →
      logs.Perm (history.filter filter.selects)) {currentBlock : Nat} (hword : currentBlock < 2 ^ 64) :
    (establishedRecipients abi config getLogs token safe candidate currentBlock).Tells
      (Established abi history safe token · (currentBlock - config.lookbackBlocks) currentBlock) candidate []
      (∃ request filter, getLogs request filter = none) := by
  have htiles : Tiles (config.maxBlockRange.getD (2 ^ 64 - 1)) currentBlock
      (currentBlock - config.lookbackBlocks) (blockChunks currentBlock (config.maxBlockRange.getD (2 ^ 64 - 1))
        (currentBlock - (currentBlock - config.lookbackBlocks) + 1) (currentBlock - config.lookbackBlocks)) :=
    tiles_blockChunks hword (Nat.sub_le _ _) (Nat.lt_succ_self _)
  refine (scanChunks_tells hanswers _ 0 []).imp (seenIn_iff_established htiles candidate) fun recipient => ?_
  rw [seenIn_iff_established htiles]

end Scan

/-! ### The reference -/

/-- Some address that is established resembles the candidate. -/
def Resembles (established : Address → Prop) (candidate : Address) : Prop :=
  ∃ recipient, established recipient ∧ isLookalike recipient candidate = true

open Classical in
/-- The check of the calls when it is known for each token who is established. -/
noncomputable def assessTargets (abi : Abi) (safe : Address) (established : Address → Address → Prop) :
    Bool → List MetaTransaction → Option RuleId × Bool
  | abstain, [] => (none, abstain)
  | abstain, call :: calls =>
      match decodeTarget abi safe call with
      | none => assessTargets abi safe established true calls
      | some (candidate, kind) =>
          if established call.target candidate then assessTargets abi safe established abstain calls
          else if Resembles (established call.target) candidate then (some kind.rule, abstain)
          else assessTargets abi safe established true calls

/-- The assessment from all events of the window. -/
noncomputable def assess (abi : Abi) (config : PoisoningConfig) (history : List Log)
    (currentBlock : Option Nat) (proposal : Proposal) : Assessment :=
  if proposal.transaction.chainId ≠ BitVec.ofNat 256 config.chainId then .abstain
  else
    match currentBlock with
    | none => .abstain
    | some currentBlock =>
        match assessTargets abi proposal.transaction.safe (fun token recipient =>
            Established abi history proposal.transaction.safe token recipient
              (currentBlock - config.lookbackBlocks) currentBlock) false proposal.calls with
        | (some rule, _) => .insecure rule
        | (none, true) => .abstain
        | (none, false) => .secure (proposal.checked (AspectSet.DESTINATION.union .DATA))

section Reference

variable {abi : Abi} {safe : Address} {established : Address → Address → Prop}

/-- The recipient of the call is established. -/
def Matched (abi : Abi) (safe : Address) (established : Address → Address → Prop) (call : MetaTransaction) :
    Prop :=
  ∃ candidate kind, decodeTarget abi safe call = some (candidate, kind) ∧ established call.target candidate

/-- The recipient of the call is not established, but resembles one that is. -/
def Poisoned (abi : Abi) (safe : Address) (established : Address → Address → Prop) (call : MetaTransaction)
    (rule : RuleId) : Prop :=
  ∃ candidate kind, decodeTarget abi safe call = some (candidate, kind) ∧
    ¬established call.target candidate ∧ Resembles (established call.target) candidate ∧ kind.rule = rule

/-- A batch of matched calls is not denied. -/
theorem assessTargets_matched : ∀ {calls : List MetaTransaction} {abstain : Bool},
    (∀ call ∈ calls, Matched abi safe established call) →
      assessTargets abi safe established abstain calls = (none, abstain) := by
  intro calls
  induction calls with
  | nil => exact fun _ => rfl
  | cons call calls ih =>
      intro abstain h
      obtain ⟨candidate, kind, htarget, hestablished⟩ := h call (List.mem_cons_self ..)
      rw [assessTargets, htarget]
      dsimp only
      rw [if_pos hestablished]
      exact ih fun other hother => h other (List.mem_cons_of_mem _ hother)

/-- A poisoned call denies the batch, wherever it is. -/
theorem assessTargets_poisoned : ∀ {calls : List MetaTransaction} (abstain : Bool),
    (∃ call ∈ calls, ∃ rule, Poisoned abi safe established call rule) →
      ∃ rule abstain', assessTargets abi safe established abstain calls = (some rule, abstain') := by
  intro calls
  induction calls with
  | nil => rintro _ ⟨_, ⟨⟩, -⟩
  | cons call calls ih =>
      rintro abstain ⟨poisoned, hmem, rule, hpoisoned⟩
      -- a later call denies whatever this one does
      have hlater : poisoned ∈ calls → ∀ abstain,
          ∃ rule abstain', assessTargets abi safe established abstain calls = (some rule, abstain') :=
        fun hrest abstain => ih abstain ⟨poisoned, hrest, rule, hpoisoned⟩
      rw [assessTargets]
      cases htarget : decodeTarget abi safe call with
      | none =>
          rcases List.mem_cons.mp hmem with rfl | hrest
          · obtain ⟨candidate, kind, hsome, -⟩ := hpoisoned
            rw [htarget] at hsome
            cases hsome
          · exact hlater hrest true
      | some target =>
          obtain ⟨candidate, kind⟩ := target
          dsimp only
          split
          · next hestablished =>
              rcases List.mem_cons.mp hmem with rfl | hrest
              · obtain ⟨candidate', kind', hsome, hnot, -⟩ := hpoisoned
                rw [htarget] at hsome
                cases hsome
                exact absurd hestablished hnot
              · exact hlater hrest abstain
          · split
            · exact ⟨_, _, rfl⟩
            · next hnot =>
                rcases List.mem_cons.mp hmem with rfl | hrest
                · obtain ⟨candidate', kind', hsome, -, hresembles, -⟩ := hpoisoned
                  rw [htarget] at hsome
                  cases hsome
                  exact absurd hresembles hnot
                · exact hlater hrest true

end Reference

/-! ### The check -/

section Check

variable {abi : Abi} {config : PoisoningConfig} {history : List Log} {provider : Provider} {safe : Address}
  {currentBlock : Nat}

/-- A lookalike is found among the recipients of a complete scan if there is one. -/
theorem any_isLookalike_iff {seen : Address → Prop} {candidate : Address} {recipients : List Address}
    (h : ∀ recipient, recipient ∈ recipients ↔ recipient ∈ ([] : List Address) ∨ seen recipient) :
    recipients.any (isLookalike · candidate) = true ↔ Resembles seen candidate := by
  rw [List.any_eq_true]
  refine exists_congr fun recipient => and_congr_left fun _ => ?_
  rw [h, or_iff_right List.not_mem_nil]

/-- **With all answers the calls are assessed as from all events.** -/
theorem checkTargets_eq_assessTargets (hanswers : provider.Answers history) (hcomplete : provider.NeverFails)
    (hword : currentBlock < 2 ^ 64) (calls : List MetaTransaction) : ∀ index abstain,
    checkTargets abi config provider safe currentBlock index abstain calls =
      assessTargets abi safe (fun token recipient => Established abi history safe token recipient
        (currentBlock - config.lookbackBlocks) currentBlock) abstain calls := by
  induction calls with
  | nil => exact fun _ _ => rfl
  | cons call calls ih =>
      intro index abstain
      rw [checkTargets, assessTargets]
      cases htarget : decodeTarget abi safe call with
      | none => exact ih (index + 1) true
      | some target =>
          obtain ⟨candidate, kind⟩ := target
          have htells := establishedRecipients_tells abi config call.target safe candidate (hanswers index) hword
          have hnever : ¬∃ request filter, provider.getLogs index request filter = none := by
            rintro ⟨request, filter, hnone⟩
            exact hcomplete index request filter hnone
          dsimp only
          cases hlookup : establishedRecipients abi config (provider.getLogs index) call.target safe candidate
              currentBlock with
          | exactMatch =>
              rw [hlookup] at htells
              have hestablished : Established abi history safe call.target candidate
                (currentBlock - config.lookbackBlocks) currentBlock := htells
              dsimp only
              rw [if_pos hestablished]
              exact ih (index + 1) abstain
          | failed =>
              rw [hlookup] at htells
              exact absurd htells hnever
          | noExactMatch recipients complete =>
              rw [hlookup] at htells
              cases complete with
              | false => exact absurd htells hnever
              | true =>
                  obtain ⟨hnot, hrecipients⟩ := htells
                  have hany : recipients.any (isLookalike · candidate) = true ↔ _ :=
                    any_isLookalike_iff hrecipients
                  dsimp only at hnot ⊢
                  rw [if_neg hnot, Bool.and_true]
                  by_cases hresembles : recipients.any (isLookalike · candidate) = true
                  · rw [if_pos hresembles, if_pos (hany.mp hresembles)]
                  · rw [if_neg hresembles, if_neg fun h => hresembles (hany.mpr h)]
                    exact ih (index + 1) true

/-- **What the check concludes is so, whatever requests have failed.** -/
theorem checkTargets_sound (abi : Abi) (config : PoisoningConfig) (safe : Address)
    (hanswers : provider.Answers history) (hword : currentBlock < 2 ^ 64)
    (calls : List MetaTransaction) : ∀ index abstain,
    let established := fun token recipient => Established abi history safe token recipient
      (currentBlock - config.lookbackBlocks) currentBlock
    (∀ rule abstain',
      checkTargets abi config provider safe currentBlock index abstain calls = (some rule, abstain') →
      ∃ call ∈ calls, Poisoned abi safe established call rule) ∧
    (checkTargets abi config provider safe currentBlock index abstain calls = (none, false) →
      abstain = false ∧ ∀ call ∈ calls, Matched abi safe established call) := by
  induction calls with
  | nil =>
      intro index abstain established
      refine ⟨by simp [checkTargets], fun h => ?_⟩
      cases h
      exact ⟨rfl, by simp⟩
  | cons call calls ih =>
      intro index abstain established
      -- after a call that is not vouched for, only a denial by a later one remains
      have hskip : checkTargets abi config provider safe currentBlock index abstain (call :: calls) =
          checkTargets abi config provider safe currentBlock (index + 1) true calls →
          (∀ rule abstain', checkTargets abi config provider safe currentBlock index abstain (call :: calls) =
              (some rule, abstain') → ∃ other ∈ call :: calls, Poisoned abi safe established other rule) ∧
            (checkTargets abi config provider safe currentBlock index abstain (call :: calls) = (none, false) →
              abstain = false ∧ ∀ other ∈ call :: calls, Matched abi safe established other) := by
        intro hnext
        rw [hnext]
        refine ⟨fun rule abstain' h => ?_, fun h => absurd ((ih (index + 1) true).2 h).1 (by decide)⟩
        obtain ⟨other, hother, hpoisoned⟩ := (ih (index + 1) true).1 rule abstain' h
        exact ⟨other, List.mem_cons_of_mem _ hother, hpoisoned⟩
      cases htarget : decodeTarget abi safe call with
      | none =>
          refine hskip ?_
          rw [checkTargets, htarget]
      | some target =>
          obtain ⟨candidate, kind⟩ := target
          have htells := establishedRecipients_tells abi config call.target safe candidate (hanswers index) hword
          cases hlookup : establishedRecipients abi config (provider.getLogs index) call.target safe candidate
              currentBlock with
          | failed =>
              refine hskip ?_
              rw [checkTargets, htarget]
              dsimp only
              rw [hlookup]
          | exactMatch =>
              rw [hlookup] at htells
              have hnext : checkTargets abi config provider safe currentBlock index abstain (call :: calls) =
                  checkTargets abi config provider safe currentBlock (index + 1) abstain calls := by
                rw [checkTargets, htarget]
                dsimp only
                rw [hlookup]
              rw [hnext]
              obtain ⟨hdenies, hmatches⟩ := ih (index + 1) abstain
              refine ⟨fun rule abstain' h => ?_, fun h => ?_⟩
              · obtain ⟨other, hother, hpoisoned⟩ := hdenies rule abstain' h
                exact ⟨other, List.mem_cons_of_mem _ hother, hpoisoned⟩
              · obtain ⟨habstain, hcalls⟩ := hmatches h
                refine ⟨habstain, fun other hother => ?_⟩
                rcases List.mem_cons.mp hother with rfl | hrest
                · exact ⟨candidate, kind, htarget, htells⟩
                · exact hcalls other hrest
          | noExactMatch recipients complete =>
              rw [hlookup] at htells
              have hnext : checkTargets abi config provider safe currentBlock index abstain (call :: calls) =
                  if recipients.any (isLookalike · candidate) && complete then (some kind.rule, abstain)
                  else checkTargets abi config provider safe currentBlock (index + 1) true calls := by
                rw [checkTargets, htarget]
                dsimp only
                rw [hlookup]
              by_cases hdenies : (recipients.any (isLookalike · candidate) && complete) = true
              · rw [if_pos hdenies] at hnext
                rw [hnext]
                refine ⟨fun rule abstain' h => ?_, by simp⟩
                cases h
                obtain ⟨hany, rfl⟩ := Bool.and_eq_true_iff.mp hdenies
                obtain ⟨hnot, hrecipients⟩ := htells
                exact ⟨call, List.mem_cons_self .., candidate, kind, htarget, hnot,
                  (any_isLookalike_iff hrecipients).mp hany, rfl⟩
              · rw [if_neg hdenies] at hnext
                exact hskip hnext

end Check

/-- What is left of an assessment when requests fail. -/
inductive Assessment.Degrades : Assessment → Assessment → Prop where
  | abstain (full : Assessment) : Degrades .abstain full
  | secure (coverage : Coverage) : Degrades (.secure coverage) (.secure coverage)
  | insecure (rule rule' : RuleId) : Degrades (.insecure rule) (.insecure rule')

section Assess

variable {abi : Abi} {config : PoisoningConfig} {history : List Log} {provider : Provider}
  {proposal : Proposal} {context : CheckContext}

/-- **With all answers the assessment is the reference**, however the requests are split. -/
theorem check_eq_assess (hanswers : provider.Answers history) (hcomplete : provider.NeverFails) :
    addressPoisoningChecker abi config provider proposal context =
      assess abi config history (resolveBlock provider context.block) proposal := by
  unfold addressPoisoningChecker assess
  dsimp only
  split
  · rfl
  · cases hblock : resolveBlock provider context.block with
    | none => rfl
    | some currentBlock =>
        dsimp only
        have hloop : checkTargets abi config provider proposal.transaction.safe currentBlock 0 false
            proposal.calls = _ :=
          checkTargets_eq_assessTargets hanswers hcomplete (lt_of_resolveBlock hblock) _ 0 false
        exact hloop ▸ rfl

/-- **With failures there is an abstention, or the class of the reference**, in any order of the calls. -/
theorem degrades {proposal' : Proposal} (hanswers : provider.Answers history) {block : Option Nat}
    (hblock : resolveBlock provider context.block = none ∨ resolveBlock provider context.block = block)
    (htransaction : proposal'.transaction = proposal.transaction) (hcalls : proposal'.calls.Perm proposal.calls) :
    (addressPoisoningChecker abi config provider proposal' context).Degrades
      (assess abi config history block proposal) := by
  unfold addressPoisoningChecker assess
  dsimp only
  rw [htransaction]
  split
  · exact .abstain _
  · cases hresolve : resolveBlock provider context.block with
    | none => exact .abstain _
    | some currentBlock =>
        have hsame : block = some currentBlock := by
          rcases hblock with hnone | hsame
          · rw [hresolve] at hnone
            cases hnone
          · rw [← hsame, hresolve]
        subst hsame
        dsimp only
        obtain ⟨hdenies, hmatches⟩ := checkTargets_sound abi config proposal.transaction.safe hanswers
          (lt_of_resolveBlock hresolve) proposal'.calls 0 false
        rcases hcheck : checkTargets abi config provider proposal.transaction.safe currentBlock 0 false
          proposal'.calls with ⟨_ | rule, _ | _⟩
        · -- every call is matched
          obtain ⟨-, hall⟩ := hmatches hcheck
          rw [assessTargets_matched fun call hcall => hall call (hcalls.mem_iff.mpr hcall)]
          have hchecked : ∀ aspects, proposal'.checked aspects = proposal.checked aspects := fun aspects =>
            congrArg (Coverage.uniform · aspects) hcalls.length_eq
          dsimp only
          rw [hchecked]
          exact .secure _
        · exact .abstain _
        all_goals
          obtain ⟨call, hcall, hpoisoned⟩ := hdenies rule _ hcheck
          obtain ⟨rule', abstain', hassess⟩ := assessTargets_poisoned false
            ⟨call, hcalls.mem_iff.mp hcall, rule, hpoisoned⟩
          rw [hassess]
          exact .insecure rule rule'

end Assess

/--
**The address poisoning check does not depend on the ranges, and degrades to an abstention.**  The ranges
of blocks follow one another over the whole window, none wider than allowed, and the iterator ends after
them, also at the last block number there is.  If all requests are answered, with the events in any order,
the assessment is that of one request for the whole window.  If some are not, in any order of the calls,
the check abstains or stays with its class.
-/
theorem poisoning_degrades_to_abstain (abi : Abi) (config : PoisoningConfig) (history : List Log)
    (provider : Provider) (proposal : Proposal) (context : CheckContext)
    (hanswers : provider.Answers history) (hcomplete : provider.NeverFails) :
    (∀ first last span, first ≤ last → last < 2 ^ 64 →
      let chunks := blockChunks last span (last - first + 1) first
      Loop.Yields (nextChunk last span) ⟨first, false⟩ chunks ∧ Tiles span last first chunks ∧
        chunks.flatMap (fun range => List.range' range.1 (range.2 + 1 - range.1)) =
          List.range' first (last + 1 - first) ∧
        (∀ range ∈ chunks, range.1 ≤ range.2 ∧ range.2 - range.1 ≤ span) ∧
        blockChunks last (2 ^ 64 - 1) (last - first + 1) first = [(first, last)]) ∧
    (∀ single : Provider, single.Answers history → single.NeverFails →
      single.blockNumber = provider.blockNumber →
        addressPoisoningChecker abi config provider proposal context =
          addressPoisoningChecker abi { config with maxBlockRange := none } single proposal context) ∧
    ∀ (failing : Provider) (proposal' : Proposal), failing.Answers history →
      (failing.blockNumber = none ∨ failing.blockNumber = provider.blockNumber) →
      proposal'.transaction = proposal.transaction → proposal'.calls.Perm proposal.calls →
        (addressPoisoningChecker abi config failing proposal' context).Degrades
          (addressPoisoningChecker abi config provider proposal context) := by
  refine ⟨fun first last span hle hlast => ?_, fun single hsingle hsingleComplete hblock => ?_,
    fun failing proposal' hfailing hblock htransaction hcalls => ?_⟩
  · have htiles : Tiles span last first (blockChunks last span (last - first + 1) first) :=
      tiles_blockChunks hlast hle (Nat.lt_succ_self _)
    exact ⟨yields_blockChunks hlast hle (Nat.lt_succ_self _), htiles, htiles.flatMap_range,
      fun _ hrange => htiles.span_le hrange, blockChunks_unlimited hlast⟩
  · have hresolve : resolveBlock single context.block = resolveBlock provider context.block := by
      unfold resolveBlock
      rw [hblock]
    rw [check_eq_assess hanswers hcomplete, check_eq_assess hsingle hsingleComplete, hresolve]
    rfl
  · rw [check_eq_assess hanswers hcomplete]
    refine degrades hfailing ?_ htransaction hcalls
    cases context.block with
    | number number => exact .inr rfl
    | latest =>
        unfold resolveBlock
        rcases hblock with hnone | hsame
        · rw [hnone]
          exact .inl rfl
        · rw [hsame]
          exact .inr rfl

/-- A node that fails at one of the requests for the first call. -/
def failingAt (history : List Log) (head : BitVec 64) (failed : Nat) : Provider where
  blockNumber := some head
  getLogs := fun index request filter =>
    if index = 0 ∧ request = failed then none else some (history.filter filter.selects)

/-- The request for the range that holds the event fails, and the check abstains. -/
theorem hidden_event_abstains :
    let proposal : Proposal := ⟨sendsAgain, [asMetaTransaction sendsAgain]⟩
    let full := addressPoisoningChecker transferAbi ⟨1, 50, some 20⟩ (.ofHistory sentBefore 100) proposal
      ⟨.latest, none⟩
    let reduced := addressPoisoningChecker transferAbi ⟨1, 50, some 20⟩ (failingAt sentBefore 100 1) proposal
      ⟨.latest, none⟩
    blockChunks (2 ^ 64 - 1) 4 (9 + 1) (2 ^ 64 - 10) =
        [(2 ^ 64 - 10, 2 ^ 64 - 6), (2 ^ 64 - 5, 2 ^ 64 - 1)] ∧
      reduced = .abstain ∧ full = .secure (proposal.checked (AspectSet.DESTINATION.union .DATA)) ∧
      reduced.Degrades full ∧
      full = addressPoisoningChecker transferAbi ⟨1, 50, none⟩ (.ofHistory sentBefore 100) proposal
        ⟨.latest, none⟩ := by
  have hanswers : (Provider.ofHistory sentBefore 100).Answers sentBefore := by
    intro index request filter logs hlogs
    cases hlogs
    exact .refl _
  have hcomplete : (Provider.ofHistory sentBefore 100).NeverFails := nofun
  have hfailing : (failingAt sentBefore 100 1).Answers sentBefore := by
    intro index request filter logs hlogs
    unfold failingAt at hlogs
    dsimp only at hlogs
    split at hlogs
    · cases hlogs
    · cases hlogs
      exact .refl _
  have hall := poisoning_degrades_to_abstain transferAbi ⟨1, 50, some 20⟩ sentBefore (.ofHistory sentBefore 100)
    ⟨sendsAgain, [asMetaTransaction sendsAgain]⟩ ⟨.latest, none⟩ hanswers hcomplete
  refine ⟨by decide +kernel, by decide +kernel, by decide +kernel, ?_, ?_⟩
  · exact hall.2.2 (failingAt sentBefore 100 1) _ hfailing (.inr rfl) rfl (.refl _)
  · exact hall.2.1 (.ofHistory sentBefore 100) hanswers hcomplete rfl

end Safenet.SentinelEngine
