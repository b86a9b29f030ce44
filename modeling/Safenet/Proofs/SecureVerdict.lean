/-
What a secure verdict of the engine guarantees.

Several checks affirm calls that others deny, and none of them sees all that is needed: the base check
allows delegate calls and changes of settings, and the checks of calldata do not look at the value or at
what is called.  It is the requirement of every aspect of every call that brings them together.  Only two
checks vouch for a value, and both demand that there is none; a delegate call and a change of settings
have calldata, and whatever vouches for calldata has read one of a few functions out of every call of the
batch (`Reason`), which no delegate call and no change of settings is (`reads_of_reason`).

The node is trusted to answer with events of the chain that match the request, whenever it answers.
-/
import Safenet.Proofs.VerdictComposition

namespace Safenet.SentinelEngine

open Contracts (Operation SafeTransaction.T)

/-! ### Selectors -/

/-- The functions by which a Safe changes its settings. -/
def settings : List Function :=
  [.addOwnerWithThreshold, .removeOwner, .swapOwner, .changeThreshold, .disableModule,
    .setFallbackHandler, .setGuard, .enableModule, .setModuleGuard]

/-- The functions whose calldata some check vouches for. -/
def readable : List Function :=
  [.announceTransaction, .cancelAnnouncement, .execTransaction, .approve, .setPreSignature,
    .createWithContext, .claim, .stake, .transfer, .transferFrom]

theorem length_selector (f : Function) : f.selector.length = 4 := by
  cases f <;> rfl

theorem selects_iff {f : Function} {data : Bytes} : f.selects data = true ↔ f.selector <+: data :=
  List.isPrefixOf_iff_prefix

theorem selects_of_decode (abi : Abi) {f : Function} {data : Bytes} {args : f.Args}
    (h : abi.decode f data = some args) : f.selects data = true :=
  selects_iff.mpr (abi.decode_selector f data args h)

theorem ne_nil_of_selects {f : Function} {data : Bytes} (h : f.selects data = true) : data ≠ [] := by
  rintro rfl
  have hlength := (selects_iff.mp h).length_le
  rw [length_selector] at hlength
  simp at hlength

/-- Calldata has one selector. -/
theorem selector_eq {f g : Function} {data : Bytes} (hf : f.selects data = true)
    (hg : g.selects data = true) : f.selector = g.selector := by
  have hlength : f.selector.length = g.selector.length := by
    rw [length_selector, length_selector]
  exact (List.prefix_of_prefix_length_le (selects_iff.mp hf) (selects_iff.mp hg) hlength.le).eq_of_length
    hlength

theorem decode_eq_none (abi : Abi) {f g : Function} {data : Bytes} (hf : f.selects data = true)
    (hne : f.selector ≠ g.selector) : abi.decode g data = none := by
  cases hdecode : abi.decode g data with
  | none => rfl
  | some args => exact absurd (selector_eq hf (selects_of_decode abi hdecode)) hne

theorem readable_not_settings : ∀ f ∈ readable, ∀ g ∈ settings, f.selector ≠ g.selector := by
  decide

/-! ### The chain -/

/-- The Safe has moved or approved an amount of the token to the address, within the blocks. -/
def Established (abi : Abi) (history : List Log) (safe token candidate : Address) (first last : Nat) :
    Prop :=
  ∃ log ∈ history, log.address = token ∧ log.topics[1]? = some (Contracts.toWord safe) ∧
    first ≤ log.block ∧ log.block ≤ last ∧
    ∃ amount, decodeTargetAndAmount abi log = some (candidate, amount) ∧ amount ≠ 0

/-- Whatever the node answers is on the chain and was asked for. -/
def Provider.Truthful (history : List Log) (provider : Provider) : Prop :=
  ∀ index request filter logs, provider.getLogs index request filter = some logs →
    ∀ log ∈ logs, log ∈ history ∧ filter.selects log = true

/-- The answers of a node that has all of the history. -/
def Provider.ofHistory (history : List Log) (head : BitVec 64) : Provider where
  blockNumber := some head
  getLogs := fun _ _ filter => some (history.filter filter.selects)

theorem truthful_ofHistory (history : List Log) (head : BitVec 64) :
    (Provider.ofHistory history head).Truthful history := by
  intro index request filter logs hlogs log hlog
  cases hlogs
  exact List.mem_filter.mp hlog

/-! ### The scan of the events -/

theorem mem_blockChunks {first last maxRange fuel next start stop : Nat} (hword : last < 2 ^ 64)
    (hfirst : first ≤ next) (hlast : next ≤ last)
    (hmem : (start, stop) ∈ blockChunks last maxRange fuel next) : first ≤ start ∧ stop ≤ last := by
  induction fuel generalizing next with
  | zero => cases hmem
  | succ fuel ih =>
    simp only [blockChunks, List.mem_cons, Prod.mk.injEq] at hmem
    rcases hmem with ⟨rfl, rfl⟩ | hmem
    · exact ⟨hfirst, Nat.min_le_right _ _⟩
    · split at hmem
      · cases hmem
      · next hmore =>
        refine ih ?_ ?_ hmem <;> simp only [saturatingAdd] at hmore ⊢ <;> omega

theorem scanLogs_eq_none {abi : Abi} {candidate : Address} {recipients : List Address} {logs : List Log}
    (h : scanLogs abi candidate recipients logs = none) :
    ∃ log ∈ logs, ∃ amount, decodeTargetAndAmount abi log = some (candidate, amount) ∧ amount ≠ 0 := by
  induction logs generalizing recipients with
  | nil => cases h
  | cons log logs ih =>
    simp only [scanLogs] at h
    split at h
    · obtain ⟨found, hmem, hfound⟩ := ih h
      exact ⟨found, List.mem_cons_of_mem _ hmem, hfound⟩
    · next target amount hdecode =>
      split at h
      · obtain ⟨found, hmem, hfound⟩ := ih h
        exact ⟨found, List.mem_cons_of_mem _ hmem, hfound⟩
      · next hamount =>
        split at h
        · next htarget => exact ⟨log, List.mem_cons_self, amount, htarget ▸ hdecode, hamount⟩
        · obtain ⟨found, hmem, hfound⟩ := ih h
          exact ⟨found, List.mem_cons_of_mem _ hmem, hfound⟩

section Scan

variable {abi : Abi} {history : List Log} {provider : Provider}

theorem established_of_scanChunks (htruthful : provider.Truthful history)
    {token safe candidate : Address} {index request : Nat} {recipients : List Address}
    {chunks : List (Nat × Nat)} {first last : Nat}
    (hchunks : ∀ start stop, (start, stop) ∈ chunks → first ≤ start ∧ stop ≤ last)
    (h : scanChunks abi token safe candidate (provider.getLogs index) request recipients chunks =
      .exactMatch) : Established abi history safe token candidate first last := by
  induction chunks generalizing request recipients with
  | nil => cases h
  | cons chunk chunks ih =>
    obtain ⟨start, stop⟩ := chunk
    obtain ⟨hstart, hstop⟩ := hchunks start stop List.mem_cons_self
    simp only [scanChunks] at h
    split at h
    · split at h <;> cases h
    · next logs hlogs =>
      split at h
      · next hscan =>
        obtain ⟨log, hlog, amount, hdecode, hamount⟩ := scanLogs_eq_none hscan
        obtain ⟨hhistory, hselects⟩ := htruthful _ _ _ _ hlogs log hlog
        simp only [Filter.selects, Bool.and_eq_true, decide_eq_true_eq] at hselects
        obtain ⟨⟨⟨⟨haddress, -⟩, htopic⟩, hlow⟩, hhigh⟩ := hselects
        exact ⟨log, hhistory, haddress, htopic, hstart.trans hlow, hhigh.trans hstop, amount, hdecode,
          hamount⟩
      · exact ih (fun start stop hmem => hchunks start stop (List.mem_cons_of_mem _ hmem)) h

variable {config : PoisoningConfig}

theorem established_of_exactMatch (htruthful : provider.Truthful history)
    {token safe candidate : Address} {index currentBlock : Nat} (hword : currentBlock < 2 ^ 64)
    (h : establishedRecipients abi config (provider.getLogs index) token safe candidate currentBlock =
      .exactMatch) :
    Established abi history safe token candidate (currentBlock - config.lookbackBlocks) currentBlock :=
  established_of_scanChunks htruthful
    (fun _ _ hmem => mem_blockChunks hword le_rfl (Nat.sub_le _ _) hmem) h

/-- The call moves or approves an amount of a token, to an address that had some of it before. -/
def TokenCall (abi : Abi) (history : List Log) (safe : Address) (first last : Nat)
    (call : MetaTransaction) : Prop :=
  ∃ candidate kind, decodeTarget abi safe call = some (candidate, kind) ∧
    Established abi history safe call.target candidate first last

/-- Without an abstention every call has been matched. -/
theorem checkTargets_eq_ok (htruthful : provider.Truthful history) {safe : Address}
    {currentBlock index : Nat} (hword : currentBlock < 2 ^ 64) {abstain : Bool}
    {calls : List MetaTransaction}
    (h : checkTargets abi config provider safe currentBlock index abstain calls = (none, false)) :
    abstain = false ∧ ∀ call ∈ calls,
      TokenCall abi history safe (currentBlock - config.lookbackBlocks) currentBlock call := by
  induction calls generalizing index abstain with
  | nil =>
    cases h
    exact ⟨rfl, fun call hcall => absurd hcall List.not_mem_nil⟩
  | cons call calls ih =>
    simp only [checkTargets] at h
    split at h
    · cases (ih h).1
    · next candidate kind htarget =>
      split at h
      · next hmatch =>
        obtain ⟨habstain, hcalls⟩ := ih h
        refine ⟨habstain, ?_⟩
        intro other hother
        rcases List.mem_cons.mp hother with rfl | hother
        · exact ⟨candidate, kind, htarget, established_of_exactMatch htruthful hword hmatch⟩
        · exact hcalls other hother
      · split at h
        · cases h
        · cases (ih h).1
      · cases (ih h).1

end Scan

/-! ### Why calldata is vouched for -/

/-- The presigned order is for the Safe, and sells exactly what is approved. -/
def PresignedOrder (abi : Abi) (orderApi : OrderApi) (transaction : SafeTransaction.T)
    (approval presignature : MetaTransaction) : Prop :=
  ∃ token amount orderUid baseUrl order,
    vaultRelayerApprovalAmount abi approval = some (token, amount) ∧
    presignatureOrderUid abi presignature = some orderUid ∧
    orderApiBaseUrl transaction.chainId = some baseUrl ∧ orderApi baseUrl orderUid = some order ∧
    orderUid = computeOrderUid abi transaction.chainId order ∧
    order.effectiveReceiver = transaction.safe ∧ token = order.sellToken ∧ amount = order.sellAmount

/-- The TWAP order is for the Safe, and sells no less than what is approved, up to rounding. -/
def TwapOrder (abi : Abi) (transaction : SafeTransaction.T) (approval twap : MetaTransaction) : Prop :=
  ∃ token amount receiver total n, vaultRelayerApprovalAmount abi approval = some (token, amount) ∧
    twapOrderTerms abi twap = some (token, receiver, total, n) ∧
    (receiver = transaction.safe ∨ receiver = 0) ∧ amount ≤ maxApprovalForTwapTotal total n

/-- Nothing, a stake, or an approval and a stake of no less. -/
def Stakes (abi : Abi) (calls : List MetaTransaction) : Prop :=
  calls = [] ∨
  (∃ stake amount, calls = [stake] ∧ stakeAmount abi stake = some amount) ∨
  ∃ approval stake approved staked, calls = [approval, stake] ∧
    stakingApprovalAmount abi approval = some approved ∧ stakeAmount abi stake = some staked ∧
    approved ≤ staked

/-- An approval of the CoW relayer and a matching order, one after the other. -/
def CowCalls (abi : Abi) (orderApi : OrderApi) (proposal : Proposal) : Prop :=
  proposal.transaction.chainId ∈ SUPPORTED_CHAIN_IDS ∧
    ∃ approval order, (proposal.calls = [approval, order] ∨ proposal.calls = [order, approval]) ∧
      (PresignedOrder abi orderApi proposal.transaction approval order ∨
        TwapOrder abi proposal.transaction approval order)

/-- Claims of rewards for the Safe, and a stake. -/
def StakingCalls (abi : Abi) (proposal : Proposal) : Prop :=
  proposal.transaction.chainId = SUPPORTED_CHAIN_ID ∧
    (∀ call ∈ proposal.calls, ∀ account, claimAccount abi call = some account →
      account = proposal.transaction.safe) ∧
    Stakes abi (proposal.calls.filter fun call => claimAccount abi call = none)

/-- A reason that holds for all calls of a proposal at once. -/
inductive Reason (abi : Abi) (engine : Engine) (history : List Log) (proposal : Proposal)
    (context : CheckContext) : Prop where
  | escapeHatch (h : ∀ call ∈ proposal.calls, isEscapeHatchCall call = true)
  | nestedSafe (h : ∀ call ∈ proposal.calls,
      isNestedExecTransaction abi proposal.transaction.safe call = true)
  | cow (h : CowCalls abi engine.orderApi proposal)
  | staking (h : StakingCalls abi proposal)
  | established (hchain : proposal.transaction.chainId = BitVec.ofNat 256 engine.poisoning.chainId)
      (currentBlock : Nat)
      (hblock : resolveBlock engine.callsProvider context.block = some currentBlock)
      (h : ∀ call ∈ proposal.calls, TokenCall abi history proposal.transaction.safe
        (currentBlock - engine.poisoning.lookbackBlocks) currentBlock call)

/-- One of the readable functions is called. -/
def Reads (call : MetaTransaction) : Prop :=
  call.operation = .call ∧ ∃ f ∈ readable, f.selects call.data = true

/-- It is called without value. -/
def Plain (call : MetaTransaction) : Prop := Reads call ∧ call.value = 0

section Reads

variable {abi : Abi} {call : MetaTransaction}

theorem reads_of_decode {f : Function} {args : f.Args} (hoperation : call.operation = .call)
    (hdecode : abi.decode f call.data = some args) (hmem : f ∈ readable) : Reads call :=
  ⟨hoperation, f, hmem, selects_of_decode abi hdecode⟩

theorem plain_of_escapeHatch (h : isEscapeHatchCall call = true) : Plain call := by
  unfold isEscapeHatchCall at h
  split at h
  · cases h
  · next hcall =>
    push Not at hcall
    rcases Bool.or_eq_true _ _ ▸ h with hselects | hselects
    · exact ⟨⟨hcall.1, _, by decide, hselects⟩, hcall.2⟩
    · exact ⟨⟨hcall.1, _, by decide, hselects⟩, hcall.2⟩

theorem reads_of_nestedSafe {safe : Address} (h : isNestedExecTransaction abi safe call = true) :
    Reads call := by
  simp only [isNestedExecTransaction, Bool.and_eq_true, decide_eq_true_eq] at h
  exact ⟨h.1.1.1, _, by decide, h.1.2⟩

theorem plain_of_vaultRelayerApproval {approved : Address × B256}
    (h : vaultRelayerApprovalAmount abi call = some approved) : Plain call := by
  unfold vaultRelayerApprovalAmount at h
  obtain ⟨hcall, h⟩ := Option.ite_none_left_eq_some.mp h
  push Not at hcall
  obtain ⟨approval, hdecode, -⟩ := Option.bind_eq_some_iff.mp h
  exact ⟨reads_of_decode hcall.1 hdecode (by decide), hcall.2⟩

theorem plain_of_presignature {orderUid : Bytes} (h : presignatureOrderUid abi call = some orderUid) :
    Plain call := by
  unfold presignatureOrderUid at h
  obtain ⟨hcall, h⟩ := Option.ite_none_left_eq_some.mp h
  push Not at hcall
  obtain ⟨presignature, hdecode, -⟩ := Option.bind_eq_some_iff.mp h
  exact ⟨reads_of_decode hcall.1 hdecode (by decide), hcall.2.1⟩

theorem plain_of_twap {terms : Address × Address × B256 × B256}
    (h : twapOrderTerms abi call = some terms) : Plain call := by
  unfold twapOrderTerms at h
  obtain ⟨hcall, h⟩ := Option.ite_none_left_eq_some.mp h
  push Not at hcall
  obtain ⟨create, hdecode, -⟩ := Option.bind_eq_some_iff.mp h
  exact ⟨reads_of_decode hcall.1 hdecode (by decide), hcall.2.1⟩

theorem plain_of_claim {account : Address} (h : claimAccount abi call = some account) : Plain call := by
  unfold claimAccount at h
  obtain ⟨hcall, h⟩ := Option.ite_none_left_eq_some.mp h
  push Not at hcall
  exact ⟨reads_of_decode hcall.1 h (by decide), hcall.2.1⟩

theorem plain_of_stakingApproval {amount : B256} (h : stakingApprovalAmount abi call = some amount) :
    Plain call := by
  unfold stakingApprovalAmount at h
  obtain ⟨hcall, h⟩ := Option.ite_none_left_eq_some.mp h
  push Not at hcall
  obtain ⟨approval, hdecode, -⟩ := Option.bind_eq_some_iff.mp h
  exact ⟨reads_of_decode hcall.1 hdecode (by decide), hcall.2.1⟩

theorem plain_of_stake {amount : B256} (h : stakeAmount abi call = some amount) : Plain call := by
  unfold stakeAmount at h
  obtain ⟨hcall, h⟩ := Option.ite_none_left_eq_some.mp h
  push Not at hcall
  exact ⟨reads_of_decode hcall.1 h (by decide), hcall.2.1⟩

theorem reads_of_decodeTarget {safe : Address} {target : Address × TargetKind}
    (h : decodeTarget abi safe call = some target) : Reads call := by
  unfold decodeTarget at h
  split at h
  · cases h
  · next hcall =>
    have hoperation : call.operation = .call := not_not.mp hcall
    split at h
    · next hdecode => exact reads_of_decode hoperation hdecode (by decide)
    · split at h
      · next hdecode => exact reads_of_decode hoperation hdecode (by decide)
      · split at h
        · next hdecode => exact reads_of_decode hoperation hdecode (by decide)
        · cases h

end Reads

theorem plain_of_stakes {abi : Abi} {calls : List MetaTransaction} (h : Stakes abi calls)
    {call : MetaTransaction} (hcall : call ∈ calls) : Plain call := by
  rcases h with rfl | ⟨stake, amount, rfl, hstake⟩ |
    ⟨approval, stake, approved, staked, rfl, happroval, hstake, -⟩
  · cases hcall
  · rw [List.mem_singleton] at hcall
    exact hcall ▸ plain_of_stake hstake
  · simp only [List.mem_cons, List.not_mem_nil, or_false] at hcall
    rcases hcall with rfl | rfl
    · exact plain_of_stakingApproval happroval
    · exact plain_of_stake hstake

theorem plain_of_stakingCalls {abi : Abi} {proposal : Proposal} (h : StakingCalls abi proposal) :
    ∀ call ∈ proposal.calls, Plain call := by
  intro call hcall
  cases hclaim : claimAccount abi call with
  | some account => exact plain_of_claim hclaim
  | none => exact plain_of_stakes h.2.2 (List.mem_filter.mpr ⟨hcall, by simpa using hclaim⟩)

theorem plain_of_cowCalls {abi : Abi} {orderApi : OrderApi} {proposal : Proposal}
    (h : CowCalls abi orderApi proposal) : ∀ call ∈ proposal.calls, Plain call := by
  obtain ⟨-, approval, order, hcalls, horder⟩ := h
  have hboth : Plain approval ∧ Plain order := by
    rcases horder with ⟨_, _, _, _, _, happroval, horder, -⟩ | ⟨_, _, _, _, _, happroval, horder, -⟩
    · exact ⟨plain_of_vaultRelayerApproval happroval, plain_of_presignature horder⟩
    · exact ⟨plain_of_vaultRelayerApproval happroval, plain_of_twap horder⟩
  intro call hcall
  have hmem : call = approval ∨ call = order := by
    rcases hcalls with hcalls | hcalls <;> simp [hcalls] at hcall <;> tauto
  rcases hmem with rfl | rfl
  · exact hboth.1
  · exact hboth.2

/-- Whatever the reason is, a function has been read out of every call. -/
theorem reads_of_reason {abi : Abi} {engine : Engine} {history : List Log} {proposal : Proposal}
    {context : CheckContext} (h : Reason abi engine history proposal context) :
    ∀ call ∈ proposal.calls, Reads call := by
  intro call hcall
  cases h with
  | escapeHatch h => exact (plain_of_escapeHatch (h call hcall)).1
  | nestedSafe h => exact reads_of_nestedSafe (h call hcall)
  | cow h => exact (plain_of_cowCalls h call hcall).1
  | staking h => exact (plain_of_stakingCalls h call hcall).1
  | established hchain currentBlock hblock h =>
    obtain ⟨candidate, kind, htarget, -⟩ := h call hcall
    exact reads_of_decodeTarget htarget

/-! ### What the checks conclude -/

theorem not_uniform_claims {totalCalls index : Nat} {aspects : AspectSet} {x : Aspect}
    (h : aspects.has x = false) : ¬ (Coverage.uniform totalCalls aspects).Claims index x := by
  rintro ⟨claimed, hclaimed, hx⟩
  simp only [Coverage.uniform, List.getElem?_replicate] at hclaimed
  split at hclaimed
  · cases hclaimed
    rw [h] at hx
    cases hx
  · cases hclaimed

section Checks

variable {abi : Abi} {engine : Engine} {history : List Log} {proposal : Proposal}
  {context : CheckContext} {coverage : Coverage}

theorem of_cancellation (h : cancellationChecker proposal context = .secure coverage) :
    isCancellation proposal.transaction = true := by
  unfold cancellationChecker at h
  split at h
  · assumption
  · cases h

theorem of_escapeHatch (h : escapeHatchChecker proposal context = .secure coverage) :
    ∀ call ∈ proposal.calls, isEscapeHatchCall call = true := by
  unfold escapeHatchChecker at h
  split at h
  · next hall => exact List.all_eq_true.mp hall
  · cases h

theorem forM_eq_ok {α ε : Type} {f : α → Except ε Unit} {xs : List α} (h : xs.forM f = .ok ()) :
    ∀ x ∈ xs, f x = .ok () := by
  induction xs with
  | nil => exact fun x hx => absurd hx List.not_mem_nil
  | cons y ys ih =>
    rw [List.forM_eq_forM, List.forM_cons] at h
    intro x hx
    cases hy : f y with
    | error e =>
      rw [hy] at h
      cases h
    | ok result =>
      rw [hy] at h
      rcases List.mem_cons.mp hx with rfl | hx
      · exact hy
      · exact ih h x hx

theorem checkCall_of_base (h : ∀ rule, baseChecker abi proposal context ≠ .insecure rule) :
    ∀ call ∈ proposal.calls, checkCall abi proposal.transaction.safe call = .ok () := by
  unfold baseChecker at h
  split at h
  · next hok => exact forM_eq_ok hok
  · next rule herror => exact absurd rfl (h rule)

/-- A call passes the base check as one of its two kinds. -/
theorem checkCall_eq_ok {safe : Address} {call : MetaTransaction} (h : checkCall abi safe call = .ok ()) :
    (call.operation = .call ∧ checkCalls abi safe call = true) ∨
      (call.operation = .delegateCall ∧ checkDelegateCalls call = true) := by
  unfold checkCall checkSettingsChange checkDelegatecallIntegrity at h
  cases hoperation : call.operation with
  | call =>
    simp only [hoperation, ne_eq, not_true, if_false, Option.some_or, Option.getD_some] at h
    split at h
    · next hcalls => exact .inl ⟨rfl, hcalls⟩
    · cases h
  | delegateCall =>
    simp only [hoperation, ne_eq, reduceCtorEq, not_false_iff, if_true, Option.none_or, not_true, if_false,
      Option.getD_some] at h
    split at h
    · next hcalls => exact .inr ⟨rfl, hcalls⟩
    · cases h

theorem ne_nil_of_checkDelegateCalls {call : MetaTransaction} (h : checkDelegateCalls call = true) :
    call.data ≠ [] := by
  unfold checkDelegateCalls at h
  intro hdata
  have hnone : ∀ f : Function, f.selects call.data = false := by
    intro f
    by_contra hf
    exact ne_nil_of_selects (eq_true_of_ne_false hf) hdata
  simp [hnone] at h

/-- A change of settings is by a settings function. -/
theorem settings_of_checkSelfCalls {call : MetaTransaction} (h : checkSelfCalls abi call = true) :
    ∃ g ∈ settings, g.selects call.data = true := by
  by_contra hnone
  push Not at hnone
  have hselects : ∀ g ∈ settings, g.selects call.data = false :=
    fun g hg => eq_false_of_ne_true (hnone g hg)
  simp only [settings, List.forall_mem_cons] at hselects
  simp [checkSelfCalls, hselects] at h

/-- The Safe only calls itself with calldata to change its settings, which is not readable. -/
theorem not_reads_of_selfCall {safe : Address} {call : MetaTransaction}
    (h : checkCalls abi safe call = true) (hself : call.target = safe) (hdata : call.data ≠ []) :
    ¬ Reads call := by
  rintro ⟨hoperation, f, hf, hselects⟩
  simp only [checkCalls, hoperation, ne_eq, not_true, if_false, hself, hdata] at h
  obtain ⟨g, hg, hsettings⟩ := settings_of_checkSelfCalls h
  exact readable_not_settings f hf g hg (selector_eq hselects hsettings)

theorem of_nestedSafe (h : nestedSafeChecker abi proposal context = .secure coverage) :
    ∀ call ∈ proposal.calls, isNestedExecTransaction abi proposal.transaction.safe call = true := by
  unfold nestedSafeChecker at h
  split at h
  · next hall => exact List.all_eq_true.mp hall
  · cases h

theorem not_mem_blocklist {blocklist : List Address}
    (h : ∀ rule, blocklistChecker blocklist proposal context ≠ .insecure rule) :
    ∀ call ∈ proposal.calls, call.target ∉ blocklist := by
  intro call hcall hmem
  refine h .knownMaliciousTarget ?_
  unfold blocklistChecker
  rw [if_pos]
  exact List.any_eq_true.mpr ⟨call, hcall, by simpa using hmem⟩

theorem not_isUnlimited (h : ∀ rule, excessiveApprovalChecker abi proposal context ≠ .insecure rule)
    {call : MetaTransaction} (hcall : call ∈ proposal.calls) {effect : TargetEffect}
    (heffect : tokenEffect abi call.data = some effect) (hdata : call.data ≠ []) :
    isUnlimited effect = false := by
  by_contra hunlimited
  refine h .excessiveApproval ?_
  unfold excessiveApprovalChecker
  rw [if_pos]
  refine List.any_eq_true.mpr ⟨call, hcall, List.any_eq_true.mpr ⟨effect, ?_, eq_true_of_ne_false hunlimited⟩⟩
  simp [decodeTargetEffects, hdata, heffect]

/-- An approval is read as an approval. -/
theorem tokenEffect_approve {data : Bytes} {approval : ApproveCall}
    (h : abi.decode .approve data = some approval) :
    tokenEffect abi data = some ⟨approval.spender, .erc20Approval approval.amount⟩ := by
  have hselects := selects_of_decode abi h
  have htransfer : abi.decode .transfer data = none := decode_eq_none abi hselects (by decide)
  have htransferFrom : abi.decode .transferFrom data = none := decode_eq_none abi hselects (by decide)
  simp only [tokenEffect, htransfer, htransferFrom, h]

theorem tokenEffect_setApprovalForAll {data : Bytes} {approval : SetApprovalForAllCall}
    (h : abi.decode .setApprovalForAll data = some approval) :
    tokenEffect abi data = some ⟨approval.operator, .operatorApproval approval.approved⟩ := by
  have hselects := selects_of_decode abi h
  have htransfer : abi.decode .transfer data = none := decode_eq_none abi hselects (by decide)
  have htransferFrom : abi.decode .transferFrom data = none := decode_eq_none abi hselects (by decide)
  have happrove : abi.decode .approve data = none := decode_eq_none abi hselects (by decide)
  simp only [tokenEffect, htransfer, htransferFrom, happrove, h]

theorem orElse_eq_secure {first second : Assessment} (h : first.orElse second = .secure coverage) :
    first = .secure coverage ∨ second = .secure coverage := by
  unfold Assessment.orElse at h
  split at h
  · exact .inl h
  · exact .inr h

theorem of_or_eq_some {α : Type} {a b : Option α} {x : α} (h : a.or b = some x) :
    a = some x ∨ b = some x := by
  cases a with
  | none => exact .inr (by simpa using h)
  | some y => exact .inl (by simpa using h)

theorem of_decodeApprovalAndPresignature {approval presignature : MetaTransaction}
    {approved : Address × B256} {orderUid : Bytes}
    (h : decodeApprovalAndPresignature abi approval presignature = some (approved, orderUid)) :
    vaultRelayerApprovalAmount abi approval = some approved ∧
      presignatureOrderUid abi presignature = some orderUid := by
  obtain ⟨found, hfound, hmap⟩ := Option.bind_eq_some_iff.mp h
  obtain ⟨uid, huid, hpair⟩ := Option.map_eq_some_iff.mp hmap
  cases hpair
  exact ⟨hfound, huid⟩

theorem of_decodeApprovalAndTwap {approval twap : MetaTransaction} {approved : Address × B256}
    {terms : Address × Address × B256 × B256}
    (h : decodeApprovalAndTwap abi approval twap = some (approved, terms)) :
    vaultRelayerApprovalAmount abi approval = some approved ∧ twapOrderTerms abi twap = some terms := by
  obtain ⟨found, hfound, hmap⟩ := Option.bind_eq_some_iff.mp h
  obtain ⟨read, hread, hpair⟩ := Option.map_eq_some_iff.mp hmap
  cases hpair
  exact ⟨hfound, hread⟩

theorem of_assessOrder {safe : Address} {chainId : B256} {calls : List MetaTransaction}
    {approved : Address × B256} {orderUid : Bytes} {order : CowOrder}
    (h : assessOrder abi safe chainId calls approved orderUid order = .secure coverage) :
    orderUid = computeOrderUid abi chainId order ∧ order.effectiveReceiver = safe ∧
      approved.1 = order.sellToken ∧ approved.2 = order.sellAmount := by
  unfold assessOrder at h
  split at h
  · cases h
  · next huid =>
    split at h
    · cases h
    · next hreceiver =>
      split at h
      · next hsells => exact ⟨not_not.mp huid, not_not.mp hreceiver, hsells⟩
      · cases h

/-- A batch that is affirmed is an approval and a presigned order, in either order. -/
theorem of_checkPresignatureBatch {orderApi : OrderApi} {transaction : SafeTransaction.T}
    {calls : List MetaTransaction}
    (h : checkPresignatureBatch abi orderApi transaction.safe transaction.chainId calls =
      .secure coverage) :
    ∃ approval order, (calls = [approval, order] ∨ calls = [order, approval]) ∧
      PresignedOrder abi orderApi transaction approval order := by
  unfold checkPresignatureBatch at h
  split at h
  · cases h
  · next baseUrl hbaseUrl =>
    split at h
    · next first second =>
      split at h
      · cases h
      · next approved orderUid hdecode =>
        split at h
        · next order horder =>
          obtain ⟨huid, hreceiver, htoken, hamount⟩ := of_assessOrder h
          rcases of_or_eq_some hdecode with hdecode | hdecode
          · obtain ⟨happroval, hpresignature⟩ := of_decodeApprovalAndPresignature hdecode
            exact ⟨first, second, .inl rfl, _, _, _, _, _, happroval, hpresignature, hbaseUrl, horder,
              huid, hreceiver, htoken, hamount⟩
          · obtain ⟨happroval, hpresignature⟩ := of_decodeApprovalAndPresignature hdecode
            exact ⟨second, first, .inr rfl, _, _, _, _, _, happroval, hpresignature, hbaseUrl, horder,
              huid, hreceiver, htoken, hamount⟩
        · cases h
    · cases h

theorem of_assessTwap {safe : Address} {calls : List MetaTransaction} {approved : Address × B256}
    {sellToken receiver : Address} {total n : B256}
    (h : assessTwap safe calls approved (sellToken, receiver, total, n) = .secure coverage) :
    (receiver = safe ∨ receiver = 0) ∧ approved.1 = sellToken ∧
      approved.2 ≤ maxApprovalForTwapTotal total n := by
  simp only [assessTwap] at h
  split at h
  · cases h
  · next hreceiver =>
    split at h
    · cases h
    · next hsells =>
      push Not at hsells
      exact ⟨by tauto, hsells.1, hsells.2⟩

theorem of_checkTwapBatch {transaction : SafeTransaction.T} {calls : List MetaTransaction}
    (h : checkTwapBatch abi transaction.safe calls = .secure coverage) :
    ∃ approval order, (calls = [approval, order] ∨ calls = [order, approval]) ∧
      TwapOrder abi transaction approval order := by
  unfold checkTwapBatch at h
  split at h
  · next first second =>
    split at h
    · cases h
    · next approved terms hdecode =>
      obtain ⟨sellToken, receiver, total, n⟩ := terms
      obtain ⟨hreceiver, htoken, hamount⟩ := of_assessTwap h
      subst htoken
      rcases of_or_eq_some hdecode with hdecode | hdecode
      · obtain ⟨happroval, hterms⟩ := of_decodeApprovalAndTwap hdecode
        exact ⟨first, second, .inl rfl, _, _, _, _, _, happroval, hterms, hreceiver, hamount⟩
      · obtain ⟨happroval, hterms⟩ := of_decodeApprovalAndTwap hdecode
        exact ⟨second, first, .inr rfl, _, _, _, _, _, happroval, hterms, hreceiver, hamount⟩
  · cases h

theorem checkDanglingApproval_ne_secure {calls : List MetaTransaction} :
    checkDanglingApproval abi calls ≠ .secure coverage := by
  unfold checkDanglingApproval
  split
  · simp
  · split <;> simp

theorem of_cow (h : cowChecker abi engine.orderApi proposal context = .secure coverage) :
    CowCalls abi engine.orderApi proposal := by
  simp only [cowChecker] at h
  split at h
  · cases h
  · next hchain =>
    rcases orElse_eq_secure h with h | h
    · exact absurd h checkDanglingApproval_ne_secure
    · rcases orElse_eq_secure h with h | h
      · obtain ⟨approval, order, hcalls, horder⟩ := of_checkPresignatureBatch h
        exact ⟨not_not.mp hchain, approval, order, hcalls, .inl horder⟩
      · obtain ⟨approval, order, hcalls, horder⟩ := of_checkTwapBatch h
        exact ⟨not_not.mp hchain, approval, order, hcalls, .inr horder⟩

/-- What is set aside are the claims, and all of them are for the Safe. -/
theorem of_setAsideClaims {safe : Address} {calls remaining : List MetaTransaction} {claimed : Bool}
    (h : setAsideClaims abi safe calls = some (remaining, claimed)) :
    (∀ call ∈ calls, ∀ account, claimAccount abi call = some account → account = safe) ∧
      remaining = calls.filter fun call => claimAccount abi call = none := by
  induction calls generalizing remaining claimed with
  | nil =>
    cases h
    exact ⟨fun call hcall => absurd hcall List.not_mem_nil, rfl⟩
  | cons call calls ih =>
    simp only [setAsideClaims] at h
    split at h
    · next account hclaim =>
      split at h
      · cases h
      · next haccount =>
        obtain ⟨rest, hrest, hpair⟩ := Option.map_eq_some_iff.mp h
        cases hpair
        obtain ⟨hclaims, hremaining⟩ := ih hrest
        refine ⟨List.forall_mem_cons.mpr ⟨?_, hclaims⟩, by simp [hclaim, hremaining]⟩
        intro other hother
        rw [hclaim] at hother
        exact Option.some.inj hother ▸ not_not.mp haccount
    · next hclaim =>
      obtain ⟨rest, hrest, hpair⟩ := Option.map_eq_some_iff.mp h
      cases hpair
      obtain ⟨hclaims, hremaining⟩ := ih hrest
      refine ⟨List.forall_mem_cons.mpr ⟨?_, hclaims⟩, by simp [hclaim, hremaining]⟩
      intro other hother
      rw [hclaim] at hother
      cases hother

theorem of_checkPair {totalCalls : Nat} {first second : MetaTransaction}
    (h : checkPair abi totalCalls first second = .secure coverage) : Stakes abi [first, second] := by
  unfold checkPair at h
  split at h
  · next approved staked happroval hstake =>
    split at h
    · cases h
    · next hless => exact .inr (.inr ⟨_, _, _, _, rfl, happroval, hstake, not_lt.mp hless⟩)
  · cases h

theorem of_staking (h : stakingChecker abi proposal context = .secure coverage) :
    StakingCalls abi proposal := by
  simp only [stakingChecker] at h
  split at h
  · cases h
  · next hchain =>
    split at h
    · cases h
    · next remaining claimed haside =>
      obtain ⟨hclaims, hremaining⟩ := of_setAsideClaims haside
      refine ⟨not_not.mp hchain, hclaims, ?_⟩
      rw [← hremaining]
      split at h
      · exact .inl rfl
      · next call =>
        unfold checkLoneCall at h
        split at h
        · next hstake =>
          obtain ⟨amount, hamount⟩ := Option.isSome_iff_exists.mp hstake
          exact .inr (.inl ⟨call, amount, rfl, hamount⟩)
        · cases h
      · exact of_checkPair h
      · cases h

theorem lt_of_resolveBlock {provider : Provider} {label : BlockLabel} {block : Nat}
    (h : resolveBlock provider label = some block) : block < 2 ^ 64 := by
  cases label with
  | latest =>
    obtain ⟨number, -, rfl⟩ := Option.map_eq_some_iff.mp h
    exact number.isLt
  | number number =>
    cases h
    exact number.isLt

/-- An affirmation of the poisoning check has matched every call of the proposal. -/
theorem of_addressPoisoning {provider : Provider} (htruthful : provider.Truthful history)
    (h : addressPoisoningChecker abi engine.poisoning provider proposal context = .secure coverage) :
    proposal.transaction.chainId = BitVec.ofNat 256 engine.poisoning.chainId ∧
      ∃ currentBlock, resolveBlock provider context.block = some currentBlock ∧
        ∀ call ∈ proposal.calls, TokenCall abi history proposal.transaction.safe
          (currentBlock - engine.poisoning.lookbackBlocks) currentBlock call := by
  simp only [addressPoisoningChecker] at h
  split at h
  · cases h
  · next hchain =>
    split at h
    · cases h
    · next currentBlock hblock =>
      split at h
      · cases h
      · cases h
      · next hcalls =>
        exact ⟨not_not.mp hchain, currentBlock, hblock,
          (checkTargets_eq_ok htruthful (lt_of_resolveBlock hblock) hcalls).2⟩

/-- The refund is a payment in a token, to an address that had some of it before. -/
def RefundEstablished (abi : Abi) (engine : Engine) (history : List Log)
    (transaction : SafeTransaction.T) (context : CheckContext) : Prop :=
  transaction.gasToken ≠ 0 ∧ transaction.refundReceiver ≠ 0 ∧
    ∃ currentBlock, resolveBlock engine.refundProvider context.block = some currentBlock ∧
      Established abi history transaction.safe transaction.gasToken transaction.refundReceiver
        (currentBlock - engine.poisoning.lookbackBlocks) currentBlock

theorem of_refund (htruthful : engine.refundProvider.Truthful history)
    (h : refundChecker abi engine.poisoning engine.refundProvider proposal context = .secure coverage) :
    RefundEstablished abi engine history proposal.transaction context := by
  unfold refundChecker at h
  split at h
  · cases h
  · next refundCall hrefund =>
    unfold refundTransfer at hrefund
    obtain ⟨hpays, hcall⟩ := Option.ite_none_left_eq_some.mp hrefund
    push Not at hpays
    cases hcall
    split at h
    · next hsecure =>
      obtain ⟨-, currentBlock, hblock, hcalls⟩ := of_addressPoisoning htruthful hsecure
      obtain ⟨candidate, kind, htarget, hestablished⟩ := hcalls _ List.mem_cons_self
      have hcandidate : candidate = proposal.transaction.refundReceiver := by
        simp only [decodeTarget, abi.decode_encodeTransfer, ne_eq, not_true, if_false] at htarget
        split at htarget
        · exact (congrArg Prod.fst (Option.some.inj htarget)).symm
        · cases htarget
      subst hcandidate
      exact ⟨hpays.2.1, hpays.2.2, currentBlock, hblock, hestablished⟩
    · next hnever => exact absurd h (hnever coverage)

/-- A cancellation has one call, and it is empty. -/
theorem calls_of_cancellation {transaction : SafeTransaction.T} (hparse : parse abi transaction = .ok proposal)
    (h : isCancellation proposal.transaction = true) :
    ∀ call ∈ proposal.calls, call.value = 0 ∧ call.data = [] := by
  simp only [parse] at hparse
  obtain ⟨calls, hcalls, hproposal⟩ := Fallible.bind_eq_ok.mp hparse
  cases Fallible.pure_eq_ok.mp hproposal
  have hcancellation : transaction = ⟨transaction.chainId, transaction.safe, transaction.safe, 0, [], .call,
      0, 0, 0, 0, 0, transaction.nonce⟩ := by
    simpa [isCancellation] using h
  have hbatch : decodeMultiSendCall abi transaction.safe (asMetaTransaction transaction) = none := by
    rw [hcancellation]
    rfl
  rw [flatten, hbatch] at hcalls
  cases hcalls
  intro call hcall
  rw [List.mem_singleton.mp hcall, hcancellation]
  exact ⟨rfl, rfl⟩

/-- Whatever vouches for calldata has a reason that holds for all calls. -/
theorem reason_of_vouched {transaction : SafeTransaction.T} (hparse : parse abi transaction = .ok proposal)
    (hcalls : engine.callsProvider.Truthful history) {index : Nat} {call : MetaTransaction}
    (hcall : proposal.calls[index]? = some call) (hdata : call.data ≠ [])
    (h : Vouched (engine.checkers abi) proposal context index .data) :
    Reason abi engine history proposal context := by
  let unclaimed : Coverage → Prop := fun coverage => ¬ coverage.Claims index .data
  simp only [Engine.checkers, vouched_cons] at h
  rcases h with h | h | h | h | h | h | h | h | h | h | h
  · obtain ⟨coverage, hsecure, -⟩ := h
    have hempty := calls_of_cancellation hparse (of_cancellation hsecure) call (List.mem_of_getElem? hcall)
    exact absurd hempty.2 hdata
  · obtain ⟨coverage, hsecure, -⟩ := h
    exact .escapeHatch (of_escapeHatch hsecure)
  · obtain ⟨coverage, hsecure, hclaims⟩ := h
    exact absurd hclaims (claims_base (P := unclaimed) context (not_uniform_claims rfl) abi _ hsecure)
  · obtain ⟨coverage, hsecure, -⟩ := h
    exact (claims_blocklist (P := fun _ => False) context _ _ hsecure).elim
  · obtain ⟨coverage, hsecure, -⟩ := h
    exact .nestedSafe (of_nestedSafe hsecure)
  · obtain ⟨coverage, hsecure, -⟩ := h
    exact (claims_excessiveApproval (P := fun _ => False) context abi _ hsecure).elim
  · obtain ⟨coverage, hsecure, -⟩ := h
    exact .cow (of_cow hsecure)
  · obtain ⟨coverage, hsecure, -⟩ := h
    exact .staking (of_staking hsecure)
  · obtain ⟨coverage, hsecure, hclaims⟩ := h
    exact absurd hclaims (claims_refund (P := unclaimed) context (Coverage.not_claims_none _ _ _) abi _ _ _ hsecure)
  · obtain ⟨coverage, hsecure, -⟩ := h
    obtain ⟨hchain, currentBlock, hblock, htokens⟩ := of_addressPoisoning hcalls hsecure
    exact .established hchain currentBlock hblock htokens
  · obtain ⟨checker, hmem, -⟩ := h
    cases hmem

/-- Whatever vouches for a value has made sure that there is none. -/
theorem value_eq_zero_of_vouched {transaction : SafeTransaction.T}
    (hparse : parse abi transaction = .ok proposal) {index : Nat}
    (h : Vouched (engine.checkers abi) proposal context index .value) :
    ∀ call ∈ proposal.calls, call.value = 0 := by
  let unclaimed : Coverage → Prop := fun coverage => ¬ coverage.Claims index .value
  simp only [Engine.checkers, vouched_cons] at h
  rcases h with h | h | h | h | h | h | h | h | h | h | h
  · obtain ⟨coverage, hsecure, -⟩ := h
    exact fun call hcall => (calls_of_cancellation hparse (of_cancellation hsecure) call hcall).1
  · obtain ⟨coverage, hsecure, -⟩ := h
    exact fun call hcall => (plain_of_escapeHatch (of_escapeHatch hsecure call hcall)).2
  · obtain ⟨coverage, hsecure, hclaims⟩ := h
    exact absurd hclaims (claims_base (P := unclaimed) context (not_uniform_claims rfl) abi _ hsecure)
  · obtain ⟨coverage, hsecure, -⟩ := h
    exact (claims_blocklist (P := fun _ => False) context _ _ hsecure).elim
  · obtain ⟨coverage, hsecure, hclaims⟩ := h
    exact absurd hclaims (claims_nestedSafe (P := unclaimed) context (not_uniform_claims rfl) abi _ hsecure)
  · obtain ⟨coverage, hsecure, -⟩ := h
    exact (claims_excessiveApproval (P := fun _ => False) context abi _ hsecure).elim
  · obtain ⟨coverage, hsecure, hclaims⟩ := h
    exact absurd hclaims (claims_cow (P := unclaimed) context (not_uniform_claims rfl) abi _ _ hsecure)
  · obtain ⟨coverage, hsecure, hclaims⟩ := h
    exact absurd hclaims (claims_staking (P := unclaimed) context (not_uniform_claims rfl) abi _ hsecure)
  · obtain ⟨coverage, hsecure, hclaims⟩ := h
    exact absurd hclaims (claims_refund (P := unclaimed) context (Coverage.not_claims_none _ _ _) abi _ _ _ hsecure)
  · obtain ⟨coverage, hsecure, hclaims⟩ := h
    exact absurd hclaims (claims_addressPoisoning (P := unclaimed) context (not_uniform_claims rfl) abi _ _ _ hsecure)
  · obtain ⟨checker, hmem, -⟩ := h
    cases hmem

/-- Only the check of refunds vouches for one. -/
theorem refundEstablished_of_vouched (hrefund : engine.refundProvider.Truthful history)
    (hgas : proposal.transaction.gasPrice ≠ 0)
    (h : RefundVouched (engine.checkers abi) proposal context) :
    RefundEstablished abi engine history proposal.transaction context := by
  let unclaimed : Coverage → Prop := fun coverage => ¬ coverage.refund = true
  have huniform : ∀ aspects, unclaimed (proposal.checked aspects) := by
    intro aspects hclaims
    cases hclaims
  simp only [Engine.checkers, refundVouched_cons] at h
  rcases h with h | h | h | h | h | h | h | h | h | h | h
  · obtain ⟨coverage, hsecure, -⟩ := h
    have hcancellation := of_cancellation hsecure
    simp only [isCancellation, decide_eq_true_eq] at hcancellation
    rw [hcancellation] at hgas
    exact absurd rfl hgas
  · obtain ⟨coverage, hsecure, hclaims⟩ := h
    exact absurd hclaims (claims_escapeHatch (P := unclaimed) context (huniform _) _ hsecure)
  · obtain ⟨coverage, hsecure, hclaims⟩ := h
    exact absurd hclaims (claims_base (P := unclaimed) context (huniform _) abi _ hsecure)
  · obtain ⟨coverage, hsecure, -⟩ := h
    exact (claims_blocklist (P := fun _ => False) context _ _ hsecure).elim
  · obtain ⟨coverage, hsecure, hclaims⟩ := h
    exact absurd hclaims (claims_nestedSafe (P := unclaimed) context (huniform _) abi _ hsecure)
  · obtain ⟨coverage, hsecure, -⟩ := h
    exact (claims_excessiveApproval (P := fun _ => False) context abi _ hsecure).elim
  · obtain ⟨coverage, hsecure, hclaims⟩ := h
    exact absurd hclaims (claims_cow (P := unclaimed) context (huniform _) abi _ _ hsecure)
  · obtain ⟨coverage, hsecure, hclaims⟩ := h
    exact absurd hclaims (claims_staking (P := unclaimed) context (huniform _) abi _ hsecure)
  · obtain ⟨coverage, hsecure, -⟩ := h
    exact of_refund hrefund hsecure
  · obtain ⟨coverage, hsecure, hclaims⟩ := h
    exact absurd hclaims (claims_addressPoisoning (P := unclaimed) context (huniform _) abi _ _ _ hsecure)
  · obtain ⟨checker, hmem, -⟩ := h
    cases hmem

end Checks

/-! ### The verdict -/

/-- What holds of a proposal that is found secure. -/
structure Sound (abi : Abi) (engine : Engine) (history : List Log) (proposal : Proposal)
    (context : CheckContext) : Prop where
  /-- No delegate call, and no native currency leaves the Safe. -/
  plain : ∀ call ∈ proposal.calls, call.operation = .call ∧ call.value = 0
  /-- No settings of the Safe change. -/
  others : ∀ call ∈ proposal.calls, call.data ≠ [] → call.target ≠ proposal.transaction.safe
  allowed : ∀ call ∈ proposal.calls, call.target ∉ engine.blocklist
  limited : ∀ call ∈ proposal.calls,
    (∀ spender, abi.decode .approve call.data ≠ some (⟨spender, MAX⟩ : ApproveCall)) ∧
      ∀ operator, abi.decode .setApprovalForAll call.data ≠ some (⟨operator, true⟩ : SetApprovalForAllCall)
  /-- If there is any calldata, one reason holds for all calls. -/
  reason : (∃ call ∈ proposal.calls, call.data ≠ []) → Reason abi engine history proposal context
  refund : proposal.transaction.gasPrice ≠ 0 →
    RefundEstablished abi engine history proposal.transaction context

section Verdict

variable {abi : Abi} {engine : Engine} {history : List Log} {proposal : Proposal} {context : CheckContext}

theorem limited_of_excessiveApproval
    (h : ∀ rule, excessiveApprovalChecker abi proposal context ≠ .insecure rule) {call : MetaTransaction}
    (hcall : call ∈ proposal.calls) :
    (∀ spender, abi.decode .approve call.data ≠ some (⟨spender, MAX⟩ : ApproveCall)) ∧
      ∀ operator, abi.decode .setApprovalForAll call.data ≠
        some (⟨operator, true⟩ : SetApprovalForAllCall) := by
  constructor
  · intro spender hdecode
    have hdata := ne_nil_of_selects (selects_of_decode abi hdecode)
    have hlimited := not_isUnlimited h hcall (tokenEffect_approve hdecode) hdata
    simp [isUnlimited] at hlimited
  · intro operator hdecode
    have hdata := ne_nil_of_selects (selects_of_decode abi hdecode)
    have hlimited := not_isUnlimited h hcall (tokenEffect_setApprovalForAll hdecode) hdata
    simp [isUnlimited] at hlimited

theorem sound_of_complete {transaction : SafeTransaction.T} (hparse : parse abi transaction = .ok proposal)
    (hcalls : engine.callsProvider.Truthful history)
    (hrefund : engine.refundProvider.Truthful history)
    (hdenied : ¬ Denied (engine.checkers abi) proposal context)
    (hcomplete : Complete (engine.checkers abi) proposal context) :
    Sound abi engine history proposal context := by
  have hsilent : ∀ checker ∈ engine.checkers abi, ∀ rule, checker proposal context ≠ .insecure rule :=
    fun checker hmem rule hrule => hdenied ⟨checker, hmem, rule, hrule⟩
  have hbase := checkCall_of_base (hsilent (baseChecker abi) (by simp [Engine.checkers]))
  have hreason : ∀ call ∈ proposal.calls, call.data ≠ [] →
      Reason abi engine history proposal context := by
    intro call hcall hdata
    obtain ⟨index, hindex⟩ := List.mem_iff_getElem?.mp hcall
    exact reason_of_vouched hparse hcalls hindex hdata
      (hcomplete.calls index call hindex .data ((AspectSet.requiredFor_has_data call).mpr hdata))
  have hoperation : ∀ call ∈ proposal.calls, call.operation = .call := by
    intro call hcall
    rcases checkCall_eq_ok (hbase call hcall) with ⟨hoperation, -⟩ | ⟨-, hdelegate⟩
    · exact hoperation
    · exact (reads_of_reason (hreason call hcall (ne_nil_of_checkDelegateCalls hdelegate)) call hcall).1
  constructor
  · intro call hcall
    refine ⟨hoperation call hcall, ?_⟩
    by_contra hvalue
    obtain ⟨index, hindex⟩ := List.mem_iff_getElem?.mp hcall
    have hrequired : (AspectSet.requiredFor call).has .value = true :=
      (AspectSet.requiredFor_has_value call).mpr ⟨hvalue, by simp [hoperation call hcall]⟩
    exact hvalue (value_eq_zero_of_vouched hparse
      (hcomplete.calls index call hindex .value hrequired) call hcall)
  · intro call hcall hdata hself
    have hreads := reads_of_reason (hreason call hcall hdata) call hcall
    rcases checkCall_eq_ok (hbase call hcall) with ⟨-, hcalls⟩ | ⟨hdelegate, -⟩
    · exact not_reads_of_selfCall hcalls hself hdata hreads
    · rw [hoperation call hcall] at hdelegate
      cases hdelegate
  · exact not_mem_blocklist (hsilent (blocklistChecker engine.blocklist) (by simp [Engine.checkers]))
  · intro call hcall
    exact limited_of_excessiveApproval
      (hsilent (excessiveApprovalChecker abi) (by simp [Engine.checkers])) hcall
  · rintro ⟨call, hcall, hdata⟩
    exact hreason call hcall hdata
  · intro hgas
    exact refundEstablished_of_vouched hrefund hgas (hcomplete.refund hgas)

end Verdict

/-- **A secure verdict is sound.**  Whatever the node and the order API answer or fail to answer, the
transaction has been read as plain calls without value that all have one good reason. -/
theorem secure_is_sound (abi : Abi) (engine : Engine) (history : List Log)
    (transaction : SafeTransaction.T) (context : CheckContext)
    (hcalls : engine.callsProvider.Truthful history)
    (hrefund : engine.refundProvider.Truthful history)
    (hsecure : securityCheck abi (engine.checkers abi) transaction context = .secure) :
    ∃ proposal, parse abi transaction = .ok proposal ∧ proposal.transaction = transaction ∧
      Sound abi engine history proposal context := by
  unfold securityCheck at hsecure
  split at hsecure
  · cases hsecure
  · next proposal hparse =>
    have htransaction : proposal.transaction = transaction := by
      obtain ⟨calls, -, hproposal⟩ := Fallible.bind_eq_ok.mp hparse
      cases Fallible.pure_eq_ok.mp hproposal
      rfl
    obtain ⟨hdenied, hcomplete⟩ := (compose_secure_iff (fits_checkers context abi engine)).mp hsecure
    exact ⟨proposal, hparse, htransaction, sound_of_complete hparse hcalls hrefund hdenied hcomplete⟩

/-- The decoders of transfers, which know no other call. -/
def transferAbi : Abi where
  decode := fun
    | .transfer, data =>
        if Function.transfer.selects data ∧ data.length = 68 then
          some (⟨BitVec.ofNat 160 (Bytes.value ((data.drop 4).take 32)),
            BitVec.ofNat 256 (Bytes.value (data.drop 36))⟩ : TransferCall)
        else none
    | _, _ => none
  twapData := fun _ => none
  encodeTransfer := fun call => Function.transfer.selector ++
    (Bytes.word (Contracts.toWord call.destination) ++ Bytes.word call.amount)
  transferLog := fun topics data =>
    match topics with
    | [_, _, destination] => some (BitVec.ofNat 160 destination.toNat, BitVec.ofNat 256 (Bytes.value data))
    | _ => none
  approvalLog := fun _ _ => none
  orderDigest := fun _ _ => 0
  decode_selector := by
    intro f data args h
    cases f with
    | transfer =>
      dsimp only at h
      split at h
      · next hselects => exact selects_iff.mp hselects.1
      · cases h
    | _ => cases h
  decode_encodeTransfer := by
    intro call
    obtain ⟨destination, amount⟩ := call
    have hselects : Function.transfer.selects (Function.transfer.selector ++
        (Bytes.word (Contracts.toWord destination) ++ Bytes.word amount)) = true :=
      selects_iff.mpr (List.prefix_append _ _)
    have hdestination : (Contracts.toWord destination).toNat = destination.toNat :=
      Nat.mod_eq_of_lt (destination.isLt.trans (by decide))
    dsimp only
    rw [if_pos ⟨hselects, by simp [length_selector]⟩]
    simp [List.drop_append, List.drop_of_length_le, length_selector, Bytes.value_word, hdestination]
    rfl

/-- The Safe has sent some of the token to the address before. -/
def sentBefore : List Log := [⟨90, 11, [TRANSFER_HASH, 7, 9], Bytes.word 3⟩]

/-- An engine whose node has it. -/
def knowing : Engine where
  blocklist := [13]
  poisoning := ⟨1, 50, some 20⟩
  orderApi := fun _ _ => none
  refundProvider := .ofHistory sentBefore 100
  callsProvider := .ofHistory sentBefore 100

/-- It sends some more, and pays the same address for the gas. -/
def sendsAgain : SafeTransaction.T :=
  ⟨1, 7, 11, 0, transferAbi.encodeTransfer ⟨9, 5⟩, .call, 21000, 0, 1, 11, 9, 4⟩

theorem sendsAgain_is_sound :
    securityCheck transferAbi (knowing.checkers transferAbi) sendsAgain ⟨.latest, none⟩ = .secure ∧
      ∃ proposal, parse transferAbi sendsAgain = .ok proposal ∧ proposal.transaction = sendsAgain ∧
        Sound transferAbi knowing sentBefore proposal ⟨.latest, none⟩ := by
  have hsecure : securityCheck transferAbi (knowing.checkers transferAbi) sendsAgain ⟨.latest, none⟩ =
      .secure := by
    decide +kernel
  exact ⟨hsecure, secure_is_sound _ _ _ _ _ (truthful_ofHistory _ _) (truthful_ofHistory _ _) hsecure⟩

end Safenet.SentinelEngine
