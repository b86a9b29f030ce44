/-
How the verdicts of the checks are composed.

The engine stops at the first denial and otherwise joins what the affirming checks claim.  Everything
about the answer is read off two facts: whether some check denies, and which aspects some affirming check
claims (`compose_secure_iff`).  Neither depends on the order of the checks, nor on those that abstain.

The joins go call by call and stop at the shorter claim, so the claims have to be about all the calls of
the proposal (`Fits`).  That is shown for every check of `main`, whatever the node and the order API
answer (`fits_checkers`).
-/
import Safenet.SentinelEngine.Checkers

namespace Safenet.SentinelEngine

open Contracts (Operation SafeTransaction.T)

/-! ### Sets of aspects -/

inductive Aspect where
  | destination
  | value
  | data
  | operation
deriving DecidableEq, Repr

namespace AspectSet

def has (aspects : AspectSet) : Aspect → Bool
  | .destination => aspects.destination
  | .value => aspects.value
  | .data => aspects.data
  | .operation => aspects.operation

@[simp] theorem has_empty (x : Aspect) : empty.has x = false := by
  cases x <;> rfl

@[simp] theorem has_all (x : Aspect) : all.has x = true := by
  cases x <;> rfl

@[simp] theorem has_union (a b : AspectSet) (x : Aspect) :
    (a.union b).has x = (a.has x || b.has x) := by
  cases x <;> rfl

@[simp] theorem has_difference (a b : AspectSet) (x : Aspect) :
    (a.difference b).has x = (a.has x && !b.has x) := by
  cases x <;> rfl

theorem ext_has {a b : AspectSet} (h : ∀ x, a.has x = b.has x) : a = b := by
  obtain ⟨_, _, _, _⟩ := a
  obtain ⟨_, _, _, _⟩ := b
  have hdestination := h .destination
  have hvalue := h .value
  have hdata := h .data
  have hoperation := h .operation
  simp only [has] at hdestination hvalue hdata hoperation
  rw [hdestination, hvalue, hdata, hoperation]

theorem contains_iff {a b : AspectSet} : a.contains b = true ↔ ∀ x, b.has x = true → a.has x = true := by
  constructor
  · intro h x hx
    simp only [contains, Bool.and_eq_true, Bool.or_eq_true, Bool.not_eq_true'] at h
    cases x <;> simp_all [has]
  · intro h
    have hdestination := h .destination
    have hvalue := h .value
    have hdata := h .data
    have hoperation := h .operation
    simp only [has] at hdestination hvalue hdata hoperation
    simp only [contains, Bool.and_eq_true, Bool.or_eq_true, Bool.not_eq_true']
    refine ⟨⟨⟨?_, ?_⟩, ?_⟩, ?_⟩ <;> grind

theorem union_comm (a b : AspectSet) : a.union b = b.union a :=
  ext_has fun x => by simp [Bool.or_comm]

theorem union_assoc (a b c : AspectSet) : (a.union b).union c = a.union (b.union c) :=
  ext_has fun x => by simp [Bool.or_assoc]

theorem union_self (a : AspectSet) : a.union a = a := ext_has fun x => by simp

theorem union_empty (a : AspectSet) : a.union empty = a := ext_has fun x => by simp

theorem contains_iff_difference {a b : AspectSet} : a.contains b = true ↔ b.difference a = empty := by
  rw [contains_iff]
  constructor
  · intro h
    refine ext_has fun x => ?_
    have hx := h x
    cases hb : b.has x <;> simp_all
  · intro h x hx
    have hdifference := congrArg (AspectSet.has · x) h
    simpa [hx] using hdifference

theorem requiredFor_has_destination (call : MetaTransaction) :
    (requiredFor call).has .destination = true := by
  simp only [requiredFor]
  split <;> split <;> rfl

theorem requiredFor_has_value (call : MetaTransaction) :
    (requiredFor call).has .value = true ↔ call.value ≠ 0 ∧ call.operation ≠ .delegateCall := by
  simp only [requiredFor]
  split
  · next h => split <;> simp [VALUE, DATA, has, all, difference] <;> tauto
  · next h => split <;> simp [has, all, difference] <;> tauto

theorem requiredFor_has_data (call : MetaTransaction) :
    (requiredFor call).has .data = true ↔ call.data ≠ [] := by
  simp only [requiredFor]
  split <;> split <;> simp_all [VALUE, DATA, has, all, difference]

end AspectSet

/-! ### Claims -/

namespace Coverage

/-- The claim names the aspect of the call at the index. -/
def Claims (coverage : Coverage) (index : Nat) (x : Aspect) : Prop :=
  ∃ aspects, coverage.calls[index]? = some aspects ∧ aspects.has x = true

theorem not_claims_none (totalCalls index : Nat) (x : Aspect) :
    ¬ (none totalCalls).Claims index x := by
  rintro ⟨aspects, hindex, hx⟩
  have hempty : aspects = .empty := by
    simp only [none, List.getElem?_replicate] at hindex
    split at hindex
    · exact (Option.some.inj hindex).symm
    · cases hindex
  rw [hempty, AspectSet.has_empty] at hx
  cases hx

theorem union_claims {a b : Coverage} (hlength : a.calls.length = b.calls.length) (index : Nat)
    (x : Aspect) : (a.union b).Claims index x ↔ a.Claims index x ∨ b.Claims index x := by
  simp only [Claims, union, List.getElem?_zipWith]
  by_cases hindex : index < a.calls.length
  · have hb : index < b.calls.length := hlength ▸ hindex
    simp [List.getElem?_eq_getElem hindex, List.getElem?_eq_getElem hb]
  · have hb : b.calls.length ≤ index := by omega
    simp [List.getElem?_eq_none (not_lt.mp hindex), List.getElem?_eq_none hb]

theorem refund_union (a b : Coverage) : (a.union b).refund = (a.refund || b.refund) := rfl

theorem all_zipWith {α β : Type} (f : α → β → Bool) (as : List α) (bs : List β) :
    (List.zipWith f as bs).all id = true ↔
      ∀ (index : Nat) a b, as[index]? = some a → bs[index]? = some b → f a b = true := by
  rw [List.all_eq_true]
  constructor
  · intro h index a b ha hb
    refine h (f a b) (List.mem_iff_getElem?.mpr ⟨index, ?_⟩)
    rw [List.getElem?_zipWith, ha, hb]
  · intro h result hresult
    obtain ⟨index, hindex⟩ := List.mem_iff_getElem?.mp hresult
    rw [List.getElem?_zipWith] at hindex
    split at hindex
    · next a b ha hb => exact Option.some.inj hindex ▸ h index a b ha hb
    · cases hindex

theorem contains_iff {a required : Coverage} (hlength : a.calls.length = required.calls.length) :
    a.contains required = true ↔
      (∀ index x, required.Claims index x → a.Claims index x) ∧
        (required.refund = true → a.refund = true) := by
  simp only [contains, Bool.and_eq_true, all_zipWith, Bool.or_eq_true, Bool.not_eq_true']
  refine and_congr ?_ (by cases required.refund <;> simp)
  constructor
  · intro h index x hclaims
    obtain ⟨needed, hneeded, hx⟩ := hclaims
    have hindex : index < a.calls.length := by
      rw [hlength]
      exact (List.getElem?_eq_some_iff.mp hneeded).1
    have hhas := h index a.calls[index] needed (List.getElem?_eq_getElem hindex) hneeded
    exact ⟨_, List.getElem?_eq_getElem hindex, AspectSet.contains_iff.mp hhas x hx⟩
  · intro h index claimed needed hclaimed hneeded
    rw [AspectSet.contains_iff]
    intro x hx
    obtain ⟨aspects, haspects, hhas⟩ := h index x ⟨needed, hneeded, hx⟩
    rw [hclaimed] at haspects
    exact Option.some.inj haspects ▸ hhas

/-! ### The algebra of claims -/

theorem ext_calls {a b : Coverage} (hlength : a.calls.length = b.calls.length)
    (hcalls : ∀ index (ha : index < a.calls.length) (hb : index < b.calls.length),
      a.calls[index] = b.calls[index])
    (hrefund : a.refund = b.refund) : a = b := by
  obtain ⟨_, _⟩ := a
  obtain ⟨_, _⟩ := b
  obtain rfl := hrefund
  exact congrArg (Coverage.mk · _) (List.ext_getElem hlength hcalls)

theorem union_comm (a b : Coverage) : a.union b = b.union a := by
  refine ext_calls ?_ ?_ (Bool.or_comm a.refund b.refund)
  · simp [union, Nat.min_comm]
  · intro index ha hb
    simp only [union, List.getElem_zipWith]
    exact AspectSet.union_comm _ _

theorem union_assoc (a b c : Coverage) : (a.union b).union c = a.union (b.union c) := by
  refine ext_calls ?_ ?_ (Bool.or_assoc a.refund b.refund c.refund)
  · simp [union, Nat.min_assoc]
  · intro index ha hb
    simp [union, AspectSet.union_assoc]

theorem union_self (a : Coverage) : a.union a = a := by
  refine ext_calls ?_ ?_ (Bool.or_self a.refund)
  · simp [union]
  · intro index ha hb
    simp [union, AspectSet.union_self]

theorem union_none (a : Coverage) : a.union (none a.calls.length) = a := by
  refine ext_calls ?_ ?_ (Bool.or_false a.refund)
  · simp [union, none]
  · intro index ha hb
    simp [union, none, AspectSet.union_empty]

theorem length_union {a b : Coverage} {totalCalls : Nat} (ha : a.calls.length = totalCalls)
    (hb : b.calls.length = totalCalls) : (a.union b).calls.length = totalCalls := by
  simp [union, ha, hb]

/-- Nothing is missing if it is all contained. -/
theorem contains_iff_missing {a required : Coverage} (hlength : a.calls.length = required.calls.length) :
    a.contains required = true ↔ a.missing required = none a.calls.length := by
  simp only [contains, Bool.and_eq_true, all_zipWith, Bool.or_eq_true, Bool.not_eq_true']
  constructor
  · rintro ⟨hcalls, hrefund⟩
    refine ext_calls (by simp [missing, none, hlength]) ?_ ?_
    · intro index hmissing hnone
      have ha : index < a.calls.length := by simpa [none] using hnone
      have hrequired : index < required.calls.length := hlength ▸ ha
      have hcontains := hcalls index a.calls[index] required.calls[index]
        (List.getElem?_eq_getElem ha) (List.getElem?_eq_getElem hrequired)
      simpa [missing, none] using AspectSet.contains_iff_difference.mp hcontains
    · show (required.refund && !a.refund) = false
      rcases hrefund with hrefund | hrefund
      · rw [hrefund, Bool.false_and]
      · rw [hrefund, Bool.not_true, Bool.and_false]
  · intro h
    refine ⟨?_, ?_⟩
    · intro index claimed needed hclaimed hneeded
      have hcalls := congrArg (·.calls[index]?) h
      have hindex : index < a.calls.length := (List.getElem?_eq_some_iff.mp hclaimed).1
      simp only [missing, none, List.getElem?_zipWith, hclaimed, hneeded, List.getElem?_replicate,
        hindex, if_true, Option.some.injEq] at hcalls
      exact AspectSet.contains_iff_difference.mpr hcalls
    · have hrefund : (required.refund && !a.refund) = false := congrArg Coverage.refund h
      cases hrequired : required.refund with
      | false => exact .inl rfl
      | true => exact .inr (by simpa [hrequired] using hrefund)

end Coverage

/-! ### The answer -/

/-- What is left of a verdict without the rule of a denial. -/
inductive Answer where
  | secure
  | insecure
  | abstain
deriving DecidableEq, Repr

def Verdict.answer : Verdict → Answer
  | .secure => .secure
  | .insecure _ => .insecure
  | .abstain => .abstain

/-- What is claimed, if anything is, has the property. -/
def Assessment.Claims (P : Coverage → Prop) (assessment : Assessment) : Prop :=
  ∀ coverage, assessment = .secure coverage → P coverage

/-- A claim of the check is about all calls of the proposal. -/
def Checker.Fits (checker : Checker) (proposal : Proposal) (context : CheckContext) : Prop :=
  (checker proposal context).Claims fun coverage => coverage.calls.length = proposal.calls.length

/-- Some check denies. -/
def Denied (checkers : List Checker) (proposal : Proposal) (context : CheckContext) : Prop :=
  ∃ checker ∈ checkers, ∃ rule, checker proposal context = .insecure rule

/-- Some check affirms the aspect of the call at the index. -/
def Vouched (checkers : List Checker) (proposal : Proposal) (context : CheckContext) (index : Nat)
    (x : Aspect) : Prop :=
  ∃ checker ∈ checkers, ∃ coverage, checker proposal context = .secure coverage ∧ coverage.Claims index x

/-- Some check affirms the refund. -/
def RefundVouched (checkers : List Checker) (proposal : Proposal) (context : CheckContext) : Prop :=
  ∃ checker ∈ checkers, ∃ coverage, checker proposal context = .secure coverage ∧ coverage.refund = true

/-- Whatever is required is affirmed by some check. -/
structure Complete (checkers : List Checker) (proposal : Proposal) (context : CheckContext) : Prop where
  calls : ∀ index call, proposal.calls[index]? = some call →
    ∀ x, (AspectSet.requiredFor call).has x = true → Vouched checkers proposal context index x
  refund : proposal.transaction.gasPrice ≠ 0 → RefundVouched checkers proposal context

section Fold

theorem denied_cons {checker : Checker} {checkers : List Checker} {proposal : Proposal}
    {context : CheckContext} : Denied (checker :: checkers) proposal context ↔
      (∃ rule, checker proposal context = .insecure rule) ∨ Denied checkers proposal context := by
  simp only [Denied, List.exists_mem_cons_iff]

theorem vouched_cons {checker : Checker} {checkers : List Checker} {proposal : Proposal}
    {context : CheckContext} {index : Nat} {x : Aspect} :
    Vouched (checker :: checkers) proposal context index x ↔
      (∃ coverage, checker proposal context = .secure coverage ∧ coverage.Claims index x) ∨
        Vouched checkers proposal context index x := by
  simp only [Vouched, List.exists_mem_cons_iff]

theorem refundVouched_cons {checker : Checker} {checkers : List Checker} {proposal : Proposal}
    {context : CheckContext} : RefundVouched (checker :: checkers) proposal context ↔
      (∃ coverage, checker proposal context = .secure coverage ∧ coverage.refund = true) ∨
        RefundVouched checkers proposal context := by
  simp only [RefundVouched, List.exists_mem_cons_iff]

variable {checkers : List Checker} {proposal : Proposal} {context : CheckContext}

theorem composeFrom_insecure_iff (covered : Coverage) :
    (composeFrom proposal context covered checkers).answer = .insecure ↔
      Denied checkers proposal context := by
  induction checkers generalizing covered with
  | nil =>
    simp only [composeFrom, Denied, List.not_mem_nil, false_and, exists_false, iff_false]
    split <;> simp [Verdict.answer]
  | cons checker checkers ih =>
    rw [denied_cons]
    simp only [composeFrom]
    cases hassessment : checker proposal context with
    | insecure rule => simp [Verdict.answer]
    | secure coverage => simpa using ih (covered.union coverage)
    | abstain => simpa using ih covered

/-- Without a denial the claims are joined, and the join has to contain what is required. -/
theorem composeFrom_secure_iff {covered : Coverage}
    (hcovered : covered.calls.length = proposal.calls.length)
    (hfits : ∀ checker ∈ checkers, checker.Fits proposal context)
    (hdenied : ¬ Denied checkers proposal context) :
    composeFrom proposal context covered checkers = .secure ↔
      (∀ index x, (Coverage.requiredFor proposal).Claims index x →
        covered.Claims index x ∨ Vouched checkers proposal context index x) ∧
      ((Coverage.requiredFor proposal).refund = true →
        covered.refund = true ∨ RefundVouched checkers proposal context) := by
  induction checkers generalizing covered with
  | nil =>
    have hlength : covered.calls.length = (Coverage.requiredFor proposal).calls.length := by
      rw [hcovered]
      exact (List.length_map _).symm
    simp only [composeFrom, Vouched, RefundVouched, List.not_mem_nil, false_and, exists_false, or_false]
    rw [← Coverage.contains_iff hlength]
    split <;> simp_all
  | cons checker checkers ih =>
    have hfitsTail : ∀ other ∈ checkers, other.Fits proposal context :=
      fun other hother => hfits other (List.mem_cons_of_mem _ hother)
    have hdeniedTail : ¬ Denied checkers proposal context := by
      rintro ⟨other, hother, hrule⟩
      exact hdenied ⟨other, List.mem_cons_of_mem _ hother, hrule⟩
    simp only [composeFrom, vouched_cons, refundVouched_cons]
    cases hassessment : checker proposal context with
    | insecure rule => exact absurd ⟨checker, List.mem_cons_self, rule, hassessment⟩ hdenied
    | secure coverage =>
      have hcoverage : coverage.calls.length = proposal.calls.length :=
        hfits checker List.mem_cons_self coverage hassessment
      have hstep := ih (Coverage.length_union hcovered hcoverage) hfitsTail hdeniedTail
      simp only [Coverage.union_claims (hcovered.trans hcoverage.symm), Coverage.refund_union,
        Bool.or_eq_true] at hstep
      simpa [or_assoc] using hstep
    | abstain => simpa using ih hcovered hfitsTail hdeniedTail

theorem requiredFor_claims_iff (index : Nat) (x : Aspect) :
    (Coverage.requiredFor proposal).Claims index x ↔
      ∃ call, proposal.calls[index]? = some call ∧ (AspectSet.requiredFor call).has x = true := by
  simp [Coverage.Claims, Coverage.requiredFor, List.getElem?_map]

theorem compose_insecure_iff :
    (compose checkers proposal context).answer = .insecure ↔ Denied checkers proposal context :=
  composeFrom_insecure_iff _

theorem compose_secure_iff (hfits : ∀ checker ∈ checkers, checker.Fits proposal context) :
    compose checkers proposal context = .secure ↔
      ¬ Denied checkers proposal context ∧ Complete checkers proposal context := by
  have hnone : (Coverage.none proposal.calls.length).calls.length = proposal.calls.length :=
    List.length_replicate
  by_cases hdenied : Denied checkers proposal context
  · have hanswer := compose_insecure_iff.mpr hdenied
    simp only [hdenied, not_true, false_and, iff_false]
    intro hsecure
    rw [hsecure] at hanswer
    cases hanswer
  · have hfold := composeFrom_secure_iff hnone hfits hdenied
    simp only [Coverage.not_claims_none, false_or, requiredFor_claims_iff] at hfold
    have hrefund : (Coverage.none proposal.calls.length).refund = false := rfl
    simp only [hrefund, Bool.false_eq_true, false_or] at hfold
    simp only [hdenied, not_false_iff, true_and]
    refine hfold.trans ⟨fun h => ?_, fun h => ?_⟩
    · exact ⟨fun index call hcall x hx => h.1 index x ⟨call, hcall, hx⟩,
        fun hgas => h.2 (by simpa [Coverage.requiredFor] using hgas)⟩
    · refine ⟨?_, fun hgas => h.refund (by simpa [Coverage.requiredFor] using hgas)⟩
      rintro index x ⟨call, hcall, hx⟩
      exact h.calls index call hcall x hx

theorem answer_secure_iff (verdict : Verdict) : verdict.answer = .secure ↔ verdict = .secure := by
  cases verdict <;> simp [Verdict.answer]

end Fold

/-! ### Order, abstentions and further affirmations -/

section Lists

variable {checkers others : List Checker} {proposal : Proposal} {context : CheckContext}

/-- The check does not abstain. -/
def speaks (proposal : Proposal) (context : CheckContext) (checker : Checker) : Bool :=
  checker proposal context ≠ .abstain

/-- Both lists conclude the same things, apart from abstentions. -/
def SameConclusions (checkers others : List Checker) (proposal : Proposal) (context : CheckContext) :
    Prop :=
  ∀ assessment, assessment ≠ .abstain →
    ((∃ checker ∈ checkers, checker proposal context = assessment) ↔
      ∃ checker ∈ others, checker proposal context = assessment)

theorem SameConclusions.symm (h : SameConclusions checkers others proposal context) :
    SameConclusions others checkers proposal context :=
  fun assessment hspeaks => (h assessment hspeaks).symm

/-- A conclusion of the first list is one of the second. -/
theorem SameConclusions.find (h : SameConclusions checkers others proposal context) {checker : Checker}
    (hmem : checker ∈ checkers) {assessment : Assessment}
    (hassessment : checker proposal context = assessment) (hspeaks : assessment ≠ .abstain) :
    ∃ other ∈ others, other proposal context = assessment :=
  (h assessment hspeaks).mp ⟨checker, hmem, hassessment⟩

theorem sameConclusions_of_perm
    (h : (checkers.filter (speaks proposal context)).Perm (others.filter (speaks proposal context))) :
    SameConclusions checkers others proposal context := by
  intro assessment hspeaks
  have hfilter : ∀ list : List Checker, (∃ checker ∈ list, checker proposal context = assessment) ↔
      ∃ checker ∈ list.filter (speaks proposal context), checker proposal context = assessment := by
    intro list
    constructor
    · rintro ⟨checker, hmem, rfl⟩
      exact ⟨checker, List.mem_filter.mpr ⟨hmem, by simpa [speaks] using hspeaks⟩, rfl⟩
    · rintro ⟨checker, hmem, hassessment⟩
      exact ⟨checker, (List.mem_filter.mp hmem).1, hassessment⟩
  rw [hfilter checkers, hfilter others]
  exact exists_congr fun checker => and_congr_left fun _ => h.mem_iff

theorem SameConclusions.denied (h : SameConclusions checkers others proposal context)
    (hdenied : Denied checkers proposal context) : Denied others proposal context := by
  obtain ⟨checker, hmem, rule, hrule⟩ := hdenied
  obtain ⟨other, hother, hassessment⟩ := h.find hmem hrule (by simp)
  exact ⟨other, hother, rule, hassessment⟩

theorem SameConclusions.complete (h : SameConclusions checkers others proposal context)
    (hcomplete : Complete checkers proposal context) : Complete others proposal context := by
  constructor
  · intro index call hcall x hx
    obtain ⟨checker, hmem, coverage, hcoverage, hclaims⟩ := hcomplete.calls index call hcall x hx
    obtain ⟨other, hother, hassessment⟩ := h.find hmem hcoverage (by simp)
    exact ⟨other, hother, coverage, hassessment, hclaims⟩
  · intro hgas
    obtain ⟨checker, hmem, coverage, hcoverage, hclaims⟩ := hcomplete.refund hgas
    obtain ⟨other, hother, hassessment⟩ := h.find hmem hcoverage (by simp)
    exact ⟨other, hother, coverage, hassessment, hclaims⟩

theorem SameConclusions.fits (h : SameConclusions checkers others proposal context)
    (hfits : ∀ checker ∈ checkers, checker.Fits proposal context) :
    ∀ other ∈ others, other.Fits proposal context := by
  intro other hother coverage hcoverage
  obtain ⟨checker, hmem, hassessment⟩ := h.symm.find hother hcoverage (by simp)
  exact hfits checker hmem coverage hassessment

/-- An answer is known by whether it is a denial and whether it is secure. -/
theorem answer_ext {a b : Verdict} (hinsecure : a.answer = .insecure ↔ b.answer = .insecure)
    (hsecure : a = .secure ↔ b = .secure) : a.answer = b.answer := by
  cases a <;> cases b <;> simp_all [Verdict.answer]

theorem SameConclusions.answer (h : SameConclusions checkers others proposal context)
    (hfits : ∀ checker ∈ checkers, checker.Fits proposal context) :
    (compose checkers proposal context).answer = (compose others proposal context).answer := by
  refine answer_ext ?_ ?_
  · rw [compose_insecure_iff, compose_insecure_iff]
    exact ⟨h.denied, h.symm.denied⟩
  · rw [compose_secure_iff hfits, compose_secure_iff (h.fits hfits)]
    exact and_congr (not_congr ⟨h.denied, h.symm.denied⟩) ⟨h.complete, h.symm.complete⟩

/-- More affirmations do no harm. -/
theorem compose_secure_insert {checker : Checker} {coverage : Coverage}
    (hfits : ∀ other ∈ checkers ++ others, other.Fits proposal context)
    (hcoverage : checker proposal context = .secure coverage)
    (hspans : coverage.calls.length = proposal.calls.length)
    (hsecure : compose (checkers ++ others) proposal context = .secure) :
    compose (checkers ++ checker :: others) proposal context = .secure := by
  have hmem : ∀ other, other ∈ checkers ++ checker :: others ↔
      other = checker ∨ other ∈ checkers ++ others := by
    intro other
    simp only [List.mem_append, List.mem_cons]
    tauto
  have hall : ∀ other ∈ checkers ++ checker :: others, other.Fits proposal context := by
    intro other hother
    rcases (hmem other).mp hother with rfl | hold
    · intro claimed hclaimed
      rw [hcoverage] at hclaimed
      cases hclaimed
      exact hspans
    · exact hfits other hold
  obtain ⟨hdenied, hcomplete⟩ := (compose_secure_iff hfits).mp hsecure
  refine (compose_secure_iff hall).mpr ⟨?_, ?_, ?_⟩
  · rintro ⟨other, hother, rule, hrule⟩
    rcases (hmem other).mp hother with rfl | hold
    · rw [hcoverage] at hrule
      cases hrule
    · exact hdenied ⟨other, hold, rule, hrule⟩
  · intro index call hcall x hx
    obtain ⟨other, hold, hvouched⟩ := hcomplete.calls index call hcall x hx
    exact ⟨other, (hmem other).mpr (.inr hold), hvouched⟩
  · intro hgas
    obtain ⟨other, hold, hvouched⟩ := hcomplete.refund hgas
    exact ⟨other, (hmem other).mpr (.inr hold), hvouched⟩

end Lists

/-! ### The claims of every check -/

section Claims

variable {P : Coverage → Prop}

theorem claims_abstain : Assessment.abstain.Claims P := by
  intro coverage h
  cases h

theorem claims_insecure (rule : RuleId) : (Assessment.insecure rule).Claims P := by
  intro coverage h
  cases h

theorem claims_secure {coverage : Coverage} (h : P coverage) : (Assessment.secure coverage).Claims P := by
  intro claimed hclaimed
  cases hclaimed
  exact h

theorem claims_orElse {first second : Assessment} (hfirst : first.Claims P) (hsecond : second.Claims P) :
    (first.orElse second).Claims P := by
  unfold Assessment.orElse
  split
  · exact hfirst
  · exact hsecond

theorem claims_checkDanglingApproval (abi : Abi) (calls : List MetaTransaction) :
    (checkDanglingApproval abi calls).Claims P := by
  unfold checkDanglingApproval
  split
  · exact claims_abstain
  · split
    · exact claims_abstain
    · exact claims_insecure _

theorem claims_assessOrder {calls : List MetaTransaction} (h : P (.uniform calls.length .DATA)) (abi : Abi)
    (safe : Address) (chainId : B256) (approved : Address × B256) (orderUid : Bytes) (order : CowOrder) :
    (assessOrder abi safe chainId calls approved orderUid order).Claims P := by
  unfold assessOrder
  split
  · exact claims_abstain
  · split
    · exact claims_insecure _
    · split
      · exact claims_secure h
      · exact claims_insecure _

theorem claims_checkPresignatureBatch {calls : List MetaTransaction} (h : P (.uniform calls.length .DATA))
    (abi : Abi) (orderApi : OrderApi) (safe : Address) (chainId : B256) :
    (checkPresignatureBatch abi orderApi safe chainId calls).Claims P := by
  unfold checkPresignatureBatch
  split
  · exact claims_abstain
  · split
    · split
      · exact claims_abstain
      · split
        · exact claims_assessOrder h _ _ _ _ _ _
        · exact claims_abstain
    · exact claims_abstain

theorem claims_checkTwapBatch {calls : List MetaTransaction} (h : P (.uniform calls.length .DATA))
    (abi : Abi) (safe : Address) : (checkTwapBatch abi safe calls).Claims P := by
  unfold checkTwapBatch
  split
  · split
    · exact claims_abstain
    · simp only [assessTwap]
      split
      · exact claims_insecure _
      · split
        · exact claims_insecure _
        · exact claims_secure h
  · exact claims_abstain

variable {proposal : Proposal} (context : CheckContext)

/-- The CoW check claims the calldata of all calls or nothing. -/
theorem claims_cow (h : P (proposal.checked .DATA)) (abi : Abi) (orderApi : OrderApi) :
    (cowChecker abi orderApi proposal context).Claims P := by
  unfold cowChecker
  dsimp only
  split
  · exact claims_abstain
  · exact claims_orElse (claims_checkDanglingApproval abi _)
      (claims_orElse (claims_checkPresignatureBatch h abi orderApi _ _) (claims_checkTwapBatch h abi _))

theorem claims_checkLoneCall {totalCalls : Nat} (h : P (.uniform totalCalls .DATA)) (abi : Abi)
    (call : MetaTransaction) : (checkLoneCall abi totalCalls call).Claims P := by
  unfold checkLoneCall
  split
  · exact claims_secure h
  · exact claims_abstain

theorem claims_checkPair {totalCalls : Nat} (h : P (.uniform totalCalls .DATA)) (abi : Abi)
    (first second : MetaTransaction) : (checkPair abi totalCalls first second).Claims P := by
  unfold checkPair
  split
  · split
    · exact claims_insecure _
    · exact claims_secure h
  · exact claims_abstain

/-- However many calls are set aside, the staking check claims the calldata of all of them. -/
theorem claims_staking (h : P (proposal.checked .DATA)) (abi : Abi) :
    (stakingChecker abi proposal context).Claims P := by
  unfold stakingChecker
  dsimp only
  split
  · exact claims_abstain
  · split
    · exact claims_insecure _
    · split
      · split
        · exact claims_secure h
        · exact claims_abstain
      · exact claims_checkLoneCall h abi _
      · exact claims_checkPair h abi _ _
      · exact claims_abstain

theorem claims_cancellation (h : P ((proposal.checked .all).union proposal.refundChecked)) :
    (cancellationChecker proposal context).Claims P := by
  unfold cancellationChecker
  split
  · exact claims_secure h
  · exact claims_abstain

theorem claims_escapeHatch (h : P (proposal.checked .all)) :
    (escapeHatchChecker proposal context).Claims P := by
  unfold escapeHatchChecker
  split
  · exact claims_secure h
  · exact claims_abstain

theorem claims_base (h : P (proposal.checked (AspectSet.DESTINATION.union .OPERATION))) (abi : Abi) :
    (baseChecker abi proposal context).Claims P := by
  unfold baseChecker
  split
  · exact claims_secure h
  · exact claims_insecure _

theorem claims_blocklist (blocklist : List Address) :
    (blocklistChecker blocklist proposal context).Claims P := by
  unfold blocklistChecker
  split
  · exact claims_insecure _
  · exact claims_abstain

theorem claims_nestedSafe (h : P (proposal.checked ((AspectSet.DESTINATION.union .DATA).union .OPERATION)))
    (abi : Abi) : (nestedSafeChecker abi proposal context).Claims P := by
  unfold nestedSafeChecker
  split
  · exact claims_secure h
  · exact claims_abstain

theorem claims_excessiveApproval (abi : Abi) : (excessiveApprovalChecker abi proposal context).Claims P := by
  unfold excessiveApprovalChecker
  split
  · exact claims_insecure _
  · exact claims_abstain

theorem claims_addressPoisoning (h : P (proposal.checked (AspectSet.DESTINATION.union .DATA))) (abi : Abi)
    (config : PoisoningConfig) (provider : Provider) :
    (addressPoisoningChecker abi config provider proposal context).Claims P := by
  unfold addressPoisoningChecker
  dsimp only
  split
  · exact claims_abstain
  · split
    · exact claims_abstain
    · split
      · exact claims_insecure _
      · exact claims_abstain
      · exact claims_secure h

/-- The claim about the one refund call is not passed on. -/
theorem claims_refund (h : P proposal.refundChecked) (abi : Abi) (config : PoisoningConfig)
    (provider : Provider) : (refundChecker abi config provider proposal context).Claims P := by
  unfold refundChecker
  split
  · exact claims_abstain
  · split
    · exact claims_secure h
    · next hnever =>
      intro coverage hcoverage
      exact absurd hcoverage (hnever coverage)

/-- Every check of the engine claims something about every call. -/
theorem fits_checkers (abi : Abi) (engine : Engine) :
    ∀ checker ∈ engine.checkers abi, checker.Fits proposal context := by
  have huniform : ∀ aspects, (proposal.checked aspects).calls.length = proposal.calls.length :=
    fun aspects => List.length_replicate
  have hrefund : proposal.refundChecked.calls.length = proposal.calls.length := List.length_replicate
  simp only [Engine.checkers, List.forall_mem_cons]
  exact ⟨claims_cancellation context (Coverage.length_union (huniform _) hrefund),
    claims_escapeHatch context (huniform _), claims_base context (huniform _) abi,
    claims_blocklist context _, claims_nestedSafe context (huniform _) abi,
    claims_excessiveApproval context abi, claims_cow context (huniform _) abi _,
    claims_staking context (huniform _) abi, claims_refund context hrefund abi _ _,
    claims_addressPoisoning context (huniform _) abi _ _,
    fun checker hchecker => absurd hchecker List.not_mem_nil⟩

end Claims

/-! ### The composition as a whole -/

/-- The verdict is a denial exactly if a check denies, and secure exactly if none does and all that is
required is affirmed.  It depends neither on the order of the checks nor on those that abstain, and is
not lost by more affirmations; the joins are those of a semilattice, and no claim of the engine's own
checks is cut short. -/
theorem composition_of_verdicts (checkers : List Checker) (proposal : Proposal) (context : CheckContext)
    (hfits : ∀ checker ∈ checkers, checker.Fits proposal context) :
    (∀ abi transaction, parse abi transaction = .ok proposal →
      securityCheck abi checkers transaction context = compose checkers proposal context) ∧
    ((compose checkers proposal context).answer = .insecure ↔ Denied checkers proposal context) ∧
    (compose checkers proposal context = .secure ↔
      ¬ Denied checkers proposal context ∧ Complete checkers proposal context) ∧
    (compose checkers proposal context = .abstain ↔
      ¬ Denied checkers proposal context ∧ ¬ Complete checkers proposal context) ∧
    (∀ others, checkers.Perm others →
      (compose checkers proposal context).answer = (compose others proposal context).answer) ∧
    (∀ others, (checkers.filter (speaks proposal context)).Perm (others.filter (speaks proposal context)) →
      (compose checkers proposal context).answer = (compose others proposal context).answer) ∧
    (∀ before after checker coverage, checkers = before ++ after →
      checker proposal context = .secure coverage → coverage.calls.length = proposal.calls.length →
      compose checkers proposal context = .secure →
      compose (before ++ checker :: after) proposal context = .secure) ∧
    (∀ (totalCalls : Nat) (a b c : Coverage), a.calls.length = totalCalls →
      b.calls.length = totalCalls → c.calls.length = totalCalls →
      a.union b = b.union a ∧ (a.union b).union c = a.union (b.union c) ∧ a.union a = a ∧
        a.union (.none totalCalls) = a ∧ (Coverage.none totalCalls).union a = a ∧
        (a.union b).calls.length = totalCalls ∧
        (a.contains b = true ↔ a.missing b = .none totalCalls)) ∧
    (∀ abi (engine : Engine) proposal context, ∀ checker ∈ engine.checkers abi,
      checker.Fits proposal context) := by
  refine ⟨?_, compose_insecure_iff, compose_secure_iff hfits, ?_, ?_, ?_, ?_, ?_, ?_⟩
  · intro abi transaction hparse
    simp only [securityCheck, hparse]
  · have hinsecure : (compose checkers proposal context).answer = .insecure ↔
        Denied checkers proposal context := compose_insecure_iff
    have hsecure := compose_secure_iff hfits
    cases hverdict : compose checkers proposal context with
    | secure => simp_all
    | insecure rule => simp_all [Verdict.answer]
    | abstain => simp_all [Verdict.answer]
  · intro others hperm
    exact (sameConclusions_of_perm (hperm.filter _)).answer hfits
  · intro others hperm
    exact (sameConclusions_of_perm hperm).answer hfits
  · intro before after checker coverage hsplit hcoverage hspans hsecure
    subst hsplit
    exact compose_secure_insert hfits hcoverage hspans hsecure
  · intro totalCalls a b c ha hb hc
    subst ha
    refine ⟨a.union_comm b, a.union_assoc b c, a.union_self, a.union_none, ?_,
      Coverage.length_union rfl hb, Coverage.contains_iff_missing hb.symm⟩
    rw [Coverage.union_comm]
    exact a.union_none
  · intro abi engine proposal context
    exact fits_checkers context abi engine

/-- A transaction that cancels, in a batch of its own. -/
def cancelling : Proposal :=
  ⟨⟨1, 7, 7, 0, [], .call, 0, 0, 0, 0, 0, 3⟩, [⟨7, 0, [], .call⟩]⟩

theorem cancelling_is_secure :
    (∀ checker ∈ [cancellationChecker, escapeHatchChecker], checker.Fits cancelling ⟨.latest, none⟩) ∧
      compose [escapeHatchChecker, cancellationChecker] cancelling ⟨.latest, none⟩ = .secure := by
  have hfits : ∀ checker ∈ [cancellationChecker, escapeHatchChecker],
      checker.Fits cancelling ⟨.latest, none⟩ := by
    simp only [List.forall_mem_cons]
    exact ⟨claims_cancellation _ rfl, claims_escapeHatch _ rfl, fun _ h => absurd h List.not_mem_nil⟩
  obtain ⟨-, -, -, -, hperm, -⟩ := composition_of_verdicts _ _ _ hfits
  refine ⟨hfits, (answer_secure_iff _).mp ?_⟩
  rw [← hperm _ (List.Perm.swap _ _ _)]
  decide +kernel

end Safenet.SentinelEngine
