/-
The errors that a reveal and a finalization do not end in.

Only two errors of the oracle tell a sentinel that it acted wrongly: a reveal of a vote that was not
committed, and a finalization that comes too early.  Each is raised at one place, so that a call which
passes that place does not end in it, whatever else goes wrong.
-/
import Safenet.Proofs.SentinelOracleTurns

namespace Safenet.Contracts.SentinelOracle

open Fallible
open SentinelOracleRequest

variable {bad : Error → Prop} {deployment : Deployment} {env : Env} {world : World} {requestId : B256}

/-- No error but the two. -/
def Narrow (bad : Error → Prop) : Prop := ∀ e, bad e → e = .invalidReveal ∨ e = .finalizeTooEarly

section Checked

variable {bits a b : Nat} {error : Error}

private theorem checkedAdd_narrow (h : ¬ bad error) : Avoids bad (checkedAdd bits a b error) :=
  avoids_ite (fun _ => avoids_ok) fun _ => avoids_error h

private theorem checkedSub_narrow (h : ¬ bad error) : Avoids bad (checkedSub a b error) :=
  avoids_ite (fun _ => avoids_ok) fun _ => avoids_error h

private theorem checkedMul_narrow (h : ¬ bad error) : Avoids bad (checkedMul bits a b error) :=
  avoids_ite (fun _ => avoids_ok) fun _ => avoids_error h

private theorem checkedDiv_narrow (h : ¬ bad error) : Avoids bad (checkedDiv a b error) :=
  avoids_ite (fun _ => avoids_ok) fun _ => avoids_error h

private theorem checkedMod_narrow (h : ¬ bad error) : Avoids bad (checkedMod a b error) :=
  avoids_ite (fun _ => avoids_ok) fun _ => avoids_error h

end Checked

/-- An error other than the two is not among them. -/
theorem Narrow.other (h : Narrow bad) {e : Error} (hreveal : e ≠ .invalidReveal)
    (hearly : e ≠ .finalizeTooEarly) : ¬ bad e := by
  intro he
  cases h e he with
  | inl heq => exact hreveal heq
  | inr heq => exact hearly heq

variable (hbad : Narrow bad)
include hbad

/-- The errors of arithmetic, of the casts and of the token. -/
private theorem narrow_arithmetic : ¬ bad Error.arithmetic := hbad.other (by decide) (by decide)

private theorem get_narrow {requests : SentinelOracleRequestMap.T} :
    Avoids bad (SentinelOracleRequestMap.get requests requestId) := by
  unfold SentinelOracleRequestMap.get
  exact avoids_bind (avoids_require (hbad.other (by decide) (by decide))) fun _ _ => avoids_ok

private theorem applyReveal_narrow {request : SentinelOracleRequest.T} {number : Nat} {approve : Bool} :
    Avoids bad (applyReveal request number approve) := by
  unfold applyReveal
  refine avoids_bind (avoids_require (hbad.other (by decide) (by decide))) fun _ _ => ?_
  refine avoids_bind (avoids_require (hbad.other (by decide) (by decide))) fun _ _ => ?_
  refine avoids_bind (avoids_require (hbad.other (by decide) (by decide))) fun _ _ => ?_
  refine avoids_bind (checkedAdd_narrow (narrow_arithmetic hbad)) fun _ _ => ?_
  have hbump : ∀ chosen count, Avoids bad (bump chosen count) := fun _ _ =>
    avoids_ite (fun _ => checkedAdd_narrow (narrow_arithmetic hbad)) fun _ => avoids_ok
  exact avoids_bind (hbump _ _) fun _ _ => avoids_bind (hbump _ _) fun _ _ => avoids_ok

private theorem applyDaoFeeCut_narrow {request : SentinelOracleRequest.T} {fee share count : Nat} :
    Avoids bad (applyDaoFeeCut request fee share count) := by
  have hdivision : ¬ bad (.panic .divisionByZero) := hbad.other (by decide) (by decide)
  have harithmetic := narrow_arithmetic hbad
  unfold applyDaoFeeCut
  refine avoids_bind (checkedMul_narrow harithmetic) fun _ _ => ?_
  refine avoids_bind (checkedDiv_narrow hdivision) fun _ _ => ?_
  refine avoids_bind (checkedSub_narrow harithmetic) fun _ _ => ?_
  refine avoids_bind (checkedMod_narrow hdivision) fun _ _ => ?_
  refine avoids_bind (checkedAdd_narrow harithmetic) fun _ _ => ?_
  exact avoids_bind (checkedSub_narrow harithmetic) fun _ _ => avoids_ok

private theorem requestFinalize_narrow {request : SentinelOracleRequest.T} {number deadline share : Nat}
    (hdue : bad .finalizeTooEarly → Due number request) :
    Avoids bad (SentinelOracleRequest.finalize request number deadline share) := by
  unfold SentinelOracleRequest.finalize
  refine avoids_bind (avoids_require (hbad.other (by decide) (by decide))) fun _ _ => ?_
  refine avoids_bind ?_ fun _ _ => avoids_ite (fun _ => ?_) fun _ => avoids_ok
  · by_cases hearly : bad .finalizeTooEarly
    · have hready := hdue hearly
      unfold Due at hready
      rw [require, if_pos (by simpa [or_assoc] using hready)]
      exact avoids_ok
    · exact avoids_require hearly
  · refine avoids_bind ?_ fun _ _ => ?_
    · unfold establish
      refine avoids_ite (fun _ => avoids_ok) fun _ => ?_
      exact avoids_bind (applyDaoFeeCut_narrow hbad) fun _ _ => avoids_ok
    · exact avoids_bind (checkedSub_narrow (narrow_arithmetic hbad)) fun _ _ => avoids_ok

private theorem pay_narrow {token : ERC20.T} {recipient : Address} {value : Nat} :
    Avoids bad (pay deployment token recipient value) := by
  unfold pay
  refine avoids_bind (avoids_mapError fun _ => ?_) fun _ _ => avoids_ok
  exact hbad.other (by decide) (by decide)

private theorem payPositive_narrow {token : ERC20.T} {recipient : Address} {value : Nat} :
    Avoids bad (payPositive deployment token recipient value) :=
  avoids_ite (fun _ => pay_narrow hbad) fun _ => avoids_ok

private theorem announce_narrow {token : ERC20.T} {sponsor fundsReceiver : Address} {deadline : Nat}
    {result : Finalization} :
    Avoids bad (announce deployment token requestId sponsor fundsReceiver deadline result) := by
  unfold announce
  cases result.newState with
  | frozen => exact avoids_ok
  | timedOut => exact avoids_bind (pay_narrow hbad) fun _ _ => avoids_ok
  | _ => exact avoids_bind (payPositive_narrow hbad) fun _ _ => avoids_ok

/-- **A finalization that is due does not come too early.** -/
theorem finalize_narrow (hdue : bad .finalizeTooEarly → Due env.number (world.oracle.requests requestId)) :
    Avoids bad (finalize deployment env world requestId) := by
  unfold finalize
  refine avoids_bind (get_narrow hbad) fun request hrequest => ?_
  have hstored : request = world.oracle.requests requestId := get_turn hrequest
  refine avoids_bind (checkedAdd_narrow (narrow_arithmetic hbad)) fun _ _ => ?_
  refine avoids_bind (toUint_avoids (hbad.other (by decide) (by decide))) fun _ _ => ?_
  refine avoids_bind (requestFinalize_narrow hbad (by rw [hstored]; exact hdue)) fun _ _ => ?_
  refine avoids_bind (payPositive_narrow hbad) fun _ _ => ?_
  exact avoids_bind (announce_narrow hbad) fun _ _ => avoids_ok

omit hbad in
theorem finalize_due (h : Due env.number (world.oracle.requests requestId)) :
    finalize deployment env world requestId ≠ .error .finalizeTooEarly := by
  have hbad : Narrow (· = .finalizeTooEarly) := fun _ he => .inr he
  intro herror
  exact finalize_narrow hbad (fun _ => h) _ herror rfl

omit hbad in
/-- A request that is due stays so. -/
theorem Due.later {number number' : Nat} {request : SentinelOracleRequest.T} (h : Due number request)
    (hlater : number ≤ number') : Due number' request := by
  obtain hlate | hall | ⟨hnobody, hlate⟩ := h
  · exact .inl (by omega)
  · exact .inr (.inl hall)
  · exact .inr (.inr ⟨hnobody, by omega⟩)

omit hbad in
/-- **A reveal of the committed vote does not end in a mismatch.** -/
theorem reveal_matches {keccak256 : Keccak} {approve : Bool} {salt : B256} {reason : Bytes}
    (h : SentinelOracleCommitment.computeHash keccak256 env.sender requestId approve salt reason =
      (world.oracle.commitments requestId env.sender).commitHash) :
    reveal keccak256 deployment env world requestId approve salt reason ≠ .error .invalidReveal := by
  have hbad : Narrow (· = .invalidReveal) := fun _ he => .inl he
  have havoids : Avoids (· = .invalidReveal)
      (reveal keccak256 deployment env world requestId approve salt reason) := by
    unfold reveal
    refine avoids_bind (get_narrow hbad) fun _ _ => avoids_bind ?_ fun _ _ => ?_
    · unfold SentinelOracleCommitmentMap.reveal
      refine avoids_bind (avoids_require (by decide)) fun _ _ => ?_
      refine avoids_bind (avoids_require (by decide)) fun _ _ => ?_
      rw [require, if_pos (decide_eq_true h)]
      exact avoids_ok
    · refine avoids_bind (applyReveal_narrow hbad) fun _ _ => avoids_ite (fun _ => ?_) fun _ => avoids_ok
      exact avoids_bind (finalize_narrow hbad fun h => by cases h) fun _ _ => avoids_ok
  intro herror
  exact havoids _ herror rfl

end Safenet.Contracts.SentinelOracle
