/-
`Secp256k1.add` as the group law, and what the coordinator sums with it.

The points that the contract accepts are the elements of the curve's group (`toCurve_surjective`), so
a sum that the contract takes one point after the other depends only on which points there are.
The key of a group and the aggregate of a selection are such sums in every state of every run.
-/
import Safenet.Proofs.Coordinator
import Safenet.Proofs.Secp256k1

namespace Safenet.Contracts

open Fallible

namespace Secp256k1

/-! ### The group law -/

/-- Every element of the group is a point. -/
theorem toCurve_surjective (c : Curve) : ∃ p : Point, p.Valid ∧ p.toCurve = c := by
  cases c with
  | zero => exact ⟨zero, .inl rfl, toCurve_zero⟩
  | some x y hns =>
      exact ⟨_, point_toCurve (ZMod.val_lt x) (ZMod.val_lt y) (ZMod.natCast_zmod_val x)
        (ZMod.natCast_zmod_val y) hns⟩

theorem add_symm (p q : Point) : add p q = add q p := by
  by_cases h : p.Valid ∧ q.Valid
  · obtain ⟨r, hr, hvalid, hsum⟩ := add_ok h.1 h.2
    obtain ⟨r', hr', hvalid', hsum'⟩ := add_ok h.2 h.1
    rw [hr, hr', toCurve_injective hvalid hvalid' (by rw [hsum, hsum', add_comm])]
  · rw [add_error h, add_error fun h' => h h'.symm]

/-! ### Sums -/

/-- A sum that starts from a point and ends with the sum in the group. -/
private theorem foldlM_ok (points : List Point) : ∀ {start : Point}, start.Valid →
    (∀ p ∈ points, p.Valid) → ∃ r, points.foldlM add start = .ok r ∧ r.Valid ∧
      r.toCurve = start.toCurve + (points.map Point.toCurve).sum := by
  induction points with
  | nil =>
      intro start hstart _
      exact ⟨start, rfl, hstart, by rw [List.map_nil, List.sum_nil, add_zero]⟩
  | cons p points ih =>
      intro start hstart hpoints
      obtain ⟨next, hnext, hvalid, hsum⟩ := add_ok hstart (hpoints p List.mem_cons_self)
      obtain ⟨r, hr, hrvalid, hrsum⟩ := ih hvalid fun q hq => hpoints q (List.mem_cons_of_mem _ hq)
      refine ⟨r, ?_, hrvalid, ?_⟩
      · rw [List.foldlM_cons]
        exact bind_eq_ok.mpr ⟨next, hnext, hr⟩
      · rw [hrsum, hsum, List.map_cons, List.sum_cons, add_assoc]

private theorem foldlM_error (points : List Point) : ∀ {start : Point},
    (∃ p ∈ points, ¬p.Valid) → points.foldlM add start = .error .notOnCurve := by
  induction points with
  | nil =>
      rintro start ⟨p, hp, -⟩
      cases hp
  | cons q points ih =>
      rintro start ⟨p, hp, hinvalid⟩
      rw [List.foldlM_cons]
      by_cases hadd : start.Valid ∧ q.Valid
      · obtain ⟨next, hnext, -⟩ := add_ok hadd.1 hadd.2
        rw [hnext]
        rcases List.mem_cons.mp hp with rfl | hp
        · exact absurd hadd.2 hinvalid
        · exact ih ⟨p, hp, hinvalid⟩
      · rw [add_error hadd]
        rfl

end Secp256k1

namespace FROSTCoordinator

open Secp256k1

variable {points points' : List Point}

/-- The sum that the contract takes is the one in the group. -/
theorem sumPoints_ok (h : ∀ p ∈ points, p.Valid) :
    ∃ r, sumPoints points = .ok r ∧ r.Valid ∧ r.toCurve = (points.map Point.toCurve).sum := by
  obtain ⟨r, hr, hvalid, hsum⟩ := foldlM_ok points (.inl rfl) h
  exact ⟨r, hr, hvalid, by rw [hsum, toCurve_zero, zero_add]⟩

theorem sumPoints_error (h : ∃ p ∈ points, ¬p.Valid) : sumPoints points = .error .notOnCurve :=
  foldlM_error points h

/-- **A sum does not depend on the order.** -/
theorem sumPoints_perm (h : points.Perm points') : sumPoints points = sumPoints points' := by
  by_cases hvalid : ∀ p ∈ points, p.Valid
  · obtain ⟨r, hr, hrvalid, hsum⟩ := sumPoints_ok hvalid
    obtain ⟨r', hr', hrvalid', hsum'⟩ := sumPoints_ok fun p hp => hvalid p (h.mem_iff.mpr hp)
    have heq : r = r' := by
      refine toCurve_injective hrvalid hrvalid' ?_
      rw [hsum, hsum', (h.map Point.toCurve).sum_eq]
    rw [hr, hr', heq]
  · push Not at hvalid
    obtain ⟨p, hp, hinvalid⟩ := hvalid
    rw [sumPoints_error ⟨p, hp, hinvalid⟩, sumPoints_error ⟨p, h.mem_iff.mp hp, hinvalid⟩]

end FROSTCoordinator

namespace Coordinator

open FROSTCoordinator (sumPoints sumPoints_perm recordOf sound_run)

variable {externals : Externals} {s s' : State} {sender : Address} {events : List Event}
  {sid root : B256}

/-! ### Aggregates -/

/-- The share that a step added to a selection of a ceremony. -/
def addedShare (sid root : B256) (st : CallStep) : Option FROST.SignatureShare :=
  match st.out, st.input.2 with
  | .ok _, .signShare sid' selection share _ =>
      if sid' = sid ∧ selection.root = root then some share else none
  | _, _ => none

/-- The shares that a run added to a selection, in order. -/
def addedShares (sid root : B256) (steps : List CallStep) : List FROST.SignatureShare :=
  steps.filterMap (addedShare sid root)

/-- The aggregate of a selection after a call. -/
theorem signShare_aggregate {selection : SignSelection} {share : FROST.SignatureShare}
    {proof : List B256} {done : Bool}
    (h : signShare externals s sender sid selection share proof = .ok (s', done, events)) :
    ∃ shares signature,
      FROSTSignatureShares.register externals (s.signatures sid).shares sender share selection.r
        selection.root proof = .ok (shares, signature) ∧
      (s'.signatures sid).shares = shares ∧ ∀ sid' ≠ sid, s'.signatures sid' = s.signatures sid' := by
  obtain ⟨⟨group, message⟩, -, h⟩ := bind_eq_ok.mp h
  obtain ⟨participant, -, h⟩ := bind_eq_ok.mp h
  obtain ⟨u, -, h⟩ := bind_eq_ok.mp h
  obtain ⟨⟨shares, signature⟩, hregister, h⟩ := bind_eq_ok.mp h
  refine ⟨shares, signature, hregister, ?_⟩
  have hkept : ∀ {stored : State} {b : Bool} {out : List Event},
      (pure (stored, b, out) : Except Error _) = .ok (s', done, events) → stored = s' := by
    intro stored b out h
    exact congrArg Prod.fst (pure_eq_ok.mp h)
  obtain ⟨equal, -, h⟩ := bind_eq_ok.mp h
  cases equal with
  | false =>
      cases hkept h
      exact ⟨by simp, fun sid' hsid' => by simp [hsid']⟩
  | true =>
      obtain ⟨u, -, h⟩ := bind_eq_ok.mp h
      split at h
      · cases hkept h
        exact ⟨by simp, fun sid' hsid' => by simp [hsid']⟩
      · cases hkept h
        exact ⟨by simp, fun sid' hsid' => by simp [hsid']⟩

/-- The aggregate holds the sums of the shares that were added. -/
def Sums (shares : List FROST.SignatureShare) (aggregate : FROST.Signature) : Prop :=
  sumPoints (shares.map (·.r)) = .ok aggregate.r ∧
    aggregate.z.toNat = (shares.map fun share => share.z.toNat).sum % Secp256k1.N

theorem register_others {self self' : FROSTSignatureShares.T} {share : FROST.SignatureShare}
    {r : Secp256k1.Point} {proof : List B256} {signature : FROST.Signature} {root' : B256}
    (h : FROSTSignatureShares.register externals self sender share r root proof = .ok (self', signature))
    (hroot : root' ≠ root) : self' root' = self root' := by
  obtain ⟨u, -, h⟩ := bind_eq_ok.mp h
  obtain ⟨u, -, h⟩ := bind_eq_ok.mp h
  obtain ⟨sum, -, h⟩ := bind_eq_ok.mp h
  cases pure_eq_ok.mp h
  exact Function.update_of_ne hroot _ _

theorem Sums.register {shares : List FROST.SignatureShare} {self self' : FROSTSignatureShares.T}
    {share : FROST.SignatureShare} {r : Secp256k1.Point} {proof : List B256} {signature : FROST.Signature}
    (hsums : Sums shares (self root).signature)
    (h : FROSTSignatureShares.register externals self sender share r root proof =
      .ok (self', signature)) :
    Sums (shares ++ [share]) (self' root).signature := by
  obtain ⟨u, -, h⟩ := bind_eq_ok.mp h
  obtain ⟨u, -, h⟩ := bind_eq_ok.mp h
  obtain ⟨sum, hsum, h⟩ := bind_eq_ok.mp h
  cases pure_eq_ok.mp h
  rw [Function.update_self]
  refine ⟨?_, ?_⟩
  · rw [List.map_append]
    exact FROSTCoordinator.sumPoints_concat hsums.1 (mapError_eq_ok.mp hsum)
  · show (BitVec.ofNat 256 (Secp256k1.addmod _ _ _)).toNat = _
    rw [Secp256k1.addmod, Secp256k1.ofNat_mod_toNat, hsums.2, List.map_append, List.sum_append,
      Nat.mod_add_mod]
    rfl

/-- A call that adds nothing to a selection keeps its aggregate. -/
theorem call_kept {c : Call} (h : call externals s sender c = .ok (s', events))
    (hnone : addedShare sid root ⟨s, (sender, c), .ok events, s'⟩ = none) :
    (s'.signatures sid).shares root = (s.signatures sid).shares root := by
  cases c with
  | keyGen c =>
      obtain ⟨groups, out, -, rfl, -⟩ := keyGen_ok h
      rfl
  | sign gid message =>
      obtain ⟨⟨s₁, sid', out⟩, hsign, hret⟩ := bind_eq_ok.mp h
      have heq := pure_eq_ok.mp hret
      simp only [Prod.mk.injEq] at heq
      obtain ⟨rfl, -⟩ := heq
      obtain ⟨-, -, -, -, -, hsignatures, -⟩ := sign_ok hsign
      rw [hsignatures]
      by_cases hsid : sid = sid'
      · rw [hsid, Function.update_self]
      · rw [Function.update_of_ne hsid]
  | signCommitNonces sid' nonces =>
      obtain ⟨rfl, -⟩ := signCommitNonces_ok h
      rfl
  | signShare sid' selection share proof =>
      obtain ⟨⟨s₁, done, out⟩, hshare, hret⟩ := bind_eq_ok.mp h
      have heq := pure_eq_ok.mp hret
      simp only [Prod.mk.injEq] at heq
      obtain ⟨rfl, -⟩ := heq
      obtain ⟨stored, signature, hregister, hself, hothers⟩ := signShare_aggregate hshare
      by_cases hsid : sid' = sid
      · subst hsid
        have hroot : selection.root ≠ root := by
          intro hroot
          simp [addedShare, hroot] at hnone
        rw [hself, register_others hregister (Ne.symm hroot)]
      · rw [hothers sid (Ne.symm hsid)]

/-- A call that adds a share to a selection registers it. -/
theorem call_added {c : Call} {share : FROST.SignatureShare}
    (h : call externals s sender c = .ok (s', events))
    (hsome : addedShare sid root ⟨s, (sender, c), .ok events, s'⟩ = some share) :
    ∃ selection proof done, c = .signShare sid selection share proof ∧ selection.root = root ∧
      signShare externals s sender sid selection share proof = .ok (s', done, events) := by
  cases c with
  | signShare sid' selection share' proof =>
      obtain ⟨⟨s₁, done, out⟩, hshare, hret⟩ := bind_eq_ok.mp h
      have heq := pure_eq_ok.mp hret
      simp only [Prod.mk.injEq] at heq
      obtain ⟨rfl, rfl⟩ := heq
      simp only [addedShare, Option.ite_none_right_eq_some, Option.some.injEq] at hsome
      obtain ⟨⟨rfl, hroot⟩, rfl⟩ := hsome
      exact ⟨selection, proof, done, rfl, hroot, hshare⟩
  | _ => cases hsome

/-- What one call adds to the aggregates. -/
private theorem sums_call {shares : List FROST.SignatureShare} {c : Call}
    (hsums : Sums shares ((s.signatures sid).shares root).signature)
    (h : call externals s sender c = .ok (s', events)) :
    Sums (shares ++ (addedShare sid root ⟨s, (sender, c), .ok events, s'⟩).toList)
      ((s'.signatures sid).shares root).signature := by
  cases hadded : addedShare sid root ⟨s, (sender, c), .ok events, s'⟩ with
  | none =>
      rw [Option.toList_none, List.append_nil, call_kept h hadded]
      exact hsums
  | some share =>
      obtain ⟨selection, proof, done, rfl, rfl, hshare⟩ := call_added h hadded
      obtain ⟨stored, signature, hregister, hself, -⟩ := signShare_aggregate hshare
      rw [Option.toList_some, hself]
      exact hsums.register hregister

/-- **Every aggregate of every run is the sum of the shares that were added to it.** -/
theorem sums_run (externals : Externals) (sid root : B256) (inputs : List (Address × Call)) :
    Sums (addedShares sid root (Trace.trace (step externals) deployed inputs))
      (((Trace.final (step externals) deployed inputs).signatures sid).shares root).signature := by
  refine Trace.history_invariant (E := fun _ => True)
    (I := fun steps s => Sums (addedShares sid root steps) ((s.signatures sid).shares root).signature)
    ⟨rfl, rfl⟩ ?_ inputs fun _ _ => trivial
  intro steps s input hsums _
  rw [addedShares, List.filterMap_append]
  rcases hout : (step externals s input).2 with error | events
  · have hsame : (step externals s input).1 = s := transact_error hout
    have hnone : addedShare sid root (Trace.take (step externals) s input) = none := by
      rw [addedShare, Trace.take_out, hout]
    rw [hsame, List.filterMap_cons, hnone, List.filterMap_nil, List.append_nil]
    exact hsums
  · have hcall : call externals s input.1 input.2 = .ok ((step externals s input).1, events) :=
      transact_ok hout
    have htake : addedShare sid root (Trace.take (step externals) s input) =
        addedShare sid root ⟨s, (input.1, input.2), .ok events, (step externals s input).1⟩ := by
      rw [addedShare, Trace.take_out, hout]
      rfl
    have hstep := sums_call hsums hcall
    rw [← htake] at hstep
    cases hadded : addedShare sid root (Trace.take (step externals) s input) with
    | none => simpa [addedShares, hadded] using hstep
    | some share => simpa [addedShares, hadded] using hstep

/-- An aggregate does not depend on the order in which shares were added. -/
theorem aggregate_perm {inputs inputs' : List (Address × Call)}
    (h : (addedShares sid root (Trace.trace (step externals) deployed inputs)).Perm
      (addedShares sid root (Trace.trace (step externals) deployed inputs'))) :
    (((Trace.final (step externals) deployed inputs).signatures sid).shares root).signature =
      (((Trace.final (step externals) deployed inputs').signatures sid).shares root).signature := by
  obtain ⟨hr, hz⟩ := sums_run externals sid root inputs
  obtain ⟨hr', hz'⟩ := sums_run externals sid root inputs'
  rw [sumPoints_perm (h.map _), hr'] at hr
  rw [(h.map _).sum_eq, ← hz'] at hz
  generalize (((Trace.final (step externals) deployed inputs).signatures sid).shares root).signature =
    signature at *
  generalize (((Trace.final (step externals) deployed inputs').signatures sid).shares root).signature =
    signature' at *
  cases signature
  cases signature'
  exact congrArg₂ FROST.Signature.mk (Except.ok.inj hr).symm (BitVec.eq_of_toNat_eq hz)

/-- The key of a group does not depend on the order in which its participants were added. -/
theorem key_perm {verifiers : FROSTCoordinator.Verifiers} {gid : B256}
    {calls calls' : List (Address × FROSTCoordinator.Call)}
    (h : ((recordOf verifiers gid (Trace.trace (FROSTCoordinator.step verifiers)
        FROSTCoordinator.deployed calls)).commits.map fun entry => entry.2.2).Perm
      ((recordOf verifiers gid (Trace.trace (FROSTCoordinator.step verifiers)
        FROSTCoordinator.deployed calls')).commits.map fun entry => entry.2.2)) :
    (Trace.final (FROSTCoordinator.step verifiers) FROSTCoordinator.deployed calls gid).key =
      (Trace.final (FROSTCoordinator.step verifiers) FROSTCoordinator.deployed calls' gid).key := by
  have hkey := (sound_run verifiers calls gid).key
  rw [sumPoints_perm h, (sound_run verifiers calls' gid).key] at hkey
  exact (Except.ok.inj hkey).symm

end Coordinator

namespace Secp256k1

open FROSTCoordinator (recordOf)
open Coordinator (addedShares)

/--
**Addition is the group law, and sums do not depend on the order.**

Points are the elements of the curve's group.  Two of them always have a sum, which is the one of the
group; anything else reverts.
-/
theorem add_is_group_law :
    (∀ p q : Point, p.Valid → q.Valid → p.toCurve = q.toCurve → p = q) ∧
    (∀ c : Curve, ∃ p : Point, p.Valid ∧ p.toCurve = c) ∧
    (∀ p q : Point, p.Valid → q.Valid →
      ∃ r, add p q = .ok r ∧ r.Valid ∧ r.toCurve = p.toCurve + q.toCurve) ∧
    (∀ p q : Point, add p q = add q p) ∧
    (∀ p : Point, p.Valid → add zero p = .ok p ∧ add p zero = .ok p) ∧
    (∀ p q : Point, ¬(p.Valid ∧ q.Valid) → add p q = .error .notOnCurve) ∧
    (∀ (verifiers : FROSTCoordinator.Verifiers) (gid : B256)
      (calls calls' : List (Address × FROSTCoordinator.Call)),
      ((recordOf verifiers gid (Trace.trace (FROSTCoordinator.step verifiers)
          FROSTCoordinator.deployed calls)).commits.map fun entry => entry.2.2).Perm
        ((recordOf verifiers gid (Trace.trace (FROSTCoordinator.step verifiers)
          FROSTCoordinator.deployed calls')).commits.map fun entry => entry.2.2) →
      (Trace.final (FROSTCoordinator.step verifiers) FROSTCoordinator.deployed calls gid).key =
        (Trace.final (FROSTCoordinator.step verifiers) FROSTCoordinator.deployed calls' gid).key) ∧
    (∀ (externals : Coordinator.Externals) (sid root : B256)
      (inputs inputs' : List (Address × Coordinator.Call)),
      (addedShares sid root (Trace.trace (Coordinator.step externals) Coordinator.deployed inputs)).Perm
        (addedShares sid root
          (Trace.trace (Coordinator.step externals) Coordinator.deployed inputs')) →
      (((Trace.final (Coordinator.step externals) Coordinator.deployed inputs).signatures
          sid).shares root).signature =
        (((Trace.final (Coordinator.step externals) Coordinator.deployed inputs').signatures
          sid).shares root).signature) := by
  refine ⟨fun p q => toCurve_injective, toCurve_surjective, fun p q => add_ok, add_symm, ?_,
    fun p q => add_error, fun verifiers gid calls calls' => Coordinator.key_perm,
    fun externals sid root inputs inputs' => Coordinator.aggregate_perm⟩
  intro p hp
  have hzero : add zero p = .ok p := add_zero_left hp
  exact ⟨hzero, by rw [add_symm, hzero]⟩

/-- The generator is doubled. -/
theorem generator_doubles :
    ∃ r, add G G = .ok r ∧ r.Valid ∧ r.toCurve = G.toCurve + G.toCurve :=
  add_is_group_law.2.2.1 G G (.inr satisfiesCurveEquation_G) (.inr satisfiesCurveEquation_G)

end Secp256k1

end Safenet.Contracts
