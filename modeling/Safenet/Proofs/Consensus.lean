/-
The epochs and attestations of the consensus contract, over whole runs.

What a run did to the epochs is the list of its `Staging`s.  `activeAt` reads off that list which
epoch is active at a block, and `Reflects` ties the four stored numbers to it: at most the last
staging is not yet rolled over, and whether it has been is only a matter of who wrote last.

`Storage` says what one call can do to the storage, and `Chained` carries the history along.  The
signatures come from the coordinator: `Verified` says that every completed ceremony was completed
by an emitted signature that is valid under the key of its group.
-/
import Safenet.Contracts.Consensus
import Safenet.Proofs.Coordinator

namespace Safenet.Contracts

open Fallible

namespace Coordinator

variable {externals : Externals} {s s' : State} {events emitted : List Event}

/-! ### Completed ceremonies were verified -/

/-- What was emitted accounts for every completed ceremony. -/
def Verified (externals : Externals) (s : State) (emitted : List Event) : Prop :=
  ∀ sid, (s.signatures sid).signed ≠ 0 → ∃ root signature, .signCompleted sid root signature ∈ emitted ∧
    FROST.verify externals.precompiles (s.groups (FROSTSignatureId.group sid)).key signature
      (s.signatures sid).message = .ok ⟨⟩

/-- Some calls of the coordinator, with what they emitted. -/
inductive Advances (externals : Externals) : State → List Event → State → Prop
  | refl {s : State} : Advances externals s [] s
  | call {s s' : State} {sender : Address} {c : Call} {events : List Event}
      (hcall : Coordinator.call externals s sender c = .ok (s', events)) : Advances externals s events s'
  | trans {s s' s'' : State} {events events' : List Event} (h : Advances externals s events s')
      (h' : Advances externals s' events' s'') : Advances externals s (events ++ events') s''

theorem Advances.sign {sender : Address} {gid message sid : B256}
    (h : Coordinator.sign s sender gid message = .ok (s', sid, events)) :
    Advances externals s events s' := by
  have hcall : Coordinator.call externals s sender (.sign gid message) = .ok (s', events) := by
    show (Coordinator.sign s sender gid message >>= _) = _
    rw [h]
    rfl
  exact .call hcall

theorem Advances.ok (h : Advances externals s events s') : CeremoniesOK s → CeremoniesOK s' := by
  induction h with
  | refl => exact id
  | call hcall => intro hok; exact hok.call hcall
  | trans _ _ ih ih' => intro hok; exact ih' (ih hok)

theorem Advances.verified (h : Advances externals s events s') : ∀ {emitted : List Event},
    CeremoniesOK s → Verified externals s emitted → Verified externals s' (emitted ++ events) := by
  induction h with
  | refl =>
      intro emitted _ hverified
      rwa [List.append_nil]
  | @call s s' sender c events hcall =>
      intro emitted hok hverified sid hsigned
      have hstarted := started_of_signed hok hcall hsigned
      obtain ⟨hmessage, hkey, hcompleted⟩ := call_ceremony hok hcall hstarted
      rw [hmessage, hkey]
      rcases hcompleted with hsame | ⟨root, signature, hevent, hcompletes⟩
      · rw [hsame] at hsigned
        obtain ⟨root, signature, hevent, hverify⟩ := hverified sid hsigned
        exact ⟨root, signature, List.mem_append_left _ hevent, hverify⟩
      · exact ⟨root, signature, List.mem_append_right _ hevent, hcompletes.2.1⟩
  | trans h _ ih ih' =>
      intro emitted hok hverified
      rw [← List.append_assoc]
      exact ih' (h.ok hok) (ih hok hverified)

/-- A signature the coordinator vouches for. -/
theorem signatureVerify_ok {sid gid message : B256} {signature : FROST.Signature}
    (h : signatureVerify s sid gid message = .ok signature) :
    (s.signatures sid).signed ≠ 0 ∧ gid = FROSTSignatureId.group sid ∧
      message = (s.signatures sid).message := by
  obtain ⟨u, hsigned, h⟩ := bind_eq_ok.mp h
  obtain ⟨u, hmatch, -⟩ := bind_eq_ok.mp h
  have hsigned' := require_eq_ok.mp hsigned
  have hmatch' := require_eq_ok.mp hmatch
  simp only [Bool.and_eq_true, decide_eq_true_eq] at hmatch'
  exact ⟨of_decide_eq_true hsigned', hmatch'.1, hmatch'.2⟩

end Coordinator

namespace Consensus

open Coordinator (Externals Advances Verified CeremoniesOK)

variable {externals : Externals} {deployment : Deployment} {env : Env} {world world' : World}
  {events : List Event}

/-! ### The schedule of epochs -/

/-- An epoch that was staged, with what its staging named. -/
structure Staging where
  active : Epoch
  epoch : Epoch
  rolloverBlock : BitVec 64
  groupId : B256
  groupKey : Secp256k1.Point
  signatureId : B256
deriving DecidableEq, Repr

/-- The last epoch of a schedule, the genesis epoch if there is none. -/
def lastEpoch (schedule : List Staging) : Epoch := (schedule.getLast?.map Staging.epoch).getD 0

/-- The epoch that a schedule makes active at a block. -/
def activeAt (schedule : List Staging) (number : Nat) : Epoch :=
  lastEpoch (schedule.filter fun staging => staging.rolloverBlock.toNat ≤ number)

/-- Every staging names the epoch before it, and both epochs and blocks ascend. -/
structure Ascending (schedule : List Staging) : Prop where
  pairwise : schedule.Pairwise fun a b =>
    a.epoch < b.epoch ∧ a.rolloverBlock.toNat < b.rolloverBlock.toNat
  parent : ∀ before staging after, schedule = before ++ staging :: after →
    staging.active = lastEpoch before ∧ staging.active < staging.epoch

@[simp] theorem lastEpoch_concat (schedule : List Staging) (staging : Staging) :
    lastEpoch (schedule ++ [staging]) = staging.epoch := by
  simp [lastEpoch]

theorem activeAt_of_due {schedule : List Staging} {number : Nat}
    (h : ∀ staging ∈ schedule, staging.rolloverBlock.toNat ≤ number) :
    activeAt schedule number = lastEpoch schedule := by
  have hall : schedule.filter (fun staging => staging.rolloverBlock.toNat ≤ number) = schedule := by
    rw [List.filter_eq_self]
    intro staging hstaging
    exact decide_eq_true (h staging hstaging)
  rw [activeAt, hall]

theorem activeAt_concat (schedule : List Staging) (staging : Staging) (number : Nat) :
    activeAt (schedule ++ [staging]) number =
      if staging.rolloverBlock.toNat ≤ number then staging.epoch else activeAt schedule number := by
  rw [activeAt, List.filter_append]
  by_cases hdue : staging.rolloverBlock.toNat ≤ number
  · rw [if_pos hdue, List.filter_cons_of_pos (by simpa using hdue), List.filter_nil, lastEpoch_concat]
  · rw [if_neg hdue, List.filter_cons_of_neg (by simpa using hdue), List.filter_nil, List.append_nil,
      activeAt]

theorem Ascending.epoch_le {schedule : List Staging} (h : Ascending schedule) {staging : Staging}
    (hstaging : staging ∈ schedule) : staging.epoch ≤ lastEpoch schedule := by
  rcases List.eq_nil_or_concat schedule with rfl | ⟨init, last, rfl⟩
  · cases hstaging
  · rw [List.concat_eq_append] at hstaging h ⊢
    rw [lastEpoch_concat]
    rcases List.mem_append.mp hstaging with hinit | hlast
    · have hlt := (List.pairwise_append.mp h.pairwise).2.2 staging hinit last (by simp)
      exact BitVec.le_of_lt hlt.1
    · rw [List.mem_singleton.mp hlast]

theorem Ascending.concat {schedule : List Staging} (h : Ascending schedule) {staging : Staging}
    {number : Nat} (hactive : staging.active = lastEpoch schedule) (hlt : staging.active < staging.epoch)
    (hdue : ∀ earlier ∈ schedule, earlier.rolloverBlock.toNat ≤ number)
    (hfuture : number < staging.rolloverBlock.toNat) : Ascending (schedule ++ [staging]) := by
  constructor
  · rw [List.pairwise_append]
    refine ⟨h.pairwise, List.pairwise_singleton _ _, ?_⟩
    intro earlier hearlier last hlast
    rw [List.mem_singleton.mp hlast]
    have hle := h.epoch_le hearlier
    rw [← hactive] at hle
    refine ⟨?_, Nat.lt_of_le_of_lt (hdue earlier hearlier) hfuture⟩
    rw [BitVec.le_def] at hle
    rw [BitVec.lt_def] at hlt ⊢
    omega
  · intro before last after hsplit
    rcases List.eq_nil_or_concat after with rfl | ⟨init, end', rfl⟩
    · obtain ⟨rfl, hlast⟩ := List.append_inj' hsplit rfl
      rw [List.cons.injEq] at hlast
      rw [← hlast.1]
      exact ⟨hactive, hlt⟩
    · rw [List.concat_eq_append, ← List.cons_append, ← List.append_assoc] at hsplit
      obtain ⟨rfl, -⟩ := List.append_inj' hsplit rfl
      exact h.parent before last init rfl

theorem activeAt_mono {schedule : List Staging} (h : Ascending schedule) {number number' : Nat}
    (hle : number ≤ number') : activeAt schedule number ≤ activeAt schedule number' := by
  induction schedule using List.reverseRecOn with
  | nil => exact BitVec.le_refl _
  | append_singleton schedule staging ih =>
      have hinit : Ascending schedule := by
        refine ⟨(List.pairwise_append.mp h.pairwise).1, ?_⟩
        intro before last after hsplit
        apply h.parent before last (after ++ [staging])
        rw [hsplit]
        simp
      have hbelow : activeAt schedule number ≤ staging.epoch := by
        have hlast : activeAt schedule number ≤ lastEpoch schedule := by
          rcases List.eq_nil_or_concat
            (schedule.filter fun staging => staging.rolloverBlock.toNat ≤ number) with hnil | ⟨init, last, hcat⟩
          · rw [activeAt, hnil]
            exact Nat.zero_le _
          · rw [List.concat_eq_append] at hcat
            rw [activeAt, hcat, lastEpoch_concat]
            apply hinit.epoch_le
            have hmem : last ∈ schedule.filter fun staging => staging.rolloverBlock.toNat ≤ number := by
              rw [hcat]
              simp
            exact (List.mem_filter.mp hmem).1
        obtain ⟨hactive, hlt⟩ := h.parent schedule staging [] rfl
        rw [hactive] at hlt
        exact BitVec.le_trans hlast (BitVec.le_of_lt hlt)
      rw [activeAt_concat, activeAt_concat]
      by_cases hdue : staging.rolloverBlock.toNat ≤ number
      · rw [if_pos hdue, if_pos (Nat.le_trans hdue hle)]
      · rw [if_neg hdue]
        split
        · exact hbelow
        · exact ih hinit

/-! ### The stored epochs follow the schedule -/

/-- The stored epochs are those of the schedule: all rolled over, or all but the last. -/
def Reflects (epochs : Epochs) (schedule : List Staging) (number : Nat) : Prop :=
  (epochs.staged = 0 ∧ epochs.active = lastEpoch schedule ∧
      ∀ staging ∈ schedule, staging.rolloverBlock.toNat ≤ number) ∨
    ∃ init last, schedule = init ++ [last] ∧ epochs.staged = last.epoch ∧
      epochs.rolloverBlock = last.rolloverBlock ∧ epochs.active = lastEpoch init ∧
      (∀ staging ∈ init, staging.rolloverBlock.toNat ≤ number) ∧ last.epoch ≠ 0

theorem Reflects.later {epochs : Epochs} {schedule : List Staging} {number number' : Nat}
    (h : Reflects epochs schedule number) (hle : number ≤ number') : Reflects epochs schedule number' := by
  rcases h with ⟨hstaged, hactive, hdue⟩ | ⟨init, last, hschedule, hstaged, hblock, hactive, hdue, hne⟩
  · exact .inl ⟨hstaged, hactive, fun staging hmem => Nat.le_trans (hdue staging hmem) hle⟩
  · exact .inr ⟨init, last, hschedule, hstaged, hblock, hactive,
      fun staging hmem => Nat.le_trans (hdue staging hmem) hle, hne⟩

/-- Applying a due rollover keeps the agreement, and what is then not staged is all rolled over. -/
theorem Reflects.rollover {epochs : Epochs} {schedule : List Staging} {number : Nat}
    (h : Reflects epochs schedule number) :
    Reflects (epochsWithRollover epochs number).1 schedule number ∧
      (epochsWithRollover epochs number).1.active = activeAt schedule number ∧
      ((epochsWithRollover epochs number).1.staged = 0 →
        (epochsWithRollover epochs number).1.active = lastEpoch schedule ∧
          ∀ staging ∈ schedule, staging.rolloverBlock.toNat ≤ number) := by
  rcases h with ⟨hstaged, hactive, hdue⟩ | ⟨init, last, rfl, hstaged, hblock, hactive, hdue, hne⟩
  · have hsame : epochsWithRollover epochs number = (epochs, false) := by
      rw [epochsWithRollover, if_neg (fun hroll => hroll.1 hstaged)]
    rw [hsame]
    refine ⟨.inl ⟨hstaged, hactive, hdue⟩, ?_, fun _ => ⟨hactive, hdue⟩⟩
    rw [activeAt_of_due hdue]
    exact hactive
  · rw [activeAt_concat]
    by_cases hroll : last.rolloverBlock.toNat ≤ number
    · have hall : ∀ staging ∈ init ++ [last], staging.rolloverBlock.toNat ≤ number := by
        intro staging hmem
        rcases List.mem_append.mp hmem with hinit | hlast
        · exact hdue staging hinit
        · rw [List.mem_singleton.mp hlast]
          exact hroll
      have hrolled : epochsWithRollover epochs number = (⟨epochs.active, epochs.staged, 0, 0⟩, true) := by
        rw [epochsWithRollover, if_pos ⟨by rw [hstaged]; exact hne, by rw [hblock]; exact hroll⟩]
      rw [hrolled, if_pos hroll]
      have hlast : epochs.staged = lastEpoch (init ++ [last]) := by rw [lastEpoch_concat, hstaged]
      exact ⟨.inl ⟨rfl, hlast, hall⟩, hstaged, fun _ => ⟨hlast, hall⟩⟩
    · have hsame : epochsWithRollover epochs number = (epochs, false) := by
        rw [epochsWithRollover, if_neg (fun hboth => hroll (by rw [← hblock]; exact hboth.2))]
      rw [hsame, if_neg hroll]
      refine ⟨.inr ⟨init, last, rfl, hstaged, hblock, hactive, hdue, hne⟩, ?_, ?_⟩
      · rw [activeAt_of_due hdue]
        exact hactive
      · intro hnone
        exact absurd (hstaged.symm.trans hnone) hne

/-! ### What a call does to the storage -/

/-- The message of a staging. -/
def Staging.message (staging : Staging) (externals : Externals) (deployment : Deployment) (env : Env) :
    B256 :=
  ConsensusMessages.epochRollover externals.keccak256 (domainSeparator externals deployment env)
    staging.active staging.epoch staging.rolloverBlock staging.groupKey

/-- What the attestation of a transaction names. -/
structure Attestation where
  epoch : Epoch
  oracle : Address
  oracleDataHash : B256
  safeTxHash : B256
  signatureId : B256
deriving DecidableEq, Repr

/-- The message of an attestation. -/
def Attestation.message (attestation : Attestation) (externals : Externals) (deployment : Deployment)
    (env : Env) : B256 :=
  ConsensusMessages.transactionProposal externals.keccak256 (domainSeparator externals deployment env)
    attestation.epoch attestation.oracle attestation.oracleDataHash attestation.safeTxHash

/-- The staging an event records. -/
def Event.staging : Event → Option Staging
  | .epochStaged active epoch rolloverBlock groupId groupKey signatureId _ =>
      some ⟨active, epoch, rolloverBlock, groupId, groupKey, signatureId⟩
  | _ => none

/-- The attestation an event records. -/
def Event.attestation : Event → Option Attestation
  | .transactionAttested safeTxHash _ oracle epoch oracleDataHash signatureId _ =>
      some ⟨epoch, oracle, oracleDataHash, safeTxHash, signatureId⟩
  | _ => none

/-- The epoch an event calls active. -/
def Event.activeEpoch : Event → Option Epoch
  | .epochProposed active .. => some active
  | .epochStaged active .. => some active
  | .epochRolledOver active => some active
  | .transactionProposed _ _ _ active _ _ => some active
  | _ => none

/-- The event of the coordinator, if it is one. -/
def Event.ofCoordinator : Event → Option Coordinator.Event
  | .coordinator event => some event
  | _ => none

/-- What a call did to the storage of the consensus contract, with what it recorded. -/
inductive Storage (externals : Externals) (deployment : Deployment) (env : Env) (s s' : State)
    (coordinator : Coordinator.State) (events : List Event) : Prop
  | kept (hepochs : s'.epochs = s.epochs ∨ s'.epochs = (epochsWithRollover s.epochs env.number).1)
      (hgroups : s'.groups = s.groups) (hattestations : s'.attestations = s.attestations)
      (hstaging : events.filterMap Event.staging = [])
      (hattestation : events.filterMap Event.attestation = [])
  | staged (staging : Staging)
      (hactive : staging.active = (epochsWithRollover s.epochs env.number).1.active)
      (hlt : staging.active < staging.epoch) (hfuture : env.number < staging.rolloverBlock.toNat)
      (hnone : (epochsWithRollover s.epochs env.number).1.staged = 0)
      (hkey : Coordinator.groupKey coordinator staging.groupId = .ok staging.groupKey)
      (hverify : ∃ signature, Coordinator.signatureVerify coordinator staging.signatureId
        (s.groups staging.active) (staging.message externals deployment env) = .ok signature)
      (hepochs : s'.epochs = { (epochsWithRollover s.epochs env.number).1 with
        staged := staging.epoch, rolloverBlock := staging.rolloverBlock })
      (hgroups : s'.groups = Function.update s.groups staging.epoch staging.groupId)
      (hattestations : s'.attestations = Function.update s.attestations
        (staging.message externals deployment env) staging.signatureId)
      (hstaging : events.filterMap Event.staging = [staging])
      (hattestation : events.filterMap Event.attestation = [])
  | attested (attestation : Attestation)
      (hfresh : s.attestations (attestation.message externals deployment env) = 0)
      (hverify : ∃ signature, Coordinator.signatureVerify coordinator attestation.signatureId
        (s.groups attestation.epoch) (attestation.message externals deployment env) = .ok signature)
      (hepochs : s'.epochs = s.epochs) (hgroups : s'.groups = s.groups)
      (hattestations : s'.attestations = Function.update s.attestations
        (attestation.message externals deployment env) attestation.signatureId)
      (hstaging : events.filterMap Event.staging = [])
      (hattestation : events.filterMap Event.attestation = [attestation])

/-- What a call did to the world. -/
structure Changed (externals : Externals) (deployment : Deployment) (env : Env) (world world' : World)
    (events : List Event) : Prop where
  number : world'.number = world.number
  coordinator : Advances externals world.coordinator (events.filterMap Event.ofCoordinator)
    world'.coordinator
  storage : Storage externals deployment env world.consensus world'.consensus world'.coordinator events
  active : ∀ event ∈ events, ∀ epoch, event.activeEpoch = some epoch →
    epoch = (getActiveEpoch world.consensus env.number).1

/-- The rollover at the beginning of a call. -/
private theorem processRollover_eq (s : State) (number : Nat) :
    ∃ rolled, processRollover s number =
        ({ s with epochs := (epochsWithRollover s.epochs number).1 },
          (epochsWithRollover s.epochs number).1, rolled) ∧
      rolled.filterMap Event.staging = [] ∧ rolled.filterMap Event.attestation = [] ∧
      rolled.filterMap Event.ofCoordinator = [] ∧
      ∀ event ∈ rolled, ∀ epoch, event.activeEpoch = some epoch →
        epoch = (epochsWithRollover s.epochs number).1.active := by
  unfold processRollover
  by_cases hroll : s.epochs.staged ≠ 0 ∧ s.epochs.rolloverBlock.toNat ≤ number
  · refine ⟨[.epochRolledOver s.epochs.staged], ?_, rfl, rfl, rfl, ?_⟩
    · rw [epochsWithRollover, if_pos hroll]
      rfl
    · intro event hevent epoch hepoch
      rw [List.mem_singleton.mp hevent] at hepoch
      rw [epochsWithRollover, if_pos hroll]
      exact (Option.some.inj hepoch).symm
  · refine ⟨[], ?_, rfl, rfl, rfl, by simp⟩
    rw [epochsWithRollover, if_neg hroll]
    rfl

private theorem requireValidRollover_ok {epochs : Epochs} {proposedEpoch : Epoch}
    {rolloverBlock : BitVec 64} {number : Nat} {u : PUnit}
    (h : requireValidRollover epochs proposedEpoch rolloverBlock number = .ok u) :
    epochs.active < proposedEpoch ∧ number < rolloverBlock.toNat ∧ epochs.staged = 0 := by
  have hvalid := require_eq_ok.mp h
  simp only [Bool.and_eq_true, decide_eq_true_eq] at hvalid
  exact ⟨hvalid.1.1, hvalid.1.2, hvalid.2⟩

/-- The ceremony started by a proposal. -/
private theorem requestSignature_ok (externals : Externals) {gid message : B256}
    (h : requestSignature deployment world gid message = .ok (world', events)) :
    ∃ coordinator out, world' = { world with coordinator } ∧ events = out.map Event.coordinator ∧
      Advances externals world.coordinator out coordinator := by
  obtain ⟨⟨coordinator, sid, out⟩, hsign, h⟩ := bind_eq_ok.mp h
  have heq := pure_eq_ok.mp h
  simp only [Prod.mk.injEq] at heq
  exact ⟨coordinator, out, heq.1.symm, heq.2.symm, Advances.sign (mapError_eq_ok.mp hsign)⟩

private theorem map_coordinator (out : List Coordinator.Event) :
    (out.map Event.coordinator).filterMap Event.staging = [] ∧
      (out.map Event.coordinator).filterMap Event.attestation = [] ∧
      (out.map Event.coordinator).filterMap Event.ofCoordinator = out ∧
      ∀ event ∈ out.map Event.coordinator, event.activeEpoch = none := by
  induction out with
  | nil => exact ⟨rfl, rfl, rfl, by simp⟩
  | cons event out ih =>
      obtain ⟨hstaging, hattestation, hcoordinator, hactive⟩ := ih
      refine ⟨hstaging, hattestation, ?_, ?_⟩
      · show event :: (out.map Event.coordinator).filterMap Event.ofCoordinator = event :: out
        rw [hcoordinator]
      · intro event' hmem
        rcases List.mem_cons.mp hmem with rfl | hmem
        · rfl
        · exact hactive event' hmem

/-- A proposal: a due rollover, an event that names the active epoch, and a new ceremony. -/
private theorem proposal_changed {rolled signing : List Event} {proposal : Event} {gid message : B256}
    (hprocess : rolled.filterMap Event.staging = [] ∧ rolled.filterMap Event.attestation = [] ∧
      rolled.filterMap Event.ofCoordinator = [] ∧
      ∀ event ∈ rolled, ∀ epoch, event.activeEpoch = some epoch →
        epoch = (epochsWithRollover world.consensus.epochs env.number).1.active)
    (hstaging : proposal.staging = none) (hattestation : proposal.attestation = none)
    (hcoordinator : proposal.ofCoordinator = none)
    (hactive : proposal.activeEpoch = some (epochsWithRollover world.consensus.epochs env.number).1.active)
    (hrequest : requestSignature deployment { world with
      consensus := { world.consensus with
        epochs := (epochsWithRollover world.consensus.epochs env.number).1 } } gid message =
      .ok (world', signing)) :
    Changed externals deployment env world world' (rolled ++ proposal :: signing) := by
  obtain ⟨hrolled₁, hrolled₂, hrolled₃, hrolled₄⟩ := hprocess
  obtain ⟨coordinator, out, rfl, rfl, hadvances⟩ := requestSignature_ok externals hrequest
  obtain ⟨hout₁, hout₂, hout₃, hout₄⟩ := map_coordinator out
  refine ⟨rfl, ?_, .kept (.inr rfl) rfl rfl ?_ ?_, ?_⟩
  · rw [List.filterMap_append, hrolled₃, List.filterMap_cons_none hcoordinator, hout₃]
    exact hadvances
  · rw [List.filterMap_append, hrolled₁, List.filterMap_cons_none hstaging, hout₁]
    rfl
  · rw [List.filterMap_append, hrolled₂, List.filterMap_cons_none hattestation, hout₂]
    rfl
  · intro event hevent epoch hepoch
    rcases List.mem_append.mp hevent with hin | hrest
    · exact hrolled₄ event hin epoch hepoch
    · rcases List.mem_cons.mp hrest with rfl | hsigning
      · exact (Option.some.inj (hactive.symm.trans hepoch)).symm
      · rw [hout₄ event hsigning] at hepoch
        cases hepoch

theorem proposeEpoch_ok {proposedEpoch : Epoch} {rolloverBlock : BitVec 64} {groupId : B256}
    (h : proposeEpoch externals deployment env world proposedEpoch rolloverBlock groupId =
      .ok (world', events)) : Changed externals deployment env world world' events := by
  obtain ⟨rolled, hprocess, hrolled⟩ := processRollover_eq world.consensus env.number
  unfold proposeEpoch at h
  rw [hprocess] at h
  obtain ⟨u, -, h⟩ := bind_eq_ok.mp h
  obtain ⟨groupKey, -, h⟩ := bind_eq_ok.mp h
  obtain ⟨⟨world₁, signing⟩, hrequest, h⟩ := bind_eq_ok.mp h
  have heq := pure_eq_ok.mp h
  simp only [Prod.mk.injEq] at heq
  obtain ⟨rfl, rfl⟩ := heq
  exact proposal_changed hrolled rfl rfl rfl rfl hrequest

theorem stageEpoch_ok {proposedEpoch : Epoch} {rolloverBlock : BitVec 64} {groupId signatureId : B256}
    (h : stageEpoch externals deployment env world proposedEpoch rolloverBlock groupId signatureId =
      .ok (world', events)) : Changed externals deployment env world world' events := by
  obtain ⟨rolled, hprocess, hstaging, hattestation, hcoordinator, hactive⟩ :=
    processRollover_eq world.consensus env.number
  unfold stageEpoch at h
  rw [hprocess] at h
  obtain ⟨u, hvalid, h⟩ := bind_eq_ok.mp h
  obtain ⟨groupKey, hkey, h⟩ := bind_eq_ok.mp h
  obtain ⟨signature, hverify, h⟩ := bind_eq_ok.mp h
  have heq := pure_eq_ok.mp h
  simp only [Prod.mk.injEq] at heq
  obtain ⟨rfl, rfl⟩ := heq
  obtain ⟨hlt, hfuture, hnone⟩ := requireValidRollover_ok hvalid
  refine ⟨rfl, ?_, .staged ⟨(epochsWithRollover world.consensus.epochs env.number).1.active,
    proposedEpoch, rolloverBlock, groupId, groupKey, signatureId⟩ rfl hlt hfuture hnone
    (mapError_eq_ok.mp hkey) ⟨signature, mapError_eq_ok.mp hverify⟩ rfl rfl rfl ?_ ?_, ?_⟩
  · rw [List.filterMap_append, hcoordinator, List.filterMap_cons_none rfl]
    exact .refl
  · rw [List.filterMap_append, hstaging]
    rfl
  · rw [List.filterMap_append, hattestation, List.filterMap_cons_none rfl]
    rfl
  · intro event hevent epoch hepoch
    rcases List.mem_append.mp hevent with hrolled | hstaged
    · exact hactive event hrolled epoch hepoch
    · rw [List.mem_singleton.mp hstaged] at hepoch
      exact (Option.some.inj hepoch).symm

theorem proposeTransaction_ok {oracle : Address} {oracleData : Bytes} {transaction : SafeTransaction.T}
    {accepted : Bool}
    (h : proposeTransaction externals deployment env world oracle oracleData transaction accepted =
      .ok (world', events)) : Changed externals deployment env world world' events := by
  obtain ⟨rolled, hprocess, hrolled⟩ := processRollover_eq world.consensus env.number
  unfold proposeTransaction at h
  rw [hprocess] at h
  obtain ⟨u, -, h⟩ := bind_eq_ok.mp h
  cases hsafe : SafeId.create transaction.chainId transaction.safe with
  | none =>
      rw [hsafe] at h
      cases h
  | some safeId =>
      rw [hsafe] at h
      obtain ⟨⟨world₁, signing⟩, hrequest, h⟩ := bind_eq_ok.mp h
      obtain ⟨u, -, h⟩ := bind_eq_ok.mp h
      have heq := pure_eq_ok.mp h
      simp only [Prod.mk.injEq] at heq
      obtain ⟨rfl, rfl⟩ := heq
      exact proposal_changed hrolled rfl rfl rfl rfl hrequest

theorem attestTransaction_ok {epoch : Epoch} {oracle : Address} {oracleDataHash chainId : B256}
    {safe : Address} {safeTxStructHash signatureId : B256}
    (h : attestTransaction externals deployment env world epoch oracle oracleDataHash chainId safe
      safeTxStructHash signatureId = .ok (world', events)) :
    Changed externals deployment env world world' events := by
  obtain ⟨u, hfresh, h⟩ := bind_eq_ok.mp h
  obtain ⟨signature, hverify, h⟩ := bind_eq_ok.mp h
  cases hsafe : SafeId.create chainId safe with
  | none =>
      rw [hsafe] at h
      cases h
  | some safeId =>
      rw [hsafe] at h
      have heq := pure_eq_ok.mp h
      simp only [Prod.mk.injEq] at heq
      obtain ⟨rfl, rfl⟩ := heq
      refine ⟨rfl, .refl, .attested ⟨epoch, oracle, oracleDataHash,
        SafeTransaction.partialHash externals.keccak256 chainId safe safeTxStructHash, signatureId⟩
        (of_decide_eq_true (require_eq_ok.mp hfresh)) ⟨signature, mapError_eq_ok.mp hverify⟩ rfl rfl rfl
        rfl rfl, ?_⟩
      intro event hevent epoch' hepoch
      rw [List.mem_singleton.mp hevent] at hepoch
      cases hepoch

private theorem onKeyGenCompleted_ok {groupId : B256} {context : Bytes}
    (h : onKeyGenCompleted externals deployment env world groupId context = .ok (world', events)) :
    Changed externals deployment env world world' events := by
  obtain ⟨u, -, h⟩ := bind_eq_ok.mp h
  obtain ⟨u, -, h⟩ := bind_eq_ok.mp h
  obtain ⟨proposedEpoch, -, h⟩ := bind_eq_ok.mp h
  obtain ⟨rolloverBlock, -, h⟩ := bind_eq_ok.mp h
  exact proposeEpoch_ok h

private theorem onSignCompleted_ok {signatureId : B256} {context : Bytes}
    (h : onSignCompleted externals deployment env world signatureId context = .ok (world', events)) :
    Changed externals deployment env world world' events := by
  obtain ⟨u, -, h⟩ := bind_eq_ok.mp h
  dsimp only at h
  split at h
  · obtain ⟨u, -, h⟩ := bind_eq_ok.mp h
    obtain ⟨proposedEpoch, -, h⟩ := bind_eq_ok.mp h
    obtain ⟨rolloverBlock, -, h⟩ := bind_eq_ok.mp h
    exact stageEpoch_ok h
  · split at h
    · obtain ⟨u, -, h⟩ := bind_eq_ok.mp h
      obtain ⟨epoch, -, h⟩ := bind_eq_ok.mp h
      obtain ⟨oracle, -, h⟩ := bind_eq_ok.mp h
      obtain ⟨safe, -, h⟩ := bind_eq_ok.mp h
      exact attestTransaction_ok h
    · cases h

/-- A call of the coordinator alone. -/
private theorem coordinator_changed {coordinator : Coordinator.State} {out : List Coordinator.Event}
    (h : Advances externals world.coordinator out coordinator) :
    Changed externals deployment env world { world with coordinator } (out.map Event.coordinator) := by
  obtain ⟨hout₁, hout₂, hout₃, hout₄⟩ := map_coordinator out
  refine ⟨rfl, ?_, .kept (.inl rfl) rfl rfl hout₁ hout₂, ?_⟩
  · rw [hout₃]
    exact h
  · intro event hevent epoch hepoch
    rw [hout₄ event hevent] at hepoch
    cases hepoch

/-- A call of the coordinator that calls back. -/
private theorem Changed.callback {coordinator : Coordinator.State} {out : List Coordinator.Event}
    {env' : Env} (hnumber : env'.number = env.number) (hchain : env'.chainId = env.chainId)
    (h : Advances externals world.coordinator out coordinator)
    (hcall : Changed externals deployment env' { world with coordinator } world' events) :
    Changed externals deployment env world world' (out.map Event.coordinator ++ events) := by
  obtain ⟨hout₁, hout₂, hout₃, hout₄⟩ := map_coordinator out
  have hstorage := hcall.storage
  refine ⟨hcall.number, ?_, ?_, ?_⟩
  · rw [List.filterMap_append, hout₃]
    exact h.trans hcall.coordinator
  · have happ₁ : (out.map Event.coordinator ++ events).filterMap Event.staging =
        events.filterMap Event.staging := by
      rw [List.filterMap_append, hout₁, List.nil_append]
    have happ₂ : (out.map Event.coordinator ++ events).filterMap Event.attestation =
        events.filterMap Event.attestation := by
      rw [List.filterMap_append, hout₂, List.nil_append]
    have hseparator : domainSeparator externals deployment env' =
        domainSeparator externals deployment env := by
      rw [domainSeparator, domainSeparator, hchain]
    have hstaged : ∀ staging : Staging, staging.message externals deployment env' =
        staging.message externals deployment env := by
      intro staging
      rw [Staging.message, Staging.message, hseparator]
    have hattested : ∀ attestation : Attestation, attestation.message externals deployment env' =
        attestation.message externals deployment env := by
      intro attestation
      rw [Attestation.message, Attestation.message, hseparator]
    cases hstorage with
    | kept hepochs hgroups hattestations hstaging hattestation =>
        rw [hnumber] at hepochs
        exact .kept hepochs hgroups hattestations (happ₁.trans hstaging) (happ₂.trans hattestation)
    | staged staging hactive hlt hfuture hnone hkey hverify hepochs hgroups hattestations hstaging
        hattestation =>
        rw [hnumber] at hactive hfuture hnone hepochs
        rw [hstaged] at hverify hattestations
        exact .staged staging hactive hlt hfuture hnone hkey hverify hepochs hgroups hattestations
          (happ₁.trans hstaging) (happ₂.trans hattestation)
    | attested attestation hfresh hverify hepochs hgroups hattestations hstaging hattestation =>
        rw [hattested] at hfresh hverify hattestations
        exact .attested attestation hfresh hverify hepochs hgroups hattestations
          (happ₁.trans hstaging) (happ₂.trans hattestation)
  · intro event hevent epoch hepoch
    rcases List.mem_append.mp hevent with hout | hin
    · rw [hout₄ event hout] at hepoch
      cases hepoch
    · have hactive := hcall.active event hin epoch hepoch
      rw [hnumber] at hactive
      exact hactive

/-- **Every call that returns does one of the listed things.** -/
theorem call_ok {c : Call} (h : call externals deployment env world c = .ok (world', events)) :
    Changed externals deployment env world world' events := by
  cases c with
  | setValidatorStaker staker =>
      have heq := pure_eq_ok.mp h
      simp only [Prod.mk.injEq] at heq
      obtain ⟨rfl, rfl⟩ := heq
      refine ⟨rfl, .refl, .kept (.inl rfl) rfl rfl rfl rfl, ?_⟩
      intro event hevent epoch hepoch
      rw [List.mem_singleton.mp hevent] at hepoch
      cases hepoch
  | proposeEpoch => exact proposeEpoch_ok h
  | stageEpoch => exact stageEpoch_ok h
  | proposeTransaction => exact proposeTransaction_ok h
  | attestTransaction => exact attestTransaction_ok h
  | onKeyGenCompleted => exact onKeyGenCompleted_ok h
  | onSignCompleted => exact onSignCompleted_ok h
  | coordinator c =>
      obtain ⟨⟨coordinator, out⟩, hcall, h⟩ := bind_eq_ok.mp h
      have heq := pure_eq_ok.mp h
      simp only [Prod.mk.injEq] at heq
      obtain ⟨rfl, rfl⟩ := heq
      exact coordinator_changed (.call (mapError_eq_ok.mp hcall))
  | keyGenConfirmWithCallback gid context =>
      obtain ⟨⟨world₁, events₁⟩, hconfirm, h⟩ := bind_eq_ok.mp h
      obtain ⟨⟨coordinator, out⟩, hcall, hconfirm⟩ := bind_eq_ok.mp hconfirm
      have heq := pure_eq_ok.mp hconfirm
      simp only [Prod.mk.injEq] at heq
      obtain ⟨rfl, rfl⟩ := heq
      have hadvances : Advances externals world.coordinator out coordinator :=
        .call (mapError_eq_ok.mp hcall)
      dsimp only at h
      split at h
      · obtain ⟨⟨world₂, called⟩, hcallback, h⟩ := bind_eq_ok.mp h
        have heq := pure_eq_ok.mp h
        simp only [Prod.mk.injEq] at heq
        obtain ⟨rfl, rfl⟩ := heq
        refine Changed.callback ?_ ?_ hadvances (onKeyGenCompleted_ok hcallback)
        · rfl
        · rfl
      · have heq := pure_eq_ok.mp h
        simp only [Prod.mk.injEq] at heq
        obtain ⟨rfl, rfl⟩ := heq
        exact coordinator_changed hadvances
  | signShareWithCallback sid selection share proof context =>
      obtain ⟨⟨coordinator, signed, out⟩, hshare, h⟩ := bind_eq_ok.mp h
      have hcall : Coordinator.call externals world.coordinator env.sender
          (.signShare sid selection share proof) = .ok (coordinator, out) := by
        show (Coordinator.signShare _ _ _ _ _ _ _ >>= _) = _
        rw [mapError_eq_ok.mp hshare]
        rfl
      have hadvances : Advances externals world.coordinator out coordinator := .call hcall
      dsimp only at h
      split at h
      · obtain ⟨⟨world₂, called⟩, hcallback, h⟩ := bind_eq_ok.mp h
        have heq := pure_eq_ok.mp h
        simp only [Prod.mk.injEq] at heq
        obtain ⟨rfl, rfl⟩ := heq
        refine Changed.callback ?_ ?_ hadvances (onSignCompleted_ok hcallback)
        · rfl
        · rfl
      · have heq := pure_eq_ok.mp h
        simp only [Prod.mk.injEq] at heq
        obtain ⟨rfl, rfl⟩ := heq
        exact coordinator_changed hadvances

/-! ### The history -/

/-- A step of a run. -/
abbrev CallStep := Trace.Step World Input (Except Error (List Event))

/-- What a step emitted. -/
def emittedBy (st : CallStep) : List Event :=
  match st.out with
  | .ok events => events
  | .error _ => []

def emitted (history : List CallStep) : List Event := history.flatMap emittedBy

/-- The epochs a run staged, in order. -/
def stagings (history : List CallStep) : List Staging := (emitted history).filterMap Event.staging

/-- The group of an epoch under a schedule. -/
def groupOf (genesis : B256) (schedule : List Staging) (epoch : Epoch) : B256 :=
  if epoch = 0 then genesis
  else ((schedule.find? fun staging => staging.epoch = epoch).map Staging.groupId).getD 0

/-- The words of the struct that a staging has signed. -/
def Staging.words (staging : Staging) : List B256 :=
  [ConsensusMessages.EPOCH_ROLLOVER_TYPEHASH, toWord staging.active, toWord staging.epoch,
    toWord staging.rolloverBlock, staging.groupKey.x, staging.groupKey.y]

/-- The words of the struct that an attestation has signed. -/
def Attestation.words (attestation : Attestation) : List B256 :=
  [ConsensusMessages.TRANSACTION_PROPOSAL_TYPEHASH, toWord attestation.epoch,
    toWord attestation.oracle, attestation.oracleDataHash, attestation.safeTxHash]

/-- The structs a step attested. -/
def attestedBy (st : CallStep) : List (List B256) :=
  ((emittedBy st).filterMap Event.staging).map Staging.words ++
    ((emittedBy st).filterMap Event.attestation).map Attestation.words

section History

variable (externals : Externals) (deployment : Deployment)

/-- The domain separator at a step. -/
def separatorAt (st : CallStep) : B256 :=
  domainSeparator externals deployment (st.input.env st.pre)

/-- The message of an attested struct. -/
def messageOf (separator : B256) (words : List B256) : B256 :=
  typedDataHash externals.keccak256 separator (hashWords externals.keccak256 words)

/-- Everything that is hashed to make the messages a run attested. -/
def preimages (history : List CallStep) : List Bytes :=
  history.flatMap fun st => (attestedBy st).flatMap fun words =>
    [words.flatMap Bytes.word, [0x19#8, 0x01#8] ++
      [separatorAt externals deployment st, hashWords externals.keccak256 words].flatMap Bytes.word]

/-- The message names the epoch whose group is to sign it. -/
inductive Names (message : B256) (epoch : Epoch) : Prop
  | rollover (separator : B256) (proposedEpoch : Epoch) (rolloverBlock : BitVec 64)
      (groupKey : Secp256k1.Point)
      (h : message = ConsensusMessages.epochRollover externals.keccak256 separator epoch proposedEpoch
        rolloverBlock groupKey)
  | transaction (separator : B256) (oracle : Address) (oracleDataHash safeTxHash : B256)
      (h : message = ConsensusMessages.transactionProposal externals.keccak256 separator epoch oracle
        oracleDataHash safeTxHash)

/-- A ceremony of the group was completed for the message, by a valid signature. -/
def Signed (history : List CallStep) (coordinator : Coordinator.State) (signatureId gid message : B256) :
    Prop :=
  gid = FROSTSignatureId.group signatureId ∧
    (coordinator.signatures signatureId).message = message ∧
    ∃ root signature,
      .coordinator (.signCompleted signatureId root signature) ∈ emitted history ∧
      FROST.verify externals.precompiles (coordinator.groups gid).key signature message = .ok ⟨⟩

/-- The storage and the schedule after a run. -/
structure Chained (groupId : B256) (history : List CallStep) (world : World) : Prop where
  ok : CeremoniesOK world.coordinator
  verified : Verified externals world.coordinator ((emitted history).filterMap Event.ofCoordinator)
  ascending : Ascending (stagings history)
  reflects : Reflects world.consensus.epochs (stagings history) world.number
  groups : ∀ epoch, world.consensus.groups epoch = groupOf groupId (stagings history) epoch
  attested : ∀ message, world.consensus.attestations message ≠ 0 →
    ∃ st ∈ history, ∃ words ∈ attestedBy st,
      message = messageOf externals (separatorAt externals deployment st) words

end History

theorem emitted_concat (history : List CallStep) (st : CallStep) :
    emitted (history ++ [st]) = emitted history ++ emittedBy st := by
  simp [emitted]

theorem stagings_concat (history : List CallStep) (st : CallStep) :
    stagings (history ++ [st]) = stagings history ++ (emittedBy st).filterMap Event.staging := by
  rw [stagings, emitted_concat, List.filterMap_append]
  rfl

/-- A step that reverted only lets time pass. -/
private theorem step_error {input : Input} {error : Error}
    (hout : (step externals deployment world input).2 = .error error) :
    (step externals deployment world input).1 = { world with number := world.number + input.passed } :=
  transact_error hout

private theorem step_ok {input : Input}
    (hout : (step externals deployment world input).2 = .ok events) :
    Changed externals deployment (input.env world)
      { world with number := world.number + input.passed }
      (step externals deployment world input).1 events :=
  call_ok (transact_ok hout)

private theorem groupOf_concat {genesis : B256} {schedule : List Staging} {staging : Staging}
    (hfresh : ∀ earlier ∈ schedule, earlier.epoch ≠ staging.epoch) (hne : staging.epoch ≠ 0)
    (epoch : Epoch) :
    groupOf genesis (schedule ++ [staging]) epoch =
      Function.update (groupOf genesis schedule) staging.epoch staging.groupId epoch := by
  by_cases hepoch : epoch = staging.epoch
  · subst hepoch
    have hnone : schedule.find? (fun earlier => earlier.epoch = staging.epoch) = none := by
      rw [List.find?_eq_none]
      intro earlier hearlier
      simpa using hfresh earlier hearlier
    rw [Function.update_self, groupOf, if_neg hne, List.find?_append, hnone]
    simp
  · rw [Function.update_of_ne hepoch, groupOf, groupOf, List.find?_append]
    have hskip : [staging].find? (fun staging => staging.epoch = epoch) = none := by
      simpa using fun heq => hepoch heq.symm
    rw [hskip, Option.or_none]

/-- What a step that returned adds to the schedule comes after everything that is due. -/
private theorem Chained.schedule {groupId : B256} {history : List CallStep}
    (h : Chained externals deployment groupId history world) {passed : Nat} {staging : Staging}
    (hactive : staging.active =
      (epochsWithRollover world.consensus.epochs (world.number + passed)).1.active)
    (hlt : staging.active < staging.epoch)
    (hfuture : world.number + passed < staging.rolloverBlock.toNat)
    (hnone : (epochsWithRollover world.consensus.epochs (world.number + passed)).1.staged = 0) :
    Ascending (stagings history ++ [staging]) ∧ staging.active = lastEpoch (stagings history) ∧
      (∀ earlier ∈ stagings history, earlier.rolloverBlock.toNat ≤ world.number + passed) ∧
      (∀ earlier ∈ stagings history, earlier.epoch ≠ staging.epoch) ∧ staging.epoch ≠ 0 := by
  obtain ⟨-, -, hrolled⟩ := (h.reflects.later (Nat.le_add_right world.number passed)).rollover
  obtain ⟨hlast, hdue⟩ := hrolled hnone
  rw [← hactive] at hlast
  refine ⟨h.ascending.concat hlast hlt hdue hfuture, hlast, hdue, ?_, ?_⟩
  · intro earlier hearlier heq
    have hle := h.ascending.epoch_le hearlier
    rw [← hlast, heq, BitVec.le_def] at hle
    rw [BitVec.lt_def] at hlt
    omega
  · intro hzero
    rw [hzero, BitVec.lt_def] at hlt
    exact absurd hlt (Nat.not_lt_zero _)

/-- **One step keeps storage and schedule in agreement.** -/
theorem Chained.step {groupId : B256} {history : List CallStep}
    (h : Chained externals deployment groupId history world) (input : Input) :
    Chained externals deployment groupId
      (history ++ [Trace.take (Consensus.step externals deployment) world input])
      (Consensus.step externals deployment world input).1 := by
  have hearlier : ∀ message, world.consensus.attestations message ≠ 0 →
      ∃ st ∈ history ++ [Trace.take (Consensus.step externals deployment) world input],
        ∃ words ∈ attestedBy st,
          message = messageOf externals (separatorAt externals deployment st) words := by
    intro message hmessage
    obtain ⟨st, hst, hwords⟩ := h.attested message hmessage
    exact ⟨st, List.mem_append_left _ hst, hwords⟩
  rcases hout : (Consensus.step externals deployment world input).2 with error | events
  · have hemitted : emittedBy (Trace.take (Consensus.step externals deployment) world input) = [] := by
      rw [emittedBy, Trace.take_out, hout]
    have hpost := step_error hout
    have hstagings : stagings (history ++ [Trace.take (Consensus.step externals deployment) world input]) =
        stagings history := by
      rw [stagings_concat, hemitted, List.filterMap_nil, List.append_nil]
    rw [hpost]
    refine ⟨h.ok, ?_, ?_, ?_, ?_, hearlier⟩
    · rw [emitted_concat, hemitted, List.append_nil]
      exact h.verified
    · rw [hstagings]
      exact h.ascending
    · rw [hstagings]
      exact h.reflects.later (Nat.le_add_right _ _)
    · rw [hstagings]
      exact h.groups
  · have hemitted : emittedBy (Trace.take (Consensus.step externals deployment) world input) = events := by
      rw [emittedBy, Trace.take_out, hout]
    have hchanged := step_ok hout
    have hnew : ∀ words ∈ (events.filterMap Event.staging).map Staging.words ++
        (events.filterMap Event.attestation).map Attestation.words,
        ∃ st ∈ history ++ [Trace.take (Consensus.step externals deployment) world input],
          ∃ words' ∈ attestedBy st,
            messageOf externals (domainSeparator externals deployment (input.env world)) words =
              messageOf externals (separatorAt externals deployment st) words' := by
      intro words hwords
      refine ⟨_, List.mem_append_right _ (List.mem_singleton_self _), words, ?_, rfl⟩
      rw [attestedBy, hemitted]
      exact hwords
    have hnumber : (Consensus.step externals deployment world input).1.number =
        world.number + input.passed := hchanged.number
    have hok := hchanged.coordinator.ok h.ok
    have hverified : Verified externals (Consensus.step externals deployment world input).1.coordinator
        ((emitted (history ++ [Trace.take (Consensus.step externals deployment) world input])).filterMap
          Event.ofCoordinator) := by
      rw [emitted_concat, hemitted, List.filterMap_append]
      exact hchanged.coordinator.verified h.ok h.verified
    have hstagings : stagings (history ++ [Trace.take (Consensus.step externals deployment) world input]) =
        stagings history ++ events.filterMap Event.staging := by
      rw [stagings_concat, hemitted]
    have hlater := h.reflects.later (Nat.le_add_right world.number input.passed)
    cases hchanged.storage with
    | kept hepochs hgroups hattestations hstaging hattestation =>
        rw [hstaging, List.append_nil] at hstagings
        refine ⟨hok, hverified, ?_, ?_, ?_, ?_⟩
        · rw [hstagings]
          exact h.ascending
        · rw [hstagings, hnumber]
          rcases hepochs with hsame | hrolled
          · rw [hsame]
            exact hlater
          · rw [hrolled]
            exact hlater.rollover.1
        · rw [hstagings, hgroups]
          exact h.groups
        · rw [hattestations]
          exact hearlier
    | staged staging hactive hlt hfuture hnone hkey hverify hepochs hgroups hattestations hstaging
        hattestation =>
        rw [hstaging] at hstagings hnew
        obtain ⟨hascending, hlast, hdue, hfresh, hne⟩ := h.schedule hactive hlt hfuture hnone
        refine ⟨hok, hverified, ?_, ?_, ?_, ?_⟩
        · rw [hstagings]
          exact hascending
        · rw [hstagings, hnumber, hepochs]
          exact .inr ⟨_, staging, rfl, rfl, rfl, hactive.symm.trans hlast, hdue, hne⟩
        · intro epoch
          have hold : world.consensus.groups = groupOf groupId (stagings history) :=
            funext h.groups
          rw [hstagings, hgroups, groupOf_concat hfresh hne, ← hold]
        · intro message hmessage
          rw [hattestations] at hmessage
          by_cases heq : message = staging.message externals deployment (input.env world)
          · rw [heq]
            exact hnew staging.words (by simp)
          · rw [Function.update_of_ne heq] at hmessage
            exact hearlier message hmessage
    | attested attestation hfresh hverify hepochs hgroups hattestations hstaging hattestation =>
        rw [hstaging, List.append_nil] at hstagings
        rw [hstaging, hattestation] at hnew
        refine ⟨hok, hverified, ?_, ?_, ?_, ?_⟩
        · rw [hstagings]
          exact h.ascending
        · rw [hstagings, hnumber, hepochs]
          exact hlater
        · rw [hstagings, hgroups]
          exact h.groups
        · intro message hmessage
          rw [hattestations] at hmessage
          by_cases heq : message = attestation.message externals deployment (input.env world)
          · rw [heq]
            exact hnew attestation.words (by simp)
          · rw [Function.update_of_ne heq] at hmessage
            exact hearlier message hmessage

theorem chained_deployed (number : Nat) (groupId : B256) :
    Chained externals deployment groupId [] (deployed number groupId) where
  ok := Coordinator.ceremoniesOK_deployed
  verified := fun _ h => absurd rfl h
  ascending := ⟨List.Pairwise.nil, fun before _ _ h => by cases before <;> cases h⟩
  reflects := .inl ⟨rfl, rfl, fun _ h => by cases h⟩
  groups := fun epoch => by
    by_cases hzero : epoch = 0
    · subst hzero
      rfl
    · show Function.update (fun _ => (0 : B256)) (0 : Epoch) groupId epoch = _
      rw [Function.update_of_ne hzero, groupOf, if_neg hzero]
      rfl
  attested := fun _ h => absurd rfl h

/-! ### The messages of a run -/

/-- A message determines what it was made of, without collisions among what is hashed. -/
private theorem messageOf_injective {inputs : List Bytes}
    (hinj : ∀ a ∈ inputs, ∀ b ∈ inputs, externals.keccak256 a = externals.keccak256 b → a = b)
    {separator separator' : B256} {words words' : List B256}
    (hwords : words.flatMap Bytes.word ∈ inputs) (hwords' : words'.flatMap Bytes.word ∈ inputs)
    (htyped : [0x19#8, 0x01#8] ++ [separator, hashWords externals.keccak256 words].flatMap Bytes.word ∈
      inputs)
    (htyped' : [0x19#8, 0x01#8] ++
      [separator', hashWords externals.keccak256 words'].flatMap Bytes.word ∈ inputs)
    (h : messageOf externals separator words = messageOf externals separator' words') :
    words = words' := by
  have hstruct := List.append_cancel_left (hinj _ htyped _ htyped' h)
  have hhash := Bytes.flatMap_word_inj hstruct
  simp only [List.cons.injEq, and_true] at hhash
  exact Bytes.flatMap_word_inj (hinj _ hwords _ hwords' hhash.2)

private theorem mem_preimages (externals : Externals) (deployment : Deployment) {history : List CallStep} {st : CallStep} (hst : st ∈ history)
    {words : List B256} (hwords : words ∈ attestedBy st) :
    words.flatMap Bytes.word ∈ preimages externals deployment history ∧
      [0x19#8, 0x01#8] ++ [separatorAt externals deployment st,
        hashWords externals.keccak256 words].flatMap Bytes.word ∈
          preimages externals deployment history := by
  constructor
  · exact List.mem_flatMap.mpr ⟨st, hst, List.mem_flatMap.mpr ⟨words, hwords, List.mem_cons_self ..⟩⟩
  · exact List.mem_flatMap.mpr ⟨st, hst, List.mem_flatMap.mpr ⟨words, hwords,
      List.mem_cons_of_mem _ (List.mem_cons_self ..)⟩⟩

/-- The structs of a rollover and of a transaction differ in their type, and a rollover struct
names its epoch. -/
private theorem staging_of_words {st : CallStep} {staging : Staging}
    (h : staging.words ∈ attestedBy st) :
    ∃ earlier ∈ (emittedBy st).filterMap Event.staging, earlier.epoch = staging.epoch := by
  rcases List.mem_append.mp h with hstaging | hattestation
  · obtain ⟨earlier, hearlier, heq⟩ := List.mem_map.mp hstaging
    refine ⟨earlier, hearlier, ?_⟩
    unfold Staging.words at heq
    simp only [List.cons.injEq] at heq
    exact toWord_injective (by omega) heq.2.2.1
  · obtain ⟨attestation, -, heq⟩ := List.mem_map.mp hattestation
    have hlength := congrArg List.length heq
    exact absurd hlength (by simp [Attestation.words, Staging.words])

private theorem stagings_of_mem {history : List CallStep} {st : CallStep} (hst : st ∈ history)
    {staging : Staging} (h : staging ∈ (emittedBy st).filterMap Event.staging) :
    staging ∈ stagings history := by
  obtain ⟨event, hevent, heq⟩ := List.mem_filterMap.mp h
  exact List.mem_filterMap.mpr ⟨event, List.mem_flatMap.mpr ⟨st, hst, hevent⟩, heq⟩

/-! ### Every step of a run -/

/-- From its rollover block on, and not before, an epoch is reached. -/
private theorem Ascending.le_activeAt_iff {schedule : List Staging} (h : Ascending schedule)
    {staging : Staging} (hstaging : staging ∈ schedule) (number : Nat) :
    staging.epoch ≤ activeAt schedule number ↔ staging.rolloverBlock.toNat ≤ number := by
  obtain ⟨before, after, rfl⟩ := List.append_of_mem hstaging
  obtain ⟨hbefore, hrest, hcross⟩ := List.pairwise_append.mp h.pairwise
  have hafter := List.pairwise_cons.mp hrest
  constructor
  · intro hle
    by_contra hnot
    -- what is due lies before the staging, and is below it
    have hdue : (before ++ staging :: after).filter
        (fun staging => staging.rolloverBlock.toNat ≤ number) =
          before.filter fun staging => staging.rolloverBlock.toNat ≤ number := by
      have hnone : after.filter (fun staging => staging.rolloverBlock.toNat ≤ number) = [] := by
        rw [List.filter_eq_nil_iff]
        intro later hlater
        have hlt := (hafter.1 later hlater).2
        simp only [decide_eq_true_eq]
        omega
      rw [List.filter_append, List.filter_cons_of_neg (by simpa using hnot), hnone, List.append_nil]
    rw [activeAt, hdue] at hle
    rcases List.eq_nil_or_concat
      (before.filter fun staging => staging.rolloverBlock.toNat ≤ number) with hnil | ⟨init, last, hcat⟩
    · rw [hnil] at hle
      have hlt := (h.parent before staging after rfl).2
      rw [BitVec.le_def] at hle
      rw [BitVec.lt_def] at hlt
      have hzero : (lastEpoch []).toNat = 0 := rfl
      omega
    · rw [List.concat_eq_append] at hcat
      rw [hcat, lastEpoch_concat] at hle
      have hmem : last ∈ before := by
        have hin : last ∈ before.filter fun staging => staging.rolloverBlock.toNat ≤ number := by
          rw [hcat]
          simp
        exact (List.mem_filter.mp hin).1
      have hlt := (hcross last hmem staging (by simp)).1
      rw [BitVec.le_def] at hle
      rw [BitVec.lt_def] at hlt
      omega
  · intro hle
    -- what is due behind the staging is above it
    rcases List.eq_nil_or_concat
      (after.filter fun staging => staging.rolloverBlock.toNat ≤ number) with hnil | ⟨init, last, hcat⟩
    · rw [activeAt, List.filter_append, List.filter_cons_of_pos (by simpa using hle), hnil,
        lastEpoch_concat]
    · rw [List.concat_eq_append] at hcat
      rw [activeAt, List.filter_append, List.filter_cons_of_pos (by simpa using hle), hcat,
        ← List.cons_append, ← List.append_assoc, lastEpoch_concat]
      have hmem : last ∈ after := by
        have hin : last ∈ after.filter fun staging => staging.rolloverBlock.toNat ≤ number := by
          rw [hcat]
          simp
        exact (List.mem_filter.mp hin).1
      exact BitVec.le_of_lt (hafter.1 last hmem).1

/-- What a step of a run does to the epochs and the attestations. -/
structure StepSound (externals : Externals) (deployment : Deployment) (before : List CallStep)
    (st : CallStep) : Prop where
  /-- The active epoch never goes back, whether time passes or a call is made. -/
  active : ∀ number number', st.pre.number ≤ number → st.post.number ≤ number' → number ≤ number' →
    (getActiveEpoch st.pre.consensus number).1 ≤ (getActiveEpoch st.post.consensus number').1
  /-- The calls work with the epoch that the view reports, before and after them. -/
  agrees : ∀ event ∈ emittedBy st, ∀ epoch, event.activeEpoch = some epoch →
    epoch = (getActiveEpoch st.pre.consensus st.post.number).1 ∧
      epoch = (getActiveEpoch st.post.consensus st.post.number).1
  /-- The genesis group and the group of an epoch that was staged stay. -/
  groups : ∀ epoch, (epoch = 0 ∨ ∃ staging ∈ stagings before, staging.epoch = epoch) →
    st.post.consensus.groups epoch = st.pre.consensus.groups epoch
  /-- An epoch is staged above the active one, for a block to come, with the key of its group, and
  after the active group has signed just that. -/
  staged : ∀ staging ∈ (emittedBy st).filterMap Event.staging,
    staging.active = (getActiveEpoch st.pre.consensus st.post.number).1 ∧
      staging.active < staging.epoch ∧ st.post.number < staging.rolloverBlock.toNat ∧
      Coordinator.groupKey st.post.coordinator staging.groupId = .ok staging.groupKey ∧
      Signed externals (before ++ [st]) st.post.coordinator staging.signatureId
        (getActiveEpoch st.pre.consensus st.post.number).2
        (staging.message externals deployment (st.input.env st.pre))
  /-- An attestation is never replaced. -/
  kept : ∀ message, st.pre.consensus.attestations message ≠ 0 →
    st.post.consensus.attestations message = st.pre.consensus.attestations message
  /-- A new attestation is a signature of the group of the epoch that the message names. -/
  attested : ∀ message,
    st.post.consensus.attestations message ≠ st.pre.consensus.attestations message →
      st.post.consensus.attestations message ≠ 0 ∧
        ∃ epoch, Names externals message epoch ∧
          Signed externals (before ++ [st]) st.post.coordinator
            (st.post.consensus.attestations message) (st.pre.consensus.groups epoch) message

private theorem Reflects.getActiveEpoch {s : State} {schedule : List Staging} {number number' : Nat}
    (h : Reflects s.epochs schedule number) (hle : number ≤ number') :
    (getActiveEpoch s number').1 = activeAt schedule number' :=
  (h.later hle).rollover.2.1

/-- A signature that the coordinator vouches for was made by the group. -/
private theorem Chained.signed {groupId : B256} {history : List CallStep}
    (h : Chained externals deployment groupId history world) {sid gid message : B256}
    (hverify : ∃ signature, Coordinator.signatureVerify world.coordinator sid gid message = .ok signature) :
    sid ≠ 0 ∧ Signed externals history world.coordinator sid gid message := by
  obtain ⟨signature, hverify⟩ := hverify
  obtain ⟨hsigned, hgid, hmessage⟩ := Coordinator.signatureVerify_ok hverify
  refine ⟨h.ok.sid_ne_zero (h.ok.signed sid hsigned), hgid, hmessage.symm, ?_⟩
  obtain ⟨root, completed, hevent, hvalid⟩ := h.verified sid hsigned
  obtain ⟨event, hmem, heq⟩ := List.mem_filterMap.mp hevent
  refine ⟨root, completed, ?_, ?_⟩
  · cases event with
    | coordinator inner =>
        cases heq
        exact hmem
    | _ => cases heq
  · rw [hgid, hmessage]
    exact hvalid

/-- No message that is about to be attested by a staging was attested before. -/
private theorem Chained.staging_fresh {groupId : B256} {history : List CallStep}
    (h : Chained externals deployment groupId history world) {st : CallStep} {staging : Staging}
    (hcollision : ∀ a ∈ preimages externals deployment (history ++ [st]),
      ∀ b ∈ preimages externals deployment (history ++ [st]),
        externals.keccak256 a = externals.keccak256 b → a = b)
    (hmem : staging.words ∈ attestedBy st)
    (hfresh : ∀ earlier ∈ stagings history, earlier.epoch ≠ staging.epoch) :
    world.consensus.attestations
      (messageOf externals (separatorAt externals deployment st) staging.words) = 0 := by
  by_contra hne
  obtain ⟨earlier, hearlier, words, hwords, heq⟩ := h.attested _ hne
  obtain ⟨hnew, hnew'⟩ := mem_preimages externals deployment
    (List.mem_append_right history (List.mem_singleton_self st)) hmem
  obtain ⟨hold, hold'⟩ := mem_preimages externals deployment
    (List.mem_append_left [st] hearlier) hwords
  have hsame := messageOf_injective hcollision hnew hold hnew' hold' heq
  rw [← hsame] at hwords
  obtain ⟨other, hother, hepoch⟩ := staging_of_words hwords
  exact hfresh other (stagings_of_mem hearlier hother) hepoch

section Step

variable {groupId : B256} {history : List CallStep} {st : CallStep}

/-- A staging is for a block to come, so it leaves the present alone. -/
private theorem Chained.schedule_grows (h : Chained externals deployment groupId history st.pre)
    (hemitted : emittedBy st = events)
    (hstorage : Storage externals deployment (st.input.env st.pre) st.pre.consensus st.post.consensus
      st.post.coordinator events) (number : Nat) :
    activeAt (stagings history) number ≤ activeAt (stagings (history ++ [st])) number ∧
      (number = st.pre.number + st.input.passed →
        activeAt (stagings (history ++ [st])) number = activeAt (stagings history) number) := by
  rw [stagings_concat, hemitted]
  cases hstorage with
  | kept hepochs hgroups hattestations hstaging hattestation =>
      rw [hstaging, List.append_nil]
      exact ⟨BitVec.le_refl _, fun _ => rfl⟩
  | attested attestation hfresh hverify hepochs hgroups hattestations hstaging hattestation =>
      rw [hstaging, List.append_nil]
      exact ⟨BitVec.le_refl _, fun _ => rfl⟩
  | staged staging hactive hlt hfuture hnone hkey hverify hepochs hgroups hattestations hstaging
      hattestation =>
      obtain ⟨hascending, hlast, hdue, hfresh, hne⟩ := h.schedule hactive hlt hfuture hnone
      have hpresent : st.pre.number + st.input.passed < staging.rolloverBlock.toNat := hfuture
      rw [hstaging, activeAt_concat]
      constructor
      · split
        · next hle =>
            have hall : ∀ earlier ∈ stagings history, earlier.rolloverBlock.toNat ≤ number := by
              intro earlier hearlier
              have hpast := hdue earlier hearlier
              omega
            rw [activeAt_of_due hall, ← hlast]
            exact BitVec.le_of_lt hlt
        · exact BitVec.le_refl _
      · intro hnow
        rw [if_neg (by omega)]

/-- What was staged stays, and what is staged was signed. -/
private theorem Chained.staged_sound (h : Chained externals deployment groupId history st.pre)
    (hafter : Chained externals deployment groupId (history ++ [st]) st.post)
    (hnumber : st.post.number = st.pre.number + st.input.passed)
    (hstorage : Storage externals deployment (st.input.env st.pre) st.pre.consensus st.post.consensus
      st.post.coordinator events) :
    (∀ epoch, (epoch = 0 ∨ ∃ staging ∈ stagings history, staging.epoch = epoch) →
      st.post.consensus.groups epoch = st.pre.consensus.groups epoch) ∧
    ∀ staging ∈ events.filterMap Event.staging,
      staging.active = (getActiveEpoch st.pre.consensus st.post.number).1 ∧
        staging.active < staging.epoch ∧ st.post.number < staging.rolloverBlock.toNat ∧
        Coordinator.groupKey st.post.coordinator staging.groupId = .ok staging.groupKey ∧
        Signed externals (history ++ [st]) st.post.coordinator staging.signatureId
          (getActiveEpoch st.pre.consensus st.post.number).2
          (staging.message externals deployment (st.input.env st.pre)) := by
  cases hstorage with
  | kept hepochs hgroups hattestations hstaging hattestation =>
      rw [hgroups, hstaging]
      exact ⟨fun _ _ => rfl, fun _ hmem => by cases hmem⟩
  | attested attestation hfresh hverify hepochs hgroups hattestations hstaging hattestation =>
      rw [hgroups, hstaging]
      exact ⟨fun _ _ => rfl, fun _ hmem => by cases hmem⟩
  | staged staging hactive hlt hfuture hnone hkey hverify hepochs hgroups hattestations hstaging
      hattestation =>
      obtain ⟨hascending, hlast, hdue, hfresh, hne⟩ := h.schedule hactive hlt hfuture hnone
      constructor
      · intro epoch hepoch
        have hother : epoch ≠ staging.epoch := by
          intro heq
          rcases hepoch with hzero | ⟨earlier, hearlier, hsame⟩
          · exact hne (heq.symm.trans hzero)
          · exact hfresh earlier hearlier (hsame.trans heq)
        rw [hgroups, Function.update_of_ne hother]
      · rw [hstaging]
        intro staging' hmem
        rw [List.mem_singleton.mp hmem, hnumber]
        refine ⟨hactive, hlt, hfuture, hkey, ?_⟩
        have hgroup : (getActiveEpoch st.pre.consensus (st.pre.number + st.input.passed)).2 =
            st.pre.consensus.groups staging.active := by
          rw [hactive]
          rfl
        rw [hgroup]
        exact (hafter.signed hverify).2

/-- A fresh message is attested with a signature that was vouched for. -/
private theorem Chained.attests (hafter : Chained externals deployment groupId (history ++ [st]) st.post)
    {written sid : B256} {epoch : Epoch} (hfresh : st.pre.consensus.attestations written = 0)
    (hattestations : st.post.consensus.attestations =
      Function.update st.pre.consensus.attestations written sid)
    (hnames : Names externals written epoch)
    (hverify : ∃ signature, Coordinator.signatureVerify st.post.coordinator sid
      (st.pre.consensus.groups epoch) written = .ok signature) (message : B256) :
    (st.pre.consensus.attestations message ≠ 0 →
      st.post.consensus.attestations message = st.pre.consensus.attestations message) ∧
    (st.post.consensus.attestations message ≠ st.pre.consensus.attestations message →
      st.post.consensus.attestations message ≠ 0 ∧
        ∃ epoch, Names externals message epoch ∧
          Signed externals (history ++ [st]) st.post.coordinator
            (st.post.consensus.attestations message) (st.pre.consensus.groups epoch) message) := by
  obtain ⟨hsid, hsigned⟩ := hafter.signed hverify
  by_cases heq : message = written
  · subst heq
    rw [hattestations, Function.update_self]
    exact ⟨fun hne => absurd hfresh hne, fun _ => ⟨hsid, epoch, hnames, hsigned⟩⟩
  · rw [hattestations, Function.update_of_ne heq]
    exact ⟨fun _ => rfl, fun hne => absurd rfl hne⟩

/-- What was attested stays, and what is attested was signed. -/
private theorem Chained.attested_sound (h : Chained externals deployment groupId history st.pre)
    (hafter : Chained externals deployment groupId (history ++ [st]) st.post)
    (hemitted : emittedBy st = events)
    (hstorage : Storage externals deployment (st.input.env st.pre) st.pre.consensus st.post.consensus
      st.post.coordinator events)
    (hcollision : ∀ a ∈ preimages externals deployment (history ++ [st]),
      ∀ b ∈ preimages externals deployment (history ++ [st]),
        externals.keccak256 a = externals.keccak256 b → a = b) (message : B256) :
    (st.pre.consensus.attestations message ≠ 0 →
      st.post.consensus.attestations message = st.pre.consensus.attestations message) ∧
    (st.post.consensus.attestations message ≠ st.pre.consensus.attestations message →
      st.post.consensus.attestations message ≠ 0 ∧
        ∃ epoch, Names externals message epoch ∧
          Signed externals (history ++ [st]) st.post.coordinator
            (st.post.consensus.attestations message) (st.pre.consensus.groups epoch) message) := by
  cases hstorage with
  | kept hepochs hgroups hattestations hstaging hattestation =>
      rw [hattestations]
      exact ⟨fun _ => rfl, fun hne => absurd rfl hne⟩
  | attested attestation hfresh hverify hepochs hgroups hattestations hstaging hattestation =>
      exact hafter.attests hfresh hattestations (.transaction _ _ _ _ rfl) hverify message
  | staged staging hactive hlt hfuture hnone hkey hverify hepochs hgroups hattestations hstaging
      hattestation =>
      obtain ⟨hascending, hlast, hdue, hfresh, hne⟩ := h.schedule hactive hlt hfuture hnone
      have hmem : staging.words ∈ attestedBy st := by
        rw [attestedBy, hemitted, hstaging]
        simp
      exact hafter.attests (h.staging_fresh hcollision hmem hfresh) hattestations
        (.rollover _ _ _ _ rfl) hverify message

/-- **Every step of a run is sound.** -/
private theorem Chained.stepSound (h : Chained externals deployment groupId history st.pre)
    (hst : st = Trace.take (Consensus.step externals deployment) st.pre st.input)
    (hcollision : ∀ a ∈ preimages externals deployment (history ++ [st]),
      ∀ b ∈ preimages externals deployment (history ++ [st]),
        externals.keccak256 a = externals.keccak256 b → a = b) :
    StepSound externals deployment history st := by
  have hpost : st.post = (Consensus.step externals deployment st.pre st.input).1 := by rw [hst]; rfl
  have hout : st.out = (Consensus.step externals deployment st.pre st.input).2 := by rw [hst]; rfl
  have hafter : Chained externals deployment groupId (history ++ [st]) st.post := by
    rw [hpost, hst]
    exact h.step st.input
  cases hresult : st.out with
  | error error =>
      have hemitted : emittedBy st = [] := by rw [emittedBy, hresult]
      have hsame := step_error (hout.symm.trans hresult)
      rw [← hpost] at hsame
      have hconsensus : st.post.consensus = st.pre.consensus := by rw [hsame]
      refine ⟨?_, ?_, ?_, ?_, ?_, ?_⟩
      · intro number number' hnumber _ hle
        rw [hconsensus, h.reflects.getActiveEpoch hnumber,
          h.reflects.getActiveEpoch (Nat.le_trans hnumber hle)]
        exact activeAt_mono h.ascending hle
      · rw [hemitted]
        intro event hevent
        cases hevent
      · intro epoch _
        rw [hconsensus]
      · rw [hemitted]
        intro staging hstaging
        cases hstaging
      · intro message _
        rw [hconsensus]
      · intro message hne
        rw [hconsensus] at hne
        exact absurd rfl hne
  | ok events =>
      have hemitted : emittedBy st = events := by rw [emittedBy, hresult]
      have hchanged := step_ok (hout.symm.trans hresult)
      rw [← hpost] at hchanged
      have hnumber : st.post.number = st.pre.number + st.input.passed := hchanged.number
      have hlater : st.pre.number ≤ st.post.number := by omega
      have hgrows := h.schedule_grows hemitted hchanged.storage
      obtain ⟨hgroups, hstaged⟩ := h.staged_sound hafter hnumber hchanged.storage
      have hattested := h.attested_sound hafter hemitted hchanged.storage hcollision
      rw [← hemitted] at hstaged
      refine ⟨?_, ?_, hgroups, hstaged, fun message => (hattested message).1,
        fun message => (hattested message).2⟩
      · intro number number' hpre hpost hle
        rw [h.reflects.getActiveEpoch hpre, hafter.reflects.getActiveEpoch hpost]
        exact BitVec.le_trans (activeAt_mono h.ascending hle) (hgrows number').1
      · intro event hevent epoch hepoch
        rw [hemitted] at hevent
        have hactive : epoch = (getActiveEpoch st.pre.consensus st.post.number).1 := by
          rw [hnumber]
          exact hchanged.active event hevent epoch hepoch
        refine ⟨hactive, ?_⟩
        rw [hactive, hafter.reflects.getActiveEpoch (Nat.le_refl _), h.reflects.getActiveEpoch hlater]
        exact ((hgrows _).2 hnumber).symm

end Step

/-! ### Every run -/

/-- **The epochs form a chain.**  Over every run of the two contracts: the epochs that were staged
ascend, each under the one before it; at every block from the latest on, the active epoch is the
last one whose rollover block has come; every epoch that was staged has the group it was staged
with; and every step is sound. -/
theorem consensus_epoch_chain (externals : Externals) (deployment : Deployment) (number : Nat)
    (groupId : B256) (inputs : List Input)
    (hcollision : ∀ a ∈ preimages externals deployment
        (Trace.trace (step externals deployment) (deployed number groupId) inputs),
      ∀ b ∈ preimages externals deployment
        (Trace.trace (step externals deployment) (deployed number groupId) inputs),
        externals.keccak256 a = externals.keccak256 b → a = b) :
    let history := Trace.trace (step externals deployment) (deployed number groupId) inputs
    let world := Trace.final (step externals deployment) (deployed number groupId) inputs
    Ascending (stagings history) ∧
      (∀ block, world.number ≤ block →
        getActiveEpoch world.consensus block =
            (activeAt (stagings history) block,
              groupOf groupId (stagings history) (activeAt (stagings history) block)) ∧
          ∀ staging ∈ stagings history,
            staging.epoch ≤ (getActiveEpoch world.consensus block).1 ↔
              staging.rolloverBlock.toNat ≤ block) ∧
      (∀ epoch, world.consensus.groups epoch = groupOf groupId (stagings history) epoch) ∧
      ∀ before st after, history = before ++ st :: after →
        StepSound externals deployment before st := by
  intro history world
  have hchained : Chained externals deployment groupId history world :=
    Trace.history_invariant (E := fun _ => True) (chained_deployed number groupId)
      (fun _ _ input h _ => h.step input) inputs (fun _ _ => trivial)
  refine ⟨hchained.ascending, ?_, hchained.groups, ?_⟩
  · intro block hblock
    have hactive := hchained.reflects.getActiveEpoch hblock
    constructor
    · apply Prod.ext hactive
      show world.consensus.groups (getActiveEpoch world.consensus block).1 = _
      rw [hactive]
      exact hchained.groups _
    · intro staging hstaging
      rw [hactive]
      exact hchained.ascending.le_activeAt_iff hstaging block
  · intro before st after hsplit
    obtain ⟨hpre, hst⟩ := Trace.split_invariant (E := fun _ => True)
      (chained_deployed number groupId : Chained externals deployment _ _ _)
      (fun _ _ input h _ => h.step input) (fun _ _ => trivial) hsplit
    apply hpre.stepSound hst
    have hsub : ∀ input ∈ preimages externals deployment (before ++ [st]),
        input ∈ preimages externals deployment history := by
      intro input hinput
      obtain ⟨st', hst', hin⟩ := List.mem_flatMap.mp hinput
      refine List.mem_flatMap.mpr ⟨st', ?_, hin⟩
      rw [hsplit]
      rcases List.mem_append.mp hst' with hbefore | hlast
      · exact List.mem_append_left _ hbefore
      · rw [List.mem_singleton.mp hlast]
        simp
    intro a ha b hb
    exact hcollision a (hsub a ha) b (hsub b hb)

/-! ### A rollover

The genesis group generates its key, proposes epoch 1 with itself as the next group, and the share
that completes the ceremony stages it.  The hashes and the recovered address are those of the real
functions at the inputs of the run.
-/

private def rolloverExternals : Externals :=
  Coordinator.tabulatedExternals
    [ (0x738f675, 0xc47c2f4ab42fe2617dd76ca1eb9781d09fced5e5671df71824e2f8a8f694e024),
    (0xaecf4d1437eb5b0b, 0x4aa8882583dba94293ad06d6469f8b8f1ee2a556f96167ee7674519992f8d3f4),
    (0xaf803ea38b697aed, 0xe6df9dfb10366917c8b1e91daf1f600f51ae14023a4d71f056d530d14eb2ebba),
    (0x5181d41bd0aed614, 0x17a762c89e86b0b7912fb6314ea4a70d7738bac0fc2ea725b222e1eeaf60f796),
    (0x25728a0712b8452e, 0x17a596309b8fef044279c1259057436dc58a76ba61db5f3e4f7009470e254300),
    (0x7487e41e897eeeeb, 0xb8e8fc962bf5ccca6c6f73d280c0dbf239224071c59dd8970ab9d542e3414ab2),
    (0x3fdf3b038ebcd03a, 0xec375b5a77804438a32db990f3abb6d10dd7c19435535d2bb07d77ca7e7d3220)]
    [ (0x20f19beed637b2b8, 0xb5d20efa7feadfaa25a51f8e5b351ba28cb963b150c63ca52d2e45ca94035cb9),
    (0x2a1338c7aadd9f6, 0x894a888358aa3284f1e34f4ab8dfc12eb9d1e3ad50aeb5cb70ce3e7a06cdf67c),
    (0x9731bb73f021df0c, 0xfe5ed80834600369480e4629f29b9a73654105748d9cefdcfe49649443a95429)]
    [ (0xb8e075c617a22e19, 0x80c0dbf239224071c59dd8970ab9d542e3414ab2)]

private def rolloverInput (passed : Nat) (sender : Address) (call : Call) : Input :=
  ⟨passed, sender, 0, 1, call⟩

/-- The calldata of a staging, without the signature identifier. -/
private def stageContext : Bytes :=
  stageEpochSelector ++ [1, 100, Coordinator.pairGid].flatMap Bytes.word

private def rolloverRun : List Input :=
  Coordinator.keyGenRun.map (fun call => rolloverInput 1 call.1 (.coordinator call.2)) ++
    [rolloverInput 1 0xA (.proposeEpoch 1 100 Coordinator.pairGid),
      rolloverInput 1 0xA (.signShareWithCallback Coordinator.pairSid
        ⟨Coordinator.generator, 0xec375b5a77804438a32db990f3abb6d10dd7c19435535d2bb07d77ca7e7d3220⟩
        ⟨Coordinator.generator, 0x38db132c121a461701ac318a9443265e67f9a35f5a71a594fc52079cf5479a4c, 1⟩ []
        stageContext)]

private def rolloverStaging : Staging :=
  ⟨0, 1, 100, Coordinator.pairGid, Coordinator.thriceGenerator, Coordinator.pairSid⟩

private theorem rollover_staged :
    stagings (Trace.trace (step rolloverExternals ⟨0xC0, 0xF0⟩) (deployed 0 Coordinator.pairGid)
      rolloverRun) = [rolloverStaging] := by
  decide +kernel

/-- Epoch 1 is active from block 100 on, and not before. -/
theorem rollover_reaches_epoch :
    stagings (Trace.trace (step rolloverExternals ⟨0xC0, 0xF0⟩) (deployed 0 Coordinator.pairGid)
        rolloverRun) = [rolloverStaging] ∧
      ∀ block, 9 ≤ block →
        (1 ≤ (getActiveEpoch (Trace.final (step rolloverExternals ⟨0xC0, 0xF0⟩)
          (deployed 0 Coordinator.pairGid) rolloverRun).consensus block).1 ↔ 100 ≤ block) := by
  refine ⟨rollover_staged, fun block hblock => ?_⟩
  obtain ⟨-, hactive, -, -⟩ := consensus_epoch_chain rolloverExternals ⟨0xC0, 0xF0⟩ 0
    Coordinator.pairGid rolloverRun (by decide +kernel)
  have hnumber : (Trace.final (step rolloverExternals ⟨0xC0, 0xF0⟩) (deployed 0 Coordinator.pairGid)
      rolloverRun).number = 9 := by
    decide +kernel
  apply (hactive block (by rw [hnumber]; exact hblock)).2 rolloverStaging
  rw [rollover_staged]
  exact List.mem_singleton_self _

end Consensus

end Safenet.Contracts
