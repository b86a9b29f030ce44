/-
The validator and the consensus contract agree on the active epoch.

The contract rolls over lazily, when a call finds that a staged epoch is due.  The validator does it
eagerly, when a new block begins an epoch that is later than its target.  What keeps the two together
is that the target of a validator is always the epoch after the one of the latest block
(`SameEpochs.next`): an epoch is staged while it is the target, so its rollover block is ahead, and the block
that ends the target is the one that makes the staged epoch due.
-/
import Safenet.Proofs.Consensus
import Safenet.Proofs.OnchainShares
import Safenet.Proofs.RolloverGroups

namespace Safenet.Validator

open RolloverState Trace
open Contracts.Consensus (Epochs World epochsWithRollover Staging Event.staging)

variable {t : Transition}

/-! ### What an event leaves of the epochs -/

/-- The genesis ceremony is that of the genesis group. -/
def GenesisGroup (t : Transition) (r : RolloverState) : Prop :=
  ∀ group, r.underway = some (.genesis, group) → group = t.genesis.group t.externals.keccak256

/-- Key generation keeps its target, or gives up for good, and leaves a staged epoch alone. -/
structure KeepsTarget (t : Transition) (r r' : RolloverState) : Prop where
  next : r'.nextEpoch = none ∨ r'.nextEpoch = r.nextEpoch
  staged : ∀ n, r' = .epochStaged n ↔ r = .epochStaged n
  genesis : GenesisGroup t r → GenesisGroup t r'

theorem KeyGenMove.keepsTarget {message : Message} {s₀ : State} {r r' : RolloverState}
    (hmove : KeyGenMove t message s₀ r r') : KeepsTarget t r r' := by
  -- within a ceremony the epoch and the group stay
  have hround : ∀ {epoch group}, r.underway = some (epoch, group) → r'.underway = some (epoch, group) →
      KeepsTarget t r r' := by
    intro epoch group h h'
    refine ⟨.inr ?_, fun n => iff_of_false ((next_of_underway h').2 n) ((next_of_underway h).2 n), ?_⟩
    · rw [(next_of_underway h).1, (next_of_underway h').1]
    · intro hgenesis group' hgroup'
      exact hgenesis group' (h.trans (h'.symm.trans hgroup'))
  cases hmove with
  | stay => exact ⟨.inr rfl, fun n => Iff.rfl, id⟩
  | genesis =>
      have hunderway : (t.startKeyGen .genesis t.genesis none).1.underway = _ := underway_startKeyGen
      refine ⟨.inr (next_of_underway hunderway).1, fun n => ?_, fun _ group hgroup => ?_⟩
      · exact iff_of_false ((next_of_underway hunderway).2 n) nofun
      · cases hunderway.symm.trans hgroup
        rfl
  | @restart _ n group participants deadline h =>
      have hunderway : (t.startKeyGen (.number n) participants deadline).1.underway = _ :=
        underway_startKeyGen
      refine ⟨.inr ?_, fun m => ?_, fun _ group hgroup => ?_⟩
      · rw [(next_of_underway hunderway).1, (next_of_underway h).1]
      · exact iff_of_false ((next_of_underway hunderway).2 m) ((next_of_underway h).2 m)
      · cases hunderway.symm.trans hgroup
  | @fail _ epoch group h =>
      cases epoch with
      | genesis => exact ⟨.inl rfl, fun m => iff_of_false nofun ((next_of_underway h).2 m), fun _ => nofun⟩
      | number n =>
          refine ⟨.inr (next_of_underway h).1.symm, fun m => ?_, fun _ => nofun⟩
          exact iff_of_false nofun ((next_of_underway h).2 m)
  | secrets => exact hround rfl rfl
  | commit => exact hround rfl rfl
  | shares _ hepoch hgroup =>
      refine hround rfl ?_
      rw [← hepoch, ← hgroup]
      rfl
  | share hepoch hgroup =>
      refine hround rfl ?_
      rw [← hepoch, ← hgroup]
      rfl
  | confirmations _ hepoch hgroup =>
      refine hround rfl ?_
      rw [← hepoch, ← hgroup]
      rfl
  | confirmation hepoch hgroup =>
      refine hround rfl ?_
      rw [← hepoch, ← hgroup]
      rfl

/-- What a message at a block leaves of the epochs, if it neither announces the block nor stages. -/
structure Unhurried (t : Transition) (number : Nat) (s s' : State) : Prop where
  active : s'.activeEpoch = s.activeEpoch
  next : ∀ m, s'.rollover.nextEpoch = some (.number m) →
    s.rollover.nextEpoch = some (.number m) ∨ m = nextNumber number t.config.blocksPerEpoch
  staged : ∀ n, s'.rollover = .epochStaged n ↔ s.rollover = .epochStaged n
  epochs : ∀ e epoch, s'.epochs.lookup e = some epoch → s.epochs.lookup e = some epoch ∨
    e = .genesis ∧ epoch.group = t.genesis.group t.externals.keccak256
  genesis : GenesisGroup t s'.rollover

namespace Unhurried

variable {number : Nat} {s s' : State}

theorem of_eq (hgenesis : GenesisGroup t s.rollover) (hactive : s'.activeEpoch = s.activeEpoch)
    (hrollover : s'.rollover = s.rollover) (hepochs : s'.epochs = s.epochs) :
    Unhurried t number s s' where
  active := hactive
  next := fun m hm => .inl (hrollover ▸ hm)
  staged := fun n => by rw [hrollover]
  epochs := fun e epoch h => .inl (hepochs ▸ h)
  genesis := hrollover.symm ▸ hgenesis

theorem withRollover {message : Message} {result : RolloverState × List Command}
    (hgenesis : GenesisGroup t s.rollover) (hmove : KeyGenMove t message s s.rollover result.1) :
    Unhurried t number s (s.withRollover result).1 where
  active := rfl
  next := by
    intro m hm
    rcases hmove.keepsTarget.next with hnone | hsame
    · cases hnone.symm.trans hm
    · exact .inl (hsame.symm.trans hm)
  staged := hmove.keepsTarget.staged
  epochs := fun _ _ h => .inl h
  genesis := hmove.keepsTarget.genesis hgenesis

/-- The genesis group hands over to the epoch after the one of the block. -/
theorem genesisConfirmed {round : CollectingConfirmations}
    (hrollover : s.rollover = .collectingConfirmations round) (hepoch : round.nextEpoch = .genesis)
    (hgenesis : GenesisGroup t s.rollover) :
    Unhurried t number s (t.genesisConfirmed s number round).1 := by
  have hgroup : round.group = t.genesis.group t.externals.keccak256 := by
    refine hgenesis round.group ?_
    rw [hrollover]
    exact congrArg (fun epoch => some (epoch, round.group)) hepoch
  have hlookup : ∀ {s' : State} {e epoch}, s'.epochs = s.epochs →
      (Transition.finalizeKeyGen s' .genesis round.group round.status.keyShare).epochs.lookup e =
        some epoch → s.epochs.lookup e = some epoch ∨
          e = .genesis ∧ epoch.group = t.genesis.group t.externals.keccak256 := by
    intro s' e epoch hepochs h
    unfold Transition.finalizeKeyGen at h
    split at h
    · rw [Table.lookup_insert] at h
      by_cases he : e = .genesis
      · rw [if_pos he] at h
        cases h
        exact .inr ⟨he, hgroup⟩
      · rw [if_neg he, hepochs] at h
        exact .inl h
    · exact .inl (hepochs ▸ h)
  have hstaged : ∀ n, s.rollover ≠ .epochStaged n := by
    intro n h
    cases hrollover.symm.trans h
  unfold Transition.genesisConfirmed
  dsimp only
  split
  · rename_i participants hset
    have hunderway : (t.startKeyGen (.number (nextNumber number t.config.blocksPerEpoch)) participants
        (some (t.keyGenDeadline number))).1.underway = _ := underway_startKeyGen
    refine ⟨finalizeKeyGen_eq.2.2.1, fun m hm => .inr ?_, fun n => ?_, fun e epoch => hlookup rfl, ?_⟩
    · cases (next_of_underway hunderway).1.symm.trans hm
      rfl
    · exact iff_of_false ((next_of_underway hunderway).2 n) (hstaged n)
    · intro group hgroup
      cases hunderway.symm.trans hgroup
  · refine ⟨finalizeKeyGen_eq.2.2.1, fun m hm => .inr ?_, fun n => ?_, fun e epoch => hlookup rfl, ?_⟩
    · rw [finalizeKeyGen_eq.1] at hm
      cases hm
      rfl
    · rw [finalizeKeyGen_eq.1]
      exact iff_of_false nofun (hstaged n)
    · rw [finalizeKeyGen_eq.1]
      exact nofun

theorem handleKeyGenConfirmed {gid : B256} {participant : Address}
    (hgenesis : GenesisGroup t s.rollover) :
    Unhurried t number s (t.handleKeyGenConfirmed s number gid participant).1 := by
  have hsame : Unhurried t number s s := of_eq hgenesis rfl rfl rfl
  unfold Transition.handleKeyGenConfirmed
  split
  · rename_i round hrollover
    split
    · dsimp only
      split
      · refine ⟨rfl, fun m hm => .inl ?_, fun n => ?_, fun _ _ h => .inl h, fun group hgroup => ?_⟩
        · rw [hrollover]
          exact hm
        · rw [hrollover]
          exact iff_of_false nofun nofun
        · refine hgenesis group ?_
          rw [hrollover]
          exact hgroup
      · split
        · rename_i hepoch
          exact genesisConfirmed hrollover hepoch hgenesis
        · rename_i proposed hepoch
          refine ⟨rfl, fun m hm => .inl ?_, fun n => ?_, fun _ _ h => .inl h, nofun⟩
          · rw [hrollover]
            exact (congrArg some hepoch).trans hm
          · rw [hrollover]
            exact iff_of_false nofun nofun
    · exact hsame
  · exact hsame

/-- An event that does not stage an epoch. -/
theorem onEvent {oracle : Address} {event : Event} (hgenesis : GenesisGroup t s.rollover)
    (hstages : ∀ proposed gid sid, event ≠ .epochStaged proposed gid sid) :
    Unhurried t number s (t.onEvent s number oracle event).1 := by
  have hsession : event.ofSession = true →
      Unhurried t number s (t.onEvent s number oracle event).1 := fun h =>
    of_eq hgenesis (onEvent_ofSession h).2 (onEvent_ofSession h).1 (epochs_ofSession h)
  -- which message it is matters to none of these
  have hkeyGen : ∀ result : RolloverState × List Command,
      KeyGenMove t (.newBlock number) s s.rollover result.1 →
        Unhurried t number s (s.withRollover result).1 := fun _ => withRollover hgenesis
  cases event with
  | keyGen gid => exact hkeyGen _ (.genesisKeyGen gid)
  | keyGenCommitted gid participant commitment =>
      exact hkeyGen _ (.keyGenCommitted number gid participant commitment)
  | keyGenSecretShared gid participant share =>
      exact hkeyGen _ (.keyGenSecretShared number gid participant share)
  | keyGenConfirmed gid participant => exact handleKeyGenConfirmed hgenesis
  | keyGenComplained gid plaintiff accused =>
      exact hkeyGen _ (.keyGenComplained number gid plaintiff accused)
  | keyGenComplaintResponded gid plaintiff accused secretShare =>
      exact hkeyGen _ (.keyGenComplaintResponded number gid plaintiff accused secretShare)
  | epochStaged proposed gid sid => exact absurd rfl (hstages proposed gid sid)
  | _ => exact hsession rfl

theorem onResume {result : Resume} (hgenesis : GenesisGroup t s.rollover) :
    Unhurried t number s (t.onResume s result).1 := by
  cases result with
  | noop => exact of_eq hgenesis rfl rfl rfl
  | setup groupId secrets =>
      exact withRollover hgenesis (KeyGenMove.keyGenSetup rfl)
  | nonceCommitments sid nonces =>
      have hsame : (t.onResume s (.nonceCommitments sid nonces)).1 = s :=
        Changes.handleNonceCommitments sid nonces
      rw [hsame]
      exact of_eq hgenesis rfl rfl rfl
  | nonces m nonces =>
      have hsame : (t.onResume s (.nonces m nonces)).1 = s := Changes.handleNonces m nonces
      rw [hsame]
      exact of_eq hgenesis rfl rfl rfl

end Unhurried

/-! ### A new block -/

section NewBlock

variable {number : Nat} {s : State}

/-- A block within the epoch before the target changes nothing. -/
theorem handleRolloverNewBlock_stays
    (h : ∀ m, s.rollover.nextEpoch = some (.number m) → nextNumber number t.config.blocksPerEpoch ≤ m) :
    (t.handleRolloverNewBlock s number).1 = s := by
  unfold Transition.handleRolloverNewBlock
  split
  · rfl
  · rename_i target hnext
    obtain ⟨epoch, hepoch, hnumber⟩ := Option.bind_eq_some_iff.mp hnext
    cases epoch with
    | genesis => cases hnumber
    | number n =>
        cases hnumber
        dsimp only
        rw [if_pos (h _ hepoch)]

/-- A later block gives the target up, for the epoch after its own. -/
theorem handleRolloverNewBlock_moves {target : ℕ+} (h : s.rollover.nextEpoch = some (.number target))
    (hlt : target < nextNumber number t.config.blocksPerEpoch) :
    (t.handleRolloverNewBlock s number).1.rollover.nextEpoch =
        some (.number (nextNumber number t.config.blocksPerEpoch)) ∧
      (∀ n, (t.handleRolloverNewBlock s number).1.rollover ≠ .epochStaged n) ∧
      (t.handleRolloverNewBlock s number).1.activeEpoch = (Transition.activate s target).activeEpoch ∧
      GenesisGroup t (t.handleRolloverNewBlock s number).1.rollover := by
  have hbind : s.rollover.nextEpoch.bind EpochId.number? = some target := by
    rw [h]
    rfl
  unfold Transition.handleRolloverNewBlock
  rw [hbind]
  dsimp only
  rw [if_neg (not_le.mpr hlt)]
  split
  · rename_i participants hset
    have hunderway : (t.startKeyGen (.number (nextNumber number t.config.blocksPerEpoch)) participants
        (some (t.keyGenDeadline number))).1.underway = _ := underway_startKeyGen
    refine ⟨(next_of_underway hunderway).1, (next_of_underway hunderway).2, rfl, ?_⟩
    intro group hgroup
    cases hunderway.symm.trans hgroup
  · exact ⟨rfl, nofun, rfl, nofun⟩

theorem activate_active (target : ℕ+) :
    (∀ n, s.rollover ≠ .epochStaged n) ∧ (Transition.activate s target).activeEpoch = s.activeEpoch ∨
      (∃ n, s.rollover = .epochStaged n) ∧
        (Transition.activate s target).activeEpoch = .number target := by
  unfold Transition.activate
  split
  · rename_i n hn
    exact .inr ⟨⟨n, hn⟩, rfl⟩
  · rename_i hnot
    exact .inl ⟨hnot, rfl⟩

theorem epochs_handleRolloverNewBlock :
    (t.handleRolloverNewBlock s number).1.epochs = s.epochs := by
  have hactivate : ∀ target, (Transition.activate s target).epochs = s.epochs := by
    intro target
    unfold Transition.activate
    split
    · rfl
    · rfl
  unfold Transition.handleRolloverNewBlock
  split
  · rfl
  · dsimp only
    split
    · rfl
    · split
      · exact hactivate _
      · exact hactivate _

end NewBlock

/-! ### The epochs of the contract -/

/-- The epochs of the contract at the latest block, with a due rollover applied. -/
def epochsNow (world : World) : Epochs := (epochsWithRollover world.consensus.epochs world.number).1

theorem getActiveEpoch_eq (world : World) :
    Contracts.Consensus.getActiveEpoch world.consensus world.number =
      ((epochsNow world).active, world.consensus.groups (epochsNow world).active) :=
  rfl

theorem epochsWithRollover_of_none {epochs : Epochs} {number : Nat} (h : epochs.staged = 0) :
    epochsWithRollover epochs number = (epochs, false) :=
  if_neg fun hdue => hdue.1 h

/-- What is due at a block is due at a later one, and a rollover is not due twice. -/
theorem epochsWithRollover_later {epochs : Epochs} {number number' : Nat} (hle : number ≤ number') :
    (epochsWithRollover (epochsWithRollover epochs number).1 number').1 =
      (epochsWithRollover epochs number').1 := by
  by_cases hdue : epochs.staged ≠ 0 ∧ epochs.rolloverBlock.toNat ≤ number
  · have hdue' : epochs.staged ≠ 0 ∧ epochs.rolloverBlock.toNat ≤ number' := ⟨hdue.1, hdue.2.trans hle⟩
    have hrolled : epochsWithRollover epochs number = (⟨epochs.active, epochs.staged, 0, 0⟩, true) :=
      if_pos hdue
    have hrolled' : epochsWithRollover epochs number' = (⟨epochs.active, epochs.staged, 0, 0⟩, true) :=
      if_pos hdue'
    rw [hrolled, hrolled', epochsWithRollover_of_none rfl]
  · have hsame : epochsWithRollover epochs number = (epochs, false) := if_neg hdue
    rw [hsame]

theorem epochsNow_later (world : World) {number : Nat} (hle : world.number ≤ number) :
    epochsNow { world with number } = (epochsWithRollover (epochsNow world) number).1 :=
  (epochsWithRollover_later hle).symm

/-- What was staged is not staged any more once it is due. -/
theorem staged_ahead {world : World} (h : (epochsNow world).staged ≠ 0) :
    world.number < (epochsNow world).rolloverBlock.toNat := by
  unfold epochsNow at h ⊢
  unfold epochsWithRollover at h ⊢
  split at h
  · exact absurd rfl h
  · rename_i hdue
    rw [if_neg hdue]
    exact not_le.mp fun hle => hdue ⟨h, hle⟩

/-- What a call in the latest block does to the epochs and the groups, and what it stages. -/
inductive Staged (world world' : World) (events : List Contracts.Consensus.Event) : Prop
  | kept (hepochs : epochsNow world' = epochsNow world)
      (hgroups : world'.consensus.groups = world.consensus.groups)
      (hstaging : events.filterMap Event.staging = [])
  | staged (staging : Staging) (hactive : (epochsNow world).active < staging.epoch)
      (hnone : (epochsNow world).staged = 0)
      (hepochs : epochsNow world' = { epochsNow world with
        staged := staging.epoch, rolloverBlock := staging.rolloverBlock })
      (hgroups : world'.consensus.groups =
        Function.update world.consensus.groups staging.epoch staging.groupId)
      (hstaging : events.filterMap Event.staging = [staging])

theorem staged_step (externals : Contracts.Coordinator.Externals)
    (deployment : Contracts.Consensus.Deployment) (world : World) (sender : Address) (timestamp : Nat)
    (chainId : B256) (call : Contracts.Consensus.Call) :
    let next := Contracts.Consensus.step externals deployment world ⟨0, sender, timestamp, chainId, call⟩
    next.1.number = world.number ∧ Staged world next.1 (next.2.toOption.getD []) := by
  intro next
  cases hout : next.2 with
  | error error =>
      have hpost : next.1 = world := Contracts.transact_error hout
      rw [hpost]
      exact ⟨rfl, .kept rfl rfl rfl⟩
  | ok events =>
      have hchanged := Contracts.Consensus.call_ok (Contracts.transact_ok hout)
      have hnumber : next.1.number = world.number := hchanged.number
      refine ⟨hnumber, ?_⟩
      show Staged world next.1 events
      have hnow : ∀ epochs, next.1.consensus.epochs = epochs →
          epochsNow next.1 = (epochsWithRollover epochs world.number).1 := by
        rintro _ rfl
        unfold epochsNow
        rw [hnumber]
      cases hchanged.storage with
      | kept hepochs hgroups _ hstaging _ =>
          refine .kept ?_ hgroups hstaging
          rcases hepochs with hsame | hrolled
          · exact hnow _ hsame
          · rw [hnow _ hrolled]
            exact epochsWithRollover_later le_rfl
      | staged staging hactive hlt hfuture hnone _ _ hepochs hgroups _ hstaging _ =>
          refine .staged staging ?_ hnone ?_ hgroups hstaging
          · rw [hactive] at hlt
            exact hlt
          · rw [hnow _ hepochs]
            exact congrArg Prod.fst (if_neg fun hdue => absurd hdue.2 (not_le.mpr hfuture))
      | attested _ _ _ hepochs hgroups _ hstaging _ => exact .kept (hnow _ hepochs) hgroups hstaging

/-! ### The two clocks -/

/-- The stagings that the validator has still to read. -/
def Joint.pending (joint : Joint) : List Staging := joint.unread.filterMap Event.staging

/-- The validator and the contract have the same epochs. -/
structure SameEpochs (t : Transition) (joint : Joint) : Prop where
  active : (epochsNow joint.world).active.toNat = joint.state.activeEpoch.rawValue
  past : joint.state.activeEpoch.rawValue * t.config.blocksPerEpoch ≤ joint.world.number
  /-- The target is the epoch after the one of the latest block. -/
  next : ∀ m, joint.state.rollover.nextEpoch = some (.number m) →
    m = nextNumber joint.world.number t.config.blocksPerEpoch
  staged : joint.pending = [] → ∀ n : ℕ+,
    joint.state.rollover = .epochStaged n ↔ (epochsNow joint.world).staged.toNat = n
  block : joint.pending = [] → (epochsNow joint.world).staged ≠ 0 →
    (epochsNow joint.world).rolloverBlock.toNat =
      (epochsNow joint.world).staged.toNat * t.config.blocksPerEpoch
  pending : ∀ staging rest, joint.pending = staging :: rest → rest = [] ∧
    (epochsNow joint.world).staged = staging.epoch ∧
      (epochsNow joint.world).rolloverBlock = staging.rolloverBlock ∧
        joint.world.consensus.groups staging.epoch = staging.groupId ∧
          ∀ n, joint.state.rollover ≠ .epochStaged n
  registered : ∀ e epoch, joint.state.epochs.lookup e = some epoch →
    (e ≤ joint.state.activeEpoch ∨ ∃ n, joint.state.rollover = .epochStaged n ∧ e = .number n) ∧
      joint.world.consensus.groups (BitVec.ofNat 64 e.rawValue) = epoch.group.id
  genesisGroup : joint.world.consensus.groups 0 = (t.genesis.group t.externals.keccak256).id
  genesis : GenesisGroup t joint.state.rollover

/-- What is read is the rollover that the validator signs: nobody else has the group's signature. -/
def StagesSigned (t : Transition) (x : Step Joint Joint.Input (List Command)) : Prop :=
  ∀ event unread staging, x.input = .read → x.pre.unread = event :: unread →
    event.staging = some staging → ∃ rollover, x.pre.state.rollover = .signingRollover rollover ∧
      (rollover.nextEpoch : Nat) = staging.epoch.toNat ∧
        t.rolloverBlock rollover.nextEpoch = staging.rolloverBlock.toNat ∧
          rollover.group.id = staging.groupId

/-- The block numbers of the epoch after the latest block fit into 64 bits. -/
def Fits (t : Transition) (number : Nat) : Prop :=
  (number / t.config.blocksPerEpoch + 1) * t.config.blocksPerEpoch < 2 ^ 64

section Arithmetic

variable {number : Nat}

theorem Fits.earlier {number' : Nat} (h : Fits t number) (hle : number' ≤ number) : Fits t number' := by
  refine lt_of_le_of_lt (Nat.mul_le_mul_right _ ?_) h
  exact Nat.succ_le_succ (Nat.div_le_div_right hle)

theorem nextNumber_eq (h : Fits t number) :
    (nextNumber number t.config.blocksPerEpoch : Nat) = number / t.config.blocksPerEpoch + 1 := by
  have hpos : 0 < (t.config.blocksPerEpoch : Nat) := t.config.blocksPerEpoch.pos
  have hle : number / t.config.blocksPerEpoch + 1 ≤
      (number / t.config.blocksPerEpoch + 1) * t.config.blocksPerEpoch := Nat.le_mul_of_pos_right _ hpos
  show saturatingAdd 1 (number / t.config.blocksPerEpoch) = _
  unfold Fits at h
  unfold saturatingAdd
  omega

theorem lt_nextNumber_iff (h : Fits t number) (n : ℕ+) :
    n < nextNumber number t.config.blocksPerEpoch ↔ (n : Nat) * t.config.blocksPerEpoch ≤ number := by
  rw [← PNat.coe_lt_coe, nextNumber_eq h, Nat.lt_succ_iff,
    Nat.le_div_iff_mul_le t.config.blocksPerEpoch.pos]

/-- Below the epoch after a block, every epoch has begun by then. -/
theorem le_of_lt_nextNumber {n : ℕ+} (h : n < nextNumber number t.config.blocksPerEpoch) :
    (n : Nat) * t.config.blocksPerEpoch ≤ number := by
  have hlt : (n : Nat) < saturatingAdd 1 (number / t.config.blocksPerEpoch) := h
  unfold saturatingAdd at hlt
  exact (Nat.le_div_iff_mul_le t.config.blocksPerEpoch.pos).mp (by omega)

theorem rolloverBlock_nextNumber (h : Fits t number) :
    t.rolloverBlock (nextNumber number t.config.blocksPerEpoch) =
      (nextNumber number t.config.blocksPerEpoch : Nat) * t.config.blocksPerEpoch := by
  unfold Fits at h
  rw [← nextNumber_eq h] at h
  unfold Transition.rolloverBlock saturatingMul
  omega

end Arithmetic

namespace SameEpochs

variable {joint joint' : Joint}

/-- A message that neither announces a block nor stages an epoch. -/
theorem message (h : SameEpochs t joint) (hworld : joint'.world = joint.world)
    (hpending : joint'.pending = joint.pending)
    (hstate : Unhurried t joint.world.number joint.state joint'.state) : SameEpochs t joint' := by
  refine ⟨?_, ?_, ?_, ?_, ?_, ?_, ?_, ?_, hstate.genesis⟩
  · rw [hworld, hstate.active]
    exact h.active
  · rw [hworld, hstate.active]
    exact h.past
  · rw [hworld]
    intro m hm
    rcases hstate.next m hm with hold | hnew
    · exact h.next m hold
    · exact hnew
  · rw [hworld, hpending]
    intro hnone n
    rw [hstate.staged n]
    exact h.staged hnone n
  · rw [hworld, hpending]
    exact h.block
  · rw [hworld, hpending]
    intro staging rest hlist
    obtain ⟨hrest, hstaged, hblock, hgroup, hnot⟩ := h.pending staging rest hlist
    exact ⟨hrest, hstaged, hblock, hgroup, fun n hn => hnot n ((hstate.staged n).mp hn)⟩
  · rw [hworld, hstate.active]
    intro e epoch hlookup
    rcases hstate.epochs e epoch hlookup with hold | ⟨rfl, hgroup⟩
    · obtain ⟨hle, hgroup⟩ := h.registered e epoch hold
      refine ⟨?_, hgroup⟩
      rcases hle with hle | ⟨n, hn, he⟩
      · exact .inl hle
      · exact .inr ⟨n, (hstate.staged n).mpr hn, he⟩
    · refine ⟨.inl (EpochId.le_def.mpr (Nat.zero_le _)), ?_⟩
      rw [hgroup]
      exact h.genesisGroup
  · rw [hworld]
    exact h.genesisGroup

/-- The active epoch is behind the one after the latest block. -/
theorem active_lt (h : SameEpochs t joint) (hfits : Fits t joint.world.number) :
    joint.state.activeEpoch < .number (nextNumber joint.world.number t.config.blocksPerEpoch) := by
  have hpast := h.past
  cases hactive : joint.state.activeEpoch with
  | genesis => exact EpochId.lt_def.mpr (PNat.pos _)
  | number n =>
      rw [hactive] at hpast
      exact EpochId.lt_def.mpr ((lt_nextNumber_iff hfits n).mpr hpast)

/-- The epoch that the validator signs the rollover to is staged. -/
theorem stages {event : Contracts.Consensus.Event} {unread : List Contracts.Consensus.Event}
    {staging : Staging} {rollover : SigningRollover} (proposedEpoch : Nat) (h : SameEpochs t joint)
    (hfits : Fits t joint.world.number) (hunread : joint.unread = event :: unread)
    (hstaging : event.staging = some staging)
    (hrollover : joint.state.rollover = .signingRollover rollover)
    (hepoch : (rollover.nextEpoch : Nat) = staging.epoch.toNat)
    (hblock : t.rolloverBlock rollover.nextEpoch = staging.rolloverBlock.toNat)
    (hgroup : rollover.group.id = staging.groupId) :
    SameEpochs t { joint with
      unread
      state := (Transition.handleEpochStaged joint.state proposedEpoch staging.groupId).1 } := by
  have hlist : joint.pending = staging :: unread.filterMap Event.staging := by
    unfold Joint.pending
    rw [hunread, List.filterMap_cons_some hstaging]
  obtain ⟨hrest, hstaged, hrolloverBlock, hgroups, -⟩ := h.pending _ _ hlist
  have htarget : rollover.nextEpoch = nextNumber joint.world.number t.config.blocksPerEpoch :=
    h.next _ (by rw [hrollover]; rfl)
  have hstep : (Transition.handleEpochStaged joint.state proposedEpoch staging.groupId).1 =
      (Transition.handleSignAttested (Transition.finalizeKeyGen
        { joint.state with rollover := .epochStaged rollover.nextEpoch } (.number rollover.nextEpoch)
        rollover.group rollover.keyShare) rollover.message).1 := by
    unfold Transition.handleEpochStaged
    rw [hrollover]
    dsimp only
    rw [if_pos hgroup]
  have hnow : (Transition.handleEpochStaged joint.state proposedEpoch staging.groupId).1.rollover =
      .epochStaged rollover.nextEpoch := by
    rw [hstep, (handleSignAttested_eq _).1, finalizeKeyGen_eq.1]
  have hactive : (Transition.handleEpochStaged joint.state proposedEpoch
      staging.groupId).1.activeEpoch = joint.state.activeEpoch := by
    rw [hstep, (handleSignAttested_eq _).2.1, finalizeKeyGen_eq.2.2.1]
  refine ⟨?_, ?_, ?_, ?_, ?_, ?_, ?_, h.genesisGroup, ?_⟩
  · rw [hactive]
    exact h.active
  · rw [hactive]
    exact h.past
  · intro m hm
    rw [hnow] at hm
    cases hm
    exact htarget
  · intro _ n
    rw [hnow, hstaged, ← hepoch, RolloverState.epochStaged.injEq]
    exact PNat.coe_inj.symm
  · intro _ _
    rw [hstaged, hrolloverBlock, ← hblock, ← hepoch, htarget]
    exact rolloverBlock_nextNumber hfits
  · intro staging' rest hlist'
    exact absurd (hlist'.symm.trans hrest) (List.cons_ne_nil _ _)
  · intro e epoch hlookup
    rw [hactive, hnow]
    rw [hstep, (handleSignAttested_eq _).2.2.1] at hlookup
    by_cases he : e = .number rollover.nextEpoch
    · refine ⟨.inr ⟨_, rfl, he⟩, ?_⟩
      have hnumber : BitVec.ofNat 64 e.rawValue = staging.epoch := by
        rw [he]
        show BitVec.ofNat 64 (rollover.nextEpoch : Nat) = _
        rw [hepoch, BitVec.ofNat_toNat, BitVec.setWidth_eq]
      rw [hnumber]
      refine hgroups.trans (hgroup.symm.trans ?_)
      unfold Transition.finalizeKeyGen at hlookup
      split at hlookup
      · rw [he, Table.lookup_insert_self] at hlookup
        cases hlookup
        rfl
      · -- without a key share the epoch is not registered, nor was it before
        rcases (h.registered e epoch hlookup).1 with hle | ⟨n, hn, -⟩
        · rw [he, htarget] at hle
          exact absurd hle (not_le.mpr (h.active_lt hfits))
        · cases hrollover.symm.trans hn
    · rw [lookup_finalizeKeyGen_of_ne he] at hlookup
      obtain ⟨hle, hgroup'⟩ := h.registered e epoch hlookup
      refine ⟨?_, hgroup'⟩
      rcases hle with hle | ⟨n, hn, -⟩
      · exact .inl hle
      · cases hrollover.symm.trans hn
  · rw [hnow]
    exact nofun

/-- A call in the latest block, with the validator still to read its events. -/
theorem chain {world : World} {unread : List Contracts.Consensus.Event} (h : SameEpochs t joint)
    (hpending : joint.pending = []) (hnumber : world.number = joint.world.number)
    (hstaged : Staged joint.world world unread) :
    SameEpochs t { joint with world, unread } := by
  have hactive := h.active
  have hstagedIff := h.staged hpending
  have hblock := h.block hpending
  cases hstaged with
  | kept hepochs hgroups hstaging =>
      refine ⟨?_, ?_, ?_, fun _ => ?_, fun _ => ?_, ?_, ?_, ?_, h.genesis⟩
      · rw [hepochs]
        exact hactive
      · rw [hnumber]
        exact h.past
      · rw [hnumber]
        exact h.next
      · rw [hepochs]
        exact hstagedIff
      · rw [hepochs]
        exact hblock
      · intro staging rest hlist
        cases hstaging.symm.trans hlist
      · rw [hgroups]
        exact h.registered
      · rw [hgroups]
        exact h.genesisGroup
  | staged staging hlt hnone hepochs hgroups hstaging =>
      rw [BitVec.lt_def, hactive] at hlt
      have hnot : ∀ n : ℕ+, joint.state.rollover ≠ .epochStaged n := by
        intro n hn
        have hzero := (hstagedIff n).mp hn
        rw [hnone] at hzero
        exact absurd hzero n.ne_zero.symm
      refine ⟨?_, ?_, ?_, fun hnil => ?_, fun hnil => ?_, ?_, ?_, ?_, h.genesis⟩
      · rw [hepochs]
        exact hactive
      · rw [hnumber]
        exact h.past
      · rw [hnumber]
        exact h.next
      · cases hstaging.symm.trans hnil
      · cases hstaging.symm.trans hnil
      · intro staging' rest hlist
        cases hstaging.symm.trans hlist
        refine ⟨rfl, ?_, ?_, ?_, hnot⟩
        · rw [hepochs]
        · rw [hepochs]
        · rw [hgroups, Function.update_self]
      · intro e epoch hlookup
        obtain ⟨hle, hgroup⟩ := h.registered e epoch hlookup
        refine ⟨hle, ?_⟩
        rw [hgroups, Function.update_of_ne, hgroup]
        rcases hle with hle | ⟨n, hn, -⟩
        · intro heq
          have hvalue := congrArg BitVec.toNat heq
          rw [BitVec.toNat_ofNat] at hvalue
          have hmod := Nat.mod_le e.rawValue (2 ^ 64)
          have hle := EpochId.le_def.mp hle
          omega
        · exact absurd hn (hnot n)
      · rw [hgroups, Function.update_of_ne, h.genesisGroup]
        intro hzero
        rw [← hzero] at hlt
        exact absurd hlt (Nat.not_lt_zero _)

/-- What the contract has staged is what the validator has. -/
theorem epochStaged_of_ne (h : SameEpochs t joint) (hpending : joint.pending = [])
    (hne : (epochsNow joint.world).staged ≠ 0) : ∃ n : ℕ+, joint.state.rollover = .epochStaged n ∧
      (epochsNow joint.world).staged.toNat = n ∧
        (epochsNow joint.world).rolloverBlock.toNat = (n : Nat) * t.config.blocksPerEpoch := by
  have hpos : 0 < (epochsNow joint.world).staged.toNat := by
    refine Nat.pos_of_ne_zero fun hzero => hne (BitVec.eq_of_toNat_eq ?_)
    rw [hzero]
    rfl
  exact ⟨⟨_, hpos⟩, (h.staged hpending ⟨_, hpos⟩).mpr rfl, rfl, h.block hpending hne⟩

/-- The contract at a block at which nothing staged is due. -/
theorem epochsNow_of_ahead {number : Nat} (hle : joint.world.number ≤ number)
    (hahead : (epochsNow joint.world).staged ≠ 0 →
      number < (epochsNow joint.world).rolloverBlock.toNat) :
    epochsNow { joint.world with number } = epochsNow joint.world := by
  have hdue : ¬ ((epochsNow joint.world).staged ≠ 0 ∧
      (epochsNow joint.world).rolloverBlock.toNat ≤ number) := fun hdue =>
    absurd hdue.2 (not_le.mpr (hahead hdue.1))
  have hsame : epochsWithRollover (epochsNow joint.world) number = (epochsNow joint.world, false) :=
    if_neg hdue
  rw [epochsNow_later _ hle, hsame]

/-- The clock of the validator at a new block: the target ends if the block is not in the epoch before
it, and with it what is staged becomes active on both sides. -/
theorem clock {number : Nat} (h : SameEpochs t joint) (hunread : joint.unread = [])
    (hlt : joint.world.number < number) (hfits : Fits t number) :
    SameEpochs t { joint with
      world := { joint.world with number }
      state := (t.handleRolloverNewBlock joint.state number).1 } := by
  have hpending : joint.pending = [] := by
    unfold Joint.pending
    rw [hunread]
    rfl
  have hstagedIff := h.staged hpending
  have hblock := h.block hpending
  have hnumbers : nextNumber joint.world.number t.config.blocksPerEpoch ≤
      nextNumber number t.config.blocksPerEpoch := by
    have hdiv := Nat.div_le_div_right (c := t.config.blocksPerEpoch) hlt.le
    show saturatingAdd 1 _ ≤ saturatingAdd 1 _
    unfold saturatingAdd
    omega
  by_cases hstays : ∀ m, joint.state.rollover.nextEpoch = some (.number m) →
      nextNumber number t.config.blocksPerEpoch ≤ m
  · rw [handleRolloverNewBlock_stays hstays]
    -- a staged epoch is the target, so it is not due
    have hepochs : epochsNow { joint.world with number } = epochsNow joint.world := by
      refine epochsNow_of_ahead hlt.le fun hne => ?_
      obtain ⟨n, hn, -, hahead⟩ := h.epochStaged_of_ne hpending hne
      rw [hahead]
      refine not_le.mp fun hle => ?_
      exact absurd ((lt_nextNumber_iff hfits n).mpr hle) (not_lt.mpr (hstays n (by rw [hn]; rfl)))
    refine ⟨?_, h.past.trans hlt.le, ?_, fun _ => ?_, fun _ => ?_, ?_, h.registered, h.genesisGroup,
      h.genesis⟩
    · rw [hepochs]
      exact h.active
    · intro m hm
      exact le_antisymm (h.next m hm ▸ hnumbers) (hstays m hm)
    · rw [hepochs]
      exact hstagedIff
    · rw [hepochs]
      exact hblock
    · intro staging rest hlist
      cases hpending.symm.trans hlist
  · push Not at hstays
    obtain ⟨target, htarget, hends⟩ := hstays
    obtain ⟨hnext, hnot, hactive, hgenesis⟩ := handleRolloverNewBlock_moves htarget hends
    have hpast : (target : Nat) * t.config.blocksPerEpoch ≤ number :=
      (lt_nextNumber_iff hfits target).mp hends
    have htargets : ∀ m, (t.handleRolloverNewBlock joint.state number).1.rollover.nextEpoch =
        some (.number m) → m = nextNumber number t.config.blocksPerEpoch := by
      intro m hm
      cases hnext.symm.trans hm
      rfl
    have hpendings : ∀ staging rest, joint.pending ≠ staging :: rest := by
      intro staging rest hlist
      cases hpending.symm.trans hlist
    rcases activate_active (s := joint.state) target with ⟨hidle, hsame⟩ | ⟨⟨n, hn⟩, hmoved⟩
    · have hnone : (epochsNow joint.world).staged = 0 := by
        by_contra hne
        obtain ⟨n, hn, -⟩ := h.epochStaged_of_ne hpending hne
        exact hidle n hn
      have hepochs : epochsNow { joint.world with number } = epochsNow joint.world :=
        epochsNow_of_ahead hlt.le fun hne => absurd hnone hne
      refine ⟨?_, ?_, htargets, fun _ m => ?_, fun _ => ?_, fun staging rest hlist => ?_, ?_,
        h.genesisGroup, hgenesis⟩
      · rw [hepochs, hactive, hsame]
        exact h.active
      · rw [hactive, hsame]
        exact h.past.trans hlt.le
      · rw [hepochs, hnone]
        exact iff_of_false (hnot m) m.ne_zero.symm
      · rw [hepochs]
        exact hblock
      · exact absurd hlist (hpendings staging rest)
      · intro e epoch hlookup
        rw [epochs_handleRolloverNewBlock] at hlookup
        obtain ⟨hle, hgroup⟩ := h.registered e epoch hlookup
        refine ⟨.inl ?_, hgroup⟩
        rw [hactive, hsame]
        rcases hle with hle | ⟨n, hn, -⟩
        · exact hle
        · exact absurd hn (hidle n)
    · have hn' : n = target := by
        rw [hn] at htarget
        cases htarget
        rfl
      subst hn'
      -- the target was staged, and is due
      have hstaged : (epochsNow joint.world).staged.toNat = n := (hstagedIff n).mp hn
      have hne : (epochsNow joint.world).staged ≠ 0 := by
        intro hzero
        rw [hzero] at hstaged
        exact n.ne_zero hstaged.symm
      have hdue : (epochsNow joint.world).rolloverBlock.toNat ≤ number := by
        rw [hblock hne, hstaged]
        exact hpast
      have hrolled : epochsWithRollover (epochsNow joint.world) number =
          (⟨(epochsNow joint.world).active, (epochsNow joint.world).staged, 0, 0⟩, true) :=
        if_pos ⟨hne, hdue⟩
      have hepochs : epochsNow { joint.world with number } =
          ⟨(epochsNow joint.world).active, (epochsNow joint.world).staged, 0, 0⟩ := by
        rw [epochsNow_later _ hlt.le, hrolled]
      refine ⟨?_, ?_, htargets, fun _ m => ?_, fun _ hzero => ?_, fun staging rest hlist => ?_, ?_,
        h.genesisGroup, hgenesis⟩
      · rw [hepochs, hactive, hmoved]
        exact hstaged
      · rw [hactive, hmoved]
        exact hpast
      · rw [hepochs]
        exact iff_of_false (hnot m) m.ne_zero.symm
      · rw [hepochs] at hzero
        exact absurd rfl hzero
      · exact absurd hlist (hpendings staging rest)
      · intro e epoch hlookup
        rw [epochs_handleRolloverNewBlock] at hlookup
        obtain ⟨hle, hgroup⟩ := h.registered e epoch hlookup
        refine ⟨.inl ?_, hgroup⟩
        rw [hactive, hmoved]
        rcases hle with hle | ⟨m, hm, rfl⟩
        · have hcurrent := h.next n htarget
          have hlast := h.active_lt (hfits.earlier hlt.le)
          rw [← hcurrent] at hlast
          exact hle.trans hlast.le
        · cases hn.symm.trans hm
          exact le_rfl

/-- A new block. -/
theorem newBlock {number : Nat} (h : SameEpochs t joint) (hunread : joint.unread = [])
    (hlt : joint.world.number < number) (hfits : Fits t number) :
    SameEpochs t { joint with
      world := { joint.world with number }
      state := (t.newBlock joint.state number).1 } := by
  have hmove : KeyGenMove t (.newBlock number) joint.state
      (t.handleRolloverNewBlock joint.state number).1.rollover
      (t.newBlock joint.state number).1.rollover := by
    rw [newBlock_rollover]
    exact .keyGenTimeouts number
  have hclock := h.clock hunread hlt hfits
  refine hclock.message rfl rfl ⟨rfl, ?_, hmove.keepsTarget.staged, ?_,
    hmove.keepsTarget.genesis hclock.genesis⟩
  · intro m hm
    rcases hmove.keepsTarget.next with hnone | hsame
    · cases hnone.symm.trans hm
    · exact .inl (hsame.symm.trans hm)
  · intro e epoch hlookup
    exact .inl (Table.lookup_filter_eq_some.mp hlookup).1

theorem readEvent_ne_epochStaged (event : Contracts.Coordinator.Event) {proposed : Nat} {gid sid : B256} :
    readEvent event ≠ .epochStaged proposed gid sid := by
  intro heq
  unfold readEvent at heq
  split at heq <;> cases heq

theorem deliverEvent {event : Event} {address : Address} {unread : List Contracts.Consensus.Event}
    (h : SameEpochs t joint) (hpending : unread.filterMap Event.staging = joint.pending)
    (hstages : ∀ proposed gid sid, event ≠ .epochStaged proposed gid sid) :
    SameEpochs t (Joint.deliverEvent t { joint with unread } address event).1 :=
  h.message rfl hpending (.onEvent h.genesis hstages)

/-- **Every step keeps the two clocks together.** -/
theorem step {externals : Contracts.Coordinator.Externals}
    {deployment : Contracts.Consensus.Deployment} (h : SameEpochs t joint) (input : Joint.Input)
    (hsigned : StagesSigned t (take (Joint.step t externals deployment) joint input))
    (hfits : Fits t (Joint.step t externals deployment joint input).1.world.number) :
    SameEpochs t (Joint.step t externals deployment joint input).1 := by
  cases input with
  | newBlock number =>
      unfold Joint.step at hfits ⊢
      dsimp only at hfits ⊢
      split at hfits
      · rename_i hready
        rw [if_pos hready]
        exact h.newBlock hready.1 hready.2 hfits
      · rename_i hready
        rw [if_neg hready]
        exact h
  | chain sender timestamp chainId call =>
      unfold Joint.step
      dsimp only
      split
      · rename_i hunread
        obtain ⟨hnumber, hstaged⟩ :=
          staged_step externals deployment joint.world sender timestamp chainId call
        refine h.chain ?_ hnumber hstaged
        unfold Joint.pending
        rw [hunread]
        rfl
      · exact h
  | read =>
      cases hunread : joint.unread with
      | nil =>
          have hsame : (Joint.step t externals deployment joint .read).1 = joint := by
            unfold Joint.step
            dsimp only
            rw [hunread]
          rw [hsame]
          exact h
      | cons event unread =>
          have hread : (Joint.step t externals deployment joint .read).1 =
              (Joint.deliverEvent t { joint with unread } (emitter deployment event)
                (readWorld event)).1 := by
            unfold Joint.step
            dsimp only
            rw [hunread]
          have hnumber : (Joint.step t externals deployment joint .read).1.world.number =
              joint.world.number := by
            rw [hread]
            rfl
          rw [hnumber] at hfits
          rw [hread]
          cases hstaging : event.staging with
          | none =>
              refine h.deliverEvent ?_ ?_
              · unfold Joint.pending
                rw [hunread, List.filterMap_cons_none hstaging]
              · intro proposed gid sid heq
                cases event with
                | epochStaged => cases hstaging
                | coordinator event => exact readEvent_ne_epochStaged event heq
                | validatorStakerSet => cases heq
                | epochProposed => cases heq
                | epochRolledOver => cases heq
                | transactionProposed => cases heq
                | transactionAttested => cases heq
          | some staging =>
              obtain ⟨rollover, hrollover, hepoch, hblock, hgroup⟩ :=
                hsigned event unread staging rfl hunread hstaging
              have hstages := stages staging.epoch.toNat h hfits hunread hstaging hrollover hepoch
                hblock hgroup
              cases event with
              | epochStaged active epoch rolloverBlock groupId groupKey signatureId attestation =>
                  cases hstaging
                  exact hstages
              | _ => cases hstaging
  | oracleResult oracle requestId approved =>
      exact h.deliverEvent rfl nofun
  | resume result => exact h.message rfl rfl (.onResume h.genesis)

end SameEpochs

theorem sameEpochs_start {world : World} {number : Nat}
    (hworld : world = Contracts.Consensus.deployed number (t.genesis.group t.externals.keccak256).id) :
    SameEpochs t (Joint.start world) := by
  subst hworld
  have hgroup : ∀ gid : B256, (Contracts.Consensus.deploy gid).groups 0 = gid := by
    intro gid
    unfold Contracts.Consensus.deploy
    dsimp only
    rw [Function.update_self]
  refine ⟨rfl, ?_, nofun, fun _ n => ?_, fun _ hne => ?_, nofun, nofun, hgroup _, nofun⟩
  · rw [show (Joint.start _).state.activeEpoch.rawValue = 0 from rfl, Nat.zero_mul]
    exact Nat.zero_le _
  · exact iff_of_false nofun n.ne_zero.symm
  · exact absurd rfl hne

/-- An epoch whose rollover block has come can no longer be staged. -/
theorem stageEpoch_late (externals : Contracts.Coordinator.Externals)
    (deployment : Contracts.Consensus.Deployment) {env : Contracts.Env} {world : World}
    {proposedEpoch : Contracts.Consensus.Epoch} {rolloverBlock : BitVec 64} {groupId signatureId : B256}
    (h : rolloverBlock.toNat ≤ env.number) :
    Contracts.Consensus.stageEpoch externals deployment env world proposedEpoch rolloverBlock groupId
      signatureId = .error .invalidRollover := by
  unfold Contracts.Consensus.stageEpoch
  have hinvalid : ∀ epochs, Contracts.Consensus.requireValidRollover epochs proposedEpoch rolloverBlock
      env.number = .error .invalidRollover := by
    intro epochs
    unfold Contracts.Consensus.requireValidRollover
    rw [decide_eq_false (not_lt.mpr h), Bool.and_false, Bool.false_and]
    rfl
  split
  rw [hinvalid]
  rfl

/--
**The validator and the contract have the same epoch at every block.**  A validator that reads the events
of every call from genesis on, in order, and whatever its effects and the oracles answer in between, has
the contract's active epoch as its own, with the contract's group for every epoch that it can sign in; it
waits for an epoch exactly while the contract has that epoch staged; it works toward the epoch after the
one of the latest block; and an epoch that it has given up can no longer be staged.
-/
theorem epoch_clocks_agree (t : Transition) (externals : Contracts.Coordinator.Externals)
    (deployment : Contracts.Consensus.Deployment) (number : Nat) (inputs : List Joint.Input)
    (hfits : Fits t number) :
    let start := Joint.start
      (Contracts.Consensus.deployed number (t.genesis.group t.externals.keccak256).id)
    let joint := final (Joint.step t externals deployment) start inputs
    (∀ x ∈ trace (Joint.step t externals deployment) start inputs,
      StagesSigned t x ∧ Fits t x.post.world.number) →
    joint.unread = [] →
      (Contracts.Consensus.getActiveEpoch joint.world.consensus joint.world.number).1.toNat =
          joint.state.activeEpoch.rawValue ∧
        (∀ e epoch, joint.state.epochs.lookup e = some epoch →
          joint.world.consensus.groups (BitVec.ofNat 64 e.rawValue) = epoch.group.id) ∧
        (∀ n : ℕ+, joint.state.rollover = .epochStaged n ↔
          (epochsNow joint.world).staged.toNat = n) ∧
        ∀ m, joint.state.rollover.nextEpoch = some (.number m) →
          m = nextNumber joint.world.number t.config.blocksPerEpoch ∧
            joint.state.activeEpoch < .number m ∧
            ∀ e : ℕ+, e < m → ∀ (env : Contracts.Env) (groupId signatureId : B256),
              env.number = joint.world.number →
                Contracts.Consensus.stageEpoch externals deployment env joint.world (BitVec.ofNat 64 e)
                  (BitVec.ofNat 64 (t.rolloverBlock e)) groupId signatureId =
                    .error .invalidRollover := by
  intro start joint hok hunread
  have hinv : SameEpochs t joint ∧ Fits t joint.world.number :=
    history_invariant (I := fun _ joint => SameEpochs t joint ∧ Fits t joint.world.number)
      (E := fun x => StagesSigned t x ∧ Fits t x.post.world.number) ⟨sameEpochs_start rfl, hfits⟩
      (fun _ _ input h hstep => ⟨h.1.step input hstep.1 hstep.2, hstep.2⟩) inputs hok
  obtain ⟨h, hfits⟩ := hinv
  have hpending : joint.pending = [] := by
    unfold Joint.pending
    rw [hunread]
    rfl
  refine ⟨?_, fun e epoch hlookup => (h.registered e epoch hlookup).2, h.staged hpending, ?_⟩
  · rw [getActiveEpoch_eq]
    exact h.active
  · intro m hm
    have hcurrent := h.next m hm
    refine ⟨hcurrent, hcurrent ▸ h.active_lt hfits, fun e he env groupId signatureId henv => ?_⟩
    refine stageEpoch_late externals deployment ?_
    rw [henv, BitVec.toNat_ofNat]
    refine (Nat.mod_le _ _).trans (le_trans (min_le_left _ _) ?_)
    exact (lt_nextNumber_iff hfits e).mp (hcurrent ▸ he)

/-! ### Two participants at genesis -/

/-- A call of one of the two participants, with what the validator reads of it. -/
def duoCall (sender : Address) (call : Contracts.FROSTCoordinator.Call) : List Joint.Input :=
  [.chain sender 0 1 (.coordinator (.keyGen call)), .read, .read]

/-- The two generate the genesis key, and a block of the second epoch is the first one after it. -/
def duoJoint : List Joint.Input :=
  [.newBlock 1] ++ duoCall 1 (.keyGenAndCommit 67 2 2 0 [2] duoFirst.commitment) ++
    [.resume (.setup duoGid duoFirst)] ++
    duoCall 2 (.keyGenAndCommit 67 2 2 0 [1] duoSecond.commitment) ++
    duoCall 1 (.keyGenSecretShare duoGid (duoShare 5 [3 ^^^ duoKey])) ++
    duoCall 2 (.keyGenSecretShare duoGid (duoShare 7 [3 ^^^ duoKey])) ++ [.newBlock 150] ++
    duoCall 1 (.keyGenConfirm duoGid) ++ duoCall 2 (.keyGenConfirm duoGid)

theorem duoJoint_ends :
    let joint := final (Joint.step duoValidator duoExternals ⟨0xc0, 0xc1⟩) (Joint.start
      (Contracts.Consensus.deployed 0 (duoValidator.genesis.group duoValidator.externals.keccak256).id)) duoJoint
    joint.unread = [] ∧ joint.state.rollover.nextEpoch = some (.number 2) := by
  decide +kernel

theorem duoJoint_quiet : ∀ x ∈ trace (Joint.step duoValidator duoExternals ⟨0xc0, 0xc1⟩) (Joint.start
      (Contracts.Consensus.deployed 0 (duoValidator.genesis.group duoValidator.externals.keccak256).id)) duoJoint,
    (x.pre.unread.all fun event => event.staging.isNone) = true ∧ x.post.world.number ≤ 150 := by
  decide +kernel

theorem duo_clocks_agree :
    let joint := final (Joint.step duoValidator duoExternals ⟨0xc0, 0xc1⟩) (Joint.start
      (Contracts.Consensus.deployed 0 (duoValidator.genesis.group duoValidator.externals.keccak256).id)) duoJoint
    (Contracts.Consensus.getActiveEpoch joint.world.consensus joint.world.number).1.toNat =
        joint.state.activeEpoch.rawValue ∧
      (2 : ℕ+) = nextNumber joint.world.number duoValidator.config.blocksPerEpoch := by
  have hfits : ∀ number ≤ 150, Fits duoValidator number := by
    intro number hle
    show (number / 100 + 1) * 100 < 2 ^ 64
    omega
  have hagree := epoch_clocks_agree duoValidator duoExternals ⟨0xc0, 0xc1⟩ 0 duoJoint
    (hfits 0 (Nat.zero_le _)) (fun x hx => ⟨?_, hfits _ (duoJoint_quiet x hx).2⟩) duoJoint_ends.1
  · dsimp only
    exact ⟨hagree.1, (hagree.2.2.2 2 duoJoint_ends.2).1⟩
  · intro event unread staging _ hunread hstaging
    have hnone := List.all_eq_true.mp (duoJoint_quiet x hx).1 event (by rw [hunread]; simp)
    rw [hstaging] at hnone
    cases hnone

end Safenet.Validator
