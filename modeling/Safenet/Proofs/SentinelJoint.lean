/-
What a sentinel and the oracle do to one request.

The oracle can be one event ahead of the sentinel: the last reveal and the finalization it triggers are
one call with two events.  `Behind` is the record of the request when its last event was read, and
`Hears` what a message tells about that record.  `behind_step` says that every step tells one thing, so
that what is known of a record is carried along message by message.
-/
import Safenet.Proofs.RequestLifecycle
import Safenet.Proofs.SentinelRequests
import Safenet.Sentinel.Joint

namespace Safenet.Sentinel

open Contracts
open Contracts.SentinelOracle (Call Deployment Event Record Turn Turned World about)

/-! ### The events as they are read -/

/-- The events about a request. -/
def heardOf (r : B256) (events : List SentinelOracleEvents) : List SentinelOracleEvents :=
  events.filter fun event => event.requestId = r

namespace SentinelOracleEvents

variable {r : B256}

theorem decode_requestId (e : Event) : (decode e).map requestId = e.requestId? := by
  cases e <;> rfl

theorem decode_turn {keccak256 : Keccak} {env : Env} {asked : Call} {q q' : Record} {e : Event}
    (h : Turn keccak256 env asked r q e q') : ∃ event, decode e = some event ∧ event.requestId = r := by
  cases h <;> exact ⟨_, rfl, rfl⟩

theorem heardOf_decode (events : List Event) :
    heardOf r (events.filterMap decode) = (about r events).filterMap decode := by
  induction events with
  | nil => rfl
  | cons e events ih =>
      have hid := decode_requestId e
      cases hdecode : decode e with
      | none =>
          rw [hdecode] at hid
          have habout : about r (e :: events) = about r events := by
            simp [about, ← hid]
          rw [List.filterMap_cons_none hdecode, habout, ih]
      | some event =>
          rw [hdecode] at hid
          rw [List.filterMap_cons_some hdecode]
          by_cases h : event.requestId = r
          · have habout : about r (e :: events) = e :: about r events := by
              simp [about, ← hid, h]
            rw [habout, List.filterMap_cons_some hdecode, ← ih]
            simp [heardOf, h]
          · have habout : about r (e :: events) = about r events := by
              simp [about, ← hid, h]
            rw [habout, ← ih]
            simp [heardOf, h]

end SentinelOracleEvents

open SentinelOracleEvents (decode decode_turn heardOf_decode)

/-- The event of the oracle in a message. -/
def oracleEvent? : Message → Option SentinelOracleEvents
  | .event log =>
      match log.data with
      | .oracle event => some event
      | .consensus _ => none
  | _ => none

/-! ### The record at this point of the events -/

/-- The record of the request when its last event was read. -/
inductive Behind (keccak256 : Keccak) (r : B256) (joint : Joint) : Record → Prop
  | level (h : heardOf r joint.unread = []) : Behind keccak256 r joint (joint.world.oracle.record r)
  /-- The finalization after the last reveal is still to be read. -/
  | late {point : Record} {env : Env} {asked : Call} {e : Event} {event : SentinelOracleEvents}
      (turn : Turn keccak256 env asked r point e (joint.world.oracle.record r))
      (number : env.number = joint.number) (decoded : decode e = some event)
      (unread : heardOf r joint.unread = [event])
      (kept : (joint.world.oracle.record r).commitments = point.commitments) :
      Behind keccak256 r joint point

/-- What a message tells about the record of the request. -/
inductive Hears (keccak256 : Keccak) (r : B256) : Message → Nat → Record → Nat → Record → Prop
  | block {number number' : Nat} {point : Record} (later : number < number') :
      Hears keccak256 r (.newBlock number') number point number' point
  | turn {log : Core.EventLog SentinelEvents} {point point' : Record} {env : Env} {asked : Call}
      {e : Event} {event : SentinelOracleEvents} (turn : Turn keccak256 env asked r point e point')
      (decoded : decode e = some event) (data : log.data = .oracle event) :
      Hears keccak256 r (.event log) env.number point env.number point'
  | other {log : Core.EventLog SentinelEvents} {number : Nat} {point : Record}
      {event : SentinelOracleEvents} (data : log.data = .oracle event) (h : event.requestId ≠ r) :
      Hears keccak256 r (.event log) number point number point
  | proposed {log : Core.EventLog SentinelEvents} {number : Nat} {point : Record}
      {event : TransactionProposed} (data : log.data = .consensus event) :
      Hears keccak256 r (.event log) number point number point
  | resume {result : Resume} {number : Nat} {point : Record} :
      Hears keccak256 r (.resume result) number point number point

/-- What one step is for the request. -/
inductive Passes (keccak256 : Keccak) (t : SentinelTransition) (r : B256) (number : Nat) (state : State)
    (point : Record) : Joint × Answer → Record → Prop
  | quiet {next : Joint × Answer} (answer_eq : next.2 = ⟨none, []⟩) (number_eq : next.1.number = number)
      (state_eq : next.1.state = state) : Passes keccak256 t r number state point next point
  | told {next : Joint × Answer} {point' : Record} {message : Message}
      (message_eq : next.2.message = some message)
      (hears : Hears keccak256 r message number point next.1.number point')
      (request : (next.1.state.lookup r, acts r next.2.commands) =
        t.requestStep keccak256 r (state.lookup r) message) :
      Passes keccak256 t r number state point next point'

section Steps

variable {keccak256 : Keccak} {t : SentinelTransition} {r : B256} {joint : Joint} {point : Record}

/-- A step that reads nothing about the request and leaves its record alone. -/
theorem Behind.keep (h : Behind keccak256 r joint point) {next : Joint}
    (hnumber : next.number = joint.number)
    (hrecord : next.world.oracle.record r = joint.world.oracle.record r)
    (hunread : heardOf r next.unread = heardOf r joint.unread) : Behind keccak256 r next point := by
  cases h with
  | level h =>
      rw [← hrecord]
      exact .level (hunread.trans h)
  | late turn number decoded unread kept =>
      rw [← hrecord] at turn kept
      exact .late turn (number.trans hnumber.symm) decoded (hunread.trans unread) kept

/-- Between two calls the sentinel has read everything. -/
theorem Behind.read (h : Behind keccak256 r joint point) (hunread : joint.unread = []) :
    point = joint.world.oracle.record r := by
  cases h with
  | level => rfl
  | late _ _ _ unread =>
      rw [hunread] at unread
      cases unread

private theorem passes_deliver {message : Message} {number : Nat} {state : State} {point' : Record}
    (hstate : joint.state = state)
    (hears : Hears keccak256 r message number point joint.number point') :
    Passes keccak256 t r number state point (joint.deliver keccak256 t message) point' := by
  subst hstate
  exact .told rfl hears (SentinelTransition.applyTransition_request joint.state message)

private theorem heardOf_cons_self {event : SentinelOracleEvents} {events : List SentinelOracleEvents}
    (h : event.requestId = r) : heardOf r (event :: events) = event :: heardOf r events :=
  List.filter_cons_of_pos (by simpa using h)

private theorem heardOf_cons_of_ne {event : SentinelOracleEvents} {events : List SentinelOracleEvents}
    (h : event.requestId ≠ r) : heardOf r (event :: events) = heardOf r events :=
  List.filter_cons_of_neg (by simpa using h)

/-- The sentinel reads on. -/
private theorem readNext_behind (h : Behind keccak256 r joint point) :
    ∃ point', Behind keccak256 r (joint.readNext keccak256 t).1 point' ∧
      Passes keccak256 t r joint.number joint.state point (joint.readNext keccak256 t) point' := by
  cases hunread : joint.unread with
  | nil =>
      have hnext : joint.readNext keccak256 t = (joint, ⟨none, []⟩) := by
        rw [Joint.readNext, hunread]
      rw [hnext]
      exact ⟨point, h, .quiet rfl rfl rfl⟩
  | cons event unread =>
      have hnext : joint.readNext keccak256 t = ({ joint with unread } : Joint).deliver keccak256 t
          (.event ⟨⟨joint.number, 0⟩, 0, t.oracle, .oracle event⟩) := by
        rw [Joint.readNext, hunread]
        rfl
      rw [hnext]
      by_cases hr : event.requestId = r
      · have hheard : heardOf r joint.unread = event :: heardOf r unread := by
          rw [hunread]
          exact heardOf_cons_self hr
        cases h with
        | level h => exact absurd (hheard.symm.trans h) (List.cons_ne_nil _ _)
        | late turn number decoded hlate kept =>
            obtain ⟨rfl, hrest⟩ := List.cons.inj (hheard.symm.trans hlate)
            refine ⟨_, .level hrest, passes_deliver rfl ?_⟩
            show Hears keccak256 r _ joint.number point joint.number _
            rw [← number]
            exact .turn turn decoded rfl
      · have hheard : heardOf r joint.unread = heardOf r unread := by
          rw [hunread]
          exact heardOf_cons_of_ne hr
        exact ⟨point, h.keep rfl rfl hheard.symm, passes_deliver rfl (.other rfl hr)⟩

variable {deployment : Deployment} {world' : World} {events : List Event} {env : Env} {asked : Call}

private theorem turned_nil {q q' : Record} (h : Turned keccak256 env asked r q [] q') : q' = q := by
  cases h
  rfl

/-- The first event of a call, and what follows it. -/
private theorem turned_first {q q' : Record} (h : Turned keccak256 env asked r q events q')
    (hne : events ≠ []) :
    ∃ e q₁, Turn keccak256 env asked r q e q₁ ∧
      ((events = [e] ∧ q' = q₁) ∨
        ∃ e', events = [e, e'] ∧ Turn keccak256 env asked r q₁ e' q' ∧
          q'.commitments = q₁.commitments) := by
  cases h with
  | none => exact absurd rfl hne
  | one turn => exact ⟨_, _, turn, .inl ⟨rfl, rfl⟩⟩
  | revealFinalize turn quiet turn' kept => exact ⟨_, _, turn, .inr ⟨_, rfl, turn', kept⟩⟩

/-- A call about the request is about no other. -/
private theorem heardOf_call
    (hok : SentinelOracle.call keccak256 deployment env joint.world asked = .ok (world', events))
    (habout : about r events ≠ []) :
    events.filterMap decode = (about r events).filterMap decode := by
  obtain ⟨q, hframe⟩ := SentinelOracle.call_about hok
  have hr : r = q := by
    by_contra hne
    exact habout (hframe r hne)
  rw [← heardOf_decode, heardOf, List.filter_eq_self.mpr]
  intro event hevent
  by_contra hne
  have hother : about event.requestId events = [] := hframe _ (by simpa [hr] using hne)
  have hheard : event ∈ heardOf event.requestId (events.filterMap decode) :=
    List.mem_filter.mpr ⟨hevent, by simp⟩
  rw [heardOf_decode, hother] at hheard
  cases hheard

/-- A call is made, and its first event is read. -/
private theorem call_behind (h : Behind keccak256 r joint point) (hunread : joint.unread = [])
    (hnumber : env.number = joint.number)
    (hok : SentinelOracle.call keccak256 deployment env joint.world asked = .ok (world', events)) :
    let next := ({ joint with world := world', unread := events.filterMap decode } : Joint).readNext
      keccak256 t
    ∃ point', Behind keccak256 r next.1 point' ∧
      Passes keccak256 t r joint.number joint.state point next point' := by
  intro next
  obtain rfl := h.read hunread
  have hturned := SentinelOracle.call_turned hok r
  by_cases hnone : about r events = []
  · -- the call is about another request
    rw [hnone] at hturned
    have hlevel : Behind keccak256 r
        ({ joint with world := world', unread := events.filterMap decode } : Joint)
        (joint.world.oracle.record r) := by
      rw [← turned_nil hturned]
      refine .level ?_
      rw [heardOf_decode, hnone]
      rfl
    exact readNext_behind hlevel
  · have hread : next = ({ joint with world := world', unread := (about r events).filterMap decode } :
        Joint).readNext keccak256 t := by
      rw [← heardOf_call hok hnone]
    rw [hread]
    obtain ⟨e, q₁, turn, hrest⟩ := turned_first hturned hnone
    obtain ⟨event, hdecode, -⟩ := decode_turn turn
    obtain ⟨hone, rfl⟩ | ⟨e', htwo, turn', kept⟩ := hrest
    · rw [hone, List.filterMap_cons_some hdecode]
      refine ⟨_, .level rfl, passes_deliver rfl ?_⟩
      show Hears keccak256 r _ joint.number _ joint.number _
      rw [← hnumber]
      exact .turn turn hdecode rfl
    · obtain ⟨event', hdecode', hown⟩ := decode_turn turn'
      rw [htwo, List.filterMap_cons_some hdecode, List.filterMap_cons_some hdecode']
      refine ⟨_, .late turn' hnumber hdecode' (heardOf_cons_self hown) kept, passes_deliver rfl ?_⟩
      show Hears keccak256 r _ joint.number _ joint.number _
      rw [← hnumber]
      exact .turn turn hdecode rfl

/-- **Every step tells the sentinel one thing about the request.** -/
theorem behind_step (h : Behind keccak256 r joint point) (input : Joint.Input deployment) :
    ∃ point', Behind keccak256 r (joint.step keccak256 t input).1 point' ∧
      Passes keccak256 t r joint.number joint.state point (joint.step keccak256 t input) point' := by
  cases input with
  | newBlock number =>
      simp only [Joint.step]
      split_ifs with hnext
      · obtain rfl := h.read hnext.1
        refine ⟨_, .level ?_, passes_deliver rfl (.block hnext.2)⟩
        show heardOf r joint.unread = []
        rw [hnext.1]
        rfl
      · exact ⟨point, h, .quiet rfl rfl rfl⟩
  | chain input =>
      simp only [Joint.step]
      split_ifs with hnext
      · cases input with
        | call env asked =>
            have hnumber : env.number = joint.number := by simpa [Joint.mined] using hnext.2
            cases hcall : SentinelOracle.call keccak256 deployment env joint.world asked with
            | error e =>
                have hstep : SentinelOracle.step keccak256 deployment joint.world (.call env asked) =
                    (joint.world, .error e) := by
                  simp [SentinelOracle.step, hcall, transact]
                rw [hstep]
                exact readNext_behind (h.keep rfl rfl (by rw [hnext.1]; rfl))
            | ok result =>
                have hstep : SentinelOracle.step keccak256 deployment joint.world (.call env asked) =
                    (result.1, .ok result.2) := by
                  simp [SentinelOracle.step, hcall, transact]
                rw [hstep]
                exact call_behind h hnext.1 hnumber hcall
        | token sender c =>
            obtain ⟨hworld, hevents⟩ :
                (SentinelOracle.step keccak256 deployment joint.world (.token sender c)).1.oracle =
                    joint.world.oracle ∧
                  (SentinelOracle.step keccak256 deployment joint.world (.token sender c)).2.toOption.getD []
                    = [] := by
              cases htoken : ERC20.call joint.world.token sender c with
              | error e => simp [SentinelOracle.step, htoken, transact, Except.map, Except.toOption]
              | ok token => simp [SentinelOracle.step, htoken, transact, Except.map, Except.toOption]
            rw [hevents]
            refine readNext_behind (h.keep rfl ?_ (by rw [hnext.1]; rfl))
            rw [hworld]
      · exact ⟨point, h, .quiet rfl rfl rfl⟩
  | read => exact readNext_behind h
  | proposed timestamp event =>
      exact ⟨point, h.keep rfl rfl rfl, passes_deliver rfl (.proposed rfl)⟩
  | resume requestId outcome =>
      exact ⟨point, h.keep rfl rfl rfl, passes_deliver rfl .resume⟩

private theorem readNext_message {block : Nat} :
    (joint.readNext keccak256 t).2.message ≠ some (.newBlock block) := by
  unfold Joint.readNext
  cases joint.unread with
  | nil => exact fun h => by cases h
  | cons event unread => exact fun h => by cases h

/-- A block is announced when everything is read. -/
theorem Behind.announced (h : Behind keccak256 r joint point) {input : Joint.Input deployment} {block : Nat}
    (hblock : (joint.step keccak256 t input).2.message = some (.newBlock block)) :
    point = joint.world.oracle.record r := by
  cases input with
  | newBlock number =>
      simp only [Joint.step] at hblock
      split_ifs at hblock with hnext
      exact h.read hnext.1
  | chain input =>
      simp only [Joint.step] at hblock
      split_ifs at hblock
      exact absurd hblock readNext_message
  | read => exact absurd hblock readNext_message
  | proposed => cases hblock
  | resume => cases hblock

/-- A request that exists is stored. -/
theorem Behind.stored (h : Behind keccak256 r joint point)
    (hstate : (joint.world.oracle.requests r).progress.state = .none) :
    point = joint.world.oracle.record r := by
  cases h with
  | level => rfl
  | late turn =>
      have hrecord : (joint.world.oracle.record r).request.progress.state = .none := hstate
      generalize joint.world.oracle.record r = q at turn hrecord
      cases turn with
      | settle side => exact absurd hrecord (SentinelOracleRequest.sideState_ne side).1
      | rule side => exact absurd hrecord (SentinelOracleRequest.sideState_ne side).1
      | commit _ _ pending => exact absurd (pending.symm.trans hrecord) (by decide)
      | reveal _ _ _ _ pending => exact absurd (pending.symm.trans hrecord) (by decide)
      | @claim q c _ _ resolved =>
          have hnone : q.progress.state = .none := hrecord
          rw [hnone] at resolved
          cases resolved
      | _ => cases hrecord

end Steps

/-- Nothing was ever stored for the request when the oracle starts. -/
theorem behind_start {keccak256 : Keccak} {r : B256} {this : Address} {deployment : Deployment}
    {params : SentinelOracle.ConstructorParams} {s : SentinelOracle.State} {number : Nat} {token : ERC20.T}
    (hdeploy : SentinelOracle.deploy this params = .ok (deployment, s)) :
    Behind keccak256 r (Joint.start number ⟨s, token⟩)
      ⟨SentinelOracleRequest.empty, fun _ => SentinelOracleCommitment.empty⟩ := by
  rw [← SentinelOracle.deploy_record hdeploy r]
  exact .level rfl

end Safenet.Sentinel
