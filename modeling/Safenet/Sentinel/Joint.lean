/-
The sentinel oracle and a sentinel that reads its events.

The order of what the sentinel sees is that of its watcher: a block is announced before its events, and
the events of a call come one after the other, before those of the next call.  The verdict of a check can
come at any point between them.  The oracle is taken along as the sentinel reads: a call is made when its
first event is read, so that the state of the oracle is the one at this point of the events.
-/
import Safenet.Contracts.SentinelOracle
import Safenet.Sentinel.Service

namespace Safenet.Sentinel

open Contracts (Keccak)

/-- An event of the oracle as `bindings.rs` decodes it; what the watcher has no signature of is dropped. -/
def SentinelOracleEvents.decode : Contracts.SentinelOracle.Event → Option SentinelOracleEvents
  | .newRequest requestId _ _ bondTarget _ slashAmount commitDeadline revealDeadline =>
      some (.newRequest requestId bondTarget slashAmount commitDeadline revealDeadline)
  | .committed requestId sentinel _ => some (.committed requestId sentinel)
  | .revealed requestId sentinel approved _ _ => some (.revealed requestId sentinel approved)
  | .disputeTriggered requestId deadline => some (.disputeTriggered requestId deadline)
  | .disputeResolved requestId _ _ _ => some (.disputeResolved requestId)
  | .requestTimedOut requestId => some (.requestTimedOut requestId)
  | .oracleResult requestId _ _ => some (.oracleResult requestId)
  | .arbitrationTimedOut requestId => some (.arbitrationTimedOut requestId)
  | .disputeOutOfScope requestId _ => some (.disputeOutOfScope requestId)
  | .claimed requestId _ _ _ => some (.claimed requestId)
  | _ => none

/-- The oracle, as far as the sentinel has read, and the sentinel. -/
structure Joint where
  /-- The block that was announced last. -/
  number : Nat
  world : Contracts.SentinelOracle.World
  /-- The events of the last call that are still to be read. -/
  unread : List SentinelOracleEvents
  state : State

/-- What the sentinel was told, and what it asks for. -/
structure Answer where
  message : Option Message
  commands : List Command
deriving DecidableEq

namespace Joint

/-- What happens next. -/
inductive Input (deployment : Contracts.SentinelOracle.Deployment) where
  | newBlock (number : Nat)
  /-- A call, the first event of which is read at once. -/
  | chain (input : Contracts.SentinelOracle.Input deployment)
  /-- The next event of the last call is read. -/
  | read
  | proposed (timestamp : Nat) (event : TransactionProposed)
  | resume (requestId : B256) (outcome : CheckOutcome)

def start (number : Nat) (world : Contracts.SentinelOracle.World) : Joint := ⟨number, world, [], .empty⟩

/-- The call is made in the block. -/
def mined {deployment : Contracts.SentinelOracle.Deployment} (number : Nat) :
    Contracts.SentinelOracle.Input deployment → Bool
  | .call env _ => env.number = number
  | .token .. => true

variable (keccak256 : Keccak) (t : SentinelTransition)

/-- The sentinel is told. -/
def deliver (joint : Joint) (message : Message) : Joint × Answer :=
  let next := t.applyTransition keccak256 joint.state message
  ({ joint with state := next.1 }, ⟨some message, next.2⟩)

/-- The sentinel reads an event.  Its place in the block is never looked at. -/
def deliverEvent (joint : Joint) (timestamp : Nat) (address : Address) (event : SentinelEvents) :
    Joint × Answer :=
  deliver keccak256 t joint (.event ⟨⟨joint.number, timestamp⟩, 0, address, event⟩)

/-- The sentinel reads the next event of the last call. -/
def readNext (joint : Joint) : Joint × Answer :=
  match joint.unread with
  | [] => (joint, ⟨none, []⟩)
  | event :: unread => deliverEvent keccak256 t { joint with unread } 0 t.oracle (.oracle event)

/-- One step; what is out of order does nothing. -/
def step {deployment : Contracts.SentinelOracle.Deployment} (joint : Joint) :
    Input deployment → Joint × Answer
  | .newBlock number =>
      if joint.unread = [] ∧ joint.number < number then
        deliver keccak256 t { joint with number } (.newBlock number)
      else (joint, ⟨none, []⟩)
  | .chain input =>
      if joint.unread = [] ∧ mined joint.number input = true then
        let next := Contracts.SentinelOracle.step keccak256 deployment joint.world input
        readNext keccak256 t
          { joint with
            world := next.1
            unread := (next.2.toOption.getD []).filterMap SentinelOracleEvents.decode }
      else (joint, ⟨none, []⟩)
  | .read => readNext keccak256 t joint
  | .proposed timestamp event =>
      deliverEvent keccak256 t joint timestamp t.consensus (.consensus event)
  | .resume requestId outcome =>
      deliver keccak256 t joint (.resume (.engineCheckResult requestId outcome))

end Joint

end Safenet.Sentinel
