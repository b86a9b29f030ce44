/-
The contracts and a validator that reads their events.

The order of what the validator sees is that of its watcher: a block is announced before its events, and
the events of a call come one after the other, before those of the next call.  What its effects answer can
come at any point between them, and so can the verdict of an oracle.  The contracts are taken along as the
validator reads: a call is made when its first event is about to be read.
-/
import Safenet.Contracts.Consensus
import Safenet.Validator.Transition

namespace Safenet.Validator

/-- An event of the coordinator as the validator reads it. -/
def readEvent : Contracts.Coordinator.Event → Event
  | .keyGen (.keyGen gid _ _ _ _) => .keyGen gid
  | .keyGen (.keyGenCommitted gid participant commitment _) => .keyGenCommitted gid participant commitment
  | .keyGen (.keyGenSecretShared gid participant share _) => .keyGenSecretShared gid participant share
  | .keyGen (.keyGenConfirmed gid participant _) => .keyGenConfirmed gid participant
  | .keyGen (.keyGenComplained gid plaintiff accused _) => .keyGenComplained gid plaintiff accused
  | .keyGen (.keyGenComplaintResponded gid plaintiff accused secretShare) =>
      .keyGenComplaintResponded gid plaintiff accused secretShare
  | .sign _ gid message sid _ => .sign gid message sid
  | .signCommittedNonces sid participant nonces => .signCommittedNonces sid participant nonces
  | .signShared sid selectionRoot participant _ => .signShared sid selectionRoot participant
  | .signCompleted sid _ _ => .signCompleted sid

/-- An event of either contract as the validator reads it. -/
def readWorld : Contracts.Consensus.Event → Event
  | .epochStaged _ proposedEpoch _ groupId _ signatureId _ =>
      .epochStaged proposedEpoch.toNat groupId signatureId
  | .transactionProposed _ _ oracle epoch oracleData transaction =>
      .transactionProposed oracle epoch.toNat oracleData transaction
  | .transactionAttested safeTxHash _ oracle epoch oracleDataHash signatureId _ =>
      .transactionAttested safeTxHash oracle epoch.toNat oracleDataHash signatureId
  | .coordinator event => readEvent event
  | .validatorStakerSet _ _ => .other
  | .epochProposed _ _ _ _ _ => .other
  | .epochRolledOver _ => .other

/-- The contract that emitted an event. -/
def emitter (deployment : Contracts.Consensus.Deployment) : Contracts.Consensus.Event → Address
  | .coordinator _ => deployment.coordinator
  | _ => deployment.this

/-- The contracts, as far as the validator has read, and the validator. -/
structure Joint where
  world : Contracts.Consensus.World
  /-- The events of the last call that are still to be read. -/
  unread : List Contracts.Consensus.Event
  state : State

namespace Joint

/-- What happens next. -/
inductive Input where
  | newBlock (number : Nat)
  /-- A call in the block that was announced last. -/
  | chain (sender : Address) (timestamp : Nat) (chainId : B256) (call : Contracts.Consensus.Call)
  /-- The next event of the last call is read. -/
  | read
  /-- An event of an oracle. -/
  | oracleResult (oracle : Address) (requestId : B256) (approved : Bool)
  | resume (result : Resume)

def start (world : Contracts.Consensus.World) : Joint := ⟨world, [], .default⟩

variable (t : Transition) (externals : Contracts.Coordinator.Externals)
  (deployment : Contracts.Consensus.Deployment)

/-- The validator is told. -/
def deliver (joint : Joint) (message : Message) : Joint × List Command :=
  let next := t.applyTransition joint.state message
  ({ joint with state := next.1 }, next.2)

/-- The validator reads an event.  Its place in the block is never looked at. -/
def deliverEvent (joint : Joint) (address : Address) (event : Event) : Joint × List Command :=
  deliver t joint (.event ⟨⟨joint.world.number, 0⟩, 0, address, event⟩)

/-- One step; what is out of order does nothing. -/
def step (joint : Joint) : Input → Joint × List Command
  | .newBlock number =>
      if joint.unread = [] ∧ joint.world.number < number then
        deliver t { joint with world := { joint.world with number } } (.newBlock number)
      else (joint, [])
  | .chain sender timestamp chainId call =>
      if joint.unread = [] then
        let next := Contracts.Consensus.step externals deployment joint.world
          ⟨0, sender, timestamp, chainId, call⟩
        ({ joint with world := next.1, unread := next.2.toOption.getD [] }, [])
      else (joint, [])
  | .read =>
      match joint.unread with
      | [] => (joint, [])
      | event :: unread => deliverEvent t { joint with unread } (emitter deployment event) (readWorld event)
  | .oracleResult oracle requestId approved =>
      deliverEvent t joint oracle (.oracleResult requestId approved)
  | .resume result => deliver t joint (.resume result)

end Joint

end Safenet.Validator
