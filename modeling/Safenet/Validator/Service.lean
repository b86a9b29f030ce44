/-
The validator as a service: the transition function, the effect handler and the secret store, as the
driver of `core/src/driver.rs` runs them.

When an effect task finishes, and what uncles and restarts do to the state, is an input.  A task that was
spawned is performed at any later time, and again if the block that asked for it is replayed; what it
answers is delivered at most once, at any later time or never.  The state can go back to any one that it
was in, while the secret store is never rolled back.
-/
import Safenet.Validator.SecretStore

namespace Safenet.Validator

structure Node where
  state : State
  /-- The states to which uncles and restarts lead back. -/
  reached : List State
  store : SecretStore
  /-- The effects that were asked for. -/
  spawned : List Effect
  /-- The answers that were not delivered so far. -/
  finished : List Resume

namespace Node

def default : Node where
  state := .default
  reached := [.default]
  store := .empty
  spawned := []
  finished := []

inductive Input where
  | newBlock (number : Nat)
  | event (log : Core.EventLog Event)
  /-- An effect task runs, with what it samples. -/
  | perform (index : Nat) (sampled : Sampled)
  /-- The driver takes the answer of a finished task. -/
  | deliver (index : Nat)
  | housekeeping (safe : Nat)
  /-- An uncle or a restart. -/
  | restore (index : Nat)

inductive Output where
  | commands (commands : List Command)
  | answered (effect : Effect) (result : Resume)
  | resumed (result : Resume) (commands : List Command)
  | idle

/-- The effects among the commands. -/
def effects (commands : List Command) : List Effect :=
  commands.filterMap fun
    | .effect effect => some effect
    | .action _ => none

section Step

variable (t : Transition)

/-- The state machine takes a message, and the effects it asks for are spawned. -/
def advance (node : Node) (message : Message) : Node × List Command :=
  let result := t.applyTransition node.state message
  ({ node with
      state := result.1
      reached := result.1 :: node.reached
      spawned := node.spawned ++ effects result.2 }, result.2)

def step (node : Node) : Input → Node × Output
  | .newBlock number =>
      let result := node.advance t (.newBlock number)
      (result.1, .commands result.2)
  | .event log =>
      let result := node.advance t (.event log)
      (result.1, .commands result.2)
  | .perform index sampled =>
      match node.spawned[index]? with
      | some effect =>
          let result := performEffect t.account sampled node.store effect
          ({ node with store := result.1, finished := node.finished ++ [result.2] },
            .answered effect result.2)
      | none => (node, .idle)
  | .deliver index =>
      match node.finished[index]? with
      | some answer =>
          let result := { node with finished := node.finished.eraseIdx index }.advance t (.resume answer)
          (result.1, .resumed answer result.2)
      | none => (node, .idle)
  | .housekeeping safe => ({ node with store := Validator.housekeeping safe node.store }, .idle)
  | .restore index =>
      match node.reached[index]? with
      | some state => ({ node with state }, .idle)
      | none => (node, .idle)

end Step

end Node

end Safenet.Validator
