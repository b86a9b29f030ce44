/-
Several validators that follow the same chain.

A block or an event reaches all of them in the same order; what an effect handler answers reaches
its own validator only, at any point between.
-/
import Safenet.Lib.Trace
import Safenet.Validator.Transition

namespace Safenet.Validator

open Trace

/-- The validator with another account and the same configuration. -/
def Transition.withAccount (t : Transition) (a : Address) : Transition := { t with account := a }

/-- What happens next: a block or an event reaches every validator, a resume only its own. -/
inductive NetInput where
  | newBlock (number : Nat)
  | event (log : Core.EventLog Event)
  | resume (a : Address) (result : Resume)

/-- The message that a validator receives. -/
def NetInput.messageTo (a : Address) : NetInput → Option Message
  | .newBlock number => some (.newBlock number)
  | .event log => some (.event log)
  | .resume a' result => if a' = a then some (.resume result) else none

/-- The messages that a validator receives. -/
def view (a : Address) (inputs : List NetInput) : List Message := inputs.filterMap (NetInput.messageTo a)

/-- The state of a validator. -/
def stateOf (t : Transition) (inputs : List NetInput) (a : Address) : State :=
  final (t.withAccount a).applyTransition State.default (view a inputs)

/-- The commands that a validator answers a further input with. -/
def commandsOf (t : Transition) (inputs : List NetInput) (input : NetInput) (a : Address) : List Command :=
  match input.messageTo a with
  | some message => ((t.withAccount a).applyTransition (stateOf t inputs a) message).2
  | none => []

theorem stateOf_concat (t : Transition) (inputs : List NetInput) (input : NetInput) (a : Address) :
    stateOf t (inputs ++ [input]) a =
      match input.messageTo a with
      | some message => ((t.withAccount a).applyTransition (stateOf t inputs a) message).1
      | none => stateOf t inputs a := by
  unfold stateOf view
  rw [List.filterMap_append]
  cases h : input.messageTo a with
  | none => simp [h]
  | some message =>
      rw [List.filterMap_cons_some h, List.filterMap_nil, final_concat]

end Safenet.Validator
