/-
The effect tasks of `core/src/effects.rs`.

When a task runs and what it samples is not up to the manager, nor is the order in which tasks finish.
A task that panics is skipped; by then it may have worked on the handler or not.  What the handler
keeps outlives the process, the tasks do not.
-/
import Safenet.Core.Index

namespace Safenet.Core

/-- Performs effects on what a handler keeps. -/
structure EffectHandler (Handler Effect Resume Sampled : Type) where
  performEffect : Sampled → Handler → Effect → Handler × Resume
  housekeeping : BlockStatus → Handler → Handler

/-- An effect that was spawned and has not resumed the state machine so far. -/
inductive EffectTask (Effect Resume : Type) where
  | running (effect : Effect)
  | finished (resume : Resume)
deriving DecidableEq, Repr

/-- The handler and the set of its tasks. -/
structure EffectManager (Handler Effect Resume : Type) where
  handler : Handler
  tasks : List (EffectTask Effect Resume)
deriving DecidableEq

namespace EffectManager

variable {Handler Effect Resume Sampled : Type} (effects : EffectHandler Handler Effect Resume Sampled)

def new (handler : Handler) : EffectManager Handler Effect Resume := ⟨handler, []⟩

def spawn (manager : EffectManager Handler Effect Resume) (effect : Effect) :
    EffectManager Handler Effect Resume :=
  { manager with tasks := manager.tasks ++ [.running effect] }

/-- A task runs. -/
def perform (manager : EffectManager Handler Effect Resume) (index : Nat) (sampled : Sampled) :
    EffectManager Handler Effect Resume × Option (Effect × Resume) :=
  match manager.tasks[index]? with
  | some (.running effect) =>
      let result := effects.performEffect sampled manager.handler effect
      ({ handler := result.1, tasks := manager.tasks.set index (.finished result.2) },
        some (effect, result.2))
  | _ => (manager, none)

/-- A task panics, and is skipped. -/
def fail (manager : EffectManager Handler Effect Resume) (index : Nat) :
    EffectManager Handler Effect Resume :=
  { manager with tasks := manager.tasks.eraseIdx index }

/-- The result of a finished task. -/
def next (manager : EffectManager Handler Effect Resume) (index : Nat) :
    Option (Resume × EffectManager Handler Effect Resume) :=
  match manager.tasks[index]? with
  | some (.finished resume) => some (resume, { manager with tasks := manager.tasks.eraseIdx index })
  | _ => none

def housekeeping (manager : EffectManager Handler Effect Resume) (status : BlockStatus) :
    EffectManager Handler Effect Resume :=
  { manager with handler := effects.housekeeping status manager.handler }

end EffectManager

end Safenet.Core
