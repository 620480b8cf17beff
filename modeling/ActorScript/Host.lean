/-
  What an actor's script can reach outside the actor's own variables.

  A `Host` supplies the functions that scripts call and two kinds of storage: the actor's
  parameters and the save store.  Like a context it is a record over a state of its own choosing.
-/
import ActorScript.Context
import ActorScript.Event

namespace ActorScript

/-- A place where a host stores a value. -/
inductive Slot
  /-- A parameter of the actor. -/
  | parameter (key : String)
  /-- An entry of the save store. -/
  | saved (key : String)
deriving DecidableEq, Repr, Inhabited

/-- A statement that is about to be executed: by the handler of which event, of which state, at
    which position, and how many switches of state there had been before. -/
structure Step where
  generation : Nat
  state : Option Nat
  event : Event
  position : Position
deriving DecidableEq, Repr

/-- The surroundings of an actor's script, over a state `σ`. -/
structure Host (σ : Type) where
  /-- Calls a function as a statement. -/
  callFunction : String → List Value → Action σ Reply
  /-- Calls a function inside an expression. -/
  callValue : String → List Value → Action σ Value
  /-- What is stored in a slot; `absent` if nothing is. -/
  read : Slot → σ → Value
  /-- Stores a value. -/
  write : Slot → Value → Action σ Unit
  /-- Takes note of a statement that is about to be executed.  A host that does not care leaves
      its state alone. -/
  observe : Step → σ → σ := fun _ s => s

end ActorScript
