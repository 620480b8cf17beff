/-
  What a running script can reach outside itself.

  A `Context` gives meaning to everything in a script that is not pure computation: names,
  registers and functions.  It is a record of functions over a state `σ` of its own choosing, so
  that the evaluator and the handlers can be used, tested and reasoned about with any of them.
-/
import ActorScript.Action
import ActorScript.Register
import ActorScript.Value

namespace ActorScript

/-- What a handler does after a function that it called as a statement. -/
inductive Reply
  /-- Goes on with the next statement. -/
  | proceed
  /-- Stays at the call until a timer of this many milliseconds has run out. -/
  | wait (milliseconds : UInt64)
  /-- Goes on with the next statement, but lets the state of the actor be chosen anew first. -/
  | reselect
deriving DecidableEq, Repr, Inhabited

/-- A place in a handler: a block and the index of a statement in it. -/
structure Position where
  block : Nat
  index : Nat
deriving DecidableEq, Repr, Inhabited

/-- The surroundings of a script, over a state `σ`. -/
structure Context (σ : Type) where
  /-- The value of a name, if it is a constant. -/
  constant : String → σ → Option Value
  /-- Reads a register, or a name that is no constant.  A read never fails; where there is
      nothing to read it gives `absent`. -/
  read : Reference → σ → Value × σ
  /-- Calls a function inside an expression. -/
  callValue : String → List Value → Action σ Value
  /-- Calls a function as a statement. -/
  callFunction : String → List Value → Action σ Reply
  /-- Assigns a value. -/
  write : Reference → Value → Action σ Unit
  /-- Takes note of a statement that is about to be executed.  A context that does not care
      leaves its state alone. -/
  observe : Position → σ → σ := fun _ s => s

namespace Context

variable {σ : Type}

/-- A read as an action. -/
def fetch (ctx : Context σ) (r : Reference) : Action σ Value := fun s =>
  (.ok (ctx.read r s).1, (ctx.read r s).2)

/-- The value of a name: that of the constant, or else what a read gives. -/
def lookup (ctx : Context σ) (name : String) : Action σ Value := fun s =>
  match ctx.constant name s with
  | some v => (.ok v, s)
  | none => ctx.fetch (.symbol name) s

end Context

end ActorScript
