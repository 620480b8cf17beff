/-
  What a single statement does.

  `Statement.perform` evaluates the expressions of a statement and carries out its effect in a
  context.  It does not know where the statement stands: where to go on is its result, an
  `Effect`, and up to whoever runs the block.
-/
import ActorScript.Script
import ActorScript.Expr.Eval

namespace ActorScript

/-- How to go on after a statement. -/
inductive Effect
  /-- With the next statement. -/
  | next
  /-- With the statements of a block, if there is one, and then with the next statement. -/
  | enter (block : Option BlockId)
  /-- Not before a timer of this many milliseconds has run out. -/
  | wait (milliseconds : UInt64)
  /-- With the next statement, once the state of the actor has been chosen anew. -/
  | reselect
deriving DecidableEq, Repr, Inhabited

/-- How a caller goes on after a function's reply. -/
def Effect.ofReply : Reply → Effect
  | .proceed => .next
  | .wait ms => .wait ms
  | .reselect => .reselect

namespace Statement

/-- Carries out a statement.  Every assignment may change which state is the right one, so it
    asks for a new choice. -/
def perform {σ : Type} (ctx : Context σ) : Statement → Action σ Effect
  | .ifElse condition thenBlock elseBlock _ => do
    let v ← condition.eval ctx
    return .enter (if v.truthy then some thenBlock else elseBlock)
  | .call f args _ => do
    let vs ← Expr.evalList ctx args
    let reply ← ctx.callFunction f vs
    return .ofReply reply
  | .assign target value _ => do
    let v ← value.eval ctx
    ctx.write target v
    return .reselect

end Statement

end ActorScript
