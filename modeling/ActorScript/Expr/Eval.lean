/-
  The value of an expression in a context.

  Operands and arguments are evaluated from left to right, all of them: `&&` and `||` too look at
  both operands.  Only a conditional evaluates one branch and leaves out the other.
-/
import ActorScript.Expr.Operator
import ActorScript.Context

namespace ActorScript.Expr

variable {σ : Type}

mutual

/-- Evaluates an expression. -/
def eval (ctx : Context σ) : Expr → Action σ Value
  | .literal v => pure v
  | .symbol name => ctx.lookup name
  | .register r => ctx.fetch (.register r)
  | .call f args => do ctx.callValue f (← evalList ctx args)
  | .unary op e => do .lift (op.apply (← eval ctx e))
  | .binary op l r => do
    let left ← eval ctx l
    let right ← eval ctx r
    .lift (op.apply left right)
  | .ternary c t e => do
    let condition ← eval ctx c
    if condition.truthy then eval ctx t else eval ctx e

/-- Evaluates expressions from left to right, up to the first error. -/
def evalList (ctx : Context σ) : List Expr → Action σ (List Value)
  | [] => pure []
  | e :: es => do
    let v ← eval ctx e
    let vs ← evalList ctx es
    return v :: vs

end

end ActorScript.Expr
