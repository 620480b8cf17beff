/-
  The expressions of scripts.

  Arguments of a call are a list of expressions, so recursion over expressions is a pair of
  functions, one for an expression and one for a list of them.  `Expr.induct` is the matching
  induction principle: for a call it gives the hypothesis for every argument.
-/
import ActorScript.Value
import ActorScript.Register

namespace ActorScript

/-- Operators with one operand. -/
inductive UnaryOp
  | not
  | negate
deriving DecidableEq, Repr, Inhabited

/-- Operators with two operands. -/
inductive BinaryOp
  | add
  | subtract
  | multiply
  | divide
  | equal
  | notEqual
  | less
  | lessEqual
  | greater
  | greaterEqual
  | and
  | or
deriving DecidableEq, Repr, Inhabited

/-- The spelling of an operator. -/
def BinaryOp.symbol : BinaryOp → String
  | add => "+"
  | subtract => "-"
  | multiply => "*"
  | divide => "/"
  | equal => "=="
  | notEqual => "!="
  | less => "<"
  | lessEqual => "<="
  | greater => ">"
  | greaterEqual => ">="
  | and => "&&"
  | or => "||"

/-- An expression. -/
inductive Expr
  | literal (value : Value)
  | symbol (name : String)
  | register (r : Register)
  | call (function : String) (args : List Expr)
  | unary (op : UnaryOp) (operand : Expr)
  | binary (op : BinaryOp) (left right : Expr)
  | ternary (condition whenTrue whenFalse : Expr)
deriving Repr, Inhabited

namespace Expr

/-- Induction over expressions with a hypothesis for every argument of a call. -/
theorem induct {motive : Expr → Prop}
    (literal : ∀ v, motive (.literal v)) (symbol : ∀ n, motive (.symbol n))
    (register : ∀ r, motive (.register r))
    (call : ∀ f args, (∀ a ∈ args, motive a) → motive (.call f args))
    (unary : ∀ op e, motive e → motive (.unary op e))
    (binary : ∀ op l r, motive l → motive r → motive (.binary op l r))
    (ternary : ∀ c t e, motive c → motive t → motive e → motive (.ternary c t e)) :
    ∀ e, motive e
  | .literal v => literal v
  | .symbol n => symbol n
  | .register r => register r
  | .call f args => call f args fun a _ =>
      induct literal symbol register call unary binary ternary a
  | .unary op e => unary op e (induct literal symbol register call unary binary ternary e)
  | .binary op l r =>
      binary op l r (induct literal symbol register call unary binary ternary l)
        (induct literal symbol register call unary binary ternary r)
  | .ternary c t e =>
      ternary c t e (induct literal symbol register call unary binary ternary c)
        (induct literal symbol register call unary binary ternary t)
        (induct literal symbol register call unary binary ternary e)

/-! ## Equality is decidable -/

mutual

/-- Decides equality of expressions, constructor by constructor. -/
def decEq : (a b : Expr) → Decidable (a = b)
  | .literal v, .literal w => decidable_of_iff (v = w) (by simp)
  | .symbol m, .symbol n => decidable_of_iff (m = n) (by simp)
  | .register q, .register r => decidable_of_iff (q = r) (by simp)
  | .call f xs, .call g ys =>
    have := decEqList xs ys
    decidable_of_iff (f = g ∧ xs = ys) (by simp)
  | .unary o x, .unary p y =>
    have := decEq x y
    decidable_of_iff (o = p ∧ x = y) (by simp)
  | .binary o x x', .binary p y y' =>
    have := decEq x y
    have := decEq x' y'
    decidable_of_iff (o = p ∧ x = y ∧ x' = y') (by simp)
  | .ternary x x' x'', .ternary y y' y'' =>
    have := decEq x y
    have := decEq x' y'
    have := decEq x'' y''
    decidable_of_iff (x = y ∧ x' = y' ∧ x'' = y'') (by simp)
  | .literal _, .symbol _ | .literal _, .register _ | .literal _, .call .. | .literal _, .unary ..
  | .literal _, .binary .. | .literal _, .ternary .. | .symbol _, .literal _
  | .symbol _, .register _ | .symbol _, .call .. | .symbol _, .unary .. | .symbol _, .binary ..
  | .symbol _, .ternary .. | .register _, .literal _ | .register _, .symbol _
  | .register _, .call .. | .register _, .unary .. | .register _, .binary ..
  | .register _, .ternary .. | .call .., .literal _ | .call .., .symbol _ | .call .., .register _
  | .call .., .unary .. | .call .., .binary .. | .call .., .ternary .. | .unary .., .literal _
  | .unary .., .symbol _ | .unary .., .register _ | .unary .., .call .. | .unary .., .binary ..
  | .unary .., .ternary .. | .binary .., .literal _ | .binary .., .symbol _
  | .binary .., .register _ | .binary .., .call .. | .binary .., .unary ..
  | .binary .., .ternary .. | .ternary .., .literal _ | .ternary .., .symbol _
  | .ternary .., .register _ | .ternary .., .call .. | .ternary .., .unary ..
  | .ternary .., .binary .. => isFalse (by simp)

/-- Decides equality of lists of expressions. -/
def decEqList : (xs ys : List Expr) → Decidable (xs = ys)
  | [], [] => isTrue rfl
  | [], _ :: _ | _ :: _, [] => isFalse (by simp)
  | x :: xs, y :: ys =>
    have := decEq x y
    have := decEqList xs ys
    decidable_of_iff (x = y ∧ xs = ys) (by simp)

end

instance : DecidableEq Expr := decEq

/-! ## Calls -/

mutual

/-- The functions an expression calls, each call once, from left to right and a call before its
    arguments. -/
def calls : Expr → List String
  | .literal _ | .symbol _ | .register _ => []
  | .call f args => f :: callsList args
  | .unary _ e => e.calls
  | .binary _ l r => l.calls ++ r.calls
  | .ternary c t e => c.calls ++ (t.calls ++ e.calls)

/-- The functions that a list of expressions calls. -/
def callsList : List Expr → List String
  | [] => []
  | e :: es => e.calls ++ callsList es

end

theorem mem_callsList {f : String} {es : List Expr} :
    f ∈ callsList es ↔ ∃ e ∈ es, f ∈ e.calls := by
  induction es with
  | nil => simp [callsList]
  | cons e es ih => simp [callsList, ih]

end Expr

end ActorScript
