/-
  The operators of expressions as functions on values.

  Integer results are computed without bounds and then have to fit: `Value.ofInt?` refuses what
  lies outside the 64-bit range, so no operator ever wraps around.  Division drops the fraction.
  A sum with a string joins the texts of both operands; equality compares any two values; the
  connectives accept any values and give a truth value.
-/
import ActorScript.Expr
import ActorScript.Error

namespace ActorScript

/-- The integer value for a number, if the number is in range. -/
def Value.ofInt? (n : Int) : Option Value :=
  if Value.InRange n then some (.int (Int64.ofInt n)) else none

/-- The result `n` of an integer operation, or an overflow of that operator. -/
def integerResult (op : String) (n : Int) : Except Error Value :=
  match Value.ofInt? n with
  | some v => .ok v
  | none => .error (.overflow op)

/-- Applies an operator with one operand. -/
def UnaryOp.apply : UnaryOp → Value → Except Error Value
  | .not, v => .ok (.bool !v.truthy)
  | .negate, .int n => integerResult "-" (-n.toInt)
  | .negate, v => .error (.typeMismatch "-" v.typeName v.typeName)

namespace BinaryOp

/-- The error for operands that an operator does not combine. -/
def mismatch (op : BinaryOp) (left right : Value) : Error :=
  .typeMismatch op.symbol left.typeName right.typeName

/-- Applies an operation that is defined for integers only. -/
def onInts (op : BinaryOp) (f : Int → Int → Except Error Value) :
    Value → Value → Except Error Value
  | .int a, .int b => f a.toInt b.toInt
  | left, right => .error (op.mismatch left right)

/-- Applies an operator with two operands. -/
def apply (op : BinaryOp) (left right : Value) : Except Error Value :=
  match op with
  | .add =>
    if left.isString || right.isString then .ok (.string (left.text ++ right.text))
    else onInts op (fun a b => integerResult op.symbol (a + b)) left right
  | .subtract => onInts op (fun a b => integerResult op.symbol (a - b)) left right
  | .multiply => onInts op (fun a b => integerResult op.symbol (a * b)) left right
  | .divide =>
    onInts op (fun a b => if b = 0 then .error .divisionByZero
      else integerResult op.symbol (a.tdiv b)) left right
  | .equal => .ok (.bool (left = right))
  | .notEqual => .ok (.bool (left ≠ right))
  | .less => onInts op (fun a b => .ok (.bool (a < b))) left right
  | .lessEqual => onInts op (fun a b => .ok (.bool (a ≤ b))) left right
  | .greater => onInts op (fun a b => .ok (.bool (a > b))) left right
  | .greaterEqual => onInts op (fun a b => .ok (.bool (a ≥ b))) left right
  | .and => .ok (.bool (left.truthy && right.truthy))
  | .or => .ok (.bool (left.truthy || right.truthy))

end BinaryOp

end ActorScript
