/-
  Integer arithmetic is exact, or fails.

  A `Calculation` is an expression of integers, the four operations and the minus sign.  It has an
  exact value among all integers, unless something in it is divided by zero (`value?`), and so has
  every part of it.  Evaluating it gives that value if all the values on the way fit into 64 bits.
  If not, it stops at the first part, operands before the operation and left before right, that
  has zero as its divisor or whose value does not fit, and the error is the one of that part
  (`fault?`).

  The exact values are never rounded or wrapped, so this compares the operators on words with
  arithmetic that knows no words.  The induction is on the calculation: each part either fits,
  without a fault in it, or has a first fault (`value_or_fault`).
-/
import ActorScript.Expr.Eval

namespace ActorScript

namespace Value

theorem inRange_toInt (n : Int64) : InRange n.toInt := by
  have hlow := n.le_toInt
  have hhigh := n.toInt_lt
  rw [InRange, intBound]
  omega

theorem toInt_ofInt {n : Int} (h : InRange n) : (Int64.ofInt n).toInt = n := by
  rw [InRange, intBound] at h
  exact Int64.toInt_ofInt_of_le (by omega) (by omega)

end Value

open Value (InRange)

/-- The operations of arithmetic. -/
inductive Arithmetic
  | plus
  | minus
  | times
  | divided
deriving DecidableEq, Repr

namespace Arithmetic

/-- The operator that stands for an operation. -/
def operator : Arithmetic → BinaryOp
  | plus => .add
  | minus => .subtract
  | times => .multiply
  | divided => .divide

/-- The exact result of an operation, which may be any integer; a quotient is without its fraction,
    and nothing can be divided by zero. -/
def value? : Arithmetic → Int → Int → Option Int
  | plus, a, b => some (a + b)
  | minus, a, b => some (a - b)
  | times, a, b => some (a * b)
  | divided, a, b => if b = 0 then none else some (a.tdiv b)

theorem value?_eq_none_iff {op : Arithmetic} {a b : Int} :
    op.value? a b = none ↔ op = divided ∧ b = 0 := by
  cases op <;> simp [value?]

/-- **An operator on words** is the exact operation, and its result has to fit. -/
theorem apply_operator (op : Arithmetic) (a b : Int64) :
    op.operator.apply (.int a) (.int b) =
      match op.value? a.toInt b.toInt with
      | some n => integerResult op.operator.symbol n
      | none => .error .divisionByZero := by
  cases op with
  | plus => rfl
  | minus => rfl
  | times => rfl
  | divided =>
    simp only [operator, BinaryOp.apply, BinaryOp.onInts, value?]
    split <;> rfl

end Arithmetic

/-- An expression of integers and arithmetic. -/
inductive Calculation
  | literal (n : Int64)
  | negate (operand : Calculation)
  | binary (op : Arithmetic) (left right : Calculation)
deriving Repr

namespace Calculation

/-- The calculation as an expression of scripts. -/
def expr : Calculation → Expr
  | literal n => .literal (.int n)
  | negate t => .unary .negate t.expr
  | binary op l r => .binary op.operator l.expr r.expr

/-- The exact value of a calculation, unless a divisor in it is zero. -/
def value? : Calculation → Option Int
  | literal n => some n.toInt
  | negate t => do return -(← t.value?)
  | binary op l r => do op.value? (← l.value?) (← r.value?)

/-- All parts of a calculation in the order in which they are evaluated: operands before their
    operation, and the left one before the right one. -/
def parts : Calculation → List Calculation
  | literal n => [literal n]
  | negate t => t.parts ++ [negate t]
  | binary op l r => l.parts ++ r.parts ++ [binary op l r]

/-- The fault of a number that does not fit. -/
def overflow? (op : String) : Option Int → Option Error
  | some n => if InRange n then none else some (.overflow op)
  | none => none

/-- What is wrong with a part itself, apart from its operands: its divisor is zero, or its exact
    value does not fit. -/
def fault? : Calculation → Option Error
  | literal _ => none
  | negate t => overflow? "-" (negate t).value?
  | binary op l r =>
    if op = .divided ∧ r.value? = some 0 then some .divisionByZero
    else overflow? op.operator.symbol (binary op l r).value?

/-- No divisor is zero, and the exact value of every part fits. -/
def Fits (t : Calculation) : Prop := ∀ u ∈ t.parts, ∃ v, u.value? = some v ∧ InRange v

variable {σ : Type}

theorem overflow?_of_inRange {op : String} {n : Int} (h : InRange n) :
    overflow? op (some n) = none := if_pos h

theorem overflow?_of_not_inRange {op : String} {n : Int} (h : ¬ InRange n) :
    overflow? op (some n) = some (.overflow op) := if_neg h

theorem integerResult_of_inRange {op : String} {n : Int} (h : InRange n) :
    integerResult op n = .ok (.int (Int64.ofInt n)) := by
  rw [integerResult, Value.ofInt?, if_pos h]

theorem integerResult_of_not_inRange {op : String} {n : Int} (h : ¬ InRange n) :
    integerResult op n = .error (.overflow op) := by
  rw [integerResult, Value.ofInt?, if_neg h]

/-! ## A part and its operands -/

/-- The calculation comes to its exact value, and nothing is wrong with any part of it. -/
structure Succeeds (ctx : Context σ) (s : σ) (t : Calculation) (v : Int) : Prop where
  value : t.value? = some v
  inRange : InRange v
  fits : t.Fits
  faultless : t.parts.findSome? fault? = none
  eval : t.expr.eval ctx s = (.ok (.int (Int64.ofInt v)), s)

/-- The calculation stops at the first part with a fault. -/
structure Stops (ctx : Context σ) (s : σ) (t : Calculation) (e : Error) : Prop where
  fault : t.parts.findSome? fault? = some e
  eval : t.expr.eval ctx s = (.error e, s)

variable {ctx : Context σ} {s : σ} {t l r : Calculation} {op : Arithmetic} {e : Error} {a b n : Int}

theorem fits_append {us : List Calculation} (hparts : t.parts = us ++ [t])
    (hus : ∀ u ∈ us, ∃ v, u.value? = some v ∧ InRange v) (hexact : t.value? = some n)
    (hn : InRange n) : t.Fits := by
  intro u hu
  rw [hparts] at hu
  rcases List.mem_append.mp hu with hu | hu
  · exact hus u hu
  · rw [List.mem_singleton.mp hu]
    exact ⟨n, hexact, hn⟩

/-- **The result of an operation** whose operands have come to their values decides how the
    calculation ends. -/
theorem succeeds_or_stops {us : List Calculation} {op : String} (hparts : t.parts = us ++ [t])
    (hus : ∀ u ∈ us, ∃ v, u.value? = some v ∧ InRange v) (hnone : us.findSome? fault? = none)
    (hexact : t.value? = some n) (hfault : t.fault? = overflow? op (some n))
    (heval : t.expr.eval ctx s = (integerResult op n, s)) :
    (∃ v, Succeeds ctx s t v) ∨ ∃ e, Stops ctx s t e := by
  have hfirst : t.parts.findSome? fault? = overflow? op (some n) := by
    rw [hparts, List.findSome?_append, hnone, Option.none_or, List.findSome?_singleton, hfault]
  by_cases hn : InRange n
  · rw [overflow?_of_inRange hn] at hfirst
    rw [integerResult_of_inRange hn] at heval
    exact .inl ⟨n, hexact, hn, fits_append hparts hus hexact hn, hfirst, heval⟩
  · rw [overflow?_of_not_inRange hn] at hfirst
    rw [integerResult_of_not_inRange hn] at heval
    exact .inr ⟨_, hfirst, heval⟩

theorem Succeeds.eval_negate (h : Succeeds ctx s t a) :
    (negate t).expr.eval ctx s = (integerResult "-" (-a), s) := by
  have hint : (Int64.ofInt a).toInt = a := Value.toInt_ofInt h.inRange
  rw [expr, Expr.eval, Action.bind_apply_ok h.eval, Action.lift_apply, UnaryOp.apply, hint]

theorem Succeeds.eval_binary (hl : Succeeds ctx s l a) (hr : Succeeds ctx s r b)
    (op : Arithmetic) : (binary op l r).expr.eval ctx s = (match op.value? a b with
      | some n => integerResult op.operator.symbol n
      | none => .error .divisionByZero, s) := by
  have hint : (Int64.ofInt a).toInt = a := Value.toInt_ofInt hl.inRange
  have hint' : (Int64.ofInt b).toInt = b := Value.toInt_ofInt hr.inRange
  rw [expr, Expr.eval, Action.bind_apply_ok hl.eval, Action.bind_apply_ok hr.eval,
    Action.lift_apply, op.apply_operator, hint, hint']

theorem Succeeds.value?_binary (hl : Succeeds ctx s l a) (hr : Succeeds ctx s r b)
    (op : Arithmetic) : (binary op l r).value? = op.value? a b := by
  rw [value?, hl.value, hr.value]
  rfl

/-- A calculation stops where its operand does. -/
theorem Stops.negate (h : Stops ctx s t e) : Stops ctx s (negate t) e where
  fault := by rw [parts, List.findSome?_append, h.fault, Option.some_or]
  eval := by rw [expr, Expr.eval, Action.bind_apply_error h.eval]

theorem Stops.left (h : Stops ctx s l e) (op : Arithmetic) (r : Calculation) :
    Stops ctx s (binary op l r) e where
  fault := by
    rw [parts, List.append_assoc, List.findSome?_append, h.fault, Option.some_or]
  eval := by rw [expr, Expr.eval, Action.bind_apply_error h.eval]

theorem Stops.right (hl : Succeeds ctx s l a) (h : Stops ctx s r e) (op : Arithmetic) :
    Stops ctx s (binary op l r) e where
  fault := by
    rw [parts, List.findSome?_append, List.findSome?_append, hl.faultless, h.fault,
      Option.none_or, Option.some_or]
  eval := by rw [expr, Expr.eval, Action.bind_apply_ok hl.eval, Action.bind_apply_error h.eval]

/-- **Every calculation** comes to its exact value or stops at its first fault. -/
theorem value_or_fault (ctx : Context σ) (s : σ) (t : Calculation) :
    (∃ v, Succeeds ctx s t v) ∨ ∃ e, Stops ctx s t e := by
  induction t with
  | literal n =>
    refine .inl ⟨n.toInt, rfl, Value.inRange_toInt n, ?_, rfl, ?_⟩
    · have hparts : (literal n).parts = [] ++ [literal n] := rfl
      exact fits_append hparts nofun rfl (Value.inRange_toInt n)
    · rw [Int64.ofInt_toInt]
      rfl
  | negate t ih =>
    rcases ih with ⟨a, h⟩ | ⟨e, h⟩
    · have hexact : (negate t).value? = some (-a) := by
        rw [value?, h.value]
        rfl
      have hfault : (negate t).fault? = overflow? "-" (some (-a)) := by rw [fault?, hexact]
      exact succeeds_or_stops rfl h.fits h.faultless hexact hfault h.eval_negate
    · exact .inr ⟨e, h.negate⟩
  | binary op l r ihl ihr =>
    rcases ihl with ⟨a, hl⟩ | ⟨e, hl⟩
    · rcases ihr with ⟨b, hr⟩ | ⟨e, hr⟩
      · have hexact := hl.value?_binary hr op
        have heval := hl.eval_binary hr op
        have hfits : ∀ u ∈ l.parts ++ r.parts, ∃ v, u.value? = some v ∧ InRange v :=
          fun u hu => (List.mem_append.mp hu).elim (hl.fits u) (hr.fits u)
        have hnone : (l.parts ++ r.parts).findSome? fault? = none := by
          rw [List.findSome?_append, hl.faultless, hr.faultless, Option.none_or]
        cases hop : op.value? a b with
        | none =>
          obtain ⟨rfl, rfl⟩ := Arithmetic.value?_eq_none_iff.mp hop
          rw [hop] at heval
          refine .inr ⟨.divisionByZero, ?_, heval⟩
          rw [parts, List.findSome?_append, hnone, Option.none_or, List.findSome?_singleton, fault?,
            if_pos ⟨rfl, hr.value⟩]
        | some n =>
          rw [hop] at hexact heval
          have hfault : (binary op l r).fault? = overflow? op.operator.symbol (some n) := by
            rw [fault?, hexact, if_neg]
            rintro ⟨hover, hzero⟩
            rw [hr.value] at hzero
            have hzero' : op.value? a b = none :=
              Arithmetic.value?_eq_none_iff.mpr ⟨hover, Option.some.inj hzero⟩
            cases hop.symm.trans hzero'
          exact succeeds_or_stops rfl hfits hnone hexact hfault heval
      · exact .inr ⟨e, hr.right hl op⟩
    · exact .inr ⟨e, hl.left op r⟩

/-! ## The whole calculation -/

/-- A part with a fault has no exact value that fits. -/
theorem not_inRange_of_fault {u : Calculation} (h : u.fault? = some e) :
    ¬ ∃ v, u.value? = some v ∧ InRange v := by
  rintro ⟨v, hexact, hv⟩
  cases u with
  | literal n => cases h
  | negate t =>
    rw [fault?, hexact, overflow?_of_inRange hv] at h
    cases h
  | binary op l r =>
    rw [fault?, hexact, overflow?_of_inRange hv] at h
    split at h
    · rename_i hzero
      obtain ⟨rfl, hzero⟩ := hzero
      rw [value?, hzero] at hexact
      cases hl : l.value? with
      | none =>
        rw [hl] at hexact
        cases hexact
      | some a =>
        rw [hl] at hexact
        cases hexact
    · cases h

/-- **Integer arithmetic is exact.**  Whatever it is evaluated in, a calculation gives the integer
    `n` if and only if no divisor is zero, the exact value of every part fits into 64 bits, and `n`
    is the exact value of the whole.  Otherwise it fails with the fault of its first part that has
    one, operands before operations and left before right. -/
theorem eval_expr_exact (ctx : Context σ) (s : σ) (t : Calculation) :
    (∀ n : Int64, t.expr.eval ctx s = (.ok (.int n), s) ↔ t.Fits ∧ t.value? = some n.toInt) ∧
    (¬ t.Fits → ∃ before u after e, t.parts = before ++ u :: after ∧
      (∀ w ∈ before, w.fault? = none) ∧ u.fault? = some e ∧
      t.expr.eval ctx s = (.error e, s)) := by
  rcases value_or_fault ctx s t with ⟨v, h⟩ | ⟨e, h⟩
  · refine ⟨fun n => ?_, fun hfits => absurd h.fits hfits⟩
    rw [h.eval, h.value]
    constructor
    · intro heq
      cases heq
      exact ⟨h.fits, congrArg some (Value.toInt_ofInt h.inRange).symm⟩
    · rintro ⟨-, hv⟩
      cases hv
      rw [Int64.ofInt_toInt]
  · obtain ⟨before, u, after, hparts, hu, hbefore⟩ := List.findSome?_eq_some_iff.mp h.fault
    refine ⟨fun n => ?_, fun _ => ⟨before, u, after, e, hparts, hbefore, hu, h.eval⟩⟩
    rw [h.eval]
    constructor
    · intro heq
      cases heq
    · rintro ⟨hfits, -⟩
      exact absurd (hfits u (by simp [hparts])) (not_inRange_of_fault hu)

/-- The least integer cannot be divided by `-1`, since the quotient does not fit. -/
example : (binary .divided (literal Int64.minValue) (literal (-1))).fault? =
    some (.overflow "/") := by
  decide

end Calculation

end ActorScript
