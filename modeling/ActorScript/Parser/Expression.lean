/-
  The grammar of expressions, by levels.

  Each level consists of expressions of the next tighter one, joined or preceded by its own
  operators; `expression` has one case per kind of level.  Levels with two-sided operators share
  a case: an operand of the tighter level, then `chain`, which adds operators and operands on the
  right for as long as the level has an operator for the next token.  So these operators group to
  the left.  The two functions and `arguments` call each other on fewer tokens, or on the same
  tokens at a tighter level.
-/
import ActorScript.Parser.Tokens

namespace ActorScript.Parser

/-- The levels of the grammar, from the loosest to the tightest. -/
inductive Level
  | ternary
  | or
  | and
  | not
  | equality
  | additive
  | multiplicative
  | unary
  | primary
deriving DecidableEq, Repr

namespace Level

/-- How loose a level is. -/
def rank : Level → Nat
  | ternary => 8
  | or => 7
  | and => 6
  | not => 5
  | equality => 4
  | additive => 3
  | multiplicative => 2
  | unary => 1
  | primary => 0

/-- The next tighter level. -/
def tighter : Level → Level
  | ternary => or
  | or => and
  | and => not
  | not => equality
  | equality => additive
  | additive => multiplicative
  | multiplicative => unary
  | unary => primary
  | primary => primary

/-- The two-sided operator that a token is at a level.  Comparisons share the level of
    equality. -/
def operator? : Level → TokenKind → Option BinaryOp
  | or, .mark .or => some .or
  | and, .mark .and => some .and
  | equality, .mark .equal => some .equal
  | equality, .mark .notEqual => some .notEqual
  | equality, .mark .less => some .less
  | equality, .mark .lessEqual => some .lessEqual
  | equality, .mark .greater => some .greater
  | equality, .mark .greaterEqual => some .greaterEqual
  | additive, .mark .plus => some .add
  | additive, .mark .minus => some .subtract
  | multiplicative, .mark .star => some .multiply
  | multiplicative, .mark .slash => some .divide
  | _, _ => none

end Level

/-- The expression that an identifier is where no call and no register follows. -/
def word (name : String) : Expr :=
  match Orientation.ofName? name with
  | some o => .literal (.orientation o)
  | none => .symbol name

mutual

/-- Takes an expression of a level. -/
def expression (finish : Location) (level : Level) (ts : List Token) :
    Except Error (Expr × Shorter ts) :=
  match _hl : level with
  | .ternary => do
    let (condition, r₁) ← expression finish .or ts
    match accept? (.mark .question) r₁.1 with
    | none => return (condition, r₁)
    | some r₂ =>
      let r := r₁.trans r₂
      let (whenTrue, r₃) ← expression finish .ternary r.1
      let r₄ ← expect finish (.mark .colon) r₃.1
      let r := r.trans (r₃.trans r₄)
      let (whenFalse, r₅) ← expression finish .ternary r.1
      return (.ternary condition whenTrue whenFalse, r.trans r₅)
  | .not =>
    match accept? (.mark .bang) ts with
    | none => expression finish .equality ts
    | some r => do
      let (operand, r') ← expression finish .not r.1
      return (.unary .not operand, r.trans r')
  | .unary =>
    match ts with
    | ⟨.mark .minus, _⟩ :: ⟨.int n, _⟩ :: rest =>
      return (.literal (.int (-n)), .trans (.tail _ _) (.tail _ rest))
    | ⟨.mark .minus, l⟩ :: rest => do
      let r := Shorter.tail ⟨.mark .minus, l⟩ rest
      let (operand, r') ← expression finish .unary r.1
      return (.unary .negate operand, r.trans r')
    | ⟨.mark .bang, l⟩ :: rest => do
      let r := Shorter.tail ⟨.mark .bang, l⟩ rest
      let (operand, r') ← expression finish .unary r.1
      return (.unary .not operand, r.trans r')
    | ts => expression finish .primary ts
  | .primary =>
    match ts with
    | ⟨.int n, _⟩ :: rest => return (.literal (.int n), .tail _ rest)
    | ⟨.string s, _⟩ :: rest => return (.literal (.string s), .tail _ rest)
    | ⟨.keyword .trueWord, _⟩ :: rest => return (.literal (.bool true), .tail _ rest)
    | ⟨.keyword .falseWord, _⟩ :: rest => return (.literal (.bool false), .tail _ rest)
    | ⟨.mark .leftParen, l⟩ :: rest => do
      let r := Shorter.tail ⟨.mark .leftParen, l⟩ rest
      let (inner, r₁) ← expression finish .ternary r.1
      let r₂ ← expect finish (.mark .rightParen) r₁.1
      return (inner, r.trans (r₁.trans r₂))
    | ⟨.ident name, l⟩ :: rest =>
      let r := Shorter.tail ⟨.ident name, l⟩ rest
      match peek rest, peek rest.tail with
      | .mark .leftParen, _ => do
        let (args, r') ← arguments finish r.1
        return (.call name args, r.trans r')
      | .mark .leftBracket, .ident _ | .mark .leftBracket, .string _ => do
        let (register, r') ← registerKey finish name l r.1
        return (.register register, r.trans r')
      | _, _ => return (word name, r)
    | ts => .error (unexpected finish .expression ts)
  | .or | .and | .equality | .additive | .multiplicative => do
    let (left, r) ← expression finish level.tighter ts
    let (e, r') ← chain finish level left r.1
    return (e, r.upTo r')
termination_by (ts.length, level.rank)
decreasing_by
  all_goals first
    | exact Shorter.lex_left _ _ _
    | (apply Prod.Lex.right; subst_vars; decide)

/-- Takes the operators of a level and their right operands for as long as there are any, with
    `left` as the operand on the left of the first. -/
def chain (finish : Location) (level : Level) (left : Expr) (ts : List Token) :
    Except Error (Expr × NoLonger ts) :=
  match ts with
  | [] => return (left, .all [])
  | t :: rest =>
    match level.operator? t.kind with
    | none => return (left, .all (t :: rest))
    | some op => do
      let r := Shorter.tail t rest
      let (right, r₁) ← expression finish level.tighter r.1
      let r := r.trans r₁
      let (e, r₂) ← chain finish level (.binary op left right) r.1
      return (e, (r.upTo r₂).noLonger)
termination_by (ts.length, 0)
decreasing_by all_goals exact Shorter.lex_left _ _ _

/-- Takes the arguments of a call, in their parentheses. -/
def arguments (finish : Location) (ts : List Token) : Except Error (List Expr × Shorter ts) := do
  let r ← expect finish (.mark .leftParen) ts
  match accept? (.mark .rightParen) r.1 with
  | some r' => return ([], r.trans r')
  | none =>
    let (args, r') ← argumentList finish r.1
    return (args, r.trans r')
termination_by (ts.length, 9)
decreasing_by exact Shorter.lex_left _ _ _

/-- Takes one or more expressions with commas between them, and the closing parenthesis. -/
def argumentList (finish : Location) (ts : List Token) :
    Except Error (List Expr × Shorter ts) := do
  let (arg, r) ← expression finish .ternary ts
  match accept? (.mark .comma) r.1 with
  | some r' =>
    let r := r.trans r'
    let (args, r') ← argumentList finish r.1
    return (arg :: args, r.trans r')
  | none =>
    let r' ← expect finish (.mark .rightParen) r.1
    return ([arg], r.trans r')
termination_by (ts.length, 9)
decreasing_by
  · exact Prod.Lex.right _ (by decide)
  · exact Shorter.lex_left _ _ _

end

end ActorScript.Parser
