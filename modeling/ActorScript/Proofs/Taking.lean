/-
  What the parsers take.

  A parser of expressions looks at one token, or at two behind an identifier, and never goes back.
  So it takes a phrase from the front of its tokens only if the token behind the phrase does not
  make it go on: `Stops level k` says that no expression of the level goes on with a token of kind
  `k`.  Under that condition there is one lemma for every alternative of the grammar, which says
  what is taken if the parts of the alternative are.
-/
import ActorScript.Parser.Declaration

namespace ActorScript.Parser

variable {α β : Type} {finish : Location} {ts rest mid : List Token} {l l' : Location}

/-! ## Tokens -/

/-- A parser that has succeeded hands its result on. -/
@[simp] theorem ok_bind (a : α) (f : α → Except Error β) : (Except.ok a >>= f) = f a := rfl

/-- The next kind is that of the first token. -/
@[simp] theorem peek_cons (k : TokenKind) : peek (⟨k, l⟩ :: rest) = k := rfl

/-- A kind that comes next is accepted. -/
@[simp] theorem accept?_cons (k : TokenKind) :
    accept? k (⟨k, l⟩ :: rest) = some (.tail _ rest) := if_pos rfl

/-- Any other kind is not accepted, and nothing is taken. -/
theorem accept?_of_ne {k : TokenKind} (h : peek ts ≠ k) : accept? k ts = none := by
  cases ts with
  | nil => rfl
  | cons t ts => exact if_neg h

/-- A kind that comes next is what was expected. -/
@[simp] theorem expect_cons (k : TokenKind) :
    expect finish k (⟨k, l⟩ :: rest) = .ok (.tail _ rest) := by simp [expect]

@[simp] theorem expectIdent_cons (name : String) :
    expectIdent finish (⟨.ident name, l⟩ :: rest) = .ok (name, .tail _ rest) := rfl

/-- The parser gives `a` and leaves the tokens `rest`. -/
def Takes (x : Except Error (α × Shorter ts)) (a : α) (rest : List Token) : Prop :=
  ∃ h, x = .ok (a, ⟨rest, h⟩)

/-! ## Where expressions end -/

/-- The marks by which an expression can go on at a level. -/
def Level.extensions : Level → List Mark
  | .ternary => [.question]
  | .or => [.or]
  | .and => [.and]
  | .not => []
  | .equality => [.equal, .notEqual, .less, .lessEqual, .greater, .greaterEqual]
  | .additive => [.plus, .minus]
  | .multiplicative => [.star, .slash]
  | .unary => []
  | .primary => [.leftParen, .leftBracket]

/-- No expression of the level goes on with a token of this kind. -/
def Stops (level : Level) (k : TokenKind) : Prop :=
  ∀ level' : Level, level'.rank ≤ level.rank → ∀ m ∈ level'.extensions, k ≠ .mark m

/-- What ends the looser expressions ends the tighter ones: they are parts of them. -/
theorem Stops.mono {level level' : Level} {k : TokenKind} (h : Stops level k)
    (hl : level'.rank ≤ level.rank) : Stops level' k :=
  fun l'' hl'' => h l'' (Nat.le_trans hl'' hl)

/-- Levels whose operators stand between two operands. -/
def Level.Infix (level : Level) : Prop :=
  level = .or ∨ level = .and ∨ level = .equality ∨ level = .additive ∨ level = .multiplicative

/-- The operands of an infix level are one level tighter. -/
theorem Level.Infix.rank_tighter {level : Level} (h : level.Infix) :
    level.tighter.rank + 1 = level.rank := by
  rcases h with rfl | rfl | rfl | rfl | rfl <;> rfl

/-- The operators of an infix level are the marks by which it goes on, and no others. -/
theorem Level.operator?_eq_none {level : Level} (h : level.Infix) {k : TokenKind} :
    level.operator? k = none ↔ ∀ m ∈ level.extensions, k ≠ .mark m := by
  cases k with
  | mark m => rcases h with rfl | rfl | rfl | rfl | rfl <;> cases m <;> decide
  | _ => rcases h with rfl | rfl | rfl | rfl | rfl <;> simp [operator?]

/-- A token that ends an infix expression is none of its operators. -/
theorem Stops.operator? {level : Level} {k : TokenKind} (h : Stops level k)
    (hl : level.Infix) : level.operator? k = none :=
  (Level.operator?_eq_none hl).mpr (h level (Nat.le_refl _))

/-- An operator of a level is not one by which a tighter expression goes on. -/
theorem stops_operator {level : Level} (h : level.Infix) {m : Mark} (hm : m ∈ level.extensions) :
    Stops level.tighter (.mark m) := by
  intro level' hl m' hm' he
  cases he
  -- the marks of two levels are compared one by one; no mark is in two of them
  rcases h with rfl | rfl | rfl | rfl | rfl <;> revert hl hm hm' <;> cases level' <;>
    cases m <;> decide

section Stops

variable {level : Level}

/-- A token that ends every expression in front of it. -/
theorem stops_mark {m : Mark} (h : ∀ level : Level, m ∉ level.extensions) :
    Stops level (.mark m) := by
  intro level' _ m' hm' he
  cases he
  exact h level' hm'

theorem stops_rightParen : Stops level (.mark .rightParen) :=
  stops_mark fun level => by cases level <;> decide

theorem stops_comma : Stops level (.mark .comma) :=
  stops_mark fun level => by cases level <;> decide

theorem stops_semicolon : Stops level (.mark .semicolon) :=
  stops_mark fun level => by cases level <;> decide

theorem stops_colon : Stops level (.mark .colon) :=
  stops_mark fun level => by cases level <;> decide

/-- A question mark goes on a ternary expression, and ends every tighter one. -/
theorem stops_question : Stops .or (.mark .question) := by
  intro level' hl m hm he
  cases he
  revert hl hm
  cases level' <;> decide

end Stops

/-! ## Expressions -/

section Expression

variable {e e' e'' : Expr}

/-- A condition, and both branches behind their marks. -/
theorem takes_ternary (h : Takes (expression finish .or ts) e (⟨.mark .question, l⟩ :: mid))
    {mid' : List Token}
    (h' : Takes (expression finish .ternary mid) e' (⟨.mark .colon, l'⟩ :: mid'))
    (h'' : Takes (expression finish .ternary mid') e'' rest) :
    Takes (expression finish .ternary ts) (.ternary e e' e'') rest := by
  obtain ⟨hlt, h⟩ := h
  obtain ⟨hlt', h'⟩ := h'
  obtain ⟨hlt'', h''⟩ := h''
  apply Exists.intro
  rw [expression, h]
  simp only [ok_bind, accept?_cons, Shorter.tail, Shorter.trans]
  rw [h']
  simp only [ok_bind, expect_cons, Shorter.tail]
  rw [h'']
  rfl

/-- Without a question mark behind it a disjunction is the whole expression. -/
theorem takes_ternary_of_or (h : Takes (expression finish .or ts) e rest)
    (hrest : peek rest ≠ .mark .question) : Takes (expression finish .ternary ts) e rest := by
  obtain ⟨hlt, h⟩ := h
  refine ⟨hlt, ?_⟩
  rw [expression, h]
  simp only [ok_bind, accept?_of_ne hrest]
  rfl

/-- An exclamation mark in front of the comparisons negates all that follows on its level. -/
theorem takes_not (h : Takes (expression finish .not ts) e rest) :
    Takes (expression finish .not (⟨.mark .bang, l⟩ :: ts)) (.unary .not e) rest := by
  obtain ⟨hlt, h⟩ := h
  apply Exists.intro
  rw [expression]
  simp only [accept?_cons, Shorter.tail]
  rw [h]
  rfl

/-- Without one the level adds nothing. -/
theorem takes_not_of_equality (h : Takes (expression finish .equality ts) e rest)
    (hts : peek ts ≠ .mark .bang) : Takes (expression finish .not ts) e rest := by
  rw [expression, accept?_of_ne hts]
  exact h

/-- **A minus sign in front of a number** is part of the number: what is taken is a literal, and so
    the least of all integers can be written. -/
theorem takes_minus_int (n : Int64) :
    Takes (expression finish .unary (⟨.mark .minus, l⟩ :: ⟨.int n, l'⟩ :: rest))
      (.literal (.int (-n))) rest := by
  apply Exists.intro
  rw [expression]
  rfl

/-- In front of anything else it is an operator. -/
theorem takes_minus (h : Takes (expression finish .unary ts) e rest)
    (hts : ∀ n, peek ts ≠ .int n) :
    Takes (expression finish .unary (⟨.mark .minus, l⟩ :: ts)) (.unary .negate e) rest := by
  obtain ⟨hlt, h⟩ := h
  apply Exists.intro
  rw [expression]
  · simp only [Shorter.tail]
    rw [h]
    rfl
  -- the parser tries the case of a number first, so it has to be excluded here
  · rintro n l' rest' rfl
    exact hts n rfl

/-- An exclamation mark behind an arithmetical operator negates one operand. -/
theorem takes_bang (h : Takes (expression finish .unary ts) e rest) :
    Takes (expression finish .unary (⟨.mark .bang, l⟩ :: ts)) (.unary .not e) rest := by
  obtain ⟨hlt, h⟩ := h
  apply Exists.intro
  rw [expression]
  simp only [Shorter.tail]
  rw [h]
  rfl

/-- An expression with neither sign in front is primary. -/
theorem takes_unary_of_primary (h : Takes (expression finish .primary ts) e rest)
    (hminus : peek ts ≠ .mark .minus) (hbang : peek ts ≠ .mark .bang) :
    Takes (expression finish .unary ts) e rest := by
  rw [expression]
  · exact h
  -- three cases of the parser come before the one that is meant
  · rintro l n l' rest' rfl
    exact hminus rfl
  · rintro l rest' rfl
    exact hminus rfl
  · rintro l rest' rfl
    exact hbang rfl

/-- A number is a literal. -/
theorem takes_int (n : Int64) :
    Takes (expression finish .primary (⟨.int n, l⟩ :: rest)) (.literal (.int n)) rest := by
  apply Exists.intro
  rw [expression]
  rfl

/-- A text is a literal. -/
theorem takes_string (s : String) :
    Takes (expression finish .primary (⟨.string s, l⟩ :: rest)) (.literal (.string s)) rest := by
  apply Exists.intro
  rw [expression]
  rfl

theorem takes_trueWord :
    Takes (expression finish .primary (⟨.keyword .trueWord, l⟩ :: rest)) (.literal (.bool true))
      rest := by
  apply Exists.intro
  rw [expression]
  rfl

theorem takes_falseWord :
    Takes (expression finish .primary (⟨.keyword .falseWord, l⟩ :: rest)) (.literal (.bool false))
      rest := by
  apply Exists.intro
  rw [expression]
  rfl

/-- Parentheses leave no trace in the tree. -/
theorem takes_paren
    (h : Takes (expression finish .ternary ts) e (⟨.mark .rightParen, l'⟩ :: rest)) :
    Takes (expression finish .primary (⟨.mark .leftParen, l⟩ :: ts)) e rest := by
  obtain ⟨hlt, h⟩ := h
  apply Exists.intro
  rw [expression]
  simp only [Shorter.tail]
  rw [h]
  rfl

/-- **A name** is taken alone unless a call or a key goes on behind it. -/
theorem takes_word {name : String} (h : Stops .primary (peek rest)) :
    Takes (expression finish .primary (⟨.ident name, l⟩ :: rest)) (word name) rest := by
  have hparen : peek rest ≠ .mark .leftParen := h .primary (Nat.le_refl _) _ (by decide)
  have hbracket : peek rest ≠ .mark .leftBracket := h .primary (Nat.le_refl _) _ (by decide)
  apply Exists.intro
  rw [expression]
  split
  -- a call, and a register by its two kinds of key
  · exact absurd ‹_› hparen
  · exact absurd ‹_› hbracket
  · exact absurd ‹_› hbracket
  · rfl

/-- A name with an opening parenthesis behind it is a call. -/
theorem takes_call {name : String} {args : List Expr} (h : Takes (arguments finish ts) args rest)
    (hts : peek ts = .mark .leftParen) :
    Takes (expression finish .primary (⟨.ident name, l⟩ :: ts)) (.call name args) rest := by
  obtain ⟨hlt, h⟩ := h
  apply Exists.intro
  rw [expression, hts]
  simp only [Shorter.tail]
  rw [h]
  rfl

/-- The kinds of token that can be the key of a register. -/
def IsKey (k : TokenKind) (key : String) : Prop := k = .ident key ∨ k = .string key

/-- A key in brackets makes the name of a space a register. -/
theorem takes_registerKey {space : RegisterSpace} {k : TokenKind} {key : String}
    {l₁ l₂ l₃ : Location} (hk : IsKey k key) :
    Takes (registerKey finish space.keyword l
      (⟨.mark .leftBracket, l₁⟩ :: ⟨k, l₂⟩ :: ⟨.mark .rightBracket, l₃⟩ :: rest))
      ⟨space, key⟩ rest := by
  apply Exists.intro
  rw [registerKey]
  simp only [RegisterSpace.ofKeyword?_keyword]
  rcases hk with rfl | rfl <;> rfl

/-- A register is an expression, whichever way its key is written. -/
theorem takes_register {space : RegisterSpace} {k : TokenKind} {key : String} {l₁ l₂ l₃ : Location}
    (hk : IsKey k key) :
    Takes (expression finish .primary (⟨.ident space.keyword, l⟩ :: ⟨.mark .leftBracket, l₁⟩ ::
      ⟨k, l₂⟩ :: ⟨.mark .rightBracket, l₃⟩ :: rest)) (.register ⟨space, key⟩) rest := by
  have hkey : Takes (registerKey finish space.keyword l
      (⟨.mark .leftBracket, l₁⟩ :: ⟨k, l₂⟩ :: ⟨.mark .rightBracket, l₃⟩ :: rest))
      ⟨space, key⟩ rest := takes_registerKey hk
  obtain ⟨hlt, h⟩ := hkey
  -- the parser has a case for each kind of key, and does the same in both
  rcases hk with rfl | rfl
  all_goals
    apply Exists.intro
    rw [expression]
    simp only [peek_cons, List.tail_cons, Shorter.tail]
    rw [h]
    rfl

end Expression

/-! ## Operators of a level -/

/-- A parser that may take nothing gives `a` and leaves the tokens `rest`. -/
def Continues (x : Except Error (α × NoLonger ts)) (a : α) (rest : List Token) : Prop :=
  ∃ h, x = .ok (a, ⟨rest, h⟩)

section Infix

variable {level : Level} {left right e : Expr}

/-- All infix levels are parsed in one way: a tighter operand, then a chain of operations. -/
theorem expression_eq_chain (hl : level.Infix) : expression finish level ts = (do
    let (left, r) ← expression finish level.tighter ts
    let (e, r') ← chain finish level left r.1
    return (e, r.upTo r')) := by
  rcases hl with rfl | rfl | rfl | rfl | rfl <;> rw [expression]

/-- An infix expression is taken as far as its chain goes on. -/
theorem takes_infix (hl : level.Infix) (h : Takes (expression finish level.tighter ts) left mid)
    (h' : Continues (chain finish level left mid) e rest) :
    Takes (expression finish level ts) e rest := by
  obtain ⟨hlt, h⟩ := h
  obtain ⟨hlt', h'⟩ := h'
  apply Exists.intro
  rw [expression_eq_chain hl, h]
  simp only [ok_bind]
  rw [h']
  rfl

/-- A chain ends where no operator of the level comes next. -/
theorem continues_stop (hl : level.Infix) (h : Stops level (peek ts)) :
    Continues (chain finish level left ts) left ts := by
  -- the end of the tokens is read as the end of the file, which is no operator
  cases ts with
  | nil =>
    apply Exists.intro
    rw [chain]
    rfl
  | cons t ts =>
    apply Exists.intro
    rw [chain, show level.operator? t.kind = none from h.operator? hl]
    rfl

/-- **A chain associates to the left**: the operation taken so far is the left operand of the next
    one. -/
theorem continues_operator {op : BinaryOp} {k : TokenKind} (hop : level.operator? k = some op)
    (h : Takes (expression finish level.tighter ts) right mid)
    (h' : Continues (chain finish level (.binary op left right) mid) e rest) :
    Continues (chain finish level left (⟨k, l⟩ :: ts)) e rest := by
  obtain ⟨hlt, h⟩ := h
  obtain ⟨hlt', h'⟩ := h'
  apply Exists.intro
  rw [chain, hop]
  simp only [Shorter.tail]
  rw [h]
  simp only [ok_bind, Shorter.trans]
  rw [h']
  rfl

end Infix

/-! ## Arguments -/

section Arguments

variable {e : Expr} {args : List Expr}

/-- A call without arguments. -/
theorem takes_arguments_nil :
    Takes (arguments finish (⟨.mark .leftParen, l⟩ :: ⟨.mark .rightParen, l'⟩ :: rest)) []
      rest := by
  apply Exists.intro
  rw [arguments]
  rfl

/-- Behind the opening parenthesis a list of arguments is taken, unless it is closed at once. -/
theorem takes_arguments (h : Takes (argumentList finish ts) args rest)
    (hts : peek ts ≠ .mark .rightParen) :
    Takes (arguments finish (⟨.mark .leftParen, l⟩ :: ts)) args rest := by
  obtain ⟨hlt, h⟩ := h
  apply Exists.intro
  rw [arguments]
  simp only [expect_cons, ok_bind, Shorter.tail, accept?_of_ne hts]
  rw [h]
  rfl

/-- The last argument is the one with the closing parenthesis behind it, which is taken too. -/
theorem takes_argumentList_last
    (h : Takes (expression finish .ternary ts) e (⟨.mark .rightParen, l⟩ :: rest)) :
    Takes (argumentList finish ts) [e] rest := by
  obtain ⟨hlt, h⟩ := h
  apply Exists.intro
  rw [argumentList, h]
  rfl

/-- A comma behind an argument asks for another one. -/
theorem takes_argumentList
    (h : Takes (expression finish .ternary ts) e (⟨.mark .comma, l⟩ :: mid))
    (h' : Takes (argumentList finish mid) args rest) :
    Takes (argumentList finish ts) (e :: args) rest := by
  obtain ⟨hlt, h⟩ := h
  obtain ⟨hlt', h'⟩ := h'
  apply Exists.intro
  rw [argumentList, h]
  simp only [ok_bind, accept?_cons, Shorter.tail, Shorter.trans]
  rw [h']
  rfl

end Arguments

end ActorScript.Parser
