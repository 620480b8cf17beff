/-
  What is taken can be derived.

  A parser that succeeds has taken tokens from the front of its input, and these are a phrase of
  the grammar.  There is one lemma for each parser, with the cases of the parser.  For the parsers
  of tokens it says what the input starts with, for those of the parts of a script that the part
  can be derived.

  One parser does not follow the grammar step by step: it takes a minus sign and the number behind
  it together, and the grammar has them as an operator and its operand (`of_unary`).
-/
import ActorScript.Proofs.Grammar
import ActorScript.Proofs.Layout
import ActorScript.Proofs.Taking

namespace ActorScript.Parser

open Grammar Phrase

variable {α : Type} {finish : Location} {ts rest : List Token} {l : Location}

/-! ## Tokens that were taken -/

/-- An accepted kind was the kind of the first token. -/
theorem of_accept? {k : TokenKind} {r : Shorter ts} (h : accept? k ts = some r) :
    ∃ l, ts = ⟨k, l⟩ :: r.1 := by
  cases ts with
  | nil => cases h
  | cons t ts =>
    rw [accept?] at h
    split at h
    · next hk =>
      cases h
      cases hk
      exact ⟨t.location, rfl⟩
    · cases h

/-- An expected kind was the kind of the first token, or the parser would have failed. -/
theorem of_expect {k : TokenKind} {r : Shorter ts} (h : expect finish k ts = .ok r) :
    ∃ l, ts = ⟨k, l⟩ :: r.1 := by
  rw [expect] at h
  split at h
  · next hr =>
    cases h
    exact of_accept? hr
  · cases h

/-- An expected name was that of the first token. -/
theorem of_expectIdent {name : String} {r : Shorter ts}
    (h : expectIdent finish ts = .ok (name, r)) : ∃ l, ts = ⟨.ident name, l⟩ :: r.1 := by
  unfold expectIdent at h
  split at h
  · cases h
    exact ⟨_, rfl⟩
  · cases h

/-- The key of a register is an identifier or a string. -/
theorem of_registerName {key : String} {r : Shorter ts} (h : registerName l ts = .ok (key, r)) :
    (ident ||| string).Holds derived ts r.1 := by
  unfold registerName at h
  split at h
  · cases h
    exact .inl (holds_ident.mpr ⟨_, _, rfl⟩)
  · cases h
    exact .inr (holds_string.mpr ⟨_, _, rfl⟩)
  · cases h

/-- The name of a register space and the key in brackets behind it are a register. -/
theorem of_registerKey {name : String} {register : Register} {r : Shorter ts}
    (h : registerKey finish name l ts = .ok (register, r)) (l' : Location) :
    Phrase.register.Holds derived (⟨.ident name, l'⟩ :: ts) r.1 := by
  rw [registerKey] at h
  split at h
  · next s hs =>
    obtain ⟨r₁, h₁, h⟩ := bind_eq_ok h
    obtain ⟨⟨key, r₂⟩, h₂, h⟩ := bind_eq_ok h
    obtain ⟨r₃, h₃, h⟩ := bind_eq_ok h
    cases h
    rw [← RegisterSpace.keyword_of_ofKeyword? hs]
    exact ⟨_, holds_space.mpr ⟨_, _, rfl⟩, _, holds_mark.mpr (of_expect h₁), _,
      of_registerName h₂, holds_mark.mpr (of_expect h₃)⟩
  · cases h

/-- **The five levels of infix operators** have one rule: operands of the tighter level with an
    operator between each two. -/
theorem rule_eq_separated {level : Level} (hl : level.Infix) :
    rule (.expression level) = separated level.extensions (.expression level.tighter) := by
  rcases hl with rfl | rfl | rfl | rfl | rfl <;> rfl

/-! ## What is taken can be derived -/

/-- An operator of a level with its right operand. -/
abbrev operation (level : Level) : List Token → List Token → Prop :=
  (oneOf level.extensions ++ part (.expression level.tighter)).Holds derived

/-- A token that a level takes for an operator is one of its marks. -/
theorem of_operator? {level : Level} (hl : level.Infix) {t : Token} {op : BinaryOp}
    (h : level.operator? t.kind = some op) :
    (oneOf level.extensions).Holds derived (t :: rest) rest := by
  have hne : ¬ level.operator? t.kind = none := by simp [h]
  obtain ⟨m, hm, hk⟩ : ∃ m ∈ level.extensions, t.kind = .mark m := by
    simpa [Level.operator?_eq_none hl] using hne
  exact ⟨t, rfl, m, hm, hk⟩

/-- **What a unary expression starts with**: a minus sign and a number, an operator and its operand,
    or a primary expression.  The first case is the one that the grammar does not have. -/
theorem of_unary {e : Expr} {r : Shorter ts} (h : expression finish .unary ts = .ok (e, r)) :
    (∃ l n l', ts = ⟨.mark .minus, l⟩ :: ⟨.int n, l'⟩ :: r.1) ∨
    (∃ m, (m = .minus ∨ m = .bang) ∧ ∃ l ts' e', ts = ⟨.mark m, l⟩ :: ts' ∧
      Takes (expression finish .unary ts') e' r.1) ∨
    Takes (expression finish .primary ts) e r.1 := by
  unfold expression at h
  dsimp only at h
  split at h
  · cases h
    exact .inl ⟨_, _, _, rfl⟩
  · obtain ⟨⟨operand, r₁⟩, h₁, h⟩ := bind_eq_ok h
    cases h
    exact .inr (.inl ⟨_, .inl rfl, _, _, operand, rfl, r₁.2, h₁⟩)
  · obtain ⟨⟨operand, r₁⟩, h₁, h⟩ := bind_eq_ok h
    cases h
    exact .inr (.inl ⟨_, .inr rfl, _, _, operand, rfl, r₁.2, h₁⟩)
  · exact .inr (.inr ⟨r.2, h⟩)

/-- **What a primary expression is**: a literal, an expression in parentheses, a call, a register or
    a name.  The parser decides by the second token which of the last three it has. -/
theorem of_primary {e : Expr} {r : Shorter ts} (h : expression finish .primary ts = .ok (e, r)) :
    (int ||| string ||| keyword .trueWord ||| keyword .falseWord).Holds derived ts r.1 ∨
    (∃ l ts' e' l', ts = ⟨.mark .leftParen, l⟩ :: ts' ∧
      Takes (expression finish .ternary ts') e' (⟨.mark .rightParen, l'⟩ :: r.1)) ∨
    (∃ name l ts' args, ts = ⟨.ident name, l⟩ :: ts' ∧ Takes (arguments finish ts') args r.1) ∨
    Phrase.register.Holds derived ts r.1 ∨ ident.Holds derived ts r.1 := by
  unfold expression at h
  dsimp only at h
  split at h
  · cases h
    simp [Shorter.tail]
  · cases h
    simp [Shorter.tail]
  · cases h
    simp [Shorter.tail]
  · cases h
    simp [Shorter.tail]
  · obtain ⟨⟨inner, r₁⟩, h₁, h⟩ := bind_eq_ok h
    obtain ⟨r₂, h₂, h⟩ := bind_eq_ok h
    cases h
    obtain ⟨l', e₂⟩ := of_expect h₂
    exact .inr (.inl ⟨_, _, inner, l', rfl, e₂ ▸ ⟨r₁.2, h₁⟩⟩)
  · split at h
    · obtain ⟨⟨args, r₁⟩, h₁, h⟩ := bind_eq_ok h
      cases h
      exact .inr (.inr (.inl ⟨_, _, _, args, rfl, r₁.2, h₁⟩))
    · obtain ⟨⟨register, r₁⟩, h₁, h⟩ := bind_eq_ok h
      cases h
      exact .inr (.inr (.inr (.inl (of_registerKey h₁ _))))
    · obtain ⟨⟨register, r₁⟩, h₁, h⟩ := bind_eq_ok h
      cases h
      exact .inr (.inr (.inr (.inl (of_registerKey h₁ _))))
    · cases h
      exact .inr (.inr (.inr (.inr (holds_ident.mpr ⟨_, _, rfl⟩))))
  · cases h

mutual

/-- **An expression that is taken** is an expression of the grammar, of the level it was asked for.
    -/
theorem derives_expression (finish : Location) (level : Level) (ts : List Token) {e : Expr}
    {r : Shorter ts} (h : expression finish level ts = .ok (e, r)) :
    Derives (.part (.expression level)) ts r.1 := by
  apply derives_of_rule
  -- the five infix levels are one case, and the other four are looked at one by one
  by_cases hl : level.Infix
  · rw [expression_eq_chain hl] at h
    obtain ⟨⟨left, r₁⟩, h₁, h⟩ := bind_eq_ok h
    obtain ⟨⟨e', r₂⟩, h₂, h⟩ := bind_eq_ok h
    cases h
    rw [rule_eq_separated hl]
    have hrank := hl.rank_tighter
    exact ⟨_, derives_expression finish level.tighter ts h₁, derives_chain finish hl left r₁.1 h₂⟩
  · match _hc : level, h with
    | .ternary, h =>
      rw [expression] at h
      obtain ⟨⟨condition, r₁⟩, h₁, h⟩ := bind_eq_ok h
      refine ⟨_, derives_expression finish .or ts h₁, ?_⟩
      -- what is behind the condition decides whether there are branches
      simp only at h
      split at h
      · cases h
        exact .inl rfl
      · next r₂ h₂ =>
        obtain ⟨⟨whenTrue, r₃⟩, h₃, h⟩ := bind_eq_ok h
        obtain ⟨r₄, h₄, h⟩ := bind_eq_ok h
        obtain ⟨⟨whenFalse, r₅⟩, h₅, h⟩ := bind_eq_ok h
        cases h
        exact .inr ⟨_, holds_mark.mpr (of_accept? h₂),
          _, derives_expression finish .ternary (r₁.trans r₂).1 h₃,
          _, holds_mark.mpr (of_expect h₄),
          derives_expression finish .ternary ((r₁.trans r₂).trans (r₃.trans r₄)).1 h₅⟩
    | .not, h =>
      rw [expression] at h
      split at h
      · exact .inr (derives_expression finish .equality ts h)
      · next r₁ h₁ =>
        obtain ⟨⟨operand, r₂⟩, h₂, h⟩ := bind_eq_ok h
        cases h
        exact .inl ⟨_, holds_mark.mpr (of_accept? h₁), derives_expression finish .not _ h₂⟩
    | .unary, h =>
      rcases of_unary h with ⟨l, n, l', hts⟩ | ⟨m, hm, l, ts', e', hts, hlt, h'⟩ | ⟨hlt, h'⟩
      · -- a minus sign and a number are taken together, and are an operator and its operand
        exact .inl (.inl ⟨_, holds_mark.mpr ⟨_, hts⟩,
          derives_of_rule (.inr (derives_of_rule (by simp [rule])))⟩)
      · have hoperand := derives_expression finish .unary ts' h'
        rcases hm with rfl | rfl
        · exact .inl (.inl ⟨_, holds_mark.mpr ⟨_, hts⟩, hoperand⟩)
        · exact .inl (.inr ⟨_, holds_mark.mpr ⟨_, hts⟩, hoperand⟩)
      · exact .inr (derives_expression finish .primary ts h')
    | .primary, h =>
      rcases of_primary h with hlit | ⟨l, ts', e', l', hts, hlt, h'⟩ |
        ⟨name, l, ts', args, hts, hlt, h'⟩ | hregister | hident
      · exact .inl (.inl (.inl (.inl hlit)))
      · exact .inl (.inl (.inl (.inr ⟨_, holds_mark.mpr ⟨_, hts⟩, _,
          derives_expression finish .ternary ts' h', holds_mark.mpr ⟨_, rfl⟩⟩)))
      · exact .inl (.inl (.inr ⟨_, holds_ident.mpr ⟨_, _, hts⟩, derives_arguments finish ts' h'⟩))
      · exact .inl (.inr hregister)
      · exact .inr hident
    | .or, _ | .and, _ | .equality, _ | .additive, _ | .multiplicative, _ =>
      exact absurd (by simp [Level.Infix]) hl
termination_by (ts.length, level.rank)
decreasing_by
  -- there are fewer tokens, or as many and a tighter level
  all_goals first
    | exact Shorter.lex_left _ _ _
    | (apply Prod.Lex.right; subst_vars; first | decide | omega)
    | (apply Prod.Lex.left; simp [hts])

/-- Behind its first operand an expression goes on with operations of its level, any number of them.
    -/
theorem derives_chain (finish : Location) {level : Level} (hl : level.Infix) (left : Expr)
    (ts : List Token) {e : Expr} {r : NoLonger ts}
    (h : chain finish level left ts = .ok (e, r)) :
    Relation.ReflTransGen (operation level) ts r.1 := by
  match hts : ts, r, h with
  | [], r, h =>
    rw [chain] at h
    cases h
    exact .refl
  | t :: ts', r, h =>
    rw [chain] at h
    split at h
    · cases h
      exact .refl
    · next op hop =>
      obtain ⟨⟨right, r₁⟩, h₁, h⟩ := bind_eq_ok h
      obtain ⟨⟨e', r₂⟩, h₂, h⟩ := bind_eq_ok h
      cases h
      exact .head ⟨_, of_operator? hl hop, derives_expression finish level.tighter ts' h₁⟩
        (derives_chain finish hl _ ((Shorter.tail t ts').trans r₁).1 h₂)
termination_by (ts.length, 0)
decreasing_by
  all_goals subst hts
  · exact Shorter.lex_left (.tail t ts') _ _
  · exact Shorter.lex_left _ _ _

/-- The arguments of a call stand in parentheses, which may be empty. -/
theorem derives_arguments (finish : Location) (ts : List Token) {args : List Expr}
    {r : Shorter ts} (h : arguments finish ts = .ok (args, r)) :
    Derives (.part .arguments) ts r.1 := by
  rw [arguments] at h
  obtain ⟨r₁, h₁, h⟩ := bind_eq_ok h
  apply derives_of_rule
  split at h
  · next r₂ h₂ =>
    cases h
    exact ⟨_, holds_mark.mpr (of_expect h₁), _, .inl rfl, holds_mark.mpr (of_accept? h₂)⟩
  · obtain ⟨⟨args', r₂⟩, h₂, h⟩ := bind_eq_ok h
    cases h
    obtain ⟨mid, hargs, hmid⟩ := derives_argumentList finish r₁.1 h₂
    exact ⟨_, holds_mark.mpr (of_expect h₁), mid, .inr hargs, holds_mark.mpr hmid⟩
termination_by (ts.length, 9)
decreasing_by exact Shorter.lex_left _ _ _

/-- One argument or more, with commas between them, up to the closing parenthesis.  The parser takes
    that one along, so it is the first token behind the list. -/
theorem derives_argumentList (finish : Location) (ts : List Token) {args : List Expr}
    {r : Shorter ts} (h : argumentList finish ts = .ok (args, r)) :
    ∃ mid, (separated [.comma] (.expression .ternary)).Holds derived ts mid ∧
      ∃ l, mid = ⟨.mark .rightParen, l⟩ :: r.1 := by
  rw [argumentList] at h
  obtain ⟨⟨arg, r₁⟩, h₁, h⟩ := bind_eq_ok h
  have harg := derives_expression finish .ternary ts h₁
  simp only at h
  split at h
  · next r₂ h₂ =>
    obtain ⟨⟨args', r₃⟩, h₃, h⟩ := bind_eq_ok h
    cases h
    obtain ⟨l, e₂⟩ := of_accept? h₂
    obtain ⟨mid, ⟨mid', hfirst, hothers⟩, hmid⟩ := derives_argumentList finish (r₁.trans r₂).1 h₃
    -- the rule has the comma in front of each further argument, the parser behind each but the last
    have hcomma : (oneOf [.comma]).Holds derived r₁.1 r₂.1 :=
      holds_oneOf.mpr ⟨_, List.mem_singleton_self _, l, e₂⟩
    exact ⟨mid, ⟨_, harg, .head ⟨_, hcomma, hfirst⟩ hothers⟩, hmid⟩
  · obtain ⟨r₂, h₂, h⟩ := bind_eq_ok h
    cases h
    exact ⟨_, ⟨_, harg, .refl⟩, of_expect h₂⟩
termination_by (ts.length, 9)
decreasing_by
  · exact Prod.Lex.right _ (by decide)
  · exact Shorter.lex_left _ _ _

end

/-! ## Statements -/

/-- A call, an assignment to a name and an assignment to a register are told apart by the token
    behind the first name. -/
theorem holds_simpleStatement {st : Statement} {r : Shorter ts}
    (h : simpleStatement finish ts = .ok (st, r)) :
    Phrase.simpleStatement.Holds derived ts r.1 := by
  rw [simpleStatement] at h
  obtain ⟨⟨name, r₁⟩, h₁, h⟩ := bind_eq_ok h
  obtain ⟨l, hts⟩ := of_expectIdent h₁
  simp only at h
  split at h
  · obtain ⟨⟨args, r₂⟩, h₂, h⟩ := bind_eq_ok h
    obtain ⟨r₃, h₃, h⟩ := bind_eq_ok h
    cases h
    exact .inl (.inl ⟨_, holds_ident.mpr ⟨_, _, hts⟩, _, derives_arguments finish _ h₂,
      holds_mark.mpr (of_expect h₃)⟩)
  · obtain ⟨⟨register, r₂⟩, h₂, h⟩ := bind_eq_ok h
    obtain ⟨r₃, h₃, h⟩ := bind_eq_ok h
    obtain ⟨⟨value, r₄⟩, h₄, h⟩ := bind_eq_ok h
    obtain ⟨r₅, h₅, h⟩ := bind_eq_ok h
    cases h
    have hregister := of_registerKey h₂ l
    rw [← hts] at hregister
    exact .inr ⟨_, hregister, _, holds_mark.mpr (of_expect h₃), _,
      derives_expression finish _ _ h₄, holds_mark.mpr (of_expect h₅)⟩
  · obtain ⟨r₂, h₂, h⟩ := bind_eq_ok h
    obtain ⟨⟨value, r₃⟩, h₃, h⟩ := bind_eq_ok h
    obtain ⟨r₄, h₄, h⟩ := bind_eq_ok h
    cases h
    exact .inl (.inr ⟨_, holds_ident.mpr ⟨_, _, hts⟩, _, holds_mark.mpr (of_expect h₂), _,
      derives_expression finish _ _ h₃, holds_mark.mpr (of_expect h₄)⟩)
  · cases h

mutual

/-- **A block that is taken** is a block of the grammar, whatever blocks are nested in it. -/
theorem derives_block (finish : Location) (base : Nat) (ts : List Token) {chunk : Chunk}
    {r : Shorter ts} (h : block finish base ts = .ok (chunk, r)) :
    Derives (.part .block) ts r.1 := by
  rw [block] at h
  obtain ⟨r₁, h₁, h⟩ := bind_eq_ok h
  obtain ⟨⟨body, nested, r₂⟩, h₂, h⟩ := bind_eq_ok h
  cases h
  obtain ⟨mid, hstatements, hmid⟩ := derives_statements finish _ (base + 1) r₁.1 h₂
  exact derives_of_rule ⟨_, holds_mark.mpr (of_expect h₁), mid, hstatements, holds_mark.mpr hmid⟩
termination_by (ts.length, 0)
decreasing_by exact Shorter.lex_left _ _ _

/-- The statements of a block, up to its closing brace. -/
theorem derives_statements (finish start : Location) (base : Nat) (ts : List Token) {body : Block}
    {nested : Chunk} {r : Shorter ts}
    (h : statements finish start base ts = .ok (body, nested, r)) :
    ∃ mid, Relation.ReflTransGen (Derives (.part .statement)) ts mid ∧
      ∃ l, mid = ⟨.mark .rightBrace, l⟩ :: r.1 := by
  rw [statements] at h
  split at h
  · next r₁ h₁ =>
    cases h
    exact ⟨ts, .refl, of_accept? h₁⟩
  · split at h
    · cases h
    · obtain ⟨⟨first, nested₁, r₁⟩, h₁, h⟩ := bind_eq_ok h
      obtain ⟨⟨others, nested₂, r₂⟩, h₂, h⟩ := bind_eq_ok h
      cases h
      obtain ⟨mid, hothers, hmid⟩ :=
        derives_statements finish start (base + nested₁.length) r₁.1 h₂
      exact ⟨mid, .head (derives_statement finish base ts h₁) hothers, hmid⟩
termination_by (ts.length, 2)
decreasing_by
  · exact Shorter.lex_left _ _ _
  · exact Prod.Lex.right _ (by decide)

/-- A statement is an `if`, or a simple statement. -/
theorem derives_statement (finish : Location) (base : Nat) (ts : List Token) {st : Statement}
    {nested : Chunk} {r : Shorter ts} (h : statement finish base ts = .ok (st, nested, r)) :
    Derives (.part .statement) ts r.1 := by
  rw [statement] at h
  split at h
  · exact derives_of_rule (.inl (derives_ifStatement finish base ts h))
  · obtain ⟨⟨st', r₁⟩, h₁, h⟩ := bind_eq_ok h
    cases h
    exact derives_of_rule (.inr (holds_simpleStatement h₁))
termination_by (ts.length, 1)
decreasing_by exact Prod.Lex.right _ (by decide)

/-- Behind `else` there is another `if` or a block; both are of the one rule. -/
theorem derives_ifStatement (finish : Location) (base : Nat) (ts : List Token) {st : Statement}
    {nested : Chunk} {r : Shorter ts} (h : ifStatement finish base ts = .ok (st, nested, r)) :
    Derives (.part .ifStatement) ts r.1 := by
  rw [ifStatement] at h
  obtain ⟨r₁, h₁, h⟩ := bind_eq_ok h
  obtain ⟨r₂, h₂, h⟩ := bind_eq_ok h
  obtain ⟨⟨condition, r₃⟩, h₃, h⟩ := bind_eq_ok h
  obtain ⟨r₄, h₄, h⟩ := bind_eq_ok h
  obtain ⟨⟨thenChunk, r₅⟩, h₅, h⟩ := bind_eq_ok h
  have hthen := derives_block finish base (r₁.trans (r₂.trans (r₃.trans r₄))).1 h₅
  apply derives_of_rule
  refine ⟨_, holds_keyword.mpr (of_expect h₁), _, holds_mark.mpr (of_expect h₂), _,
    derives_expression finish _ _ h₃, _, holds_mark.mpr (of_expect h₄), _, hthen, ?_⟩
  simp only at h
  split at h
  · cases h
    exact .inl rfl
  · next r₆ h₆ =>
    -- `else if` is another `if`, so the parser looks at one token more before it takes a block
    have helse := holds_keyword (R := derived).mpr (of_accept? h₆)
    split at h
    · obtain ⟨⟨inner, nested', r₇⟩, h₇, h⟩ := bind_eq_ok h
      cases h
      exact .inr ⟨_, helse, .inl (derives_ifStatement finish _
        (((r₁.trans (r₂.trans (r₃.trans r₄))).trans r₅).trans r₆).1 h₇)⟩
    · obtain ⟨⟨elseChunk, r₇⟩, h₇, h⟩ := bind_eq_ok h
      cases h
      exact .inr ⟨_, helse, .inr (derives_block finish _
        (((r₁.trans (r₂.trans (r₃.trans r₄))).trans r₅).trans r₆).1 h₇)⟩
termination_by (ts.length, 0)
decreasing_by all_goals exact Shorter.lex_left _ _ _

end

/-! ## Declarations -/

/-- **A literal that is taken** is a literal of the grammar.  An identifier is one only if it names
    an orientation. -/
theorem derives_literal {v : Value} {r : Shorter ts} (h : literal finish ts = .ok (v, r)) :
    Derives (.part .literal) ts r.1 := by
  apply derives_of_rule
  unfold literal at h
  split at h
  · cases h
    simp [rule, Shorter.tail]
  · cases h
    simp [rule, Shorter.tail, Shorter.trans]
  -- a minus sign without a number behind it is an error
  · cases h
  · cases h
    simp [rule, Shorter.tail]
  · cases h
    simp [rule, Shorter.tail]
  · cases h
    simp [rule, Shorter.tail]
  · split at h
    · next o ho =>
      cases h
      rw [← Orientation.name_of_ofName? ho]
      exact .inr (holds_orientation.mpr ⟨_, _, rfl⟩)
    · cases h
  · cases h

end ActorScript.Parser
