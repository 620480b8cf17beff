/-
  The parsers of scripts come to an end.

  Every parser is compared with its walk (`Follows`), function by function and by induction on the
  depth.  A call on the same tokens is for a level or a function of lower rank, and every other call
  is behind at least one token; there are fewer than ten ranks, so ten levels of depth for every
  token that is left are enough (`expressionsMeet`, `statementsMeet`).

  Hence, for all tokens, no walk that begins with so many levels is cut off, each of them goes
  forward and not past the last token whether it succeeds or fails, and those that find something
  have taken a token (`parsers_progress`).
-/
import Mathlib
import ActorScript.Proofs.Taking
import ActorScript.Proofs.Walks

namespace ActorScript.Parser

open Walk

/-- The ranks of the levels are those below nine; arguments have the rank nine. -/
theorem Level.rank_le (level : Level) : level.rank ≤ 8 := by
  cases level <;> decide

/-- A walk and a parser come to the same from every position for which the depth is enough: ten
    levels for every token that is left, and those of its rank. -/
def Follows {α : Type} (tokens : List Token) (depth rank least : Nat) (w : Walk α)
    (p : List Token → Except Error (α × List Token)) : Prop :=
  ∀ ⦃pos : Nat⦄ ⦃ts : List Token⦄, ts = tokens.drop pos → pos ≤ tokens.length →
    10 * (tokens.length - pos) + rank < depth → Meets tokens pos least (w pos) (p ts)

variable {tokens ts : List Token} {finish : Location} {depth pos : Nat}

/-- No depth at all is enough for no position. -/
theorem follows_zero {α : Type} {rank least : Nat} {w : Walk α}
    {p : List Token → Except Error (α × List Token)} : Follows tokens 0 rank least w p :=
  fun _ _ _ _ h => absurd h (Nat.not_lt_zero _)

/-! ## Expressions -/

/-- The parsers of expressions come to the same as their walks of this depth. -/
structure ExpressionsMeet (tokens : List Token) (finish : Location) (depth : Nat) : Prop where
  expression : ∀ level, Follows tokens depth level.rank 1
    (Walk.expression tokens finish depth level)
    fun ts => (Parser.expression finish level ts).map taken
  chain : ∀ level left, Follows tokens depth 0 0 (Walk.chain tokens finish depth level left)
    fun ts => (Parser.chain finish level left ts).map taken
  arguments : Follows tokens depth 9 1 (Walk.arguments tokens finish depth)
    fun ts => (Parser.arguments finish ts).map taken
  argumentList : Follows tokens depth 9 1 (Walk.argumentList tokens finish depth)
    fun ts => (Parser.argumentList finish ts).map taken

namespace ExpressionsMeet

/-- Behind a token that was taken, a level of any rank may be asked for: the ten levels of depth
    that the token has brought are more than the ranks. -/
theorem anyLevel (h : ExpressionsMeet tokens finish depth) (level : Level)
    (hts : ts = tokens.drop pos) (hend : pos ≤ tokens.length)
    (hdepth : 10 * (tokens.length - pos) + 8 < depth) :
    Meets tokens pos 1 (Walk.expression tokens finish depth level pos)
      ((Parser.expression finish level ts).map taken) :=
  h.expression level hts hend (Nat.lt_of_le_of_lt (Nat.add_le_add_left level.rank_le _) hdepth)

variable (ih : ExpressionsMeet tokens finish depth)

include ih

/-- **A conditional expression**: its condition is one rank lower on the same tokens, and both
    branches are behind a token. -/
theorem follows_ternary :
    Follows tokens (depth + 1) 8 1 (Walk.expression tokens finish (depth + 1) .ternary)
      fun ts => (Parser.expression finish .ternary ts).map taken := by
  intro pos ts hts hend hdepth
  dsimp only
  rw [Walk.expression, Walk.ternary, Parser.expression]
  have hcondition := ih.expression .or hts hend (by show _ + 7 < _; omega)
  refine .bind hcondition (Nat.le_refl _) fun condition r₁ pos₁ h₁ hend₁ hr₁ => ?_
  dsimp only
  -- a question mark is taken by both or by neither
  obtain ⟨hnone, heat⟩ | ⟨r₂, hsome, heat, hr₂, hend₂⟩ :=
    eat_cases (k := .mark .question) (by decide) hr₁
  · rw [bind_of_ok heat, hnone]
    exact .done hr₁ (by omega) hend₁
  · rw [bind_of_ok heat, hsome]
    refine .bind (ih.anyLevel .ternary hr₂ hend₂ (by omega)) (by omega)
      fun whenTrue r₃ pos₃ h₃ hend₃ hr₃ => ?_
    refine .skip (meets_expect (by decide) hr₃ hend₃) (by omega) fun r₄ pos₄ h₄ hend₄ hr₄ => ?_
    refine .bind (ih.anyLevel .ternary hr₄ hend₄ (by omega)) (by omega)
      fun whenFalse r₅ pos₅ h₅ hend₅ hr₅ => ?_
    exact .done hr₅ (by omega) hend₅

/-- A negation is behind its mark, and what is not negated is one rank lower. -/
theorem follows_not :
    Follows tokens (depth + 1) 5 1 (Walk.expression tokens finish (depth + 1) .not)
      fun ts => (Parser.expression finish .not ts).map taken := by
  intro pos ts hts hend hdepth
  dsimp only
  rw [Walk.expression, Walk.negation, Parser.expression]
  obtain ⟨hnone, heat⟩ | ⟨r₁, hsome, heat, hr₁, hend₁⟩ :=
    eat_cases (k := .mark .bang) (by decide) hts
  · rw [bind_of_ok heat, hnone]
    exact ih.expression .equality hts hend (by show _ + 4 < _; omega)
  · rw [bind_of_ok heat, hsome]
    refine .bind (ih.anyLevel .not hr₁ hend₁ (by omega)) (by omega)
      fun operand r₂ pos₂ h₂ hend₂ hr₂ => ?_
    exact .done hr₂ (by omega) hend₂

/-- **All infix levels at once**: the first operand is one rank lower, and the chain behind it
    begins behind that operand. -/
theorem follows_infix {level : Level} (hl : level.Infix) :
    Follows tokens (depth + 1) level.rank 1 (Walk.expression tokens finish (depth + 1) level)
      fun ts => (Parser.expression finish level ts).map taken := by
  intro pos ts hts hend hdepth
  have hwalk : Walk.expression tokens finish (depth + 1) level = joined
      (Walk.expression tokens finish depth level.tighter)
      (Walk.chain tokens finish depth level) := by
    rcases hl with rfl | rfl | rfl | rfl | rfl <;> rw [Walk.expression]
  have hrank := hl.rank_tighter
  dsimp only
  rw [hwalk, joined, expression_eq_chain hl]
  refine .bind (ih.expression level.tighter hts hend (by omega)) (Nat.le_refl _)
    fun left r₁ pos₁ h₁ hend₁ hr₁ => ?_
  exact .last (ih.chain level left hr₁ hend₁ (by omega)) (by omega) (by omega) fun _ => rfl

/-- A chain may take nothing, so it has the lowest rank.  Its own tail is behind an operator and an
    operand. -/
theorem follows_chain (level : Level) (left : Expr) :
    Follows tokens (depth + 1) 0 0 (Walk.chain tokens finish (depth + 1) level left)
      fun ts => (Parser.chain finish level left ts).map taken := by
  intro pos ts hts hend hdepth
  dsimp only
  rw [Walk.chain, Parser.chain.eq_def, bind_of_ok (peek_eq hts)]
  cases ts with
  | nil =>
    -- behind the last token a parser sees the end of the file, which is no operator
    have hnone : level.operator? .endOfFile = none := by cases level <;> rfl
    dsimp only [Parser.peek]
    rw [hnone]
    exact .done hts (Nat.le_refl _) hend
  | cons t rest =>
    obtain ⟨hadvance, hrest, hend'⟩ := advance_cons hts
    dsimp only [Parser.peek]
    cases level.operator? t.kind with
    | none => exact .done hts (Nat.le_refl _) hend
    | some op =>
      dsimp only
      rw [bind_of_ok hadvance]
      refine .bind (ih.anyLevel level.tighter hrest hend' (by omega)) (by omega)
        fun right r₁ pos₁ h₁ hend₁ hr₁ => ?_
      exact .last (ih.chain level _ hr₁ hend₁ (by omega)) (by omega) (by omega) fun _ => rfl

/-- An operator that was taken, and its operand. -/
theorem meets_operand (op : UnaryOp) (t : Token) {rest : List Token}
    (hrest : rest = tokens.drop (pos + 1)) (hend : pos + 1 ≤ tokens.length)
    (hdepth : 10 * (tokens.length - pos) < depth + 1) : Meets tokens pos 1
      ((Walk.expression tokens finish depth .unary >>= fun e => pure (.unary op e)) (pos + 1))
      ((Parser.expression finish .unary rest >>= fun x =>
        pure (Expr.unary op x.1, (Shorter.tail t rest).trans x.2)).map taken) := by
  refine .bind (ih.anyLevel .unary hrest hend (by omega)) (by omega)
    fun operand r₁ pos₁ h₁ hend₁ hr₁ => ?_
  exact .done hr₁ (by omega) hend₁

/-- A sign, with the number that may stand behind it, or a primary expression. -/
theorem follows_unary :
    Follows tokens (depth + 1) 1 1 (Walk.expression tokens finish (depth + 1) .unary)
      fun ts => (Parser.expression finish .unary ts).map taken := by
  intro pos ts hts hend hdepth
  dsimp only
  rw [Walk.expression, Walk.unary, Parser.expression.eq_def, bind_of_ok (peek_eq hts)]
  have hprimary := ih.expression .primary hts hend (by show _ + 0 < _; omega)
  cases ts with
  | nil => exact hprimary
  | cons t rest =>
    obtain ⟨k, l⟩ := t
    obtain ⟨hadvance, hrest, hend'⟩ := advance_cons hts
    cases k with
    | mark m =>
      cases m with
      | minus =>
        dsimp only [Parser.peek]
        rw [bind_of_ok hadvance, bind_of_ok (peek_eq hrest)]
        -- a number behind the sign is taken with it, and every other operand is a walk of its own
        have hnegate := ih.meets_operand .negate ⟨.mark .minus, l⟩ hrest hend' (by omega)
        cases rest with
        | nil => exact hnegate
        | cons t' rest' =>
          obtain ⟨k', l'⟩ := t'
          obtain ⟨hadvance', hrest', hend''⟩ := advance_cons hrest
          cases k' with
          | int n =>
            dsimp only [Parser.peek]
            rw [bind_of_ok hadvance']
            exact .done hrest' (by omega) hend''
          | _ => exact hnegate
      | bang =>
        dsimp only [Parser.peek]
        rw [bind_of_ok hadvance]
        exact ih.meets_operand .not ⟨.mark .bang, l⟩ hrest hend' (by omega)
      | _ => exact hprimary
    | _ => exact hprimary

/-- The list of arguments is behind the opening parenthesis. -/
theorem follows_arguments :
    Follows tokens (depth + 1) 9 1 (Walk.arguments tokens finish (depth + 1))
      fun ts => (Parser.arguments finish ts).map taken := by
  intro pos ts hts hend hdepth
  dsimp only
  rw [Walk.arguments, Parser.arguments]
  refine .skip (meets_expect (by decide) hts hend) (Nat.le_refl _) fun r₁ pos₁ h₁ hend₁ hr₁ => ?_
  obtain ⟨hnone, heat⟩ | ⟨r₂, hsome, heat, hr₂, hend₂⟩ :=
    eat_cases (k := .mark .rightParen) (by decide) hr₁
  · rw [bind_of_ok heat, hnone]
    exact .last (ih.argumentList hr₁ hend₁ (by omega)) (by omega) (by omega) fun _ => rfl
  · rw [bind_of_ok heat, hsome]
    exact .done hr₂ (by omega) hend₂

/-- An argument has a lower rank, and the list goes on behind a comma. -/
theorem follows_argumentList :
    Follows tokens (depth + 1) 9 1 (Walk.argumentList tokens finish (depth + 1))
      fun ts => (Parser.argumentList finish ts).map taken := by
  intro pos ts hts hend hdepth
  dsimp only
  rw [Walk.argumentList, Parser.argumentList]
  refine .bind (ih.anyLevel .ternary hts hend (by omega)) (Nat.le_refl _)
    fun arg r₁ pos₁ h₁ hend₁ hr₁ => ?_
  dsimp only
  obtain ⟨hnone, heat⟩ | ⟨r₂, hsome, heat, hr₂, hend₂⟩ :=
    eat_cases (k := .mark .comma) (by decide) hr₁
  · rw [bind_of_ok heat, hnone]
    refine .skip (meets_expect (by decide) hr₁ hend₁) (by omega) fun r₂ pos₂ h₂ hend₂ hr₂ => ?_
    exact .done hr₂ (by omega) hend₂
  · rw [bind_of_ok heat, hsome]
    refine .bind (ih.argumentList hr₂ hend₂ (by omega)) (by omega)
      fun args r₃ pos₃ h₃ hend₃ hr₃ => ?_
    exact .done hr₃ (by omega) hend₃

/-- A call, a register or a symbol, which all start with an identifier. -/
theorem meets_identifier {name : String} {l : Location} {rest : List Token}
    (hts : ⟨.ident name, l⟩ :: rest = tokens.drop pos)
    (hdepth : 10 * (tokens.length - pos) < depth + 1) :
    Meets tokens pos 1 (Walk.expression tokens finish (depth + 1) .primary pos)
      ((Parser.expression finish .primary (⟨.ident name, l⟩ :: rest)).map taken) := by
  obtain ⟨hadvance, hrest, hend⟩ := advance_cons hts
  rw [Walk.expression, Walk.primary, Parser.expression.eq_def, bind_of_ok (here_eq hts),
    bind_of_ok (peek_eq hts), Parser.peek]
  dsimp only
  rw [bind_of_ok hadvance, bind_of_ok (peek_eq hrest), bind_of_ok (peekBehind_eq hrest)]
  have hword : Meets tokens pos 1 ((pure (word name) : Walk Expr) (pos + 1))
    (.ok (word name, rest)) := .done hrest (Nat.le_refl _) hend
  have hregister : Meets tokens pos 1
      ((Walk.registerKey tokens finish name l >>=
        fun register => pure (.register register)) (pos + 1))
      ((Parser.registerKey finish name l rest >>= fun x =>
        pure (Expr.register x.1, (Shorter.tail ⟨.ident name, l⟩ rest).trans x.2)).map taken) := by
    refine .bind (meets_registerKey hrest hend) (by omega)
      fun register r₁ pos₁ h₁ hend₁ hr₁ => ?_
    exact .done hr₁ (by omega) hend₁
  -- which of them it is depends on the kinds of the next two tokens only
  generalize Parser.peek rest = k, Parser.peek rest.tail = k'
  cases k with
  | mark m =>
    cases m with
    | leftParen =>
      refine .bind (ih.arguments hrest hend (by omega)) (by omega)
        fun args r₁ pos₁ h₁ hend₁ hr₁ => ?_
      exact .done hr₁ (by omega) hend₁
    | leftBracket =>
      cases k' with
      | ident key => exact hregister
      | string key => exact hregister
      | _ => exact hword
    | _ => exact hword
  | _ => exact hword

/-- A primary expression ends what is on the same tokens: everything in it is behind its first
    token. -/
theorem follows_primary :
    Follows tokens (depth + 1) 0 1 (Walk.expression tokens finish (depth + 1) .primary)
      fun ts => (Parser.expression finish .primary ts).map taken := by
  intro pos ts hts hend hdepth
  dsimp only
  by_cases hident : ∃ name l rest, ts = ⟨.ident name, l⟩ :: rest
  · obtain ⟨name, l, rest, rfl⟩ := hident
    exact ih.meets_identifier hts hdepth
  rw [Walk.expression, Walk.primary, Parser.expression.eq_def, bind_of_ok (here_eq hts),
    bind_of_ok (peek_eq hts)]
  have hfail : Meets tokens pos 1 ((Walk.unexpected tokens finish .expression : Walk Expr) pos)
      (.error (Parser.unexpected finish .expression ts)) :=
    meets_unexpected hts (Nat.le_refl _) hend
  cases ts with
  | nil => exact hfail
  | cons t rest =>
    obtain ⟨k, l⟩ := t
    obtain ⟨hadvance, hrest, hend'⟩ := advance_cons hts
    have hdone : ∀ {e : Expr}, Meets tokens pos 1 ((advance tokens >>= fun _ => pure e) pos)
        (.ok (e, rest)) := by
      intro e
      rw [bind_of_ok hadvance]
      exact .done hrest (Nat.le_refl _) hend'
    cases k with
    | int n => exact hdone
    | string s => exact hdone
    | keyword w =>
      cases w with
      | trueWord => exact hdone
      | falseWord => exact hdone
      | _ => exact hfail
    | mark m =>
      cases m with
      | leftParen =>
        dsimp only [Parser.peek]
        rw [bind_of_ok hadvance]
        refine .bind (ih.anyLevel .ternary hrest hend' (by omega)) (by omega)
          fun inner r₁ pos₁ h₁ hend₁ hr₁ => ?_
        refine .skip (meets_expect (by decide) hr₁ hend₁) (by omega) fun r₂ pos₂ h₂ hend₂ hr₂ => ?_
        exact .done hr₂ (by omega) hend₂
      | _ => exact hfail
    | ident name => exact absurd ⟨name, l, rest, rfl⟩ hident
    | endOfFile => exact hfail

end ExpressionsMeet

/-- **Expressions come to the same** as their walks of any depth. -/
theorem expressionsMeet (tokens : List Token) (finish : Location) (depth : Nat) :
    ExpressionsMeet tokens finish depth := by
  induction depth with
  | zero => exact ⟨fun _ => follows_zero, fun _ _ => follows_zero, follows_zero, follows_zero⟩
  | succ depth ih =>
    refine ⟨fun level => ?_, ih.follows_chain, ih.follows_arguments, ih.follows_argumentList⟩
    cases level with
    | ternary => exact ih.follows_ternary
    | not => exact ih.follows_not
    | unary => exact ih.follows_unary
    | primary => exact ih.follows_primary
    | _ => exact ih.follows_infix (by simp [Level.Infix])

/-! ## Statements -/

/-- A simple statement has nothing of its own kind in it, so this needs no induction: its
    expressions are known to come to the same as their walks. -/
theorem follows_simpleStatement (tokens : List Token) (finish : Location) (depth : Nat) :
    Follows tokens depth 0 1 (Walk.simpleStatement tokens finish depth)
      fun ts => (Parser.simpleStatement finish ts).map taken := by
  intro pos ts hts hend hdepth
  have expressions := expressionsMeet tokens finish depth
  dsimp only
  rw [Walk.simpleStatement, Parser.simpleStatement, bind_of_ok (here_eq hts)]
  refine .bind (meets_expectIdent hts hend) (Nat.le_refl _) fun name r₁ pos₁ h₁ hend₁ hr₁ => ?_
  dsimp only
  rw [bind_of_ok (peek_eq hr₁)]
  have hfail : Meets tokens pos 1 ((Walk.unexpected tokens finish .afterName : Walk Statement) pos₁)
      (.error (Parser.unexpected finish .afterName r₁.1)) :=
    meets_unexpected hr₁ (by omega) hend₁
  cases Parser.peek r₁.1 with
  | mark m =>
    cases m with
    | leftParen =>
      refine .bind (expressions.arguments hr₁ hend₁ (by omega)) (by omega)
        fun args r₂ pos₂ h₂ hend₂ hr₂ => ?_
      refine .skip (meets_expect (by decide) hr₂ hend₂) (by omega) fun r₃ pos₃ h₃ hend₃ hr₃ => ?_
      exact .done hr₃ (by omega) hend₃
    | leftBracket =>
      refine .bind (meets_registerKey hr₁ hend₁) (by omega)
        fun register r₂ pos₂ h₂ hend₂ hr₂ => ?_
      refine .skip (meets_expect (by decide) hr₂ hend₂) (by omega) fun r₃ pos₃ h₃ hend₃ hr₃ => ?_
      refine .bind (expressions.anyLevel .ternary hr₃ hend₃ (by omega)) (by omega)
        fun value r₄ pos₄ h₄ hend₄ hr₄ => ?_
      refine .skip (meets_expect (by decide) hr₄ hend₄) (by omega) fun r₅ pos₅ h₅ hend₅ hr₅ => ?_
      exact .done hr₅ (by omega) hend₅
    | assign =>
      refine .skip (meets_expect (by decide) hr₁ hend₁) (by omega) fun r₂ pos₂ h₂ hend₂ hr₂ => ?_
      refine .bind (expressions.anyLevel .ternary hr₂ hend₂ (by omega)) (by omega)
        fun value r₃ pos₃ h₃ hend₃ hr₃ => ?_
      refine .skip (meets_expect (by decide) hr₃ hend₃) (by omega) fun r₄ pos₄ h₄ hend₄ hr₄ => ?_
      exact .done hr₄ (by omega) hend₄
    | _ => exact hfail
  | _ => exact hfail

/-- The parsers of statements come to the same as their walks of this depth. -/
structure StatementsMeet (tokens : List Token) (finish : Location) (depth : Nat) : Prop where
  block : ∀ base, Follows tokens depth 0 1 (Walk.block tokens finish depth base)
    fun ts => (Parser.block finish base ts).map taken
  statements : ∀ start base, Follows tokens depth 2 1
    (Walk.statements tokens finish depth start base)
    fun ts => (Parser.statements finish start base ts).map takenBoth
  statement : ∀ base, Follows tokens depth 1 1 (Walk.statement tokens finish depth base)
    fun ts => (Parser.statement finish base ts).map takenBoth
  ifStatement : ∀ base, Follows tokens depth 0 1 (Walk.ifStatement tokens finish depth base)
    fun ts => (Parser.ifStatement finish base ts).map takenBoth

namespace StatementsMeet

variable (ih : StatementsMeet tokens finish depth)

include ih

/-- The statements of a block are behind its opening brace. -/
theorem follows_block (base : Nat) :
    Follows tokens (depth + 1) 0 1 (Walk.block tokens finish (depth + 1) base)
      fun ts => (Parser.block finish base ts).map taken := by
  intro pos ts hts hend hdepth
  dsimp only
  rw [Walk.block, Parser.block, bind_of_ok (here_eq hts)]
  refine .skip (meets_expect (by decide) hts hend) (Nat.le_refl _) fun r₁ pos₁ h₁ hend₁ hr₁ => ?_
  refine .bindBoth (ih.statements _ _ hr₁ hend₁ (by omega)) (by omega)
    fun body nested r₂ pos₂ h₂ hend₂ hr₂ => ?_
  exact .done hr₂ (by omega) hend₂

/-- The first statement is one rank lower on the same tokens, and the others are behind it. -/
theorem follows_statements (start : Location) (base : Nat) :
    Follows tokens (depth + 1) 2 1 (Walk.statements tokens finish (depth + 1) start base)
      fun ts => (Parser.statements finish start base ts).map takenBoth := by
  intro pos ts hts hend hdepth
  dsimp only
  rw [Walk.statements, Parser.statements]
  obtain ⟨hnone, heat⟩ | ⟨r₁, hsome, heat, hr₁, hend₁⟩ :=
    eat_cases (k := .mark .rightBrace) (by decide) hts
  · rw [bind_of_ok heat, hnone]
    dsimp only
    rw [if_neg Bool.false_ne_true, bind_of_ok (peek_eq hts)]
    by_cases hlast : Parser.peek ts = .endOfFile
    · rw [if_pos hlast, if_pos hlast]
      exact .fail (Nat.le_refl _) hend
    · rw [if_neg hlast, if_neg hlast]
      refine .bindBoth (ih.statement base hts hend (by omega)) (Nat.le_refl _)
        fun first nested r₁ pos₁ h₁ hend₁ hr₁ => ?_
      refine .bindBoth (ih.statements start _ hr₁ hend₁ (by omega)) (by omega)
        fun others nested' r₂ pos₂ h₂ hend₂ hr₂ => ?_
      exact .done hr₂ (by omega) hend₂
  · rw [bind_of_ok heat, hsome]
    exact .done hr₁ (Nat.le_refl _) hend₁

/-- A statement looks at one token to see whether it is an `if`, and takes none. -/
theorem follows_statement (base : Nat) :
    Follows tokens (depth + 1) 1 1 (Walk.statement tokens finish (depth + 1) base)
      fun ts => (Parser.statement finish base ts).map takenBoth := by
  intro pos ts hts hend hdepth
  dsimp only
  rw [Walk.statement, Parser.statement, bind_of_ok (peek_eq hts)]
  by_cases hif : Parser.peek ts = .keyword .ifWord
  · rw [if_pos hif, if_pos hif]
    exact ih.ifStatement base hts hend (by omega)
  · rw [if_neg hif, if_neg hif]
    refine .bind (follows_simpleStatement tokens finish depth hts hend (by omega)) (Nat.le_refl _)
      fun s r₁ pos₁ h₁ hend₁ hr₁ => ?_
    exact .done hr₁ (by omega) hend₁

/-- **An `if`** and its blocks; the chain of `else if` goes on behind two keywords. -/
theorem follows_ifStatement (base : Nat) :
    Follows tokens (depth + 1) 0 1 (Walk.ifStatement tokens finish (depth + 1) base)
      fun ts => (Parser.ifStatement finish base ts).map takenBoth := by
  intro pos ts hts hend hdepth
  have expressions := expressionsMeet tokens finish depth
  dsimp only
  rw [Walk.ifStatement, Parser.ifStatement, bind_of_ok (here_eq hts)]
  refine .skip (meets_expect (by decide) hts hend) (Nat.le_refl _) fun r₁ pos₁ h₁ hend₁ hr₁ => ?_
  refine .skip (meets_expect (by decide) hr₁ hend₁) (by omega) fun r₂ pos₂ h₂ hend₂ hr₂ => ?_
  refine .bind (expressions.anyLevel .ternary hr₂ hend₂ (by omega)) (by omega)
    fun condition r₃ pos₃ h₃ hend₃ hr₃ => ?_
  refine .skip (meets_expect (by decide) hr₃ hend₃) (by omega) fun r₄ pos₄ h₄ hend₄ hr₄ => ?_
  refine .bind (ih.block base hr₄ hend₄ (by omega)) (by omega)
    fun thenChunk r₅ pos₅ h₅ hend₅ hr₅ => ?_
  dsimp only [Shorter.trans]
  obtain ⟨hnone, heat⟩ | ⟨r₆, hsome, heat, hr₆, hend₆⟩ :=
    eat_cases (k := .keyword .elseWord) (by decide) hr₅
  · rw [bind_of_ok heat, hnone]
    exact .done hr₅ (by omega) hend₅
  · rw [bind_of_ok heat, hsome]
    dsimp only
    rw [if_pos rfl, bind_of_ok (peek_eq hr₆)]
    by_cases hif : Parser.peek r₆.1 = .keyword .ifWord
    · rw [if_pos hif, if_pos hif]
      refine .bindBoth (ih.ifStatement _ hr₆ hend₆ (by omega)) (by omega)
        fun inner nested r₇ pos₇ h₇ hend₇ hr₇ => ?_
      exact .done hr₇ (by omega) hend₇
    · rw [if_neg hif, if_neg hif]
      refine .bind (ih.block _ hr₆ hend₆ (by omega)) (by omega)
        fun elseChunk r₇ pos₇ h₇ hend₇ hr₇ => ?_
      exact .done hr₇ (by omega) hend₇

end StatementsMeet

/-- **Statements come to the same** as their walks of any depth. -/
theorem statementsMeet (tokens : List Token) (finish : Location) (depth : Nat) :
    StatementsMeet tokens finish depth := by
  induction depth with
  | zero =>
    exact ⟨fun _ => follows_zero, fun _ _ => follows_zero, fun _ => follows_zero,
      fun _ => follows_zero⟩
  | succ depth ih =>
    exact ⟨ih.follows_block, ih.follows_statements, ih.follows_statement, ih.follows_ifStatement⟩

/-! ## Declarations -/

/-- A constant takes its tokens one by one and calls no parser that calls itself. -/
theorem meets_constant (script : Script) (hts : ts = tokens.drop pos)
    (hend : pos ≤ tokens.length) : Meets tokens pos 1 (Walk.constant tokens finish script pos)
      ((Parser.constant finish script ts).map taken) := by
  rw [Walk.constant, Parser.constant, bind_of_ok (here_eq hts)]
  refine .skip (meets_expect (by decide) hts hend) (Nat.le_refl _) fun r₁ pos₁ h₁ hend₁ hr₁ => ?_
  refine .bind (meets_expectIdent hr₁ hend₁) (by omega) fun name r₂ pos₂ h₂ hend₂ hr₂ => ?_
  refine .check (by omega) hend₂ fun _ => ?_
  refine .skip (meets_expect (by decide) hr₂ hend₂) (by omega) fun r₃ pos₃ h₃ hend₃ hr₃ => ?_
  refine .bind (meets_literal hr₃ hend₃) (by omega) fun value r₄ pos₄ h₄ hend₄ hr₄ => ?_
  refine .skip (meets_expect (by decide) hr₄ hend₄) (by omega) fun r₅ pos₅ h₅ hend₅ hr₅ => ?_
  exact .done hr₅ (by omega) hend₅

/-- The default of a variable may be missing, so this may take nothing. -/
theorem meets_initialValue (hts : ts = tokens.drop pos) (hend : pos ≤ tokens.length) :
    Meets tokens pos 0 (Walk.initialValue tokens finish pos)
      ((Parser.initialValue finish ts).map taken) := by
  rw [Walk.initialValue, Parser.initialValue]
  obtain ⟨hnone, heat⟩ | ⟨r₁, hsome, heat, hr₁, hend₁⟩ :=
    eat_cases (k := .mark .assign) (by decide) hts
  · rw [bind_of_ok heat, hnone]
    exact .done hts (Nat.le_refl _) hend
  · rw [bind_of_ok heat, hsome]
    refine .bind (meets_literal hr₁ hend₁) (by omega) fun value r₂ pos₂ h₂ hend₂ hr₂ => ?_
    exact .done hr₂ (by omega) hend₂

/-- The `saved` in front of a variable is taken, or the walk stays. -/
theorem eat_savedMark (hts : ts = tokens.drop pos) (hend : pos ≤ tokens.length) :
    ∃ pos', eat tokens (.keyword .savedWord) pos = (.ok (savedMark ts).1, pos') ∧ pos ≤ pos' ∧
      pos' ≤ tokens.length ∧ (savedMark ts).2.1 = tokens.drop pos' := by
  rw [savedMark]
  obtain ⟨hnone, heat⟩ | ⟨r, hsome, heat, hr, hend'⟩ :=
    eat_cases (k := .keyword .savedWord) (by decide) hts
  · rw [hnone]
    exact ⟨pos, heat, Nat.le_refl _, hend, hts⟩
  · rw [hsome]
    exact ⟨pos + 1, heat, Nat.le_succ _, hend', hr⟩

/-- A variable, with or without `saved` in front of it and a default behind its name. -/
theorem meets_variableDeclaration (script : Script) (hts : ts = tokens.drop pos)
    (hend : pos ≤ tokens.length) :
    Meets tokens pos 1 (Walk.variableDeclaration tokens finish script pos)
      ((Parser.variableDeclaration finish script ts).map taken) := by
  obtain ⟨pos₁, heat, h₁, hend₁, hr₁⟩ := eat_savedMark hts hend
  rw [Walk.variableDeclaration, Parser.variableDeclaration, bind_of_ok (here_eq hts),
    bind_of_ok heat]
  dsimp only
  refine .skip (meets_expect (by decide) hr₁ hend₁) h₁ fun r₂ pos₂ h₂ hend₂ hr₂ => ?_
  refine .bind (meets_expectIdent hr₂ hend₂) (by omega) fun name r₃ pos₃ h₃ hend₃ hr₃ => ?_
  refine .check (by omega) hend₃ fun _ => ?_
  refine .bind (meets_initialValue hr₃ hend₃) (by omega) fun initial r₄ pos₄ h₄ hend₄ hr₄ => ?_
  refine .skip (meets_expect (by decide) hr₄ hend₄) (by omega) fun r₅ pos₅ h₅ hend₅ hr₅ => ?_
  exact .done hr₅ (by omega) hend₅

/-- **The handlers of a state**, one after another, up to the closing brace.  The events found so
    far and the number of blocks go from one to the next. -/
theorem follows_handlers (tokens : List Token) (finish : Location) (depth : Nat)
    (start : Location) (name : String) (base : Nat) (found : EventMap BlockId) :
    Follows tokens depth 0 1 (Walk.handlers tokens finish depth start name base found)
      fun ts => (Parser.handlers finish start name base found ts).map takenBoth := by
  induction depth generalizing base found with
  | zero => exact follows_zero
  | succ depth ih =>
    intro pos ts hts hend hdepth
    have statements := statementsMeet tokens finish depth
    dsimp only
    rw [Walk.handlers, Parser.handlers]
    obtain ⟨hnone, heat⟩ | ⟨r₁, hsome, heat, hr₁, hend₁⟩ :=
      eat_cases (k := .mark .rightBrace) (by decide) hts
    · rw [bind_of_ok heat, hnone]
      dsimp only
      rw [if_neg Bool.false_ne_true, bind_of_ok (peek_eq hts)]
      by_cases hlast : Parser.peek ts = .endOfFile
      · rw [if_pos hlast, if_pos hlast]
        exact .fail (Nat.le_refl _) hend
      -- one handler; the depth for the others is there because this one has taken a token
      · rw [if_neg hlast, if_neg hlast, bind_of_ok (here_eq hts)]
        refine .skip (meets_expect (by decide) hts hend) (Nat.le_refl _)
          fun r₁ pos₁ h₁ hend₁ hr₁ => ?_
        refine .bind (meets_expectIdent hr₁ hend₁) (by omega)
          fun eventName r₂ pos₂ h₂ hend₂ hr₂ => ?_
        dsimp only
        cases Event.ofName? eventName with
        | none => exact .fail (by omega) hend₂
        | some event =>
          dsimp only
          by_cases hfound : found.contains event
          · rw [if_pos hfound, if_pos hfound]
            exact .fail (by omega) hend₂
          · rw [if_neg hfound, if_neg hfound]
            refine .skip (meets_expect (by decide) hr₂ hend₂) (by omega)
              fun r₃ pos₃ h₃ hend₃ hr₃ => ?_
            refine .skip (meets_expect (by decide) hr₃ hend₃) (by omega)
              fun r₄ pos₄ h₄ hend₄ hr₄ => ?_
            refine .bind (statements.block base hr₄ hend₄ (by omega)) (by omega)
              fun chunk r₅ pos₅ h₅ hend₅ hr₅ => ?_
            refine .bindBoth (ih _ _ hr₅ hend₅ (by omega)) (by omega)
              fun all chunk' r₆ pos₆ h₆ hend₆ hr₆ => ?_
            exact .done hr₆ (by omega) hend₆
    · rw [bind_of_ok heat, hsome]
      exact .done hr₁ (Nat.le_refl _) hend₁

/-- A state is its condition and its handlers, both of which are behind its name. -/
theorem follows_stateDeclaration (tokens : List Token) (finish : Location) (depth : Nat)
    (script : Script) :
    Follows tokens depth 0 1 (Walk.stateDeclaration tokens finish depth script)
      fun ts => (Parser.stateDeclaration finish script ts).map taken := by
  intro pos ts hts hend hdepth
  have expressions := expressionsMeet tokens finish depth
  dsimp only
  rw [Walk.stateDeclaration, Parser.stateDeclaration, bind_of_ok (here_eq hts)]
  refine .skip (meets_expect (by decide) hts hend) (Nat.le_refl _) fun r₁ pos₁ h₁ hend₁ hr₁ => ?_
  refine .bind (meets_expectIdent hr₁ hend₁) (by omega) fun name r₂ pos₂ h₂ hend₂ hr₂ => ?_
  dsimp only
  by_cases hname : (script.state? name).isSome
  · rw [if_pos hname, if_pos hname]
    exact .fail (by omega) hend₂
  · rw [if_neg hname, if_neg hname]
    refine .skip (meets_expect (by decide) hr₂ hend₂) (by omega) fun r₃ pos₃ h₃ hend₃ hr₃ => ?_
    refine .bind (expressions.anyLevel .ternary hr₃ hend₃ (by omega)) (by omega)
      fun condition r₄ pos₄ h₄ hend₄ hr₄ => ?_
    refine .skip (meets_expect (by decide) hr₄ hend₄) (by omega) fun r₅ pos₅ h₅ hend₅ hr₅ => ?_
    rw [bind_of_ok (here_eq hr₅)]
    refine .skip (meets_expect (by decide) hr₅ hend₅) (by omega) fun r₆ pos₆ h₆ hend₆ hr₆ => ?_
    refine .bindBoth (follows_handlers _ _ _ _ _ _ _ hr₆ hend₆ (by omega)) (by omega)
      fun found chunk r₇ pos₇ h₇ hend₇ hr₇ => ?_
    exact .done hr₇ (by omega) hend₇

/-- The first token tells which declaration it is. -/
theorem follows_declaration (tokens : List Token) (finish : Location) (depth : Nat)
    (script : Script) : Follows tokens depth 0 1 (Walk.declaration tokens finish depth script)
      fun ts => (Parser.declaration finish script ts).map taken := by
  intro pos ts hts hend hdepth
  dsimp only
  rw [Walk.declaration, Parser.declaration, bind_of_ok (peek_eq hts)]
  have hfail : Meets tokens pos 1 ((Walk.unexpected tokens finish .declaration : Walk Script) pos)
      (.error (Parser.unexpected finish .declaration ts)) :=
    meets_unexpected hts (Nat.le_refl _) hend
  cases Parser.peek ts with
  | keyword k =>
    cases k with
    | constWord => exact meets_constant script hts hend
    | varWord => exact meets_variableDeclaration script hts hend
    | savedWord => exact meets_variableDeclaration script hts hend
    | stateWord => exact follows_stateDeclaration _ _ _ _ hts hend hdepth
    | _ => exact hfail
  | _ => exact hfail

/-- The declarations of a script leave nothing that a parser would find, so only what is found and
    the positions are compared. -/
theorem follows_declarations (script : Script) (hts : ts = tokens.drop pos)
    (hend : pos ≤ tokens.length) (hdepth : 10 * (tokens.length - pos) + 1 < depth) :
    ∃ rest, Meets tokens pos 0 (Walk.declarations tokens finish depth script pos)
      ((Parser.declarations finish script ts).map fun script => (script, rest)) := by
  induction depth generalizing script pos ts with
  | zero => exact absurd hdepth (Nat.not_lt_zero _)
  | succ depth ih =>
    rw [Walk.declarations, Parser.declarations, bind_of_ok (peek_eq hts)]
    by_cases hlast : Parser.peek ts = .endOfFile
    · rw [if_pos hlast, if_pos hlast]
      exact ⟨_, .done hts (Nat.le_refl _) hend⟩
    · rw [if_neg hlast, if_neg hlast]
      obtain ⟨e, pos', hp, hw, hforward, hend'⟩ |
          ⟨⟨script', r⟩, pos', hp, hw, hforward, hend', hr⟩ :=
        (follows_declaration tokens finish depth script hts hend (by omega)).outcome
      · rw [bind_of_error hw, hp]
        exact ⟨[], .error hforward hend'⟩
      -- the declaration has taken a token, and its ten levels are more than the one that is used
      · obtain ⟨rest, hrest⟩ := ih script' hr hend' (by omega)
        rw [bind_of_ok hw, hp]
        exact ⟨rest, hrest.mono (by omega) (by omega)⟩

/-! ## Progress -/

/-- From every position the walk comes to the same as the parser. -/
def Settles {α : Type} (tokens : List Token) (least : Nat) (w : Walk α)
    (p : List Token → Except Error (α × List Token)) : Prop :=
  ∀ pos, pos ≤ tokens.length → Meets tokens pos least (w pos) (p (tokens.drop pos))

/-- Ten levels for every token and ten more are enough for all positions, since no rank is above
    nine. -/
theorem Follows.settles {α : Type} {rank least extra : Nat} {w : Walk α}
    {p : List Token → Except Error (α × List Token)} (hrank : rank ≤ 9)
    (h : Follows tokens (10 * tokens.length + 10 + extra) rank least w p) :
    Settles tokens least w p :=
  fun pos hend => h rfl hend (by omega)

/-- **All parsers come to an end and go forward**, whatever the tokens are and wherever they begin:
    their walks of this depth are not cut off and come to the same as they do.  So the walks never
    go back or past the last token, and those that find something have taken a token, except for
    the parts that may be missing: operators behind an operand, the default of a variable, and all
    declarations. -/
structure Progress (tokens : List Token) (finish : Location) (depth : Nat) : Prop where
  expect : ∀ k, k ≠ .endOfFile → Settles tokens 1 (Walk.expect tokens finish k)
    fun ts => (Parser.expect finish k ts).map passed
  expectIdent : Settles tokens 1 (Walk.expectIdent tokens finish)
    fun ts => (Parser.expectIdent finish ts).map taken
  registerKey : ∀ name l, Settles tokens 1 (Walk.registerKey tokens finish name l)
    fun ts => (Parser.registerKey finish name l ts).map taken
  literal : Settles tokens 1 (Walk.literal tokens finish)
    fun ts => (Parser.literal finish ts).map taken
  expression : ∀ level, Settles tokens 1 (Walk.expression tokens finish depth level)
    fun ts => (Parser.expression finish level ts).map taken
  chain : ∀ level left, Settles tokens 0 (Walk.chain tokens finish depth level left)
    fun ts => (Parser.chain finish level left ts).map taken
  arguments : Settles tokens 1 (Walk.arguments tokens finish depth)
    fun ts => (Parser.arguments finish ts).map taken
  argumentList : Settles tokens 1 (Walk.argumentList tokens finish depth)
    fun ts => (Parser.argumentList finish ts).map taken
  simpleStatement : Settles tokens 1 (Walk.simpleStatement tokens finish depth)
    fun ts => (Parser.simpleStatement finish ts).map taken
  block : ∀ base, Settles tokens 1 (Walk.block tokens finish depth base)
    fun ts => (Parser.block finish base ts).map taken
  statements : ∀ start base, Settles tokens 1 (Walk.statements tokens finish depth start base)
    fun ts => (Parser.statements finish start base ts).map takenBoth
  statement : ∀ base, Settles tokens 1 (Walk.statement tokens finish depth base)
    fun ts => (Parser.statement finish base ts).map takenBoth
  ifStatement : ∀ base, Settles tokens 1 (Walk.ifStatement tokens finish depth base)
    fun ts => (Parser.ifStatement finish base ts).map takenBoth
  constant : ∀ script, Settles tokens 1 (Walk.constant tokens finish script)
    fun ts => (Parser.constant finish script ts).map taken
  initialValue : Settles tokens 0 (Walk.initialValue tokens finish)
    fun ts => (Parser.initialValue finish ts).map taken
  variableDeclaration : ∀ script, Settles tokens 1 (Walk.variableDeclaration tokens finish script)
    fun ts => (Parser.variableDeclaration finish script ts).map taken
  handlers : ∀ start name base found,
    Settles tokens 1 (Walk.handlers tokens finish depth start name base found)
      fun ts => (Parser.handlers finish start name base found ts).map takenBoth
  stateDeclaration : ∀ script, Settles tokens 1 (Walk.stateDeclaration tokens finish depth script)
    fun ts => (Parser.stateDeclaration finish script ts).map taken
  declaration : ∀ script, Settles tokens 1 (Walk.declaration tokens finish depth script)
    fun ts => (Parser.declaration finish script ts).map taken
  declarations : ∀ script pos, pos ≤ tokens.length →
    ∃ rest, Meets tokens pos 0 (Walk.declarations tokens finish depth script pos)
      ((Parser.declarations finish script (tokens.drop pos)).map fun script => (script, rest))

/-- **The parsers terminate and make progress** on all tokens, well-formed or not, with or without
    the end of the file as the last of them: ten levels of depth for every token, and ten more, are
    enough for every parser, and more levels change nothing. -/
theorem parsers_progress (tokens : List Token) (finish : Location) (extra : Nat) :
    Progress tokens finish (10 * tokens.length + 10 + extra) := by
  have expressions := expressionsMeet tokens finish (10 * tokens.length + 10 + extra)
  have statements := statementsMeet tokens finish (10 * tokens.length + 10 + extra)
  exact {
    expect := fun k hk pos hend => meets_expect hk rfl hend
    expectIdent := fun pos hend => meets_expectIdent rfl hend
    registerKey := fun name l pos hend => meets_registerKey rfl hend
    literal := fun pos hend => meets_literal rfl hend
    expression := fun level =>
      (expressions.expression level).settles (Nat.le_succ_of_le level.rank_le)
    chain := fun level left => (expressions.chain level left).settles (by decide)
    arguments := expressions.arguments.settles (by decide)
    argumentList := expressions.argumentList.settles (by decide)
    simpleStatement := (follows_simpleStatement ..).settles (by decide)
    block := fun base => (statements.block base).settles (by decide)
    statements := fun start base => (statements.statements start base).settles (by decide)
    statement := fun base => (statements.statement base).settles (by decide)
    ifStatement := fun base => (statements.ifStatement base).settles (by decide)
    constant := fun script pos hend => meets_constant script rfl hend
    initialValue := fun pos hend => meets_initialValue rfl hend
    variableDeclaration := fun script pos hend => meets_variableDeclaration script rfl hend
    handlers := fun start name base found => (follows_handlers ..).settles (by decide)
    stateDeclaration := fun script => (follows_stateDeclaration ..).settles (by decide)
    declaration := fun script => (follows_declaration ..).settles (by decide)
    declarations := fun script pos hend => follows_declarations script rfl hend (by omega) }

end ActorScript.Parser
