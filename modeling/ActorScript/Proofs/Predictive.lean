/-
  What can be derived is taken.

  The parsers decide by the next tokens which alternative of a rule to follow, and never come back
  to another one.  That this loses nothing is shown by induction over derivations.  What has to
  hold of a part (`Reads`) is that its first token shows the way to it, and that its parser takes
  it if the token behind it does not make the parser go on.

  One place needs more than the next token.  A `!` can start an operand of `not` as well as one of
  `unary`, and the parser takes the first whenever it can.  Then it reads a derivation through
  `unary` in another way, but up to the same token: the operators of a level are taken whatever is
  on the left of them (`continues_left`), so the `!` can be left out (`takes_strip`) and put back
  in front of all that follows.
-/
import ActorScript.Proofs.Derivable

namespace ActorScript.Parser

open Grammar Phrase

variable {finish : Location} {ts rest mid : List Token} {l : Location} {e left : Expr}
  {level : Level}

/-! ## Two places for one mark -/

/-- What is taken at an infix level is a first operand and the chain behind it. -/
theorem of_takes_infix (hl : level.Infix) (h : Takes (expression finish level ts) e rest) :
    ∃ left mid, Takes (expression finish level.tighter ts) left mid ∧
      Continues (chain finish level left mid) e rest := by
  obtain ⟨hlt, h⟩ := h
  rw [expression_eq_chain hl] at h
  obtain ⟨⟨left, r₁⟩, h₁, h⟩ := bind_eq_ok h
  obtain ⟨⟨e', r₂⟩, h₂, h⟩ := bind_eq_ok h
  cases h
  exact ⟨left, r₁.1, ⟨r₁.2, h₁⟩, r₂.2, h₂⟩

/-- How far the operators of a level reach does not depend on what is on the left of them. -/
theorem continues_left {ts rest : List Token} {left e : Expr}
    (h : Continues (chain finish level left ts) e rest) (left' : Expr) :
    ∃ e', Continues (chain finish level left' ts) e' rest := by
  obtain ⟨hle, h⟩ := h
  match hts : ts, hle, h with
  | [], hle, h =>
    rw [chain] at h
    cases h
    exact ⟨left', _, by rw [chain]; rfl⟩
  | t :: ts', hle, h =>
    rw [chain] at h
    split at h
    · next hop =>
      cases h
      exact ⟨left', _, by rw [chain, hop]; rfl⟩
    · next op hop =>
      obtain ⟨⟨right, r₁⟩, h₁, h⟩ := bind_eq_ok h
      obtain ⟨⟨e', r₂⟩, h₂, h⟩ := bind_eq_ok h
      cases h
      obtain ⟨e'', h''⟩ := continues_left ⟨r₂.2, h₂⟩ (.binary op left' right)
      exact ⟨e'', continues_operator hop ⟨r₁.2, h₁⟩ h''⟩
termination_by ts.length
decreasing_by
  subst hts
  exact ((Shorter.tail t ts').trans r₁).2

/-- A `!` in front of the tokens is not needed for a level to which `unary` belongs. -/
theorem takes_strip {level : Level} {e : Expr} {rest : List Token}
    (hl : level.rank < Level.not.rank) (hp : level ≠ .primary)
    (h : Takes (expression finish level (⟨.mark .bang, l⟩ :: ts)) e rest) :
    ∃ e', Takes (expression finish level ts) e' rest := by
  by_cases hi : level.Infix
  · obtain ⟨left, mid, hleft, hchain⟩ := of_takes_infix hi h
    have hrank := hi.rank_tighter
    obtain ⟨left', hleft'⟩ := takes_strip (by omega)
      (by rcases hi with rfl | rfl | rfl | rfl | rfl <;> decide) hleft
    obtain ⟨e', he'⟩ := continues_left hchain left'
    exact ⟨e', takes_infix hi hleft' he'⟩
  · cases level with
    | unary =>
      obtain ⟨hlt, h⟩ := h
      rw [expression] at h
      obtain ⟨⟨operand, r₁⟩, h₁, h⟩ := bind_eq_ok h
      cases h
      exact ⟨operand, _, h₁⟩
    | primary => exact absurd rfl hp
    | ternary | not => exact absurd hl (by decide)
    | or | and | equality | additive | multiplicative => exact absurd (by simp [Level.Infix]) hi
termination_by level.rank
decreasing_by omega

/-- What `equality` takes is taken by `not`, even if it starts with a `!`. -/
theorem takes_not_of_takes_equality (ts : List Token) {e : Expr}
    (h : Takes (expression finish .equality ts) e rest) :
    ∃ e', Takes (expression finish .not ts) e' rest := by
  match ts, h with
  | [], h => exact ⟨e, takes_not_of_equality h (by simp [peek])⟩
  | ⟨k, l⟩ :: ts', h =>
    by_cases hk : k = .mark .bang
    · subst hk
      obtain ⟨e', h'⟩ := takes_strip (by decide) (by decide) h
      obtain ⟨e'', h''⟩ := takes_not_of_takes_equality ts' h'
      exact ⟨_, takes_not h''⟩
    · exact ⟨e, takes_not_of_equality h hk⟩

/-! ## Parts -/

/-- The token can be the first of an expression of the level, as far as anyone asks. -/
def Begins (level : Level) (k : TokenKind) : Prop :=
  k ≠ .mark .rightParen ∧ (level = .primary → k ≠ .mark .minus ∧ k ≠ .mark .bang)

/-- The parser of the part takes the tokens in front of `rest`, unless it goes on there. -/
def Reads (finish : Location) : Reading
  | .program, _, _ => True
  | .literal, ts, rest => ∃ v, Takes (literal finish ts) v rest
  | .block, ts, rest =>
    peek ts = .mark .leftBrace ∧ ∀ base, ∃ chunk, Takes (block finish base ts) chunk rest
  | .statement, ts, rest =>
    (peek ts = .keyword .ifWord ∨ ∃ name, peek ts = .ident name) ∧
      (peek rest ≠ .keyword .elseWord → ∀ base, ∃ st nested hlt,
        statement finish base ts = .ok (st, nested, ⟨rest, hlt⟩))
  | .ifStatement, ts, rest =>
    peek ts = .keyword .ifWord ∧
      (peek rest ≠ .keyword .elseWord → ∀ base, ∃ st nested hlt,
        ifStatement finish base ts = .ok (st, nested, ⟨rest, hlt⟩))
  | .arguments, ts, rest =>
    peek ts = .mark .leftParen ∧ ∃ args, Takes (arguments finish ts) args rest
  | .expression level, ts, rest =>
    Begins level (peek ts) ∧
      (Stops level (peek rest) → ∃ e, Takes (expression finish level ts) e rest)

section Expressions

/-- An operator with its right operand, as far as the operand reads. -/
abbrev readsOperation (finish : Location) (level : Level) : List Token → List Token → Prop :=
  (oneOf level.extensions ++ part (.expression level.tighter)).Holds (Reads finish)

/-- In front of the operations of a level stands a token that ends its operands: an operator of the
    level, or what ends the whole. -/
theorem stops_of_operations (hl : level.Infix) (hrest : Stops level (peek rest))
    (h : Relation.ReflTransGen (readsOperation finish level) mid rest) :
    Stops level.tighter (peek mid) := by
  rcases h.cases_head with rfl | ⟨_, ⟨_, ho, -⟩, -⟩
  · exact hrest.mono (by have := hl.rank_tighter; omega)
  · obtain ⟨m, hm, l, rfl⟩ := holds_oneOf.mp ho
    exact stops_operator hl hm

/-- **The chain takes all operations**: behind each operand an operator of the level or the end
    comes next, so that the parser goes on as the grammar does. -/
theorem continues_of_operations (hl : level.Infix) (hrest : Stops level (peek rest))
    (h : Relation.ReflTransGen (readsOperation finish level) mid rest) (left : Expr) :
    ∃ e, Continues (chain finish level left mid) e rest := by
  induction h using Relation.ReflTransGen.head_induction_on generalizing left with
  | refl => exact ⟨left, continues_stop hl hrest⟩
  | head h hs ih =>
    obtain ⟨_, ho, hoperand⟩ := h
    obtain ⟨m, hm, l, rfl⟩ := holds_oneOf.mp ho
    obtain ⟨right, hright⟩ := hoperand.2 (stops_of_operations hl hrest hs)
    have hop : level.operator? (.mark m) ≠ none := by
      rw [ne_eq, Level.operator?_eq_none hl]
      exact fun h => h m hm rfl
    obtain ⟨op, hop⟩ := Option.ne_none_iff_exists'.mp hop
    obtain ⟨e, he⟩ := ih (.binary op left right)
    exact ⟨e, continues_operator hop hright he⟩

/-- The five infix levels are read alike. -/
theorem reads_infix (hl : level.Infix)
    (h : (rule (.expression level)).Holds (Reads finish) ts rest) :
    Reads finish (.expression level) ts rest := by
  rw [rule_eq_separated hl] at h
  obtain ⟨mid, hleft, hchain⟩ := h
  refine ⟨⟨hleft.1.1, ?_⟩, fun hrest => ?_⟩
  · rintro rfl
    rcases hl with h | h | h | h | h <;> cases h
  · obtain ⟨left, hleft⟩ := hleft.2 (stops_of_operations hl hrest hchain)
    obtain ⟨e, he⟩ := continues_of_operations hl hrest hchain left
    exact ⟨e, takes_infix hl hleft he⟩

/-- A question mark is taken if there is one, and it can belong to nothing else. -/
theorem reads_ternary (h : (rule (.expression .ternary)).Holds (Reads finish) ts rest) :
    Reads finish (.expression .ternary) ts rest := by
  obtain ⟨mid, hcondition, h⟩ := h
  refine ⟨⟨hcondition.1.1, nofun⟩, fun hrest => ?_⟩
  rcases h with rfl | ⟨_, hq, _, htrue, _, hc, hfalse⟩
  · obtain ⟨e, he⟩ := hcondition.2 (hrest.mono (by decide))
    exact ⟨e, takes_ternary_of_or he (hrest .ternary (by decide) _ (by decide))⟩
  · obtain ⟨l, rfl⟩ := holds_mark.mp hq
    obtain ⟨l', rfl⟩ := holds_mark.mp hc
    obtain ⟨c, hc⟩ := hcondition.2 stops_question
    obtain ⟨t, ht⟩ := htrue.2 stops_colon
    obtain ⟨f, hf⟩ := hfalse.2 hrest
    exact ⟨_, takes_ternary hc ht hf⟩

/-- An exclamation mark is a negation here, also where the arithmetical one would fit. -/
theorem reads_not (h : (rule (.expression .not)).Holds (Reads finish) ts rest) :
    Reads finish (.expression .not) ts rest := by
  rcases h with ⟨_, hb, hoperand⟩ | h
  · obtain ⟨l, rfl⟩ := holds_mark.mp hb
    refine ⟨⟨by simp, nofun⟩, fun hrest => ?_⟩
    obtain ⟨e, he⟩ := hoperand.2 hrest
    exact ⟨_, takes_not he⟩
  · refine ⟨⟨h.1.1, nofun⟩, fun hrest => ?_⟩
    obtain ⟨e, he⟩ := h.2 (hrest.mono (by decide))
    exact takes_not_of_takes_equality ts he

/-- **A sign**: the parser takes a minus sign and a number together, which are read as two by the
    grammar. -/
theorem reads_unary (h : (rule (.expression .unary)).Holds (Reads finish) ts rest) :
    Reads finish (.expression .unary) ts rest := by
  rcases h with (⟨mid, hm, hoperand⟩ | ⟨mid, hb, hoperand⟩) | h
  · obtain ⟨l, rfl⟩ := holds_mark.mp hm
    refine ⟨⟨by simp, nofun⟩, fun hrest => ?_⟩
    obtain ⟨e, he⟩ := hoperand.2 hrest
    by_cases hint : ∃ n, peek mid = .int n
    · -- the operand is a number alone, and is taken together with the minus sign
      obtain ⟨n, hn⟩ := hint
      match mid, hn, he with
      | ⟨.int n, l'⟩ :: mid', rfl, ⟨hlt, he⟩ =>
        have hn :
            Takes (expression finish .unary (⟨.int n, l'⟩ :: mid')) (.literal (.int n)) mid' :=
          takes_unary_of_primary (takes_int n) (by simp) (by simp)
        obtain ⟨hlt', he'⟩ := hn
        cases he.symm.trans he'
        exact ⟨_, takes_minus_int n⟩
    · exact ⟨_, takes_minus he fun n hn => hint ⟨n, hn⟩⟩
  · obtain ⟨l, rfl⟩ := holds_mark.mp hb
    refine ⟨⟨by simp, nofun⟩, fun hrest => ?_⟩
    obtain ⟨e, he⟩ := hoperand.2 hrest
    exact ⟨_, takes_bang he⟩
  · obtain ⟨⟨hp, hfirst⟩, h⟩ := h
    obtain ⟨hminus, hbang⟩ := hfirst rfl
    refine ⟨⟨hp, nofun⟩, fun hrest => ?_⟩
    obtain ⟨e, he⟩ := h (hrest.mono (by decide))
    exact ⟨e, takes_unary_of_primary he hminus hbang⟩

/-- The shape of the tokens of a register. -/
theorem of_holds_register {R : Reading} (h : Phrase.register.Holds R ts rest) :
    ∃ (s : RegisterSpace) (k : TokenKind) (key : String) (l l₁ l₂ l₃ : Location), IsKey k key ∧
      ts = ⟨.ident s.keyword, l⟩ :: ⟨.mark .leftBracket, l₁⟩ :: ⟨k, l₂⟩ ::
        ⟨.mark .rightBracket, l₃⟩ :: rest := by
  obtain ⟨_, hs, _, hb, _, hk, hb'⟩ := h
  obtain ⟨s, l, rfl⟩ := holds_space.mp hs
  obtain ⟨l₁, rfl⟩ := holds_mark.mp hb
  obtain ⟨l₃, rfl⟩ := holds_mark.mp hb'
  rcases hk with hk | hk
  · obtain ⟨key, l₂, rfl⟩ := holds_ident.mp hk
    exact ⟨s, _, key, l, l₁, l₂, l₃, .inl rfl, rfl⟩
  · obtain ⟨key, l₂, rfl⟩ := holds_string.mp hk
    exact ⟨s, _, key, l, l₁, l₂, l₃, .inr rfl, rfl⟩

/-- A call and a register are told from a name by the token behind it. -/
theorem reads_primary (h : (rule (.expression .primary)).Holds (Reads finish) ts rest) :
    Reads finish (.expression .primary) ts rest := by
  rcases h with
    ((((((h | h) | h) | h) | ⟨_, hp, _, hinner, hp'⟩) | ⟨_, hi, ⟨hargs, args, h⟩⟩) | h) | h
  · obtain ⟨n, l, rfl⟩ := holds_int.mp h
    exact ⟨by simp [Begins], fun _ => ⟨_, takes_int n⟩⟩
  · obtain ⟨s, l, rfl⟩ := holds_string.mp h
    exact ⟨by simp [Begins], fun _ => ⟨_, takes_string s⟩⟩
  · obtain ⟨l, rfl⟩ := holds_keyword.mp h
    exact ⟨by simp [Begins], fun _ => ⟨_, takes_trueWord⟩⟩
  · obtain ⟨l, rfl⟩ := holds_keyword.mp h
    exact ⟨by simp [Begins], fun _ => ⟨_, takes_falseWord⟩⟩
  · obtain ⟨l, rfl⟩ := holds_mark.mp hp
    obtain ⟨l', rfl⟩ := holds_mark.mp hp'
    obtain ⟨e, he⟩ := hinner.2 stops_rightParen
    exact ⟨by simp [Begins], fun _ => ⟨e, takes_paren he⟩⟩
  · obtain ⟨name, l, rfl⟩ := holds_ident.mp hi
    exact ⟨by simp [Begins], fun _ => ⟨_, takes_call h hargs⟩⟩
  · obtain ⟨s, k, key, l, l₁, l₂, l₃, hk, rfl⟩ := of_holds_register h
    exact ⟨by simp [Begins], fun _ => ⟨_, takes_register hk⟩⟩
  · obtain ⟨name, l, rfl⟩ := holds_ident.mp h
    exact ⟨by simp [Begins], fun hrest => ⟨_, takes_word hrest⟩⟩

/-- Arguments with commas between them are taken up to the closing parenthesis. -/
theorem takes_of_separated {l : Location}
    (h : (separated [.comma] (.expression .ternary)).Holds (Reads finish) ts
      (⟨.mark .rightParen, l⟩ :: rest)) : ∃ args, Takes (argumentList finish ts) args rest := by
  obtain ⟨mid, hfirst, hothers⟩ := h
  generalize hend : (⟨.mark .rightParen, l⟩ :: rest : List Token) = last at hothers
  induction hothers using Relation.ReflTransGen.head_induction_on generalizing ts with
  | refl =>
    subst hend
    obtain ⟨e, he⟩ := hfirst.2 stops_rightParen
    exact ⟨[e], takes_argumentList_last he⟩
  | head h _ ih =>
    obtain ⟨_, hcomma, hnext⟩ := h
    obtain ⟨m, hm, l', rfl⟩ := holds_oneOf.mp hcomma
    obtain rfl := List.mem_singleton.mp hm
    obtain ⟨e, he⟩ := hfirst.2 stops_comma
    obtain ⟨args, hargs⟩ := ih hnext
    exact ⟨e :: args, takes_argumentList he hargs⟩

/-- The arguments of a call are empty if the closing parenthesis comes at once. -/
theorem reads_arguments (h : (rule .arguments).Holds (Reads finish) ts rest) :
    Reads finish .arguments ts rest := by
  obtain ⟨_, hp, _, hargs, hp'⟩ := h
  obtain ⟨l, rfl⟩ := holds_mark.mp hp
  obtain ⟨l', rfl⟩ := holds_mark.mp hp'
  refine ⟨rfl, ?_⟩
  rcases hargs with rfl | hargs
  · exact ⟨[], takes_arguments_nil⟩
  · obtain ⟨args, h⟩ := takes_of_separated hargs
    obtain ⟨_, hfirst, -⟩ := hargs
    exact ⟨args, takes_arguments h hfirst.1.1⟩

end Expressions

section Statements

/-- Literals are told apart by their first token. -/
theorem reads_literal (h : (rule .literal).Holds (Reads finish) ts rest) :
    Reads finish .literal ts rest := by
  rcases h with ((((h | ⟨_, hm, h⟩) | h) | h) | h) | h
  · obtain ⟨n, l, rfl⟩ := holds_int.mp h
    exact ⟨.int n, _, rfl⟩
  · obtain ⟨l, rfl⟩ := holds_mark.mp hm
    obtain ⟨n, l', rfl⟩ := holds_int.mp h
    exact ⟨.int (-n), _, rfl⟩
  · obtain ⟨s, l, rfl⟩ := holds_string.mp h
    exact ⟨.string s, _, rfl⟩
  · obtain ⟨l, rfl⟩ := holds_keyword.mp h
    exact ⟨.bool true, _, rfl⟩
  · obtain ⟨l, rfl⟩ := holds_keyword.mp h
    exact ⟨.bool false, _, rfl⟩
  · obtain ⟨o, l, rfl⟩ := holds_orientation.mp h
    exact ⟨.orientation o, _, by rw [literal, Orientation.ofName?_name]; rfl⟩

/-- A statement that is not an `if` adds no blocks. -/
theorem statement_of_takes {st : Statement} (hts : peek ts ≠ .keyword .ifWord)
    (h : Takes (simpleStatement finish ts) st rest) (base : Nat) :
    ∃ st nested hlt, statement finish base ts = .ok (st, nested, ⟨rest, hlt⟩) := by
  obtain ⟨hlt, h⟩ := h
  exact ⟨st, [], hlt, by rw [statement, if_neg hts, h]; rfl⟩

/-- An assignment to a name. -/
theorem takes_assignment {name : String} {l' l'' : Location}
    (h : Takes (expression finish .ternary ts) e (⟨.mark .semicolon, l''⟩ :: rest)) :
    Takes (simpleStatement finish (⟨.ident name, l⟩ :: ⟨.mark .assign, l'⟩ :: ts))
      (.assign (.symbol name) e l) rest := by
  obtain ⟨hlt, h⟩ := h
  apply Exists.intro
  rw [simpleStatement]
  simp only [expectIdent_cons, ok_bind, Shorter.tail, peek_cons, expect_cons]
  rw [h]
  rfl

/-- An assignment to a register. -/
theorem takes_registerAssignment {s : RegisterSpace} {k : TokenKind} {key : String}
    {l₁ l₂ l₃ l₄ l₅ : Location} (hk : IsKey k key)
    (h : Takes (expression finish .ternary ts) e (⟨.mark .semicolon, l₅⟩ :: rest)) :
    Takes (simpleStatement finish (⟨.ident s.keyword, l⟩ :: ⟨.mark .leftBracket, l₁⟩ :: ⟨k, l₂⟩ ::
      ⟨.mark .rightBracket, l₃⟩ :: ⟨.mark .assign, l₄⟩ :: ts))
      (.assign (.register ⟨s, key⟩) e l) rest := by
  obtain ⟨hlt, h⟩ := h
  have hkey : Takes (registerKey finish s.keyword l (⟨.mark .leftBracket, l₁⟩ :: ⟨k, l₂⟩ ::
      ⟨.mark .rightBracket, l₃⟩ :: ⟨.mark .assign, l₄⟩ :: ts)) ⟨s, key⟩
      (⟨.mark .assign, l₄⟩ :: ts) :=
    takes_registerKey hk
  obtain ⟨hlt', h'⟩ := hkey
  apply Exists.intro
  rw [simpleStatement]
  simp only [expectIdent_cons, ok_bind, Shorter.tail, peek_cons, here]
  rw [h']
  simp only [ok_bind, expect_cons, Shorter.tail]
  rw [h]
  rfl

/-- A call as a statement. -/
theorem takes_callStatement {name : String} {args : List Expr} {l' : Location}
    (hts : peek ts = .mark .leftParen)
    (h : Takes (arguments finish ts) args (⟨.mark .semicolon, l'⟩ :: rest)) :
    Takes (simpleStatement finish (⟨.ident name, l⟩ :: ts)) (.call name args l) rest := by
  obtain ⟨hlt, h⟩ := h
  apply Exists.intro
  rw [simpleStatement]
  simp only [expectIdent_cons, ok_bind, Shorter.tail, hts]
  rw [h]
  rfl

/-- **A statement** is an `if` if it starts with that keyword; the simple ones start with an
    identifier. -/
theorem reads_statement (h : (rule .statement).Holds (Reads finish) ts rest) :
    Reads finish .statement ts rest := by
  rcases h with ⟨hif, h⟩ | (⟨_, hi, _, ⟨hargs, args, h⟩, hs⟩ | ⟨_, hi, _, ha, _, he, hs⟩) |
    ⟨_, hr, _, ha, _, he, hs⟩
  · refine ⟨.inl hif, fun hrest base => ?_⟩
    rw [statement, if_pos hif]
    exact h hrest base
  · obtain ⟨name, l, rfl⟩ := holds_ident.mp hi
    obtain ⟨l', rfl⟩ := holds_mark.mp hs
    exact ⟨.inr ⟨name, rfl⟩, fun _ => statement_of_takes (by simp) (takes_callStatement hargs h)⟩
  · obtain ⟨name, l, rfl⟩ := holds_ident.mp hi
    obtain ⟨l', rfl⟩ := holds_mark.mp ha
    obtain ⟨l'', rfl⟩ := holds_mark.mp hs
    obtain ⟨e, he⟩ := he.2 stops_semicolon
    exact ⟨.inr ⟨name, rfl⟩, fun _ => statement_of_takes (by simp) (takes_assignment he)⟩
  · obtain ⟨l₄, rfl⟩ := holds_mark.mp ha
    obtain ⟨l₅, rfl⟩ := holds_mark.mp hs
    obtain ⟨s, k, key, l, l₁, l₂, l₃, hk, rfl⟩ := of_holds_register hr
    obtain ⟨e, he⟩ := he.2 stops_semicolon
    exact ⟨.inr ⟨s.keyword, rfl⟩, fun _ =>
      statement_of_takes (by simp) (takes_registerAssignment hk he)⟩

/-- Neither a statement nor a closing brace starts with `else`. -/
theorem peek_ne_elseWord (h : Relation.ReflTransGen (Reads finish .statement) mid
    (⟨.mark .rightBrace, l⟩ :: rest)) : peek mid ≠ .keyword .elseWord := by
  rcases h.cases_head with rfl | ⟨_, ⟨hif | ⟨name, hname⟩, -⟩, -⟩
  · simp
  · simp [hif]
  · simp [hname]

/-- Statements are read up to the closing brace, with which no statement starts. -/
theorem statements_of_reads (start : Location)
    (h : Relation.ReflTransGen (Reads finish .statement) ts (⟨.mark .rightBrace, l⟩ :: rest))
    (base : Nat) : ∃ body nested hlt,
      statements finish start base ts = .ok (body, nested, ⟨rest, hlt⟩) := by
  generalize hend : (⟨.mark .rightBrace, l⟩ :: rest : List Token) = last at h
  induction h using Relation.ReflTransGen.head_induction_on generalizing base with
  | refl =>
    subst hend
    exact ⟨[], [], _, by rw [statements, accept?_cons]; rfl⟩
  | head h hs ih =>
    subst hend
    obtain ⟨hfirst, h⟩ := h
    obtain ⟨st, nested₁, hlt₁, h₁⟩ := h (peek_ne_elseWord hs) base
    obtain ⟨others, nested₂, hlt₂, h₂⟩ := ih (base + nested₁.length)
    refine ⟨st :: others, nested₁ ++ nested₂, ?_⟩
    apply Exists.intro
    rw [statements, accept?_of_ne, if_neg, h₁]
    · simp only [ok_bind]
      rw [h₂]
      rfl
    · rcases hfirst with hif | ⟨name, hname⟩ <;> simp [*]
    · rcases hfirst with hif | ⟨name, hname⟩ <;> simp [*]

/-- A block is read by its statements, wherever its number begins. -/
theorem reads_block (h : (rule .block).Holds (Reads finish) ts rest) :
    Reads finish .block ts rest := by
  obtain ⟨_, hb, _, hs, hb'⟩ := h
  obtain ⟨l, rfl⟩ := holds_mark.mp hb
  obtain ⟨l', rfl⟩ := holds_mark.mp hb'
  refine ⟨rfl, fun base => ?_⟩
  obtain ⟨body, nested, hlt, h⟩ := statements_of_reads l hs (base + 1)
  refine ⟨body :: nested, ?_⟩
  apply Exists.intro
  rw [block]
  simp only [expect_cons, ok_bind, Shorter.tail, here]
  rw [h]
  rfl

/-- **An `else`** belongs to the `if` just before it, since the block in between is closed. -/
theorem reads_ifStatement (h : (rule .ifStatement).Holds (Reads finish) ts rest) :
    Reads finish .ifStatement ts rest := by
  obtain ⟨_, hi, inner, hp, _, hc, _, hp', mid, ⟨-, hthen⟩, helse⟩ := h
  obtain ⟨l, rfl⟩ := holds_keyword.mp hi
  obtain ⟨l₁, rfl⟩ := holds_mark.mp hp
  obtain ⟨l₂, rfl⟩ := holds_mark.mp hp'
  obtain ⟨c, hltc, hc⟩ := hc.2 stops_rightParen
  refine ⟨rfl, fun hrest base => ?_⟩
  obtain ⟨thenChunk, hlt, hthen⟩ := hthen base
  -- up to the `else`
  have hhead := ifStatement.eq_1 finish base
    (⟨.keyword .ifWord, l⟩ :: ⟨.mark .leftParen, l₁⟩ :: inner)
  simp only [expect_cons, ok_bind, Shorter.tail, hc, Shorter.trans, hthen] at hhead
  rcases helse with rfl | ⟨_, he, hin | ⟨hbrace, hblock⟩⟩
  · rw [accept?_of_ne hrest] at hhead
    exact ⟨_, _, _, hhead⟩
  · obtain ⟨l₃, rfl⟩ := holds_keyword.mp he
    obtain ⟨hif, hin⟩ := hin
    obtain ⟨st, nested, hlt', hin⟩ := hin hrest (base + thenChunk.length + 1)
    simp only [accept?_cons, Shorter.tail, hif, if_true, hin, ok_bind] at hhead
    exact ⟨_, _, _, hhead⟩
  · obtain ⟨l₃, rfl⟩ := holds_keyword.mp he
    obtain ⟨elseChunk, hlt', hblock⟩ := hblock (base + thenChunk.length)
    simp only [accept?_cons, Shorter.tail, hbrace, reduceCtorEq, if_false, hblock, ok_bind] at hhead
    exact ⟨_, _, _, hhead⟩

end Statements

/-- **Every part that can be derived is taken**, unless its parser goes on behind it. -/
theorem reads_of_derives (finish : Location) {p : Part} (h : Derives (.part p) ts rest) :
    Reads finish p ts rest := by
  refine h.closed (R := Reads finish) fun p ts rest h => ?_
  cases p with
  | program => trivial
  | literal => exact reads_literal h
  | block => exact reads_block h
  | statement => exact reads_statement h
  | ifStatement => exact reads_ifStatement h
  | arguments => exact reads_arguments h
  | expression level =>
    cases level with
    | ternary => exact reads_ternary h
    | not => exact reads_not h
    | unary => exact reads_unary h
    | primary => exact reads_primary h
    | or | and | equality | additive | multiplicative =>
      exact reads_infix (by simp [Level.Infix]) h

end ActorScript.Parser
