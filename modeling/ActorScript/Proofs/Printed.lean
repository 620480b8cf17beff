/-
  Expressions as they are written.

  An expression is written with the parentheses it needs and no others: around a part whose level
  is too loose for its place (`Expr.tokens`).  Every text in which these tokens are laid out is
  read as this expression again.

  The proof goes over the expression, with three things known of every part (`Readable`): how its
  tokens start, that the parser of its level takes them, and, for a level whose operators group to
  the left, that the parser takes them together with whatever operators of the level come behind.
  The last is what an operand on the left needs, since there the parser is in the middle of a run
  of operators, not at the end of an expression.
-/
import ActorScript.Proofs.Spelling
import ActorScript.Proofs.Taking

namespace ActorScript

open Parser Token

/-! ## Tokens of an expression -/

namespace BinaryOp

/-- The level of expressions with the operator. -/
def level : BinaryOp → Level
  | or => .or
  | and => .and
  | equal | notEqual | less | lessEqual | greater | greaterEqual => .equality
  | add | subtract => .additive
  | multiply | divide => .multiplicative

/-- The mark for the operator. -/
def mark : BinaryOp → Mark
  | or => .or
  | and => .and
  | equal => .equal
  | notEqual => .notEqual
  | less => .less
  | lessEqual => .lessEqual
  | greater => .greater
  | greaterEqual => .greaterEqual
  | add => .plus
  | subtract => .minus
  | multiply => .star
  | divide => .slash

/-- Every binary operator has an infix level. -/
theorem infix_level (op : BinaryOp) : op.level.Infix := by
  cases op <;> simp [level, Level.Infix]

/-- Its mark is one by which expressions of that level go on. -/
theorem mark_mem_extensions (op : BinaryOp) : op.mark ∈ op.level.extensions := by
  cases op <;> decide

/-- An operator is read back from its mark. -/
theorem operator?_mark (op : BinaryOp) : op.level.operator? (.mark op.mark) = some op := by
  cases op <;> rfl

end BinaryOp

/-- The tokens of a literal.  A negative number is a minus sign and a number. -/
def Value.tokens : Value → List TokenKind
  | int n => if n.toInt < 0 then [.mark .minus, .int (-n)] else [.int n]
  | bool b => [.keyword (if b then .trueWord else .falseWord)]
  | string s => [.string s]
  | orientation o => [.ident o.name]
  | absent => []

namespace Expr

/-- The level at which an expression is written. -/
def level : Expr → Level
  | literal (.int n) => if n.toInt < 0 then .unary else .primary
  | unary .not _ => .not
  | unary .negate _ => .unary
  | binary op _ _ => op.level
  | ternary .. => .ternary
  | _ => .primary

/-- Whether the expression is a number without a sign. -/
def isNatural : Expr → Bool
  | literal (.int n) => 0 ≤ n.toInt
  | _ => false

/-- The tokens in parentheses. -/
def enclosed (ks : List TokenKind) : List TokenKind :=
  .mark .leftParen :: (ks ++ [.mark .rightParen])

/-- The tokens of an expression of level `inner` in a place for level `outer`. -/
def placed (inner outer : Level) (ks : List TokenKind) : List TokenKind :=
  if inner.rank ≤ outer.rank then ks else enclosed ks

mutual

/-- The tokens of an expression. -/
def tokens : Expr → List TokenKind
  | literal v => v.tokens
  | symbol name => [.ident name]
  | register r =>
    [.ident r.space.keyword, .mark .leftBracket, .string r.key, .mark .rightBracket]
  | call f args => .ident f :: .mark .leftParen :: (argumentTokens args ++ [.mark .rightParen])
  | unary .not e => .mark .bang :: placed e.level .not e.tokens
  | unary .negate e =>
    -- the minus sign would become part of a number behind it
    .mark .minus :: if e.isNatural then enclosed e.tokens else placed e.level .unary e.tokens
  | binary op l r =>
    placed l.level op.level l.tokens ++ .mark op.mark :: placed r.level op.level.tighter r.tokens
  | ternary c t e =>
    placed c.level .or c.tokens ++ .mark .question :: (t.tokens ++ .mark .colon :: e.tokens)

/-- The tokens of arguments, with commas between. -/
def argumentTokens : List Expr → List TokenKind
  | [] => []
  | [e] => e.tokens
  | e :: es => e.tokens ++ .mark .comma :: argumentTokens es

end

/-- The expressions that can be written.  The smallest number has no positive counterpart and
    `absent` no literal; the name of an orientation is a literal and no symbol. -/
inductive Printable : Expr → Prop
  | literal {v : Value} : v ≠ .absent → v ≠ .int Int64.minValue → Printable (literal v)
  | symbol {name : String} : IsIdentifier name.toList → Orientation.ofName? name = none →
      Printable (symbol name)
  | register (r : Register) : Printable (register r)
  | call {f : String} {args : List Expr} : IsIdentifier f.toList →
      (∀ a ∈ args, Printable a) → Printable (call f args)
  | unary (op : UnaryOp) {e : Expr} : Printable e → Printable (unary op e)
  | binary (op : BinaryOp) {l r : Expr} : Printable l → Printable r → Printable (binary op l r)
  | ternary {c t e : Expr} : Printable c → Printable t → Printable e → Printable (ternary c t e)

/-- The absent value cannot be written. -/
theorem Printable.ne_absent {e : Expr} (h : e.Printable) : e ≠ Expr.literal .absent := by
  rintro rfl
  cases h with
  | literal habsent _ => exact habsent rfl

end Expr

namespace Parser

/-! ## Showing tokens -/

/-- The tokens `ts` are of these kinds up to the tokens `rest`. -/
def Shows : List TokenKind → List Token → List Token → Prop
  | [], ts, rest => ts = rest
  | k :: ks, ts, rest => ∃ l ts', ts = ⟨k, l⟩ :: ts' ∧ Shows ks ts' rest

variable {ks ks' : List TokenKind} {k : TokenKind} {ts rest mid : List Token} {finish : Location}
  {level inner outer : Level} {e : Expr}

@[simp] theorem shows_nil : Shows [] ts rest ↔ ts = rest := Iff.rfl

/-- A token shows its kind wherever it stands. -/
@[simp] theorem shows_cons :
    Shows (k :: ks) ts rest ↔ ∃ l ts', ts = ⟨k, l⟩ :: ts' ∧ Shows ks ts' rest := Iff.rfl

/-- What shows two texts has a place between them. -/
@[simp] theorem shows_append :
    Shows (ks ++ ks') ts rest ↔ ∃ mid, Shows ks ts mid ∧ Shows ks' mid rest := by
  induction ks generalizing ts with
  | nil => simp
  | cons k ks ih =>
    simp only [List.cons_append, shows_cons, ih]
    constructor
    · rintro ⟨l, ts', rfl, mid, h, h'⟩
      exact ⟨mid, ⟨l, ts', rfl, h⟩, h'⟩
    · rintro ⟨mid, ⟨l, ts', rfl, h⟩, h'⟩
      exact ⟨l, ts', rfl, mid, h, h'⟩

/-- Tokens show their own kinds. -/
theorem shows_of_kinds (h : ts.map Token.kind = ks) : Shows ks (ts ++ rest) rest := by
  subst h
  induction ts with
  | nil => rfl
  | cons t ts ih => exact ⟨t.location, ts ++ rest, rfl, ih⟩

/-! ## Looser levels -/

/-- The token can be the first of an expression that is written at this level. -/
def Starts (level : Level) (k : TokenKind) : Prop :=
  k ≠ .mark .rightParen ∧ (level.rank < Level.not.rank → k ≠ .mark .bang) ∧
    (level = .primary → k ≠ .mark .minus)

/-- What can start a tighter expression can start a looser one. -/
theorem Starts.mono (h : Starts inner k) (hle : inner.rank ≤ outer.rank) : Starts outer k := by
  refine ⟨h.1, fun hlt => h.2.1 (by omega), ?_⟩
  rintro rfl
  apply h.2.2
  cases inner <;> simp_all [Level.rank]

/-- Most tokens can start an expression of every level. -/
theorem starts_of_ne (hp : k ≠ .mark .rightParen) (hb : k ≠ .mark .bang) (hm : k ≠ .mark .minus) :
    Starts level k :=
  ⟨hp, fun _ => hb, fun _ => hm⟩

/-- What the next tighter level takes is taken by a level, if nothing of the level is behind or in
    front of it. -/
theorem takes_looser (h : Takes (expression finish level.tighter ts) e rest)
    (hrest : Stops level (peek rest)) (hts : Starts level.tighter (peek ts)) :
    Takes (expression finish level ts) e rest := by
  by_cases hl : level.Infix
  · exact takes_infix hl h (continues_stop hl hrest)
  · cases level with
    | ternary => exact takes_ternary_of_or h (hrest .ternary (Nat.le_refl _) _ (by decide))
    | not => exact takes_not_of_equality h (hts.2.1 (by decide))
    | unary => exact takes_unary_of_primary h (hts.2.2 rfl) (hts.2.1 (by decide))
    | primary => exact h
    | or | and | equality | additive | multiplicative => exact absurd (by simp [Level.Infix]) hl

/-- Each level is one looser than the next one. -/
theorem Level.rank_tighter (h : level ≠ .primary) : level.tighter.rank + 1 = level.rank := by
  cases level <;> first | rfl | exact absurd rfl h

/-- No two levels have the same rank. -/
theorem Level.rank_inj (h : inner.rank = outer.rank) : inner = outer := by
  cases inner <;> cases outer <;> first | rfl | cases h

/-- What a level takes is taken by all looser ones. -/
theorem takes_at (outer : Level) (hle : inner.rank ≤ outer.rank)
    (h : Takes (expression finish inner ts) e rest) (hrest : Stops outer (peek rest))
    (hts : Starts inner (peek ts)) : Takes (expression finish outer ts) e rest := by
  by_cases heq : inner = outer
  · exact heq ▸ h
  · have hne : outer ≠ .primary := by
      rintro rfl
      exact heq (Level.rank_inj (Nat.le_zero.mp hle))
    have hrank := Level.rank_tighter hne
    have hlt : inner.rank ≤ outer.tighter.rank := by
      have : inner.rank ≠ outer.rank := fun h => heq (Level.rank_inj h)
      omega
    exact takes_looser (takes_at outer.tighter hlt h (hrest.mono (by omega)) hts) hrest
      (hts.mono hlt)
termination_by outer.rank
decreasing_by omega

/-! ## Places -/

/-- The tokens of an expression are read as it. -/
structure Readable (e : Expr) : Prop where
  starts : ∀ {ts rest}, Shows e.tokens ts rest → Starts e.level (peek ts)
  takes : ∀ {finish ts rest}, Shows e.tokens ts rest → Stops e.level (peek rest) →
    Takes (expression finish e.level ts) e rest
  /-- They may be the left operand of more operators of their level. -/
  grows : e.level.Infix → ∀ {finish ts rest whole final}, Shows e.tokens ts rest →
    Stops e.level.tighter (peek rest) → Continues (chain finish e.level e rest) whole final →
    Takes (expression finish e.level ts) whole final

namespace Readable

open Expr

/-- A readable expression is read where any expression may stand. -/
theorem ternary (h : Readable e) (hts : Shows e.tokens ts rest)
    (hrest : Stops .ternary (peek rest)) : Takes (expression finish .ternary ts) e rest := by
  have hle : e.level.rank ≤ Level.ternary.rank := by cases e.level <;> decide
  exact takes_at .ternary hle (h.takes hts (hrest.mono hle)) hrest (h.starts hts)

/-- **In parentheses** it is read at every level. -/
theorem enclosed (h : Readable e) (hts : Shows (enclosed e.tokens) ts rest)
    (hrest : Stops level (peek rest)) : Takes (expression finish level ts) e rest := by
  simp only [Expr.enclosed, shows_cons, shows_append, shows_nil] at hts
  obtain ⟨l, ts', rfl, mid, hts, l', _, rfl, rfl⟩ := hts
  exact takes_at level (Nat.zero_le _) (takes_paren (h.ternary hts stops_rightParen)) hrest
    (starts_of_ne (by simp) (by simp) (by simp))

/-- **An expression in its place** is taken by the parser of the place. -/
theorem placed (h : Readable e) (hts : Shows (placed e.level level e.tokens) ts rest)
    (hrest : Stops level (peek rest)) : Takes (expression finish level ts) e rest := by
  rw [Expr.placed] at hts
  split at hts
  · next hle => exact takes_at level hle (h.takes hts (hrest.mono hle)) hrest (h.starts hts)
  · exact h.enclosed hts hrest

/-- A left operand in its place is taken with the operators behind it. -/
theorem placed_grows (h : Readable e) (hl : level.Infix) {whole : Expr} {final : List Token}
    (hts : Shows (Expr.placed e.level level e.tokens) ts rest)
    (hrest : Stops level.tighter (peek rest))
    (hchain : Continues (chain finish level e rest) whole final) :
    Takes (expression finish level ts) whole final := by
  by_cases heq : e.level = level
  · subst heq
    rw [Expr.placed, if_pos (Nat.le_refl _)] at hts
    exact h.grows hl hts hrest hchain
  · have hrank := hl.rank_tighter
    have hne : e.level.rank ≠ level.rank := fun h => heq (Level.rank_inj h)
    have hplaced : Expr.placed e.level level e.tokens =
        Expr.placed e.level level.tighter e.tokens := by
      rw [Expr.placed, Expr.placed]
      congr 1
      rw [eq_iff_iff]
      omega
    exact takes_infix hl (h.placed (hplaced ▸ hts) hrest) hchain

/-- An expression in its place starts as the level of the place demands, in parentheses or without.
    -/
theorem starts_placed (h : Readable e)
    (hts : Shows (Expr.placed e.level level e.tokens) ts rest) : Starts level (peek ts) := by
  rw [Expr.placed] at hts
  split at hts
  · next hle => exact (h.starts hts).mono hle
  · obtain ⟨l, ts', rfl, -⟩ := hts
    exact starts_of_ne (by simp) (by simp) (by simp)

/-- An expression without operators of its own. -/
theorem of_primary (hlevel : e.level = .primary)
    (hstarts : ∀ {ts rest}, Shows e.tokens ts rest → Starts .primary (peek ts))
    (htakes : ∀ {finish ts rest}, Shows e.tokens ts rest → Stops .primary (peek rest) →
      Takes (expression finish .primary ts) e rest) : Readable e where
  starts h := hlevel ▸ hstarts h
  takes h hrest := by
    rw [hlevel] at hrest ⊢
    exact htakes h hrest
  grows hl := by
    rw [hlevel] at hl
    rcases hl with h | h | h | h | h <;> cases h

/-- **A literal** is read back; a negative number is read as one token behind its sign. -/
theorem literal {v : Value} (habsent : v ≠ .absent) (hmin : v ≠ .int Int64.minValue) :
    Readable (.literal v) := by
  cases v with
  | absent => exact absurd rfl habsent
  | int n =>
    by_cases hn : n.toInt < 0
    · have hlevel : (Expr.literal (.int n)).level = .unary := if_pos hn
      have htokens : (Expr.literal (.int n)).tokens = [.mark .minus, .int (-n)] := by
        rw [tokens, Value.tokens, if_pos hn]
      refine ⟨?_, ?_, ?_⟩
      · rintro ts rest h
        rw [htokens] at h
        obtain ⟨l, ts', rfl, -⟩ := h
        rw [hlevel]
        exact ⟨by simp, by simp, nofun⟩
      · rintro finish ts rest h -
        rw [htokens] at h
        obtain ⟨l, _, rfl, l', rest', rfl, rfl⟩ := h
        have hneg : Takes (expression finish .unary
            (⟨.mark .minus, l⟩ :: ⟨.int (-n), l'⟩ :: rest')) (.literal (.int (- -n))) rest' :=
          takes_minus_int (-n)
        rwa [Int64.neg_neg, ← hlevel] at hneg
      · rw [hlevel]
        rintro (h | h | h | h | h) <;> cases h
    · have hlevel : (Expr.literal (.int n)).level = .primary := if_neg hn
      have htokens : (Expr.literal (.int n)).tokens = [.int n] := by
        rw [tokens, Value.tokens, if_neg hn]
      refine of_primary hlevel ?_ ?_
      · rintro ts rest h
        rw [htokens] at h
        obtain ⟨l, ts', rfl, -⟩ := h
        exact starts_of_ne (by simp) (by simp) (by simp)
      · rintro finish ts rest h -
        rw [htokens] at h
        obtain ⟨l, _, rfl, rfl⟩ := h
        exact takes_int n
  | bool b =>
    refine of_primary rfl ?_ ?_
    · rintro ts rest ⟨l, ts', rfl, -⟩
      exact starts_of_ne (by simp) (by simp) (by simp)
    · rintro finish ts rest ⟨l, _, rfl, rfl⟩ -
      cases b
      · exact takes_falseWord
      · exact takes_trueWord
  | string s =>
    refine of_primary rfl ?_ ?_
    · rintro ts rest ⟨l, ts', rfl, -⟩
      exact starts_of_ne (by simp) (by simp) (by simp)
    · rintro finish ts rest ⟨l, _, rfl, rfl⟩ -
      exact takes_string s
  | orientation o =>
    refine of_primary rfl ?_ ?_
    · rintro ts rest ⟨l, ts', rfl, -⟩
      exact starts_of_ne (by simp) (by simp) (by simp)
    · rintro finish ts rest ⟨l, _, rfl, rfl⟩ hrest
      have hword : word o.name = .literal (.orientation o) := by
        rw [word, Orientation.ofName?_name]
      exact hword ▸ takes_word hrest

/-- A name that is no orientation is a symbol. -/
theorem symbol {name : String} (hname : Orientation.ofName? name = none) :
    Readable (.symbol name) := by
  refine of_primary rfl ?_ ?_
  · rintro ts rest ⟨l, ts', rfl, -⟩
    exact starts_of_ne (by simp) (by simp) (by simp)
  · rintro finish ts rest ⟨l, _, rfl, rfl⟩ hrest
    have hword : word name = .symbol name := by rw [word, hname]
    exact hword ▸ takes_word hrest

/-- A register is read back with its key in quotes. -/
theorem register (r : Register) : Readable (.register r) := by
  refine of_primary rfl ?_ ?_
  · rintro ts rest ⟨l, ts', rfl, -⟩
    exact starts_of_ne (by simp) (by simp) (by simp)
  · rintro finish ts rest ⟨l, _, rfl, l₁, _, rfl, l₂, _, rfl, l₃, _, rfl, rfl⟩ -
    exact takes_register (.inr rfl)

/-- Arguments are taken up to the closing parenthesis. -/
theorem argumentList {ts : List Token} {args : List Expr} (hargs : ∀ a ∈ args, Readable a)
    (hne : args ≠ [])
    {l : Location} (hts : Shows (argumentTokens args) ts (⟨.mark .rightParen, l⟩ :: rest)) :
    Takes (Parser.argumentList finish ts) args rest ∧ peek ts ≠ .mark .rightParen := by
  match args, hne, hts with
  | [e], _, hts =>
    have he := hargs e (.head _)
    exact ⟨takes_argumentList_last (he.ternary hts stops_rightParen), (he.starts hts).1⟩
  | e :: e' :: es, _, hts =>
    have he := hargs e (.head _)
    rw [argumentTokens, shows_append] at hts
    obtain ⟨_, hts, l', ts', rfl, hothers⟩ := hts
    · exact ⟨takes_argumentList (he.ternary hts stops_comma)
        (argumentList (fun a ha => hargs a (.tail _ ha)) (by simp) hothers).1, (he.starts hts).1⟩
    · simp

/-- A call is read back if its arguments are. -/
theorem call {f : String} {args : List Expr} (hargs : ∀ a ∈ args, Readable a) :
    Readable (.call f args) := by
  refine of_primary rfl ?_ ?_
  · rintro ts rest ⟨l, ts', rfl, -⟩
    exact starts_of_ne (by simp) (by simp) (by simp)
  · rintro finish ts rest ⟨l, _, rfl, l₁, ts', rfl, hts⟩ -
    rw [shows_append] at hts
    obtain ⟨_, hts, l₂, _, rfl, rfl⟩ := hts
    refine takes_call ?_ rfl
    by_cases hne : args = []
    · subst hne
      obtain rfl := hts
      exact takes_arguments_nil
    · obtain ⟨h, hpeek⟩ := argumentList hargs hne hts
      exact takes_arguments h hpeek

/-- A negation, whose operand is as tight as itself. -/
theorem not (h : Readable e) : Readable (.unary .not e) where
  starts := by
    rintro ts rest ⟨l, ts', rfl, -⟩
    exact ⟨by simp, fun h => absurd h (Nat.lt_irrefl _), nofun⟩
  takes := by
    rintro finish ts rest ⟨l, ts', rfl, hts⟩ hrest
    exact takes_not (h.placed hts hrest)
  grows := by rintro (h | h | h | h | h) <;> cases h

/-- An operand of a minus sign does not start with a number. -/
theorem peek_ne_int (habsent : e ≠ .literal .absent) (hnat : e.isNatural = false)
    (hts : Shows (Expr.placed e.level .unary e.tokens) ts rest) (n : Int64) : peek ts ≠ .int n := by
  rw [Expr.placed] at hts
  split at hts
  · next hle =>
    cases e with
    | literal v =>
      cases v with
      | int m =>
        have hm : m.toInt < 0 := by simpa [isNatural] using hnat
        rw [tokens, Value.tokens, if_pos hm] at hts
        obtain ⟨l, ts', rfl, -⟩ := hts
        simp
      | absent => exact absurd rfl habsent
      | _ =>
        obtain ⟨l, ts', rfl, -⟩ := hts
        simp
    | unary op e =>
      cases op with
      | not =>
        have hnot : Level.not.rank ≤ Level.unary.rank := hle
        exact absurd hnot (by decide)
      | negate =>
        obtain ⟨l, ts', rfl, -⟩ := hts
        simp
    | binary op l r =>
      have hop : op.level.rank ≤ Level.unary.rank := hle
      cases op <;> exact absurd hop (by decide)
    | ternary c t f =>
      have hternary : Level.ternary.rank ≤ Level.unary.rank := hle
      exact absurd hternary (by decide)
    | _ =>
      obtain ⟨l, ts', rfl, -⟩ := hts
      simp
  · obtain ⟨l, ts', rfl, -⟩ := hts
    simp

/-- **A minus sign** that is an operator must not have a number behind it, so a number is enclosed.
    -/
theorem negate (h : Readable e) (habsent : e ≠ .literal .absent) : Readable (.unary .negate e) where
  starts := by
    rintro ts rest ⟨l, ts', rfl, -⟩
    exact ⟨by simp, by simp, nofun⟩
  takes := by
    rintro finish ts rest ⟨l, ts', rfl, hts⟩ hrest
    split at hts
    · refine takes_minus (h.enclosed hts hrest) ?_
      obtain ⟨l', _, rfl, -⟩ := hts
      simp
    · next hnat =>
      exact takes_minus (h.placed hts hrest) (peek_ne_int habsent (by simpa using hnat) hts)
  grows := by rintro (h | h | h | h | h) <;> cases h

/-- **A binary operator** has a left operand of its own level and a right one that is tighter. -/
theorem binary (op : BinaryOp) {l r : Expr} (hl : Readable l) (hr : Readable r) :
    Readable (.binary op l r) := by
  have hgrows : ∀ {finish ts rest whole final}, Shows (Expr.binary op l r).tokens ts rest →
      Stops op.level.tighter (peek rest) →
      Continues (chain finish op.level (.binary op l r) rest) whole final →
      Takes (expression finish op.level ts) whole final := by
    intro finish ts rest whole final hts hrest hchain
    rw [tokens, shows_append] at hts
    obtain ⟨_, hleft, l', ts', rfl, hright⟩ := hts
    exact hl.placed_grows op.infix_level hleft
      (stops_operator op.infix_level op.mark_mem_extensions)
      (continues_operator op.operator?_mark (hr.placed hright hrest) hchain)
  refine ⟨?_, ?_, fun _ => hgrows⟩
  · intro ts rest hts
    rw [tokens, shows_append] at hts
    obtain ⟨_, hleft, -⟩ := hts
    exact hl.starts_placed hleft
  · intro finish ts rest hts hrest
    have hrank := op.infix_level.rank_tighter
    exact hgrows hts (hrest.mono (by simp only [level]; omega))
      (continues_stop op.infix_level hrest)

/-- A conditional expression, whose branches may be as loose as itself. -/
theorem conditional {c t f : Expr} (hc : Readable c) (ht : Readable t) (hf : Readable f) :
    Readable (.ternary c t f) where
  starts := by
    intro ts rest hts
    rw [tokens, shows_append] at hts
    obtain ⟨_, hcondition, -⟩ := hts
    exact (hc.starts_placed hcondition).mono (Nat.le_succ _)
  takes := by
    intro finish ts rest hts hrest
    rw [tokens, shows_append] at hts
    obtain ⟨_, hcondition, l, ts', rfl, hts⟩ := hts
    rw [shows_append] at hts
    obtain ⟨_, htrue, l', ts'', rfl, hfalse⟩ := hts
    exact takes_ternary (hc.placed hcondition stops_question) (ht.ternary htrue stops_colon)
      (hf.ternary hfalse hrest)
  grows := by rintro (h | h | h | h | h) <;> cases h

end Readable

/-- **Every expression that can be written is read back** from its tokens. -/
theorem readable_of_printable (h : e.Printable) : Readable e := by
  induction h with
  | literal habsent hmin => exact .literal habsent hmin
  | symbol _ hname => exact .symbol hname
  | register r => exact .register r
  | call _ _ ih => exact .call ih
  | unary op he ih =>
    cases op with
    | not => exact ih.not
    | negate => exact ih.negate he.ne_absent
  | binary op _ _ hl hr => exact .binary op hl hr
  | ternary _ _ _ hc ht hf => exact .conditional hc ht hf

end Parser

/-! ## Texts -/

/-- The names of orientations are identifiers. -/
theorem isIdentifier_orientation (o : Orientation) : IsIdentifier o.name.toList := by
  cases o <;> decide

/-- The names of register spaces are identifiers. -/
theorem isIdentifier_space (s : RegisterSpace) : IsIdentifier s.keyword.toList := by
  cases s <;> decide

theorem toInt_neg_nonneg {n : Int64} (hmin : n ≠ Int64.minValue) (hn : n.toInt < 0) :
    0 ≤ (-n).toInt := by
  have hne : n.toInt ≠ -9223372036854775808 := fun h => hmin (Int64.toInt_inj.mp h)
  have hle := n.le_toInt
  have hfits : (-n.toInt).bmod (2 ^ 64) = -n.toInt :=
    Int.bmod_eq_of_le (by omega) (by omega)
  rw [Int64.toInt_neg, hfits]
  omega

namespace Expr

/-- Parentheses can be written. -/
theorem writable_enclosed {ks : List TokenKind} (h : ∀ k ∈ ks, Writable k) :
    ∀ k ∈ enclosed ks, Writable k :=
  List.forall_mem_cons.mpr
    ⟨trivial, List.forall_mem_append.mpr ⟨h, List.forall_mem_singleton.mpr trivial⟩⟩

/-- An expression can be written in every place. -/
theorem writable_placed {inner outer : Level} {ks : List TokenKind} (h : ∀ k ∈ ks, Writable k) :
    ∀ k ∈ placed inner outer ks, Writable k := by
  rw [placed]
  split
  · exact h
  · exact writable_enclosed h

/-- The arguments of a call can be written. -/
theorem writable_argumentTokens {args : List Expr} (h : ∀ a ∈ args, ∀ k ∈ a.tokens, Writable k) :
    ∀ k ∈ argumentTokens args, Writable k := by
  match args, h with
  | [], _ => simp [argumentTokens]
  | [e], h => exact h e (.head _)
  | e :: e' :: es, h =>
    rw [argumentTokens]
    · have hes : ∀ k ∈ argumentTokens (e' :: es), Writable k :=
        writable_argumentTokens fun a ha => h a (.tail _ ha)
      exact List.forall_mem_append.mpr
        ⟨h e (.head _), List.forall_mem_cons.mpr ⟨trivial, hes⟩⟩
    · simp

/-- The tokens of an expression that can be written can be written. -/
theorem Printable.writable {e : Expr} (h : e.Printable) : ∀ k ∈ e.tokens, Writable k := by
  induction h with
  | @literal v habsent hmin =>
    cases v with
    | int n =>
      have hmin' : n ≠ Int64.minValue := fun h => hmin (h ▸ rfl)
      rw [tokens, Value.tokens]
      split
      · next hn =>
        exact List.forall_mem_cons.mpr
          ⟨trivial, List.forall_mem_singleton.mpr (toInt_neg_nonneg hmin' hn)⟩
      · next hn => simpa [Writable] using hn
    | bool b => simp [tokens, Value.tokens, Writable]
    | string s => simp [tokens, Value.tokens, Writable]
    | orientation o => simp [tokens, Value.tokens, Writable, isIdentifier_orientation]
    | absent => exact absurd rfl habsent
  | symbol hname _ => simpa [tokens, Writable] using hname
  | register r => simp [tokens, Writable, isIdentifier_space]
  | call hf _ ih =>
    have hargs := writable_argumentTokens ih
    exact List.forall_mem_cons.mpr ⟨hf, List.forall_mem_cons.mpr ⟨trivial,
      List.forall_mem_append.mpr ⟨hargs, List.forall_mem_singleton.mpr trivial⟩⟩⟩
  | unary op _ ih =>
    cases op with
    | not => exact List.forall_mem_cons.mpr ⟨trivial, writable_placed ih⟩
    | negate =>
      refine List.forall_mem_cons.mpr ⟨trivial, ?_⟩
      split
      · exact writable_enclosed ih
      · exact writable_placed ih
  | binary op _ _ hl hr =>
    exact List.forall_mem_append.mpr ⟨writable_placed hl,
      List.forall_mem_cons.mpr ⟨trivial, writable_placed hr⟩⟩
  | ternary _ _ _ hc ht he =>
    simp only [tokens, List.forall_mem_append, List.forall_mem_cons]
    exact ⟨writable_placed hc, trivial, ht, trivial, he⟩

end Expr

namespace Parser

/-- A state with a condition and no handlers. -/
theorem script_of_condition {e : Expr} (he : Readable e) {ts : List Token} {l l' : Location}
    (hts : Shows (.ident "S" :: .mark .leftParen :: (e.tokens ++
      [.mark .rightParen, .mark .leftBrace, .mark .rightBrace])) ts [⟨.endOfFile, l'⟩]) :
    Parser.script (⟨.keyword .stateWord, l⟩ :: ts) =
      .ok { states := [⟨"S", e, .empty, l⟩] } := by
  obtain ⟨l₁, _, rfl, l₂, ts₁, rfl, hts⟩ := hts
  rw [shows_append] at hts
  obtain ⟨_, hcondition, l₃, _, rfl, l₄, _, rfl, l₅, _, rfl, rfl⟩ := hts
  have hstate : ∀ finish, Takes (declaration finish {} (⟨.keyword .stateWord, l⟩ ::
      ⟨.ident "S", l₁⟩ :: ⟨.mark .leftParen, l₂⟩ :: ts₁)) { states := [⟨"S", e, .empty, l⟩] }
      [⟨.endOfFile, l'⟩] := by
    intro finish
    obtain ⟨hlt, h⟩ : Takes (expression finish .ternary ts₁) e _ :=
      he.ternary hcondition stops_rightParen
    apply Exists.intro
    rw [declaration, peek_cons]
    simp only
    rw [stateDeclaration]
    simp only [expect_cons, ok_bind, Shorter.tail, expectIdent_cons, here, Script.state?,
      List.find?_nil, Option.isSome_none, Bool.false_eq_true, if_false]
    rw [h]
    simp only [expect_cons, ok_bind, Shorter.tail]
    rw [handlers, accept?_cons]
    rfl
  obtain ⟨hlt, hstate⟩ := hstate _
  rw [Parser.script, declarations, if_neg (by simp), hstate]
  simp only [ok_bind]
  rw [declarations]
  rfl

end Parser

/-- A layout of the condition of a state, with the text around it. -/
theorem laid_state {ks : List TokenKind} {cs : List Char} (h : Laid ks cs) :
    Laid (.ident "S" :: .mark .leftParen ::
      (ks ++ [.mark .rightParen, .mark .leftBrace, .mark .rightBrace]))
      (' ' :: 'S' :: '(' :: (cs ++ [')', ' ', '{', '}'])) := by
  have hblank : ∀ k rest, Parted k (' ' :: rest) :=
    parted_separator (by decide) (by decide) (by decide)
  have hparen : ∀ k rest, Parted k (')' :: rest) :=
    parted_separator (by decide) (by decide) (by decide)
  have hgap : ∀ c ∈ [' '], Text.isBlank c := List.forall_mem_singleton.mpr (by decide)
  have hclosing : Laid [.mark .rightParen, .mark .leftBrace, .mark .rightBrace]
      ([] ++ ([')'] ++ ([' '] ++ (['{'] ++ ([] ++ (['}'] ++ [])))))) :=
    .cons (by simp) rfl (hblank _ _) (.cons hgap rfl (parted_cons.mpr trivial)
      (.cons (by simp) rfl (parted_nil _) (.nil (by simp))))
  have hinner := h.append hclosing fun k => hparen k _
  have hopening : Parted (.mark .leftParen) (cs ++ ([] ++ ([')'] ++ ([' '] ++ (['{'] ++ ([] ++
      (['}'] ++ []))))))) := fun _ _ => trivial
  have hname : Spells (.ident "S") ['S'] := ⟨rfl, by decide⟩
  have hmark : Spells (.mark .leftParen) ['('] := rfl
  exact .cons hgap hname (parted_cons.mpr (by decide : ¬ continuesWord '('))
    (.cons (List.forall_mem_nil _) hmark hopening hinner)

/-- **Reading undoes writing**: an expression that can be written has a text, and every text in
    which its tokens are laid out is read as this expression. -/
theorem Script.parse_condition {e : Expr} (he : e.Printable) :
    (∃ text : String, Laid e.tokens text.toList) ∧
      ∀ text : String, Laid e.tokens text.toList →
        Script.parse ("state S(" ++ text ++ ") \x7b\x7d") =
          .ok { states := [⟨"S", e, .empty, .start⟩] } := by
  refine ⟨⟨String.ofList (spaced e.tokens), ?_⟩, fun text htext => ?_⟩
  · rw [String.toList_ofList]
    exact laid_spaced he.writable
  · have hchars : ("state S(" ++ text ++ ") \x7b\x7d").toList =
        [] ++ (Keyword.stateWord.spelling.toList ++
          (' ' :: 'S' :: '(' :: (text.toList ++ [')', ' ', '{', '}']))) := by
      simp [String.toList_append, Keyword.spelling]
    obtain ⟨ts, l', hscan, hkinds⟩ := scan_of_laid (laid_state htext)
      (((Location.start).advance []).advance Keyword.stateWord.spelling.toList)
    have hstate : Spells (.keyword .stateWord) Keyword.stateWord.spelling.toList := rfl
    have hparted : Parted (.keyword .stateWord)
        (' ' :: 'S' :: '(' :: (text.toList ++ [')', ' ', '{', '}'])) :=
      parted_separator (by decide) (by decide) (by decide) _ _
    rw [Script.parse, tokenize, hchars,
      scan_token .start (List.forall_mem_nil _) hstate hparted, hscan]
    exact script_of_condition (readable_of_printable he) (shows_of_kinds hkinds)

/-- `-(5) * (a - -1)`: a number under a minus sign, a negative number, and a difference as an
    operand of a product. -/
def product : Expr :=
  .binary .multiply (.unary .negate (.literal (.int 5)))
    (.binary .subtract (.symbol "a") (.literal (.int (-1))))

theorem parse_product :
    product.Printable ∧ Laid product.tokens "- ( 5 ) * ( a - - 1 ) ".toList ∧
      Script.parse ("state S(" ++ "- ( 5 ) * ( a - - 1 ) " ++ ") \x7b\x7d") =
        .ok { states := [⟨"S", product, .empty, .start⟩] } := by
  have hprintable : product.Printable :=
    .binary _ (.unary _ (.literal (by decide) (by decide)))
      (.binary _ (.symbol (by decide) (by decide)) (.literal (by decide) (by decide)))
  have htext : "- ( 5 ) * ( a - - 1 ) ".toList = spaced product.tokens := by decide
  have hlaid : Laid product.tokens "- ( 5 ) * ( a - - 1 ) ".toList :=
    htext ▸ laid_spaced hprintable.writable
  exact ⟨hprintable, hlaid, (Script.parse_condition hprintable).2 _ hlaid⟩

end ActorScript
