/-
  The grammar of scripts.

  Every part of a script has one rule, a phrase that is made of tokens and of parts by sequence
  (`++`), choice (`|||`), `optional` and `many`.  The rules say nothing about how a script is
  read: several may fit the same tokens, and none says which one to try first.

  `Derives x ts rest` says that the tokens `ts` are the phrase `x` with the tokens `rest` behind
  it, so that phrases in a row need no cutting and pasting of lists.  To show something of all
  that can be derived, it is enough that the rules preserve it (`Derives.closed`): a relation that
  holds of a part whenever its rule holds with the relation in place of the parts.
-/
import Mathlib.Logic.Relation
import ActorScript.Parser.Tokens
import ActorScript.Parser.Expression

namespace ActorScript

/-! ## Rules -/

namespace Grammar

/-- The parts of a script.  Expressions come in levels. -/
inductive Part
  | program
  | literal
  | block
  | statement
  | ifStatement
  | arguments
  | expression (level : Parser.Level)
deriving DecidableEq, Repr

/-- What the right side of a rule is made of. -/
inductive Phrase
  | token (accepts : TokenKind → Prop)
  | part (p : Part)
  | seq (x y : Phrase)
  | either (x y : Phrase)
  | optional (x : Phrase)
  | many (x : Phrase)

instance : Append Phrase := ⟨.seq⟩

instance : OrOp Phrase := ⟨.either⟩

namespace Phrase

/-- One keyword. -/
def keyword (k : Keyword) : Phrase := token (· = .keyword k)

/-- One mark. -/
def mark (m : Mark) : Phrase := token (· = .mark m)

/-- One of several marks. -/
def oneOf (ms : List Mark) : Phrase := token fun k => ∃ m ∈ ms, k = .mark m

/-- A number, which has no sign: that is a mark of its own. -/
def int : Phrase := token fun k => ∃ n, k = .int n

/-- A text in quotes. -/
def string : Phrase := token fun k => ∃ s, k = .string s

/-- Any word that is no keyword. -/
def ident : Phrase := token fun k => ∃ name, k = .ident name

/-- An identifier that is the name of an orientation. -/
def orientation : Phrase := token fun k => ∃ o : Orientation, k = .ident o.name

/-- An identifier that is the name of a register space. -/
def space : Phrase := token fun k => ∃ s : RegisterSpace, k = .ident s.keyword

/-- The token behind the last one of a source. -/
def endOfFile : Phrase := token (· = .endOfFile)

/-- An expression of a level, with all that is tighter. -/
def expression (level : Parser.Level) : Phrase := part (.expression level)

/-- One or more times the same part, with one of the marks between each two. -/
def separated (ms : List Mark) (p : Part) : Phrase := part p ++ many (oneOf ms ++ part p)

/-- The name of a space and a key in brackets, with or without quotes. -/
def register : Phrase := space ++ (mark .leftBracket ++ ((ident ||| string) ++ mark .rightBracket))

/-- A call, an assignment to a name or an assignment to a register. -/
def simpleStatement : Phrase :=
  ident ++ (part .arguments ++ mark .semicolon) |||
    ident ++ (mark .assign ++ (expression .ternary ++ mark .semicolon)) |||
    register ++ (mark .assign ++ (expression .ternary ++ mark .semicolon))

/-- A constant always has a value. -/
def constant : Phrase :=
  keyword .constWord ++ (ident ++ (mark .assign ++ (part .literal ++ mark .semicolon)))

/-- A variable may be saved, and may have a default. -/
def variableDeclaration : Phrase :=
  optional (keyword .savedWord) ++ (keyword .varWord ++ (ident ++
    (optional (mark .assign ++ part .literal) ++ mark .semicolon)))

/-- An event, with the empty parentheses that every event has, and what to do. -/
def handler : Phrase :=
  keyword .eventWord ++ (ident ++ (mark .leftParen ++ (mark .rightParen ++ part .block)))

/-- A state has a condition and any number of handlers. -/
def stateDeclaration : Phrase :=
  keyword .stateWord ++ (ident ++ (mark .leftParen ++ (expression .ternary ++ (mark .rightParen ++
    (mark .leftBrace ++ (many handler ++ mark .rightBrace))))))

/-- Declarations may stand in any order. -/
def declaration : Phrase := constant ||| variableDeclaration ||| stateDeclaration

end Phrase

open Phrase

/-- The rules. -/
def rule : Part → Phrase
  | .program => many declaration ++ endOfFile
  | .literal =>
    int ||| mark .minus ++ int ||| string ||| keyword .trueWord ||| keyword .falseWord |||
      orientation
  | .block => mark .leftBrace ++ (many (part .statement) ++ mark .rightBrace)
  | .statement => part .ifStatement ||| simpleStatement
  | .ifStatement =>
    keyword .ifWord ++ (mark .leftParen ++ (expression .ternary ++ (mark .rightParen ++
      (part .block ++ optional (keyword .elseWord ++ (part .ifStatement ||| part .block))))))
  | .arguments =>
    mark .leftParen ++ (optional (separated [.comma] (.expression .ternary)) ++ mark .rightParen)
  | .expression .ternary =>
    expression .or ++ optional (mark .question ++ (expression .ternary ++ (mark .colon ++
      expression .ternary)))
  | .expression .or => separated [.or] (.expression .and)
  | .expression .and => separated [.and] (.expression .not)
  | .expression .not => mark .bang ++ expression .not ||| expression .equality
  | .expression .equality =>
    separated [.equal, .notEqual, .less, .lessEqual, .greater, .greaterEqual]
      (.expression .additive)
  | .expression .additive => separated [.plus, .minus] (.expression .multiplicative)
  | .expression .multiplicative => separated [.star, .slash] (.expression .unary)
  | .expression .unary =>
    mark .minus ++ expression .unary ||| mark .bang ++ expression .unary ||| expression .primary
  | .expression .primary =>
    int ||| string ||| keyword .trueWord ||| keyword .falseWord |||
      mark .leftParen ++ (expression .ternary ++ mark .rightParen) |||
      ident ++ part .arguments ||| register ||| ident

/-! ## Derivations -/

/-- The tokens on the left start with the phrase and go on with the tokens on the right. -/
inductive Derives : Phrase → List Token → List Token → Prop
  | token {accepts : TokenKind → Prop} {t : Token} {rest : List Token} :
      accepts t.kind → Derives (.token accepts) (t :: rest) rest
  | part {p : Part} {ts rest : List Token} : Derives (rule p) ts rest → Derives (.part p) ts rest
  | seq {x y : Phrase} {ts mid rest : List Token} :
      Derives x ts mid → Derives y mid rest → Derives (x ++ y) ts rest
  | left {x y : Phrase} {ts rest : List Token} : Derives x ts rest → Derives (x ||| y) ts rest
  | right {x y : Phrase} {ts rest : List Token} : Derives y ts rest → Derives (x ||| y) ts rest
  | none {x : Phrase} {ts : List Token} : Derives (.optional x) ts ts
  | some {x : Phrase} {ts rest : List Token} : Derives x ts rest → Derives (.optional x) ts rest
  | done {x : Phrase} {ts : List Token} : Derives (.many x) ts ts
  | more {x : Phrase} {ts mid rest : List Token} :
      Derives x ts mid → Derives (.many x) mid rest → Derives (.many x) ts rest

/-- A relation between the tokens from the front of a part on and those behind it. -/
abbrev Reading := Part → List Token → List Token → Prop

/-- What a phrase says of tokens if its parts are read by `R`. -/
def Phrase.Holds (R : Reading) : Phrase → List Token → List Token → Prop
  | .token accepts, ts, rest => ∃ t, ts = t :: rest ∧ accepts t.kind
  | .part p, ts, rest => R p ts rest
  | .seq x y, ts, rest => ∃ mid, x.Holds R ts mid ∧ y.Holds R mid rest
  | .either x y, ts, rest => x.Holds R ts rest ∨ y.Holds R ts rest
  | .optional x, ts, rest => ts = rest ∨ x.Holds R ts rest
  | .many x, ts, rest => Relation.ReflTransGen (x.Holds R) ts rest

section Holds

variable {R : Reading} {x y : Phrase} {ts rest : List Token}

/-- A part is what it is read as. -/
@[simp] theorem holds_part {p : Part} : (Phrase.part p).Holds R ts rest ↔ R p ts rest := Iff.rfl

@[simp] theorem holds_expression {l : Parser.Level} :
    (expression l).Holds R ts rest ↔ R (.expression l) ts rest := Iff.rfl

/-- A sequence has a place where its first phrase ends and the second one begins. -/
@[simp] theorem holds_append :
    (x ++ y).Holds R ts rest ↔ ∃ mid, x.Holds R ts mid ∧ y.Holds R mid rest := Iff.rfl

/-- A choice is either of its phrases, and nothing tells which. -/
@[simp] theorem holds_or :
    (x ||| y).Holds R ts rest ↔ x.Holds R ts rest ∨ y.Holds R ts rest := Iff.rfl

/-- An optional phrase may take nothing. -/
@[simp] theorem holds_optional :
    (Phrase.optional x).Holds R ts rest ↔ ts = rest ∨ x.Holds R ts rest := Iff.rfl

/-- A phrase many times leads from place to place in steps of that phrase. -/
@[simp] theorem holds_many :
    (Phrase.many x).Holds R ts rest ↔ Relation.ReflTransGen (x.Holds R) ts rest := Iff.rfl

/-- A keyword is one token. -/
@[simp] theorem holds_keyword {k : Keyword} :
    (keyword k).Holds R ts rest ↔ ∃ l, ts = ⟨.keyword k, l⟩ :: rest := by
  constructor
  · rintro ⟨⟨_, l⟩, rfl, rfl⟩
    exact ⟨l, rfl⟩
  · rintro ⟨l, rfl⟩
    exact ⟨_, rfl, rfl⟩

/-- A mark is one token. -/
@[simp] theorem holds_mark {m : Mark} :
    (mark m).Holds R ts rest ↔ ∃ l, ts = ⟨.mark m, l⟩ :: rest := by
  constructor
  · rintro ⟨⟨_, l⟩, rfl, rfl⟩
    exact ⟨l, rfl⟩
  · rintro ⟨l, rfl⟩
    exact ⟨_, rfl, rfl⟩

/-- The end of the file is one token. -/
@[simp] theorem holds_endOfFile :
    endOfFile.Holds R ts rest ↔ ∃ l, ts = ⟨.endOfFile, l⟩ :: rest := by
  constructor
  · rintro ⟨⟨_, l⟩, rfl, rfl⟩
    exact ⟨l, rfl⟩
  · rintro ⟨l, rfl⟩
    exact ⟨_, rfl, rfl⟩

/-- A token whose kind is one of a family. -/
theorem holds_family {α : Type} (f : α → TokenKind) :
    (Phrase.token fun k => ∃ a, k = f a).Holds R ts rest ↔ ∃ a l, ts = ⟨f a, l⟩ :: rest := by
  constructor
  · rintro ⟨⟨_, l⟩, rfl, a, rfl⟩
    exact ⟨a, l, rfl⟩
  · rintro ⟨a, l, rfl⟩
    exact ⟨_, rfl, a, rfl⟩

@[simp] theorem holds_int :
    Phrase.int.Holds R ts rest ↔ ∃ n l, ts = ⟨.int n, l⟩ :: rest := holds_family _

@[simp] theorem holds_string :
    Phrase.string.Holds R ts rest ↔ ∃ s l, ts = ⟨.string s, l⟩ :: rest := holds_family _

@[simp] theorem holds_ident :
    ident.Holds R ts rest ↔ ∃ name l, ts = ⟨.ident name, l⟩ :: rest := holds_family _

/-- An orientation is an identifier for the lexer, and a name for the grammar. -/
@[simp] theorem holds_orientation :
    orientation.Holds R ts rest ↔
      ∃ (o : Orientation) (l : Location), ts = ⟨.ident o.name, l⟩ :: rest :=
  holds_family _

/-- A register space is an identifier for the lexer, too. -/
@[simp] theorem holds_space :
    space.Holds R ts rest ↔
      ∃ (s : RegisterSpace) (l : Location), ts = ⟨.ident s.keyword, l⟩ :: rest :=
  holds_family _

/-- One of several marks is one token too. -/
@[simp] theorem holds_oneOf {ms : List Mark} :
    (oneOf ms).Holds R ts rest ↔ ∃ m ∈ ms, ∃ l, ts = ⟨.mark m, l⟩ :: rest := by
  constructor
  · rintro ⟨⟨_, l⟩, rfl, m, hm, rfl⟩
    exact ⟨m, hm, l, rfl⟩
  · rintro ⟨m, hm, l, rfl⟩
    exact ⟨_, rfl, m, hm, rfl⟩

end Holds

/-- What can be derived of the parts. -/
abbrev derived : Reading := fun p => Derives (.part p)

/-- **What is put together from derivable parts is derivable**, by induction over the phrase. -/
theorem derives_of_holds : ∀ {x : Phrase} {ts rest : List Token},
    x.Holds derived ts rest → Derives x ts rest
  | .token _, _, _, ⟨_, rfl, ht⟩ => .token ht
  | .part _, _, _, h => h
  | .seq _ _, _, _, ⟨_, h₁, h₂⟩ => .seq (derives_of_holds h₁) (derives_of_holds h₂)
  | .either _ _, _, _, .inl h => .left (derives_of_holds h)
  | .either _ _, _, _, .inr h => .right (derives_of_holds h)
  | .optional _, _, _, .inl rfl => .none
  | .optional _, _, _, .inr h => .some (derives_of_holds h)
  | .many x, ts, rest, h => by
    -- `more` puts a phrase in front, so the steps are counted from there
    induction h using Relation.ReflTransGen.head_induction_on with
    | refl => exact .done
    | head h _ ih => exact .more (derives_of_holds h) ih

/-- A part is what its rule says. -/
theorem derives_of_rule {p : Part} {ts rest : List Token} (h : (rule p).Holds derived ts rest) :
    Derives (.part p) ts rest := .part (derives_of_holds h)

/-- **Induction over derivations**: what the rules preserve holds of everything that can be
    derived. -/
theorem Derives.closed {R : Reading} (hR : ∀ p ts rest, (rule p).Holds R ts rest → R p ts rest)
    {x : Phrase} {ts rest : List Token} (h : Derives x ts rest) : x.Holds R ts rest := by
  induction h with
  | token ht => exact ⟨_, rfl, ht⟩
  | part _ ih => exact hR _ _ _ ih
  | seq _ _ ih₁ ih₂ => exact ⟨_, ih₁, ih₂⟩
  | left _ ih => exact .inl ih
  | right _ ih => exact .inr ih
  | none => exact .inl rfl
  | some _ ih => exact .inr ih
  | done => exact .refl
  | more _ _ ih₁ ih₂ => exact .head ih₁ ih₂

/-- What can be derived as a phrase is put together from what can be derived of its parts. -/
theorem Derives.holds {x : Phrase} {ts rest : List Token} (h : Derives x ts rest) :
    x.Holds derived ts rest :=
  h.closed fun _ _ _ => derives_of_rule

/-- A part that is derived is derived by its rule, there being no other way. -/
theorem Derives.of_part {p : Part} {ts rest : List Token} (h : Derives (.part p) ts rest) :
    (rule p).Holds derived ts rest := by
  cases h with
  | part h => exact h.holds

/-! ## The tokens of a phrase -/

/-- The phrase is made of tokens whose kinds satisfy `C` and of parts that satisfy `S`. -/
def Phrase.MadeOf (C : TokenKind → Prop) (S : Part → Prop) : Phrase → Prop
  | .token accepts => ∀ k, accepts k → C k
  | .part p => S p
  | .seq x y => x.MadeOf C S ∧ y.MadeOf C S
  | .either x y => x.MadeOf C S ∧ y.MadeOf C S
  | .optional x => x.MadeOf C S
  | .many x => x.MadeOf C S

section MadeOf

variable {C : TokenKind → Prop} {S : Part → Prop} {x y : Phrase}

@[simp] theorem madeOf_part {p : Part} : (Phrase.part p).MadeOf C S ↔ S p := Iff.rfl

@[simp] theorem madeOf_expression {l : Parser.Level} :
    (expression l).MadeOf C S ↔ S (.expression l) := Iff.rfl

/-- A sequence is made of what its phrases are made of. -/
@[simp] theorem madeOf_append : (x ++ y).MadeOf C S ↔ x.MadeOf C S ∧ y.MadeOf C S := Iff.rfl

/-- A choice is made of what both of its phrases are made of. -/
@[simp] theorem madeOf_or : (x ||| y).MadeOf C S ↔ x.MadeOf C S ∧ y.MadeOf C S := Iff.rfl

@[simp] theorem madeOf_optional : (Phrase.optional x).MadeOf C S ↔ x.MadeOf C S := Iff.rfl

@[simp] theorem madeOf_many : (Phrase.many x).MadeOf C S ↔ x.MadeOf C S := Iff.rfl

@[simp] theorem madeOf_keyword {k : Keyword} : (keyword k).MadeOf C S ↔ C (.keyword k) := by
  simp [keyword, Phrase.MadeOf]

@[simp] theorem madeOf_mark {m : Mark} : (mark m).MadeOf C S ↔ C (.mark m) := by
  simp [mark, Phrase.MadeOf]

/-- The tokens of a choice of marks are these marks. -/
@[simp] theorem madeOf_oneOf {ms : List Mark} :
    (oneOf ms).MadeOf C S ↔ ∀ m ∈ ms, C (.mark m) :=
  ⟨fun h m hm => h _ ⟨m, hm, rfl⟩, fun h _ ⟨m, hm, hk⟩ => hk ▸ h m hm⟩

/-- The tokens of a family are all of its members. -/
theorem madeOf_family {α : Type} (f : α → TokenKind) :
    (Phrase.token fun k => ∃ a, k = f a).MadeOf C S ↔ ∀ a, C (f a) := by
  simp [Phrase.MadeOf]

@[simp] theorem madeOf_int : Phrase.int.MadeOf C S ↔ ∀ n, C (.int n) := madeOf_family _

@[simp] theorem madeOf_string : Phrase.string.MadeOf C S ↔ ∀ s, C (.string s) := madeOf_family _

@[simp] theorem madeOf_ident : ident.MadeOf C S ↔ ∀ name, C (.ident name) := madeOf_family _

@[simp] theorem madeOf_orientation :
    orientation.MadeOf C S ↔ ∀ o : Orientation, C (.ident o.name) := madeOf_family _

@[simp] theorem madeOf_space : space.MadeOf C S ↔ ∀ s : RegisterSpace, C (.ident s.keyword) :=
  madeOf_family _

end MadeOf

/-- A phrase that is made of some tokens is made of more of them. -/
theorem Phrase.MadeOf.mono {C C' : TokenKind → Prop} {S : Part → Prop} (hC : ∀ k, C k → C' k) :
    ∀ {x : Phrase}, x.MadeOf C S → x.MadeOf C' S
  | .token _, h => fun k hk => hC k (h k hk)
  | .part _, h => h
  | .seq _ _, h => ⟨h.1.mono hC, h.2.mono hC⟩
  | .either _ _, h => ⟨h.1.mono hC, h.2.mono hC⟩
  | .optional x, h => Phrase.MadeOf.mono hC (x := x) h
  | .many x, h => Phrase.MadeOf.mono hC (x := x) h

/-- `ts` is `rest` with tokens in front whose kinds satisfy `C`. -/
def Skips (C : TokenKind → Prop) (ts rest : List Token) : Prop :=
  ∃ taken, ts = taken ++ rest ∧ ∀ t ∈ taken, C t.kind

/-- Nothing is skipped where nothing is taken. -/
theorem Skips.refl (C : TokenKind → Prop) (ts : List Token) : Skips C ts ts :=
  ⟨[], rfl, by simp⟩

/-- One token more in front. -/
theorem Skips.cons {C : TokenKind → Prop} {t : Token} {ts rest : List Token} (ht : C t.kind)
    (h : Skips C ts rest) : Skips C (t :: ts) rest := by
  obtain ⟨taken, rfl, htaken⟩ := h
  exact ⟨t :: taken, rfl, List.forall_mem_cons.mpr ⟨ht, htaken⟩⟩

/-- The same tokens, of which less is said. -/
theorem Skips.mono {C C' : TokenKind → Prop} {ts rest : List Token} (hC : ∀ k, C k → C' k)
    (h : Skips C ts rest) : Skips C' ts rest := by
  obtain ⟨taken, rfl, htaken⟩ := h
  exact ⟨taken, rfl, fun t ht => hC _ (htaken t ht)⟩

/-- What is skipped in two steps is skipped in one. -/
theorem Skips.trans {C : TokenKind → Prop} {ts mid rest : List Token} (h₁ : Skips C ts mid)
    (h₂ : Skips C mid rest) : Skips C ts rest := by
  obtain ⟨taken₁, rfl, hC₁⟩ := h₁
  obtain ⟨taken₂, rfl, hC₂⟩ := h₂
  exact ⟨taken₁ ++ taken₂, (List.append_assoc ..).symm, List.forall_mem_append.mpr ⟨hC₁, hC₂⟩⟩

/-- If the rules of some parts use only these parts and tokens that satisfy `C`, then nothing but
    such tokens is derived from them. -/
theorem Derives.skips {C : TokenKind → Prop} {S : Part → Prop}
    (hS : ∀ p, S p → (rule p).MadeOf C S) {x : Phrase} {ts rest : List Token}
    (h : Derives x ts rest) (hx : x.MadeOf C S) : Skips C ts rest := by
  induction h with
  | token ht => exact .cons (hx _ ht) (.refl _ _)
  | part _ ih => exact ih (hS _ hx)
  | seq _ _ ih₁ ih₂ => exact (ih₁ hx.1).trans (ih₂ hx.2)
  | left _ ih => exact ih hx.1
  | right _ ih => exact ih hx.2
  | none => exact .refl _ _
  | some _ ih => exact ih hx
  | done => exact .refl _ _
  | more _ _ ih₁ ih₂ => exact (ih₁ hx).trans (ih₂ hx)

end Grammar

end ActorScript
