/-
  Parsers as walks along their tokens.

  A parser takes tokens from the front of a list and leaves the rest.  Seen from the whole list it
  walks from one position to another, also if it fails in the end (`Walk`).  The steps are to look
  at a token and to go on behind it; past the last token the walk sees the end of the file, and
  stays where it is (`advance`).  A walk may be cut off as well, so that walks can be defined by
  recursion on their depth.

  A walk and a parser come to the same if they find the same or fail alike, what the parser leaves
  stands behind the position of the walk, and the walk went forward and within the list (`Meets`).
  This is kept when parsers are put together (`Meets.bind`).
-/
import ActorScript.Parser.Tokens

namespace ActorScript.Parser

/-- Steps along a list of tokens from a position on: what is found or how they fail, and the
    position then.  The failure `none` is that of a walk that is cut off. -/
def Walk (α : Type) : Type := Nat → Except (Option Error) α × Nat

namespace Walk

variable {α β : Type}

instance : Monad Walk where
  pure a := fun pos => (.ok a, pos)
  bind w f := fun pos =>
    match w pos with
    | (.ok a, pos') => f a pos'
    | (.error e, pos') => (.error e, pos')

/-- A walk that fails where it is. -/
def fail (e : Error) : Walk α := fun pos => (.error (some e), pos)

/-- A walk that is cut off. -/
def cutOff : Walk α := fun pos => (.error none, pos)

/-- A check that takes no tokens. -/
def check (p : Except Error α) : Walk α := fun pos => (p.mapError some, pos)

theorem bind_of_ok {w : Walk α} {f : α → Walk β} {a : α} {pos pos' : Nat}
    (h : w pos = (.ok a, pos')) : (w >>= f) pos = f a pos' := by
  show (match w pos with | (.ok a, pos') => f a pos' | (.error e, pos') => (.error e, pos')) = _
  rw [h]

theorem bind_of_error {w : Walk α} {f : α → Walk β} {e : Option Error} {pos pos' : Nat}
    (h : w pos = (.error e, pos')) : (w >>= f) pos = (.error e, pos') := by
  show (match w pos with | (.ok a, pos') => f a pos' | (.error e, pos') => (.error e, pos')) = _
  rw [h]

/-! ## Steps -/

section Steps

variable (tokens : List Token) (finish : Location)

/-- The kind of the token at a position.  Past the last token it is the end of the file. -/
def kindAt (pos : Nat) : TokenKind := (tokens[pos]?.map Token.kind).getD .endOfFile

/-- The kind of the next token. -/
def peek : Walk TokenKind := fun pos => (.ok (kindAt tokens pos), pos)

/-- The kind of the token behind the next. -/
def peekBehind : Walk TokenKind := fun pos => (.ok (kindAt tokens (pos + 1)), pos)

/-- The location of the next token. -/
def here : Walk Location := fun pos => (.ok ((tokens[pos]?.map Token.location).getD finish), pos)

/-- Takes the next token, whatever it is. -/
def advance : Walk TokenKind := fun pos =>
  (.ok (kindAt tokens pos), if pos < tokens.length then pos + 1 else pos)

/-- Takes a token of kind `k`, if that is what comes next. -/
def eat (k : TokenKind) : Walk Bool := do
  if (← peek tokens) = k then
    let _ ← advance tokens
    return true
  else return false

/-- Fails because of a next token that is not `wanted`. -/
def unexpected (wanted : Expectation) : Walk α := do
  let k ← peek tokens
  fail (.atLocation (.expected wanted k) (← here tokens finish))

/-- Takes a token of kind `k`, which has to come next. -/
def expect (k : TokenKind) : Walk Unit := do
  if ← eat tokens k then return ()
  else unexpected tokens finish (.kind k)

/-- Takes an identifier, which has to come next. -/
def expectIdent : Walk String := do
  match ← peek tokens with
  | .ident name =>
    let _ ← advance tokens
    return name
  | _ => unexpected tokens finish .identifier

/-- Takes the key of a register, an identifier or a string, for which errors name `l`. -/
def registerName (l : Location) : Walk String := do
  match ← advance tokens with
  | .ident key | .string key => return key
  | k => fail (.atLocation (.expected .registerKey k) l)

/-- Takes the `[key]` behind the name of a register space. -/
def registerKey (name : String) (l : Location) : Walk Register := do
  match RegisterSpace.ofKeyword? name with
  | none => fail (.atLocation (.notARegisterSpace name) l)
  | some space =>
    expect tokens finish (.mark .leftBracket)
    let key ← registerName tokens l
    expect tokens finish (.mark .rightBracket)
    return ⟨space, key⟩

/-- Takes a literal value. -/
def literal : Walk Value := do
  let l ← here tokens finish
  match ← advance tokens with
  | .int n => return .int n
  | .mark .minus =>
    match ← advance tokens with
    | .int n => return .int (-n)
    | _ => fail (.atLocation .expectedInteger l)
  | .string s => return .string s
  | .keyword .trueWord => return .bool true
  | .keyword .falseWord => return .bool false
  | .ident name =>
    match Orientation.ofName? name with
    | some o => return .orientation o
    | none => fail (.atLocation (.expected .literal (.ident name)) l)
  | k => fail (.atLocation (.expected .literal k) l)

end Steps

end Walk

/-! ## Walks and parsers -/

section Outcomes

variable {α β : Type} {P : List Token → Prop}

/-- What a parser found, and the tokens it left. -/
def taken (p : α × { rest : List Token // P rest }) : α × List Token := (p.1, p.2.1)

/-- The tokens that a parser left which finds nothing. -/
def passed (r : { rest : List Token // P rest }) : Unit × List Token := ((), r.1)

/-- The two things a parser found, and the tokens it left. -/
def takenBoth (p : α × β × { rest : List Token // P rest }) : (α × β) × List Token :=
  ((p.1, p.2.1), p.2.2.1)

end Outcomes

/-- A walk along the tokens that began at `start` comes to the same as a parser.  If it finds
    something, it has gone on by at least `least` tokens, and the others are left; if it fails, the
    parser fails in the same way.  In both cases it went forward and not past the last token. -/
inductive Meets {α : Type} (tokens : List Token) (start least : Nat) :
    Except (Option Error) α × Nat → Except Error (α × List Token) → Prop
  | ok {a : α} {pos : Nat} : start + least ≤ pos → pos ≤ tokens.length →
      Meets tokens start least (.ok a, pos) (.ok (a, tokens.drop pos))
  | error {e : Error} {pos : Nat} : start ≤ pos → pos ≤ tokens.length →
      Meets tokens start least (.error (some e), pos) (.error e)

section Meets

open Walk

variable {α β ρ σ : Type} {P : List Token → Prop} {tokens ts : List Token}
  {start pos least m : Nat} {finish : Location}

/-- A walk and a parser that come to the same either both fail or both find something. -/
theorem Meets.outcome {w : Walk α} {p : Except Error ρ} {out : ρ → α × List Token}
    (h : Meets tokens pos m (w pos) (p.map out)) :
    (∃ e pos', p = .error e ∧ w pos = (.error (some e), pos') ∧ pos ≤ pos' ∧
      pos' ≤ tokens.length) ∨
    ∃ x pos', p = .ok x ∧ w pos = (.ok (out x).1, pos') ∧ pos + m ≤ pos' ∧
      pos' ≤ tokens.length ∧ (out x).2 = tokens.drop pos' := by
  generalize w pos = result at h
  cases p with
  | error e =>
    cases h with
    | @error _ pos' hforward hend => exact .inl ⟨e, pos', rfl, rfl, hforward, hend⟩
  | ok x =>
    have hok : Meets tokens pos m result (.ok (out x)) := h
    generalize hx : out x = found at hok
    cases hok with
    | @ok a pos' hforward hend => exact .inr ⟨x, pos', rfl, by rw [hx], hforward, hend, by rw [hx]⟩

/-- **One after the other**: what comes behind a walk and a parser that come to the same. -/
theorem Meets.bindAny {w : Walk α} {f : α → Walk β} {p : Except Error ρ} {g : ρ → Except Error σ}
    {out : ρ → α × List Token} {out' : σ → β × List Token}
    (h : Meets tokens pos m (w pos) (p.map out)) (hstart : start ≤ pos)
    (hf : ∀ x pos', pos + m ≤ pos' → pos' ≤ tokens.length → (out x).2 = tokens.drop pos' →
      Meets tokens start least (f (out x).1 pos') ((g x).map out')) :
    Meets tokens start least ((w >>= f) pos) ((p >>= g).map out') := by
  obtain ⟨e, pos', rfl, hw, hforward, hend⟩ | ⟨x, pos', rfl, hw, hforward, hend, hrest⟩ := h.outcome
  · rw [bind_of_error hw]
    exact .error (Nat.le_trans hstart hforward) hend
  · rw [bind_of_ok hw]
    exact hf x pos' hforward hend hrest

theorem Meets.bind {w : Walk α} {f : α → Walk β} {p : Except Error (α × { rest // P rest })}
    {g : α × { rest // P rest } → Except Error σ} {out : σ → β × List Token}
    (h : Meets tokens pos m (w pos) (p.map taken)) (hstart : start ≤ pos)
    (hf : ∀ a (r : { rest // P rest }) pos', pos + m ≤ pos' → pos' ≤ tokens.length →
      r.1 = tokens.drop pos' → Meets tokens start least (f a pos') ((g (a, r)).map out)) :
    Meets tokens start least ((w >>= f) pos) ((p >>= g).map out) :=
  h.bindAny hstart fun (a, r) pos' => hf a r pos'

theorem Meets.bindBoth {w : Walk (α × β)} {f : α × β → Walk σ}
    {p : Except Error (α × β × { rest // P rest })}
    {g : α × β × { rest // P rest } → Except Error ρ} {out : ρ → σ × List Token}
    (h : Meets tokens pos m (w pos) (p.map takenBoth)) (hstart : start ≤ pos)
    (hf : ∀ a b (r : { rest // P rest }) pos', pos + m ≤ pos' → pos' ≤ tokens.length →
      r.1 = tokens.drop pos' → Meets tokens start least (f (a, b) pos') ((g (a, b, r)).map out)) :
    Meets tokens start least ((w >>= f) pos) ((p >>= g).map out) :=
  h.bindAny hstart fun (a, b, r) pos' => hf a b r pos'

theorem Meets.skip {w : Walk Unit} {f : Unit → Walk β} {p : Except Error { rest // P rest }}
    {g : { rest // P rest } → Except Error σ} {out : σ → β × List Token}
    (h : Meets tokens pos m (w pos) (p.map passed)) (hstart : start ≤ pos)
    (hf : ∀ (r : { rest // P rest }) pos', pos + m ≤ pos' → pos' ≤ tokens.length →
      r.1 = tokens.drop pos' → Meets tokens start least (f () pos') ((g r).map out)) :
    Meets tokens start least ((w >>= f) pos) ((p >>= g).map out) :=
  h.bindAny hstart fun r pos' => hf r pos'

theorem Meets.check {f : α → Walk β} {p : Except Error α} {g : α → Except Error σ}
    {out : σ → β × List Token} (hstart : start ≤ pos) (hend : pos ≤ tokens.length)
    (hf : ∀ a, Meets tokens start least (f a pos) ((g a).map out)) :
    Meets tokens start least ((Walk.check p >>= f) pos) ((p >>= g).map out) := by
  cases p with
  | error e => exact .error hstart hend
  | ok a => exact hf a

/-- What holds from a position on holds from one in front of it. -/
theorem Meets.mono {result : Except (Option Error) α × Nat} {p : Except Error (α × List Token)}
    (h : Meets tokens pos m result p) (hstart : start ≤ pos) (hleast : start + least ≤ pos + m) :
    Meets tokens start least result p := by
  cases h with
  | ok hforward hend => exact .ok (Nat.le_trans hleast hforward) hend
  | error hforward hend => exact .error (Nat.le_trans hstart hforward) hend

/-- A walk that ends as its last part does, with a parser that only puts its rest together. -/
theorem Meets.last {w : Walk α} {p : Except Error (α × { rest // P rest })}
    {g : α × { rest // P rest } → σ} {out : σ → α × List Token}
    (h : Meets tokens pos m (w pos) (p.map taken)) (hstart : start ≤ pos)
    (hleast : start + least ≤ pos + m) (hg : ∀ x, out (g x) = taken x) :
    Meets tokens start least (w pos) ((p >>= fun x => pure (g x)).map out) := by
  have hsame : (p >>= fun x => pure (g x)).map out = p.map taken := by
    cases p with
    | error e => rfl
    | ok x => exact congrArg Except.ok (hg x)
  rw [hsame]
  exact h.mono hstart hleast

/-- Where a walk and a parser end. -/
theorem Meets.done {a : α} {rest : List Token} (hrest : rest = tokens.drop pos)
    (hleast : start + least ≤ pos) (hend : pos ≤ tokens.length) :
    Meets tokens start least ((pure a : Walk α) pos) (.ok (a, rest)) := by
  subst hrest
  exact .ok hleast hend

theorem Meets.fail {e : Error} (hstart : start ≤ pos) (hend : pos ≤ tokens.length) :
    Meets tokens start least ((Walk.fail e : Walk α) pos) (.error e) := .error hstart hend

/-! ## Steps of walks and parsers -/

theorem kindAt_eq (tokens : List Token) (pos : Nat) :
    kindAt tokens pos = Parser.peek (tokens.drop pos) := by
  rw [kindAt]
  rcases Nat.lt_or_ge pos tokens.length with hlt | hge
  · rw [List.getElem?_eq_getElem hlt, List.drop_eq_getElem_cons hlt]
    rfl
  · rw [List.getElem?_eq_none hge, List.drop_eq_nil_of_le hge]
    rfl

theorem peek_eq (hts : ts = tokens.drop pos) :
    Walk.peek tokens pos = (.ok (Parser.peek ts), pos) := by
  rw [Walk.peek, kindAt_eq, hts]

theorem peekBehind_eq (hts : ts = tokens.drop pos) :
    peekBehind tokens pos = (.ok (Parser.peek ts.tail), pos) := by
  rw [peekBehind, kindAt_eq, hts, List.tail_drop]

theorem here_eq (hts : ts = tokens.drop pos) :
    Walk.here tokens finish pos = (.ok (Parser.here finish ts), pos) := by
  subst hts
  rw [Walk.here]
  rcases Nat.lt_or_ge pos tokens.length with hlt | hge
  · rw [List.getElem?_eq_getElem hlt, List.drop_eq_getElem_cons hlt]
    rfl
  · rw [List.getElem?_eq_none hge, List.drop_eq_nil_of_le hge]
    rfl

/-- **At the end** a walk does not go on. -/
theorem advance_nil (hts : [] = tokens.drop pos) :
    advance tokens pos = (.ok .endOfFile, pos) := by
  have hge := List.drop_eq_nil_iff.mp hts.symm
  rw [advance, kindAt_eq, ← hts, if_neg (Nat.not_lt.mpr hge)]
  rfl

theorem advance_cons {t : Token} {rest : List Token} (hts : t :: rest = tokens.drop pos) :
    advance tokens pos = (.ok t.kind, pos + 1) ∧ rest = tokens.drop (pos + 1) ∧
      pos + 1 ≤ tokens.length := by
  have hlt : pos < tokens.length := Nat.lt_of_not_le fun hge => by
    rw [List.drop_eq_nil_of_le hge] at hts
    cases hts
  refine ⟨?_, ?_, hlt⟩
  · rw [advance, kindAt_eq, ← hts, if_pos hlt]
    rfl
  · rw [← List.tail_drop, ← hts, List.tail_cons]

theorem eat_cases {k : TokenKind} (hk : k ≠ .endOfFile) (hts : ts = tokens.drop pos) :
    (accept? k ts = none ∧ eat tokens k pos = (.ok false, pos)) ∨
      ∃ r, accept? k ts = some r ∧ eat tokens k pos = (.ok true, pos + 1) ∧
        r.1 = tokens.drop (pos + 1) ∧ pos + 1 ≤ tokens.length := by
  rw [eat, bind_of_ok (peek_eq hts)]
  cases ts with
  | nil =>
    have hend : Parser.peek [] ≠ k := Ne.symm hk
    rw [if_neg hend]
    exact .inl ⟨rfl, rfl⟩
  | cons t rest =>
    obtain ⟨hadvance, hrest, hend⟩ := advance_cons hts
    have hpeek : Parser.peek (t :: rest) = t.kind := rfl
    rw [accept?, hpeek]
    by_cases ht : t.kind = k
    · rw [if_pos ht, if_pos ht, bind_of_ok hadvance]
      exact .inr ⟨.tail t rest, rfl, rfl, hrest, hend⟩
    · rw [if_neg ht, if_neg ht]
      exact .inl ⟨rfl, rfl⟩

theorem meets_unexpected {wanted : Expectation} (hts : ts = tokens.drop pos) (hstart : start ≤ pos)
    (hend : pos ≤ tokens.length) : Meets tokens start least
      ((Walk.unexpected tokens finish wanted : Walk α) pos)
      (.error (Parser.unexpected finish wanted ts)) := by
  rw [Walk.unexpected, bind_of_ok (peek_eq hts), bind_of_ok (here_eq hts)]
  exact .error hstart hend

theorem meets_expect {k : TokenKind} (hk : k ≠ .endOfFile) (hts : ts = tokens.drop pos)
    (hend : pos ≤ tokens.length) : Meets tokens pos 1 (Walk.expect tokens finish k pos)
      ((Parser.expect finish k ts).map passed) := by
  rw [Walk.expect, Parser.expect]
  obtain ⟨hnone, heat⟩ | ⟨r, hsome, heat, hr, hend'⟩ := eat_cases hk hts
  · rw [bind_of_ok heat, hnone]
    exact meets_unexpected hts (Nat.le_refl _) hend
  · rw [bind_of_ok heat, hsome]
    exact .done hr (Nat.le_refl _) hend'

theorem meets_expectIdent (hts : ts = tokens.drop pos) (hend : pos ≤ tokens.length) :
    Meets tokens pos 1 (Walk.expectIdent tokens finish pos)
      ((Parser.expectIdent finish ts).map taken) := by
  rw [Walk.expectIdent, bind_of_ok (peek_eq hts)]
  have hfail : Meets tokens pos 1 ((Walk.unexpected tokens finish .identifier : Walk String) pos)
      (.error (Parser.unexpected finish .identifier ts)) :=
    meets_unexpected hts (Nat.le_refl _) hend
  cases ts with
  | nil => exact hfail
  | cons t rest =>
    obtain ⟨k, l⟩ := t
    obtain ⟨hadvance, hrest, hend'⟩ := advance_cons hts
    cases k with
    | ident name =>
      dsimp only [Parser.peek]
      rw [bind_of_ok hadvance]
      exact .done hrest (Nat.le_refl _) hend'
    | _ => exact hfail

theorem meets_registerName {l : Location} (hts : ts = tokens.drop pos)
    (hend : pos ≤ tokens.length) : Meets tokens pos 1 (Walk.registerName tokens l pos)
      ((Parser.registerName l ts).map taken) := by
  rw [Walk.registerName]
  cases ts with
  | nil =>
    rw [bind_of_ok (advance_nil hts)]
    exact .fail (Nat.le_refl _) hend
  | cons t rest =>
    obtain ⟨k, l'⟩ := t
    obtain ⟨hadvance, hrest, hend'⟩ := advance_cons hts
    rw [bind_of_ok hadvance]
    cases k with
    | ident key => exact .done hrest (Nat.le_refl _) hend'
    | string key => exact .done hrest (Nat.le_refl _) hend'
    | _ => exact .fail (Nat.le_succ _) hend'

theorem meets_registerKey {name : String} {l : Location} (hts : ts = tokens.drop pos)
    (hend : pos ≤ tokens.length) : Meets tokens pos 1 (Walk.registerKey tokens finish name l pos)
      ((Parser.registerKey finish name l ts).map taken) := by
  rw [Walk.registerKey, Parser.registerKey]
  cases RegisterSpace.ofKeyword? name with
  | none => exact .fail (Nat.le_refl _) hend
  | some space =>
    refine .skip (meets_expect (by decide) hts hend) (Nat.le_refl _) fun r₁ pos₁ h₁ hend₁ hr₁ => ?_
    refine .bind (meets_registerName hr₁ hend₁) (by omega) fun key r₂ pos₂ h₂ hend₂ hr₂ => ?_
    refine .skip (meets_expect (by decide) hr₂ hend₂) (by omega) fun r₃ pos₃ h₃ hend₃ hr₃ => ?_
    exact .done hr₃ (by omega) hend₃

theorem meets_literal (hts : ts = tokens.drop pos) (hend : pos ≤ tokens.length) :
    Meets tokens pos 1 (Walk.literal tokens finish pos)
      ((Parser.literal finish ts).map taken) := by
  rw [Walk.literal, bind_of_ok (here_eq hts)]
  cases ts with
  | nil =>
    rw [bind_of_ok (advance_nil hts)]
    exact .fail (Nat.le_refl _) hend
  | cons t rest =>
    obtain ⟨k, l⟩ := t
    obtain ⟨hadvance, hrest, hend'⟩ := advance_cons hts
    have hfail : ∀ {e}, Meets tokens pos 1 ((Walk.fail e : Walk Value) (pos + 1)) (.error e) :=
      .fail (Nat.le_succ _) hend'
    rw [bind_of_ok hadvance]
    cases k with
    | int n => exact .done hrest (Nat.le_refl _) hend'
    | string s => exact .done hrest (Nat.le_refl _) hend'
    | ident name =>
      dsimp only [Parser.literal]
      cases Orientation.ofName? name with
      | none => exact hfail
      | some o => exact .done hrest (Nat.le_refl _) hend'
    | keyword k =>
      cases k with
      | trueWord => exact .done hrest (Nat.le_refl _) hend'
      | falseWord => exact .done hrest (Nat.le_refl _) hend'
      | _ => exact hfail
    | mark m =>
      cases m with
      | minus =>
        cases rest with
        | nil =>
          dsimp only
          rw [bind_of_ok (advance_nil hrest)]
          exact hfail
        | cons t rest =>
          obtain ⟨k, l'⟩ := t
          obtain ⟨hadvance', hrest', hend''⟩ := advance_cons hrest
          dsimp only
          rw [bind_of_ok hadvance']
          cases k with
          | int n => exact .done hrest' (Nat.le_succ _) hend''
          | _ => exact .fail (by omega) hend''
      | _ => exact hfail
    | endOfFile => exact hfail

example (l : Location) : Walk.literal [⟨.mark .minus, l⟩] l 0 =
    (.error (some (.atLocation .expectedInteger l)), 1) := rfl

end Meets

end ActorScript.Parser
