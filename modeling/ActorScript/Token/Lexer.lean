/-
  From the text of a script to its tokens.

  Between tokens lie gaps of blanks and comments (`skipGap`).  At the end of a gap stands the end
  of the text or the first character of a token, and `lexeme` takes the longest token that starts
  there.  `lexeme` gives back the characters it took together with those it left, so that no
  character is lost (`lexeme_append`) and the text gets shorter with every token.
-/
import ActorScript.Error
import ActorScript.Text.Blank
import ActorScript.Value

namespace ActorScript.Token

/-! ## Gaps -/

/-- What a gap is in the middle of. -/
inductive Gap
  | blanks
  | lineComment
  /-- A comment that was opened at `start` and ends at the next `*/`. -/
  | blockComment (start : Location)
deriving DecidableEq, Repr

/-- Skips blanks and comments: gives the location and the text at which the next token starts.
    Fails only in a comment that is never closed, naming the place where it was opened. -/
def skipGap : Gap → Location → List Char → Except Error (Location × List Char)
  | .blanks, l, [] => .ok (l, [])
  | .blanks, l, '/' :: '/' :: cs => skipGap .lineComment ((l.next '/').next '/') cs
  | .blanks, l, '/' :: '*' :: cs => skipGap (.blockComment l) ((l.next '/').next '*') cs
  | .blanks, l, c :: cs =>
    if Text.isBlank c then skipGap .blanks (l.next c) cs else .ok (l, c :: cs)
  | .lineComment, l, [] => .ok (l, [])
  | .lineComment, l, c :: cs =>
    skipGap (if c = '\n' then .blanks else .lineComment) (l.next c) cs
  | .blockComment start, _, [] => .error (.atLocation .unterminatedComment start)
  | .blockComment _, l, '*' :: '/' :: cs => skipGap .blanks ((l.next '*').next '/') cs
  | .blockComment start, l, c :: cs => skipGap (.blockComment start) (l.next c) cs

theorem skipGap_length_le {g : Gap} {l l' : Location} {cs rest : List Char}
    (h : skipGap g l cs = .ok (l', rest)) : rest.length ≤ cs.length := by
  fun_induction skipGap g l cs <;> grind

/-! ## Lexemes -/

/-- What stands for the character `c` after a backslash: the four known escapes, or else the
    backslash and the character. -/
def unescape : Char → List Char
  | 'n' => ['\n']
  | 't' => ['\t']
  | '\\' => ['\\']
  | '"' => ['"']
  | c => ['\\', c]

/-- The inside of a string literal: its value, its characters up to and with the closing quote,
    and the text behind it.  There is none if the line ends first. -/
def stringBody : List Char → Option (List Char × List Char × List Char)
  | [] => none
  | '\n' :: _ => none
  | '"' :: cs => some ([], ['"'], cs)
  | '\\' :: c :: cs =>
    (stringBody cs).map fun (value, taken, rest) =>
      (unescape c ++ value, '\\' :: c :: taken, rest)
  | c :: cs =>
    (stringBody cs).map fun (value, taken, rest) => (c :: value, c :: taken, rest)

/-- Whether an identifier or keyword can start with a character. -/
def startsWord (c : Char) : Bool := c.isAlpha || c == '_'

/-- Whether an identifier or keyword can go on with a character. -/
def continuesWord (c : Char) : Bool := c.isAlphanum || c == '_'

/-- The kind of a token that is spelled as a word. -/
def wordKind (word : String) : TokenKind :=
  match Keyword.ofSpelling? word with
  | some k => .keyword k
  | none => .ident word

/-- The token at the start of a text: its kind, its characters and the text behind it. -/
def lexeme (l : Location) (c : Char) (cs : List Char) :
    Except Error (TokenKind × List Char × List Char) :=
  match Mark.leading? (c :: cs) with
  | some m => .ok (.mark m, m.chars, (c :: cs).drop m.chars.length)
  | none =>
    if c = '"' then
      match stringBody cs with
      | some (value, taken, rest) => .ok (.string (String.ofList value), '"' :: taken, rest)
      | none => .error (.atLocation .unterminatedString l)
    else if c.isDigit then
      let digits := c :: cs.takeWhile Char.isDigit
      let n := Nat.ofDigitChars 10 digits 0
      if n < Value.intBound then .ok (.int (Int64.ofNat n), digits, cs.dropWhile Char.isDigit)
      else .error (.atLocation (.integerOutOfRange (String.ofList digits)) l)
    else if startsWord c then
      let word := c :: cs.takeWhile continuesWord
      .ok (wordKind (String.ofList word), word, cs.dropWhile continuesWord)
    else .error (.atLocation (.unexpectedCharacter c) l)

theorem stringBody_append {cs value taken rest : List Char}
    (h : stringBody cs = some (value, taken, rest)) : taken ++ rest = cs := by
  fun_induction stringBody cs generalizing value taken rest with
  | case1 => simp at h
  | case2 => simp at h
  | case3 cs =>
    simp only [Option.some.injEq, Prod.mk.injEq] at h
    obtain ⟨-, rfl, rfl⟩ := h
    rfl
  | case4 c cs ih =>
    obtain ⟨⟨v, t, r⟩, hv, he⟩ := Option.map_eq_some_iff.1 h
    simp only [Prod.mk.injEq] at he
    obtain ⟨rfl, rfl, rfl⟩ := he
    simp [ih hv]
  | case5 c cs _ _ _ ih =>
    obtain ⟨⟨v, t, r⟩, hv, he⟩ := Option.map_eq_some_iff.1 h
    simp only [Prod.mk.injEq] at he
    obtain ⟨rfl, rfl, rfl⟩ := he
    simp [ih hv]

/-- **No character is lost**: the characters of a token and the text behind it make up the text
    it was taken from. -/
theorem lexeme_append {l : Location} {c : Char} {cs taken rest : List Char} {k : TokenKind}
    (h : lexeme l c cs = .ok (k, taken, rest)) : taken ++ rest = c :: cs := by
  unfold lexeme at h
  split at h
  · rename_i m hm
    simp only [Except.ok.injEq, Prod.mk.injEq] at h
    obtain ⟨-, rfl, rfl⟩ := h
    obtain ⟨t, ht⟩ := List.isPrefixOf_iff_prefix.1 (Mark.chars_isPrefixOf_of_leading? hm)
    rw [← ht, List.drop_left]
  · split at h
    · rename_i hc
      split at h
      · rename_i hb
        simp only [Except.ok.injEq, Prod.mk.injEq] at h
        obtain ⟨-, rfl, rfl⟩ := h
        simp [stringBody_append hb, hc]
      · simp at h
    · split at h
      · dsimp only at h
        split at h
        · simp only [Except.ok.injEq, Prod.mk.injEq] at h
          obtain ⟨-, rfl, rfl⟩ := h
          simp
        · simp at h
      · split at h
        · simp only [Except.ok.injEq, Prod.mk.injEq] at h
          obtain ⟨-, rfl, rfl⟩ := h
          simp
        · simp at h

theorem lexeme_ne_nil {l : Location} {c : Char} {cs taken rest : List Char} {k : TokenKind}
    (h : lexeme l c cs = .ok (k, taken, rest)) : taken ≠ [] := by
  unfold lexeme at h
  grind [Mark.chars_ne_nil]

theorem lexeme_length_lt {l : Location} {c : Char} {cs taken rest : List Char} {k : TokenKind}
    (h : lexeme l c cs = .ok (k, taken, rest)) : rest.length < (c :: cs).length := by
  have := List.length_pos_iff.2 (lexeme_ne_nil h)
  rw [← lexeme_append h, List.length_append]
  omega

/-! ## Texts -/

/-- The tokens of a text that starts at location `l`.  The last one is the end of the file. -/
def scan (l : Location) (cs : List Char) : Except Error (List Token) :=
  match _hg : skipGap .blanks l cs with
  | .error e => .error e
  | .ok (l, []) => .ok [⟨.endOfFile, l⟩]
  | .ok (l, c :: rest) =>
    match _hl : lexeme l c rest with
    | .error e => .error e
    | .ok (kind, taken, rest') =>
      (scan (l.advance taken) rest').map (⟨kind, l⟩ :: ·)
termination_by cs.length
decreasing_by
  exact Nat.lt_of_lt_of_le (lexeme_length_lt _hl) (skipGap_length_le _hg)

/-- The tokens of a script. -/
def tokenize (source : String) : Except Error (List Token) := scan .start source.toList

end ActorScript.Token
