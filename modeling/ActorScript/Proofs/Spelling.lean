/-
  From tokens to text.

  A token can be written in several ways: a number may have leading zeros, a character of a string
  may stand for itself or come with a backslash (`Spells`).  The tokens of a text may have any
  blanks between them, and need some only where the next character would be read as one more of
  the token in front of it (`Parted`).  Every text in which some tokens are laid out like that
  (`Laid`) is read back as these tokens (`scan_of_laid`).
-/
import Mathlib
import ActorScript.Token.Lexer

namespace ActorScript

/-- The mark does not become another one, or a comment, with the character behind it. -/
def Mark.EndsBefore : Mark → Char → Prop
  | .assign, c | .bang, c | .less, c | .greater, c => c ≠ '='
  | .slash, c => c ≠ '/' ∧ c ≠ '*'
  | _, _ => True

namespace Token

/-! ## Spellings -/

/-- The text between quotes for the characters of a string: all but a quote, a backslash and a
    newline may stand for themselves, and four have an escape. -/
inductive Quoted : List Char → List Char → Prop
  | nil : Quoted [] []
  | plain {c : Char} {value text : List Char} : c ≠ '"' → c ≠ '\\' → c ≠ '\n' →
      Quoted value text → Quoted (c :: value) (c :: text)
  | escaped {c e : Char} {value text : List Char} : unescape e = [c] →
      Quoted value text → Quoted (c :: value) ('\\' :: e :: text)

/-- Any text between the quotes of a string, and the value that is read from it: a backslash goes
    with the character behind it, whether the two are an escape or not. -/
inductive Inside : List Char → List Char → Prop
  | nil : Inside [] []
  | plain {c : Char} {value text : List Char} : c ≠ '"' → c ≠ '\\' → c ≠ '\n' →
      Inside value text → Inside (c :: value) (c :: text)
  | escape (c : Char) {value text : List Char} :
      Inside value text → Inside (unescape c ++ value) ('\\' :: c :: text)

/-- A text in quotes is the one that is read from them. -/
theorem Quoted.inside {value text : List Char} (h : Quoted value text) : Inside value text := by
  induction h with
  | nil => exact .nil
  | plain hquote hbackslash hnewline _ ih => exact .plain hquote hbackslash hnewline ih
  | @escaped c e value text he _ ih =>
    rw [← List.singleton_append, ← he]
    exact ih.escape e

/-- The characters of an identifier: a word that is not a keyword. -/
def IsIdentifier : List Char → Prop
  | [] => False
  | c :: cs => startsWord c ∧ cs.all continuesWord ∧
      Keyword.ofSpelling? (String.ofList (c :: cs)) = none

instance : (cs : List Char) → Decidable (IsIdentifier cs)
  | [] => inferInstanceAs (Decidable False)
  | _ :: _ => inferInstanceAs (Decidable (_ ∧ _ ∧ _))

/-- The characters are a way to write a token of this kind. -/
def Spells : TokenKind → List Char → Prop
  | .int n, cs =>
    cs ≠ [] ∧ (∀ c ∈ cs, c.isDigit) ∧ (Nat.ofDigitChars 10 cs 0 : Int) = n.toInt
  | .string s, cs => ∃ inner, cs = '"' :: (inner ++ ['"']) ∧ Quoted s.toList inner
  | .ident name, cs => cs = name.toList ∧ IsIdentifier cs
  | .keyword k, cs => cs = k.spelling.toList
  | .mark m, cs => cs = m.chars
  | .endOfFile, _ => False

/-- The token does not go on with a character. -/
def EndsBefore : TokenKind → Char → Prop
  | .int _, c => ¬ c.isDigit
  | .ident _, c | .keyword _, c => ¬ continuesWord c
  | .mark m, c => m.EndsBefore c
  | .string _, _ | .endOfFile, _ => True

/-- The token does not go on at the start of a text. -/
def Parted (k : TokenKind) (rest : List Char) : Prop := ∀ c ∈ rest.head?, EndsBefore k c

/-- The end of a text parts everything. -/
theorem parted_nil (k : TokenKind) : Parted k [] := nofun

/-- It depends on the next character whether a text parts a token from itself. -/
theorem parted_cons {k : TokenKind} {c : Char} {rest : List Char} :
    Parted k (c :: rest) ↔ EndsBefore k c := by simp [Parted]

/-- Every token ends before a character that starts no digit, word or comment and is no `=`. -/
theorem parted_separator {c : Char} (hdigit : ¬ c.isDigit) (hword : ¬ continuesWord c)
    (hmark : c ≠ '=' ∧ c ≠ '/' ∧ c ≠ '*') (k : TokenKind) (rest : List Char) :
    Parted k (c :: rest) := by
  rw [parted_cons]
  cases k with
  | int n => exact hdigit
  | ident name => exact hword
  | keyword k => exact hword
  | mark m => cases m <;> first | exact trivial | exact hmark.1 | exact hmark.2
  | string s => trivial
  | endOfFile => trivial

/-! ## Lexemes -/

/-- A character that stands for itself. -/
theorem stringBody_plain {c : Char} (hquote : c ≠ '"') (hbackslash : c ≠ '\\') (hnewline : c ≠ '\n')
    (cs : List Char) : stringBody (c :: cs) =
      (stringBody cs).map fun (value, taken, rest) => (c :: value, c :: taken, rest) := by
  rw [stringBody]
  · exact hnewline
  · exact hquote
  · rintro d ds rfl
    exact absurd rfl hbackslash

/-- **A text** is read up to its closing quote. -/
theorem stringBody_of_inside {value text : List Char} (h : Inside value text) (rest : List Char) :
    stringBody (text ++ '"' :: rest) = some (value, text ++ ['"'], rest) := by
  induction h with
  | nil => rfl
  | plain hquote hbackslash hnewline _ ih =>
    rw [List.cons_append, stringBody_plain hquote hbackslash hnewline, ih]
    rfl
  | escape c _ ih =>
    rw [List.cons_append, List.cons_append, stringBody, ih]
    rfl

/-- No mark starts with a character of a class that holds none of their first characters. -/
theorem leading?_eq_none {p : Char → Bool} (hp : ∀ m : Mark, ∀ c ∈ m.chars.head?, p c = false)
    {c : Char} (hc : p c) (cs : List Char) : Mark.leading? (c :: cs) = none := by
  rw [Mark.leading?, List.find?_eq_none]
  intro m _ hm
  obtain ⟨t, ht⟩ := List.isPrefixOf_iff_prefix.mp hm
  cases hchars : m.chars with
  | nil => exact m.chars_ne_nil hchars
  | cons d ds =>
    rw [hchars, List.cons_append] at ht
    obtain ⟨rfl, -⟩ := List.cons_eq_cons.mp ht
    have := hp m d (by simp [hchars])
    simp [hc] at this

/-- **A mark** is read as the longest that the text begins with, so the next character must not make
    it longer. -/
theorem leading?_mark {m : Mark} {rest : List Char} (h : Parted (.mark m) rest) :
    Mark.leading? (m.chars ++ rest) = some m := by
  cases rest with
  | nil => cases m <;> rfl
  | cons c rest =>
    have hends := parted_cons.mp h
    cases m <;>
      simp_all [Mark.leading?, Mark.all, Mark.chars, EndsBefore, Mark.EndsBefore,
        List.isPrefixOf] <;>
      exact Ne.symm hends

/-- The ten digits, and no digits of other scripts. -/
theorem isDigit_iff {c : Char} : c.isDigit = true ↔ 48 ≤ c.toNat ∧ c.toNat ≤ 57 := by
  simp only [Char.isDigit, Bool.and_eq_true, decide_eq_true_eq]
  exact Iff.rfl

/-- A word starts with a letter or an underscore. -/
theorem startsWord_iff {c : Char} : startsWord c = true ↔
    (65 ≤ c.toNat ∧ c.toNat ≤ 90) ∨ (97 ≤ c.toNat ∧ c.toNat ≤ 122) ∨ c = '_' := by
  simp only [startsWord, Char.isAlpha, Char.isUpper, Char.isLower, Bool.or_eq_true,
    Bool.and_eq_true, decide_eq_true_eq, beq_iff_eq, or_assoc]
  exact Iff.rfl

/-- The characters with which tokens start that are not marks. -/
def opensLexeme (c : Char) : Bool := c == '"' || c.isDigit || startsWord c

/-- What starts a word, a number or a text starts no mark. -/
theorem leading?_of_opensLexeme {c : Char} (hc : opensLexeme c) (cs : List Char) :
    Mark.leading? (c :: cs) = none :=
  leading?_eq_none (fun m => by cases m <;> rintro _ ⟨⟩ <;> rfl) hc cs

/-- What starts a word, a number or a text is no blank. -/
theorem isBlank_of_opensLexeme {c : Char} (hc : opensLexeme c) : Text.isBlank c = false := by
  simp only [opensLexeme, Bool.or_eq_true, beq_iff_eq, isDigit_iff, startsWord_iff] at hc
  rcases hc with (rfl | hc) | hc | hc | rfl
  · decide
  all_goals first
    | decide
    | simp only [Text.isBlank, Bool.or_eq_false_iff, Bool.and_eq_false_iff,
        decide_eq_false_iff_not, beq_eq_false_iff_ne]
      omega

/-- What starts a word is no digit. -/
theorem not_isDigit_of_startsWord {c : Char} (hc : startsWord c) : ¬ c.isDigit := by
  rw [startsWord_iff] at hc
  rw [isDigit_iff]
  rcases hc with hc | hc | rfl
  · omega
  · omega
  · decide

/-- The characters of a class at the start of a text, if the text behind them starts with none. -/
theorem takeWhile_append_of_parted {p : Char → Bool} {cs rest : List Char} (hcs : ∀ c ∈ cs, p c)
    (hrest : ∀ c ∈ rest.head?, ¬ p c) :
    (cs ++ rest).takeWhile p = cs ∧ (cs ++ rest).dropWhile p = rest := by
  rw [List.takeWhile_append_of_pos hcs, List.dropWhile_append_of_pos hcs]
  cases rest with
  | nil => simp
  | cons c rest =>
    have : p c = false := by simpa using hrest c (by simp)
    simp [this]

/-- **A word** is read as far as it goes on, and may be a keyword. -/
theorem lexeme_word {c : Char} {cs rest : List Char} (l : Location) (hc : startsWord c)
    (hcs : ∀ c ∈ cs, continuesWord c) (hrest : ∀ c ∈ rest.head?, ¬ continuesWord c) :
    lexeme l c (cs ++ rest) = .ok (wordKind (String.ofList (c :: cs)), c :: cs, rest) := by
  obtain ⟨htake, hdrop⟩ := takeWhile_append_of_parted hcs hrest
  have hquote : c ≠ '"' := by
    rintro rfl
    exact absurd hc (by decide)
  rw [lexeme, leading?_of_opensLexeme (by simp [opensLexeme, hc])]
  simp only [if_neg hquote, if_neg (not_isDigit_of_startsWord hc), if_pos hc, htake, hdrop]

/-- **A number** is read as far as its digits go. -/
theorem lexeme_int {c : Char} {cs rest : List Char} {n : Int64} (l : Location)
    (h : Spells (.int n) (c :: cs)) (hrest : Parted (.int n) rest) :
    lexeme l c (cs ++ rest) = .ok (.int n, c :: cs, rest) := by
  obtain ⟨-, hdigits, hn⟩ := h
  have hc : c.isDigit := hdigits c (.head _)
  obtain ⟨htake, hdrop⟩ := takeWhile_append_of_parted (fun c h => hdigits c (.tail _ h)) hrest
  have hquote : c ≠ '"' := by
    rintro rfl
    exact absurd hc (by decide)
  have hbound : Nat.ofDigitChars 10 (c :: cs) 0 < Value.intBound := by
    have := n.toInt_lt
    rw [Value.intBound]
    omega
  have hvalue : Int64.ofNat (Nat.ofDigitChars 10 (c :: cs) 0) = n := by
    rw [← Int64.toInt_inj, Int64.toInt_ofNat_of_lt hbound, hn]
  rw [lexeme, leading?_of_opensLexeme (by simp [opensLexeme, hc])]
  simp only [if_neg hquote, if_pos hc, htake, hdrop, if_pos hbound, hvalue]

/-- Keywords are spelled like words. -/
theorem spells_keyword_startsWord (k : Keyword) :
    ∃ c cs, k.spelling.toList = c :: cs ∧ startsWord c ∧ ∀ c ∈ cs, continuesWord c := by
  cases k <;> exact ⟨_, _, rfl, by decide, List.all_eq_true.mp (by decide)⟩

/-- Every token has a spelling of at least one character. -/
theorem not_spells_nil (k : TokenKind) : ¬ Spells k [] := by
  cases k with
  | int n => exact fun h => h.1 rfl
  | string s => simp [Spells]
  | ident name => exact fun h => h.2
  | keyword k => cases k <;> simp [Spells, Keyword.spelling]
  | mark m => exact fun h => m.chars_ne_nil h.symm
  | endOfFile => exact id

/-- **A token is read back** from any of its spellings, if it is parted from the text behind. -/
theorem lexeme_of_spells {k : TokenKind} {c : Char} {cs rest : List Char} (l : Location)
    (h : Spells k (c :: cs)) (hrest : Parted k rest) :
    lexeme l c (cs ++ rest) = .ok (k, c :: cs, rest) := by
  cases k with
  | int n => exact lexeme_int l h hrest
  | string s =>
    obtain ⟨inner, hcs, hinner⟩ := h
    obtain ⟨rfl, rfl⟩ := List.cons_eq_cons.mp hcs
    rw [lexeme, leading?_of_opensLexeme (by decide), List.append_assoc, List.singleton_append,
      stringBody_of_inside hinner.inside]
    simp
  | ident name =>
    obtain ⟨hname, hstart, hcs, hkeyword⟩ := h
    rw [lexeme_word l hstart (List.all_eq_true.mp hcs) hrest, wordKind, hkeyword, hname,
      String.ofList_toList]
  | keyword k =>
    obtain ⟨c', cs', hk, hstart, hcs⟩ := spells_keyword_startsWord k
    obtain ⟨rfl, rfl⟩ := List.cons_eq_cons.mp (Eq.trans h hk)
    rw [lexeme_word l hstart hcs hrest, ← hk, String.ofList_toList, wordKind,
      Keyword.ofSpelling?_spelling]
  | mark m =>
    have hm : c :: cs = m.chars := h
    rw [lexeme, ← List.cons_append, hm, leading?_mark hrest]
    simp only [List.drop_left]
  | endOfFile => cases h

/-! ## Texts -/

/-- Where no comment starts, a gap goes on with a blank and ends at any other character. -/
theorem skipGap_char {c : Char} {cs : List Char} (l : Location)
    (h : c = '/' → ∀ d ∈ cs.head?, d ≠ '/' ∧ d ≠ '*') :
    skipGap .blanks l (c :: cs) =
      if Text.isBlank c then skipGap .blanks (l.next c) cs else .ok (l, c :: cs) := by
  conv => lhs; unfold skipGap
  split
  case h_2 he =>
    cases he
    exact absurd rfl (h rfl '/' rfl).1
  case h_3 he =>
    cases he
    exact absurd rfl (h rfl '*' rfl).2
  case h_4 _ _ _ he =>
    cases he
    rfl
  all_goals simp_all

/-- Blanks are skipped one by one. -/
theorem skipGap_blanks {gap : List Char} (hgap : ∀ c ∈ gap, Text.isBlank c) (l : Location)
    (cs : List Char) : skipGap .blanks l (gap ++ cs) = skipGap .blanks (l.advance gap) cs := by
  induction gap generalizing l with
  | nil => rfl
  | cons c gap ih =>
    have hc := hgap c (.head _)
    have hslash : c ≠ '/' := by
      rintro rfl
      exact absurd hc (by decide)
    rw [List.cons_append, skipGap_char l fun h => absurd h hslash, if_pos hc,
      ih fun c h => hgap c (.tail _ h)]
    rfl

theorem isBlank_mark (m : Mark) : ∀ c ∈ m.chars.head?, Text.isBlank c = false := by
  cases m <;> rintro _ ⟨⟩ <;> rfl

/-- No other mark begins like a comment. -/
theorem ne_slash_mark (m : Mark) (hm : m ≠ .slash) : ∀ c ∈ m.chars.head?, c ≠ '/' := by
  cases m <;> first | exact absurd rfl hm | (rintro _ ⟨⟩; decide)

/-- The text is empty, or it starts neither with a blank nor with a comment. -/
def Solid : List Char → Prop
  | [] => True
  | c :: cs => ¬ Text.isBlank c ∧ (c = '/' → ∀ d ∈ cs.head?, d ≠ '/' ∧ d ≠ '*')

/-- At the end of a text there is nothing to skip. -/
theorem solid_nil : Solid [] := trivial

/-- There the lexer has found what comes behind a gap. -/
theorem skipGap_solid {cs : List Char} (h : Solid cs) (l : Location) :
    skipGap .blanks l cs = .ok (l, cs) := by
  cases cs with
  | nil => rfl
  | cons c cs => rw [skipGap_char l h.2, if_neg h.1]

/-- A word, a number and a text are solid. -/
theorem solid_of_opensLexeme {c : Char} (h : opensLexeme c) (cs : List Char) :
    Solid (c :: cs) := by
  have hslash : c ≠ '/' := by
    rintro rfl
    exact absurd h (by decide)
  refine ⟨?_, fun hc => absurd hc hslash⟩
  rw [isBlank_of_opensLexeme h]
  exact Bool.false_ne_true

/-- A mark that is parted from what is behind it is solid: a slash does not begin a comment. -/
theorem solid_mark {m : Mark} {rest : List Char} (h : Parted (.mark m) rest) :
    Solid (m.chars ++ rest) := by
  cases hm : m.chars with
  | nil => exact absurd hm m.chars_ne_nil
  | cons c cs =>
    refine ⟨?_, fun hc => ?_⟩
    · rw [isBlank_mark m c (by rw [hm]; rfl)]
      exact Bool.false_ne_true
    · obtain rfl : m = .slash :=
        Decidable.byContradiction fun hne => ne_slash_mark m hne c (by rw [hm]; rfl) hc
      obtain ⟨-, rfl⟩ := List.cons_eq_cons.mp hm
      exact h

/-- A token is no blank, and no start of a comment if it is parted from the text behind. -/
theorem solid_of_spells {k : TokenKind} {c : Char} {cs rest : List Char} (h : Spells k (c :: cs))
    (hrest : Parted k rest) : Solid (c :: (cs ++ rest)) := by
  cases k with
  | int n => exact solid_of_opensLexeme (by simp [opensLexeme, h.2.1 c (.head _)]) _
  | string s =>
    obtain ⟨inner, hcs, -⟩ := h
    obtain ⟨rfl, -⟩ := List.cons_eq_cons.mp hcs
    exact solid_of_opensLexeme (by decide) _
  | ident name => exact solid_of_opensLexeme (by simp [opensLexeme, h.2.1]) _
  | keyword k =>
    obtain ⟨c', cs', hk, hstart, -⟩ := spells_keyword_startsWord k
    obtain ⟨rfl, rfl⟩ := List.cons_eq_cons.mp (Eq.trans h hk)
    exact solid_of_opensLexeme (by simp [opensLexeme, hstart]) _
  | mark m =>
    have hm : c :: cs = m.chars := h
    rw [← List.cons_append, hm]
    exact solid_mark hrest
  | endOfFile => cases h

section Scan

variable {l l' : Location} {cs : List Char}

/-! The text goes on with what stands behind the gap. -/

/-- A comment that does not end is an error. -/
theorem scan_of_skipGap_error {e : Error} (h : skipGap .blanks l cs = .error e) :
    scan l cs = .error e := by
  rw [scan]
  split
  · next he =>
    rw [h] at he
    cases he
    rfl
  · next he => rw [h] at he; cases he
  · next he => rw [h] at he; cases he

/-- Behind the last gap there is the end of the file. -/
theorem scan_of_skipGap_nil (h : skipGap .blanks l cs = .ok (l', [])) :
    scan l cs = .ok [⟨.endOfFile, l'⟩] := by
  rw [scan]
  split
  · next he => rw [h] at he; cases he
  · next he =>
    rw [h] at he
    cases he
    rfl
  · next he => rw [h] at he; cases he

/-- Behind any other gap there is a lexeme. -/
theorem scan_of_skipGap_cons {c : Char} {rest : List Char}
    (h : skipGap .blanks l cs = .ok (l', c :: rest)) :
    scan l cs = match lexeme l' c rest with
      | .error e => .error e
      | .ok (k, taken, rest') => (scan (l'.advance taken) rest').map (⟨k, l'⟩ :: ·) := by
  rw [scan]
  split
  · next he => rw [h] at he; cases he
  · next he => rw [h] at he; cases he
  · next he =>
    rw [h] at he
    cases he
    rcases lexeme l' c rest with e | ⟨k, taken, rest'⟩ <;> rfl

end Scan

/-- **One token**: behind any blanks, a token is read and the rest of the text goes on. -/
theorem scan_token {k : TokenKind} {gap cs rest : List Char} (l : Location)
    (hgap : ∀ c ∈ gap, Text.isBlank c) (h : Spells k cs) (hrest : Parted k rest) :
    scan l (gap ++ (cs ++ rest)) =
      (scan ((l.advance gap).advance cs) rest).map (⟨k, l.advance gap⟩ :: ·) := by
  cases cs with
  | nil => exact absurd h (not_spells_nil k)
  | cons c cs =>
    have hskip : skipGap .blanks l (gap ++ (c :: cs ++ rest)) =
        .ok (l.advance gap, c :: (cs ++ rest)) := by
      rw [skipGap_blanks hgap, List.cons_append, skipGap_solid (solid_of_spells h hrest)]
    rw [scan_of_skipGap_cons hskip, lexeme_of_spells _ h hrest]

/-! ## Layouts -/

/-- The text consists of the tokens, with blanks around them as one likes, and with no token so
    close to the next that it would go on there. -/
inductive Laid : List TokenKind → List Char → Prop
  | nil {gap : List Char} : (∀ c ∈ gap, Text.isBlank c) → Laid [] gap
  | cons {k : TokenKind} {ks : List TokenKind} {gap cs rest : List Char} :
      (∀ c ∈ gap, Text.isBlank c) → Spells k cs → Parted k rest → Laid ks rest →
      Laid (k :: ks) (gap ++ (cs ++ rest))

/-- **Every layout is read back.** -/
theorem scan_of_laid {ks : List TokenKind} {cs : List Char} (h : Laid ks cs) (l : Location) :
    ∃ ts l', scan l cs = .ok (ts ++ [⟨.endOfFile, l'⟩]) ∧ ts.map Token.kind = ks := by
  induction h generalizing l with
  | @nil gap hgap =>
    refine ⟨[], l.advance gap, ?_, rfl⟩
    have hskip : skipGap .blanks l gap = .ok (l.advance gap, []) := by
      rw [← List.append_nil gap, skipGap_blanks hgap, List.append_nil]
      rfl
    exact scan_of_skipGap_nil hskip
  | @cons k ks gap cs rest hgap hk hrest _ ih =>
    obtain ⟨ts, l', hscan, hts⟩ := ih ((l.advance gap).advance cs)
    refine ⟨⟨k, l.advance gap⟩ :: ts, l', ?_, by simp [hts]⟩
    rw [scan_token l hgap hk hrest, hscan]
    rfl

/-- Two separators in a row part as well as one. -/
theorem Parted.append {k : TokenKind} {a b : List Char} (ha : Parted k a) (hb : Parted k b) :
    Parted k (a ++ b) := by
  cases a with
  | nil => exact hb
  | cons c a => exact ha

/-- Blanks may stand in front of a layout. -/
theorem Laid.gap_append {ks : List TokenKind} {gap cs : List Char}
    (hgap : ∀ c ∈ gap, Text.isBlank c) (h : Laid ks cs) : Laid ks (gap ++ cs) := by
  cases h with
  | nil hgap' => exact .nil (List.forall_mem_append.mpr ⟨hgap, hgap'⟩)
  | cons hgap' hk hrest h =>
    rw [← List.append_assoc]
    exact .cons (List.forall_mem_append.mpr ⟨hgap, hgap'⟩) hk hrest h

/-- Two layouts, of which the second starts with a character at which every token ends. -/
theorem Laid.append {ks ks' : List TokenKind} {a b : List Char} (ha : Laid ks a) (hb : Laid ks' b)
    (hparted : ∀ k, Parted k b) : Laid (ks ++ ks') (a ++ b) := by
  induction ha with
  | nil hgap => exact hb.gap_append hgap
  | cons hgap hk hrest _ ih =>
    rw [List.append_assoc, List.append_assoc]
    exact .cons hgap hk (hrest.append (hparted _)) ih

/-! ## A layout for all tokens -/

/-- A character of a string literal. -/
def escape : Char → List Char
  | '"' => ['\\', '"']
  | '\\' => ['\\', '\\']
  | '\n' => ['\\', 'n']
  | c => [c]

/-- One way to write a token. -/
def spelling : TokenKind → List Char
  | .int n => Nat.toDigits 10 n.toInt.toNat
  | .string s => '"' :: (s.toList.flatMap escape ++ ['"'])
  | .ident name => name.toList
  | .keyword k => k.spelling.toList
  | .mark m => m.chars
  | .endOfFile => []

/-- The tokens that can be written: a number has no sign, and an identifier is no keyword. -/
def Writable : TokenKind → Prop
  | .int n => 0 ≤ n.toInt
  | .ident name => IsIdentifier name.toList
  | .string _ | .keyword _ | .mark _ => True
  | .endOfFile => False

/-- A text with its quotes and backslashes escaped is in quotes. -/
theorem quoted_escape (value : List Char) : Quoted value (value.flatMap escape) := by
  induction value with
  | nil => exact .nil
  | cons c value ih =>
    rw [List.flatMap_cons]
    unfold escape
    split
    · exact .escaped rfl ih
    · exact .escaped rfl ih
    · exact .escaped rfl ih
    · exact .plain ‹_› ‹_› ‹_› ih

/-- **The spelling** of a writable token is one that is read back. -/
theorem spells_spelling {k : TokenKind} (h : Writable k) : Spells k (spelling k) := by
  cases k with
  | int n =>
    refine ⟨Nat.toDigits_ne_nil, fun c hc => ?_, ?_⟩
    · exact Nat.isDigit_of_mem_toDigits (by decide) (by decide) hc
    · have hn : 0 ≤ n.toInt := h
      rw [spelling, Nat.ofDigitChars_ten_toDigits]
      omega
  | string s => exact ⟨_, rfl, quoted_escape _⟩
  | ident name => exact ⟨rfl, h⟩
  | keyword k => rfl
  | mark m => rfl
  | endOfFile => exact h.elim

/-- The tokens with a blank behind each. -/
def spaced (ks : List TokenKind) : List Char := ks.flatMap fun k => spelling k ++ [' ']

/-- Blanks between all tokens are a layout of them. -/
theorem laid_spaced {ks : List TokenKind} (h : ∀ k ∈ ks, Writable k) : Laid ks (spaced ks) := by
  induction ks with
  | nil => exact .nil (by simp [spaced])
  | cons k ks ih =>
    rw [spaced, List.flatMap_cons, List.append_assoc, ← List.nil_append (spelling k ++ _)]
    refine .cons (by simp) (spells_spelling (h k (.head _)))
      (parted_separator (by decide) (by decide) (by decide) k _) ?_
    exact (ih fun k hk => h k (.tail _ hk)).gap_append
      (List.forall_mem_singleton.mpr (by decide))

end Token

end ActorScript
