/-
  What a token is written as, exactly.

  The texts that are read as a token of some kind are its spellings, and for strings a few more: a
  backslash may stand in front of any character, and stays there if the two are no known escape
  (`Writes`).  Where a text starts neither with a blank nor with a comment, it starts with one of
  these lexemes, as long as can be, or with something that is no token (`exists_lexeme`).  In both
  cases this is what the lexer makes of it (`lexeme_of_writes`, `lexeme_of_fault`).
-/
import ActorScript.Proofs.Gaps

namespace ActorScript.Token

/-! ## Strings -/

/-- The text ends, or the line does, before a quote closes the string. -/
def Open (cs : List Char) : Prop :=
  ∃ value text rest, cs = text ++ rest ∧ Inside value text ∧
    (rest = [] ∨ rest = ['\\'] ∨ rest.head? = some '\n')

theorem stringBody_of_open {cs : List Char} (h : Open cs) : stringBody cs = none := by
  obtain ⟨value, text, rest, rfl, hinside, hrest⟩ := h
  induction hinside with
  | nil =>
    rcases hrest with rfl | rfl | hnewline
    · rfl
    · rfl
    · obtain ⟨tail, rfl⟩ := List.head?_eq_some_iff.mp hnewline
      rfl
  | plain hquote hbackslash hnewline _ ih =>
    rw [List.cons_append, stringBody_plain hquote hbackslash hnewline, ih]
    rfl
  | escape c _ ih =>
    rw [List.cons_append, List.cons_append, stringBody, ih]
    rfl

/-- **A string is closed by a quote** or not at all. -/
theorem exists_inside (cs : List Char) :
    (∃ value text rest, cs = text ++ '"' :: rest ∧ Inside value text) ∨ Open cs := by
  fun_induction stringBody cs with
  | case1 => exact .inr ⟨[], [], [], rfl, .nil, .inl rfl⟩
  | case2 cs => exact .inr ⟨[], [], '\n' :: cs, rfl, .nil, .inr (.inr rfl)⟩
  | case3 cs => exact .inl ⟨[], [], cs, rfl, .nil⟩
  | case4 c cs ih =>
    rcases ih with ⟨value, text, rest, rfl, h⟩ | ⟨value, text, rest, rfl, h, hrest⟩
    · exact .inl ⟨_, '\\' :: c :: text, rest, rfl, h.escape c⟩
    · exact .inr ⟨_, '\\' :: c :: text, rest, rfl, h.escape c, hrest⟩
  | case5 c cs hnewline hquote hbackslash ih =>
    by_cases hc : c = '\\'
    · -- a backslash with nothing behind it
      subst hc
      cases cs with
      | nil => exact .inr ⟨[], [], ['\\'], rfl, .nil, .inr (.inl rfl)⟩
      | cons d ds => exact absurd rfl (hbackslash d ds rfl)
    · rcases ih with ⟨value, text, rest, rfl, h⟩ | ⟨value, text, rest, rfl, h, hrest⟩
      · exact .inl ⟨_, c :: text, rest, rfl, h.plain hquote hc hnewline⟩
      · exact .inr ⟨_, c :: text, rest, rfl, h.plain hquote hc hnewline, hrest⟩

/-! ## Lexemes -/

/-- The characters are read as a token of this kind. -/
def Writes : TokenKind → List Char → Prop
  | .string s, cs => ∃ inner, cs = '"' :: (inner ++ ['"']) ∧ Inside s.toList inner
  | k, cs => Spells k cs

/-- The text starts with something that is no token, or with a comment that is never closed. -/
inductive Fault : List Char → SyntaxFault → Prop
  | quote {cs : List Char} : Open cs → Fault ('"' :: cs) .unterminatedString
  | comment {cs : List Char} : ¬ commentEnd <:+: cs → Fault ('/' :: '*' :: cs) .unterminatedComment
  | digits {ds rest : List Char} : ds ≠ [] → (∀ c ∈ ds, c.isDigit) →
      (∀ c ∈ rest.head?, ¬ c.isDigit) → 2 ^ 63 ≤ Nat.ofDigitChars 10 ds 0 →
      Fault (ds ++ rest) (.integerOutOfRange (String.ofList ds))
  | stray {c : Char} {cs : List Char} : ¬ Text.isBlank c → ¬ opensLexeme c →
      (∀ m : Mark, ¬ m.chars <+: c :: cs) → Fault (c :: cs) (.unexpectedCharacter c)

theorem writes_of_spells {k : TokenKind} {cs : List Char} (h : Spells k cs) : Writes k cs := by
  cases k with
  | string s =>
    obtain ⟨inner, hcs, hinner⟩ := h
    exact ⟨inner, hcs, hinner.inside⟩
  | int n => exact h
  | ident name => exact h
  | keyword k => exact h
  | mark m => exact h
  | endOfFile => exact h

/-- Only strings are read from more than their spellings. -/
theorem spells_or_quoted {k : TokenKind} {cs : List Char} (h : Writes k cs) :
    Spells k cs ∨
      ∃ s inner, k = .string s ∧ cs = '"' :: (inner ++ ['"']) ∧ Inside s.toList inner := by
  cases k with
  | string s =>
    obtain ⟨inner, hcs, hinner⟩ := h
    exact .inr ⟨s, inner, rfl, hcs, hinner⟩
  | int n => exact .inl h
  | ident name => exact .inl h
  | keyword k => exact .inl h
  | mark m => exact .inl h
  | endOfFile => exact .inl h

theorem ne_nil_of_writes {k : TokenKind} {cs : List Char} (h : Writes k cs) : cs ≠ [] := by
  rcases spells_or_quoted h with h | ⟨s, inner, -, rfl, -⟩
  · rintro rfl
    exact not_spells_nil k h
  · exact List.cons_ne_nil _ _

theorem solid_of_writes {k : TokenKind} {c : Char} {cs rest : List Char} (h : Writes k (c :: cs))
    (hrest : Parted k rest) : Solid (c :: (cs ++ rest)) := by
  rcases spells_or_quoted h with h | ⟨s, inner, -, hcs, -⟩
  · exact solid_of_spells h hrest
  · obtain ⟨rfl, -⟩ := List.cons_eq_cons.mp hcs
    exact solid_of_opensLexeme (by decide) _

/-- **A lexeme is read** as what it is written for, if it does not go on behind its end. -/
theorem lexeme_of_writes {k : TokenKind} {c : Char} {cs rest : List Char} (l : Location)
    (h : Writes k (c :: cs)) (hrest : Parted k rest) :
    lexeme l c (cs ++ rest) = .ok (k, c :: cs, rest) := by
  rcases spells_or_quoted h with h | ⟨s, inner, rfl, hcs, hinner⟩
  · exact lexeme_of_spells l h hrest
  · obtain ⟨rfl, rfl⟩ := List.cons_eq_cons.mp hcs
    rw [lexeme, leading?_of_opensLexeme (by decide), List.append_assoc, List.singleton_append,
      stringBody_of_inside hinner]
    simp

/-- The lexer stops where no token starts, and names the place. -/
theorem lexeme_of_fault {c : Char} {cs : List Char} {f : SyntaxFault} (l : Location)
    (h : Fault (c :: cs) f) (hsolid : Solid (c :: cs)) :
    lexeme l c cs = .error (.atLocation f l) := by
  generalize htext : c :: cs = text at h hsolid
  cases h with
  | quote hopen =>
    cases htext
    rw [lexeme, leading?_of_opensLexeme (by decide), stringBody_of_open hopen]
    simp
  | comment hbody =>
    exact absurd rfl (hsolid.2 rfl '*' rfl).2
  | @digits ds rest hne hdigits hrest hbound =>
    cases ds with
    | nil => exact absurd rfl hne
    | cons d ds =>
      rw [List.cons_append] at htext
      obtain ⟨rfl, rfl⟩ := List.cons_eq_cons.mp htext
      have hc : c.isDigit := hdigits c (.head _)
      have hquote : c ≠ '"' := by
        rintro rfl
        exact absurd hc (by decide)
      have hlarge : ¬ Nat.ofDigitChars 10 (c :: ds) 0 < Value.intBound := by
        rw [Value.intBound]
        omega
      obtain ⟨htake, -⟩ := takeWhile_append_of_parted (fun c h => hdigits c (.tail _ h)) hrest
      rw [lexeme, leading?_of_opensLexeme (by simp [opensLexeme, hc])]
      simp only [if_neg hquote, if_pos hc, htake, if_neg hlarge]
  | stray hblank hopens hmarks =>
    cases htext
    have hnone : Mark.leading? (c :: cs) = none := by
      rw [Mark.leading?, List.find?_eq_none]
      exact fun m _ hm => hmarks m (List.isPrefixOf_iff_prefix.mp hm)
    simp only [opensLexeme, Bool.or_eq_true, beq_iff_eq, not_or] at hopens
    obtain ⟨⟨hquote, hdigit⟩, hword⟩ := hopens
    rw [lexeme, hnone]
    simp only [if_neg hquote, if_neg hdigit, if_neg hword]

/-! ## Every text starts with a lexeme or a fault -/

/-- The longest mark does not go on. -/
theorem parted_of_leading? {m : Mark} {rest : List Char}
    (h : Mark.leading? (m.chars ++ rest) = some m) (hsolid : Solid (m.chars ++ rest)) :
    Parted (.mark m) rest := by
  cases rest with
  | nil => exact parted_nil _
  | cons c rest =>
    rw [parted_cons]
    cases m with
    | slash => exact hsolid.2 rfl c rfl
    | assign | bang | less | greater =>
      rintro rfl
      cases h
    | _ => trivial

theorem writes_word {c : Char} {cs : List Char} (hc : startsWord c) (hcs : cs.all continuesWord) :
    Writes (wordKind (String.ofList (c :: cs))) (c :: cs) := by
  rw [wordKind]
  split
  · rename_i k hk
    show c :: cs = k.spelling.toList
    rw [Keyword.spelling_of_ofSpelling? hk, String.toList_ofList]
  · rename_i hnone
    exact ⟨String.toList_ofList.symm, hc, hcs, hnone⟩

theorem parted_word {c : Char} {cs rest : List Char} (h : ∀ c ∈ rest.head?, ¬ continuesWord c) :
    Parted (wordKind (String.ofList (c :: cs))) rest := by
  rw [wordKind]
  split
  · exact h
  · exact h

/-- What stands behind the longest run of characters of a class starts with none of them. -/
theorem not_of_head?_dropWhile {p : Char → Bool} {cs : List Char} :
    ∀ c ∈ (cs.dropWhile p).head?, ¬ p c := by
  intro c hc
  have h := List.head?_dropWhile_not p cs
  rw [Option.mem_def.mp hc] at h
  simpa using h

/-- **Every text starts with a lexeme**, as long as can be, or with something that is no token,
    unless a gap goes on there. -/
theorem exists_lexeme {c : Char} {cs : List Char} (hsolid : Solid (c :: cs)) :
    (∃ k taken rest, c :: cs = taken ++ rest ∧ Writes k taken ∧ Parted k rest) ∨
      ∃ f, Fault (c :: cs) f := by
  cases hlead : Mark.leading? (c :: cs) with
  | some m =>
    obtain ⟨rest, hrest⟩ := List.isPrefixOf_iff_prefix.mp (Mark.chars_isPrefixOf_of_leading? hlead)
    rw [← hrest] at hlead hsolid
    exact .inl ⟨.mark m, m.chars, rest, hrest.symm, rfl, parted_of_leading? hlead hsolid⟩
  | none =>
    by_cases hquote : c = '"'
    · subst hquote
      rcases exists_inside cs with ⟨value, text, rest, rfl, hinside⟩ | hopen
      · refine .inl ⟨.string (String.ofList value), '"' :: (text ++ ['"']), rest, by simp, ?_, ?_⟩
        · exact ⟨text, rfl, by rwa [String.toList_ofList]⟩
        · exact fun _ _ => trivial
      · exact .inr ⟨_, .quote hopen⟩
    by_cases hdigit : c.isDigit
    · have hall : ∀ d ∈ c :: cs.takeWhile Char.isDigit, d.isDigit := by
        intro d hd
        rcases List.mem_cons.mp hd with rfl | hd
        · exact hdigit
        · exact List.mem_takeWhile_imp hd
      have hsplit : c :: cs = (c :: cs.takeWhile Char.isDigit) ++ cs.dropWhile Char.isDigit := by
        rw [List.cons_append, List.takeWhile_append_dropWhile]
      have hne : c :: cs.takeWhile Char.isDigit ≠ [] := List.cons_ne_nil _ _
      rw [hsplit]
      generalize c :: cs.takeWhile Char.isDigit = ds at hall hne
      by_cases hbound : Nat.ofDigitChars 10 ds 0 < Value.intBound
      · refine .inl ⟨.int (Int64.ofNat (Nat.ofDigitChars 10 ds 0)), ds, _, rfl,
          ⟨hne, hall, ?_⟩, not_of_head?_dropWhile⟩
        exact (Int64.toInt_ofNat_of_lt hbound).symm
      · refine .inr ⟨_, .digits hne hall not_of_head?_dropWhile ?_⟩
        rw [Value.intBound] at hbound
        omega
    by_cases hword : startsWord c
    · refine .inl ⟨_, c :: cs.takeWhile continuesWord, cs.dropWhile continuesWord, ?_,
        writes_word hword ?_, parted_word not_of_head?_dropWhile⟩
      · rw [List.cons_append, List.takeWhile_append_dropWhile]
      · exact List.all_eq_true.mpr fun d hd => List.mem_takeWhile_imp hd
    · refine .inr ⟨_, .stray hsolid.1 ?_ fun m hm => ?_⟩
      · simp [opensLexeme, hquote, hdigit, hword]
      · rw [Mark.leading?, List.find?_eq_none] at hlead
        refine hlead m ?_ (List.isPrefixOf_iff_prefix.mpr hm)
        cases m <;> simp [Mark.all]

end ActorScript.Token
