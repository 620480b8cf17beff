/-
  Where the tokens of a text are.

  A text that is read as tokens is covered by them: it is made of gaps and lexemes in turn, every
  lexeme is as long as can be, and the location of its token counts the lines and the characters of
  the text in front of it (`Covers`).  A text that cannot be read is covered up to a place where no
  token starts, and the failure names this place (`Breaks`).  Every text is of one kind or the other
  (`covers_or_breaks`), and so this is exactly what the lexer does (`tokenize_covers`).

  All of this is about characters.  The bytes of a source are read to the same tokens and failures
  (`readTokens_eq_tokenize`), so the offsets at which it is cut are always boundaries of characters.

  In particular tokens can be written with anything between them that starts with a blank and is
  made of blanks and closed comments, and are read back (`tokenize_separated`).
-/
import ActorScript.Proofs.Lexemes
import ActorScript.Proofs.Offsets

namespace ActorScript

/-! ## Locations -/

namespace Location

/-- The location behind some characters at the start of a text: one line more than there are
    newlines, and one column more than there are characters behind the last newline. -/
def behind (before : List Char) : Location where
  line := 1 + before.count '\n'
  column := 1 + (before.reverse.takeWhile (· ≠ '\n')).length

theorem next_behind (before : List Char) (c : Char) :
    (behind before).next c = behind (before ++ [c]) := by
  have hcount : (before ++ [c]).count '\n' = before.count '\n' + [c].count '\n' :=
    List.count_append
  rw [next, behind, behind, hcount, List.reverse_append]
  by_cases hc : c = '\n'
  · subst hc
    rfl
  · rw [if_neg hc, List.count_singleton, if_neg (by simpa using hc), List.reverse_singleton,
      List.singleton_append, List.takeWhile_cons_of_pos (by simpa using hc), List.length_cons]
    rfl

/-- **Going on from a location** keeps the counts right. -/
theorem advance_behind (before cs : List Char) :
    (behind before).advance cs = behind (before ++ cs) := by
  induction cs generalizing before with
  | nil => rw [advance_nil, List.append_nil]
  | cons c cs ih => rw [advance_cons, next_behind, ih, List.append_assoc, List.singleton_append]

end Location

namespace Token

/-! ## Covered texts -/

/-- The text behind `before` is made of gaps and of lexemes for these tokens. -/
inductive Covers : List Char → List Char → List Token → Prop
  /-- The last gap, and behind it the end of the text. -/
  | last {before gap : List Char} : Trivia gap [] →
      Covers before gap [⟨.endOfFile, .behind (before ++ gap)⟩]
  /-- A gap, and behind it a lexeme, which does not go on where it ends. -/
  | cons {before gap cs rest : List Char} {k : TokenKind} {ts : List Token} :
      Trivia gap (cs ++ rest) → Writes k cs → Parted k rest →
      Covers (before ++ (gap ++ cs)) rest ts →
      Covers before (gap ++ (cs ++ rest)) (⟨k, .behind (before ++ gap)⟩ :: ts)

/-- The text behind `before` is made of gaps and lexemes up to a place where no token starts. -/
inductive Breaks : List Char → List Char → Error → Prop
  | here {before gap rest : List Char} {f : SyntaxFault} : Trivia gap rest → Fault rest f →
      Breaks before (gap ++ rest) (.atLocation f (.behind (before ++ gap)))
  | later {before gap cs rest : List Char} {k : TokenKind} {e : Error} :
      Trivia gap (cs ++ rest) → Writes k cs → Parted k rest →
      Breaks (before ++ (gap ++ cs)) rest e → Breaks before (gap ++ (cs ++ rest)) e

variable {before gap cs rest : List Char} {k : TokenKind} {ts : List Token} {e : Error}

/-- **One token**: behind any gap, a lexeme is read and the rest of the text goes on. -/
theorem scan_lexeme (l : Location) (hgap : Trivia gap (cs ++ rest)) (h : Writes k cs)
    (hrest : Parted k rest) : scan l (gap ++ (cs ++ rest)) =
      (scan (l.advance (gap ++ cs)) rest).map (⟨k, l.advance gap⟩ :: ·) := by
  cases cs with
  | nil => exact absurd rfl (ne_nil_of_writes h)
  | cons c cs =>
    have hskip : skipGap .blanks l (gap ++ (c :: cs ++ rest)) =
        .ok (l.advance gap, c :: (cs ++ rest)) := by
      rw [skipGap_trivia hgap, List.cons_append, skipGap_solid (solid_of_writes h hrest)]
    rw [scan_of_skipGap_cons hskip, lexeme_of_writes _ h hrest, Location.advance_append]

/-- The lexer stops behind a gap where no token starts. -/
theorem scan_fault {f : SyntaxFault} (l : Location) (hgap : Trivia gap rest) (h : Fault rest f) :
    scan l (gap ++ rest) = .error (.atLocation f (l.advance gap)) := by
  by_cases hsolid : Solid rest
  · cases rest with
    | nil =>
      generalize hnil : ([] : List Char) = text at h
      cases h with
      | digits hne => exact absurd (List.append_eq_nil_iff.mp hnil.symm).1 hne
      | _ => cases hnil
    | cons c rest =>
      have hskip : skipGap .blanks l (gap ++ c :: rest) = .ok (l.advance gap, c :: rest) := by
        rw [skipGap_trivia hgap, skipGap_solid hsolid]
      rw [scan_of_skipGap_cons hskip, lexeme_of_fault _ h hsolid]
  · -- of all faults, only a comment is no start of a lexeme
    have hunclosed : f = .unterminatedComment ∧ Unclosed rest := by
      cases h with
      | quote => exact absurd (solid_of_opensLexeme (by decide) _) hsolid
      | comment hbody => exact ⟨rfl, _, rfl, hbody⟩
      | @digits ds rest hne hdigits =>
        cases ds with
        | nil => exact absurd rfl hne
        | cons d ds =>
          exact absurd (solid_of_opensLexeme (by simp [opensLexeme, hdigits d (.head _)]) _) hsolid
      | stray hblank hopens hmarks =>
        refine absurd ⟨hblank, fun hc => ?_⟩ hsolid
        subst hc
        exact absurd ⟨_, rfl⟩ (hmarks .slash)
    obtain ⟨rfl, hunclosed⟩ := hunclosed
    refine scan_of_skipGap_error ?_
    rw [skipGap_trivia hgap, skipGap_of_unclosed hunclosed]

/-- **A covered text is read** as the tokens that cover it. -/
theorem scan_of_covers (h : Covers before cs ts) : scan (.behind before) cs = .ok ts := by
  induction h with
  | @last before gap hgap =>
    have hskip : skipGap .blanks (.behind before) gap =
        .ok (.behind (before ++ gap), []) := by
      rw [← List.append_nil gap, skipGap_trivia hgap, skipGap_solid solid_nil,
        Location.advance_behind, List.append_nil]
    exact scan_of_skipGap_nil hskip
  | cons hgap hk hrest _ ih =>
    rw [scan_lexeme _ hgap hk hrest, Location.advance_behind, Location.advance_behind, ih]
    rfl

/-- **A text that breaks is refused**, and the failure names the place. -/
theorem scan_of_breaks (h : Breaks before cs e) : scan (.behind before) cs = .error e := by
  induction h with
  | here hgap hf => rw [scan_fault _ hgap hf, Location.advance_behind]
  | later hgap hk hrest _ ih =>
    rw [scan_lexeme _ hgap hk hrest, Location.advance_behind, Location.advance_behind, ih]
    rfl

/-- **Every text is covered or breaks**, whatever stands in front of it. -/
theorem covers_or_breaks (before cs : List Char) :
    (∃ ts, Covers before cs ts) ∨ ∃ e, Breaks before cs e := by
  induction hn : cs.length using Nat.strongRecOn generalizing before cs with
  | ind n ih =>
    subst hn
    obtain ⟨gap, rest, rfl, hgap, hrest⟩ := exists_trivia cs
    rcases hrest with hsolid | ⟨body, rfl, hbody⟩
    · cases rest with
      -- the gap is the last one
      | nil =>
        rw [List.append_nil]
        exact .inl ⟨_, .last hgap⟩
      | cons c rest =>
        rcases exists_lexeme hsolid with ⟨k, taken, rest', hsplit, hk, hparted⟩ | ⟨f, hf⟩
        · -- the rest of the text is shorter by the lexeme
          have hshort : rest'.length < (gap ++ c :: rest).length := by
            have := List.length_pos_iff.mpr (ne_nil_of_writes hk)
            rw [hsplit, List.length_append, List.length_append]
            omega
          rw [hsplit] at hgap ⊢
          rcases ih _ hshort (before ++ (gap ++ taken)) rest' rfl with ⟨ts, hts⟩ | ⟨e, he⟩
          · exact .inl ⟨_, .cons hgap hk hparted hts⟩
          · exact .inr ⟨_, .later hgap hk hparted he⟩
        · exact .inr ⟨_, .here hgap hf⟩
    · exact .inr ⟨_, .here hgap (.comment hbody)⟩

theorem covers_of_tokenize {source : String} (h : tokenize source = .ok ts) :
    Covers [] source.toList ts := by
  rcases covers_or_breaks [] source.toList with ⟨ts', hcovers⟩ | ⟨e, hbreaks⟩
  · cases h.symm.trans (scan_of_covers hcovers)
    exact hcovers
  · cases h.symm.trans (scan_of_breaks hbreaks)

theorem breaks_of_tokenize {source : String} (h : tokenize source = .error e) :
    Breaks [] source.toList e := by
  rcases covers_or_breaks [] source.toList with ⟨ts, hcovers⟩ | ⟨e', hbreaks⟩
  · cases h.symm.trans (scan_of_covers hcovers)
  · cases h.symm.trans (scan_of_breaks hbreaks)
    exact hbreaks

/-- **Tokenizing** loses nothing and locates everything.  The tokens of a source are exactly those
    by which it is covered, and it is refused exactly with the failure at the place where it breaks.
    A cursor that goes through the bytes of the source gives the same: every character it looks at
    and every word and number it cuts out, also one that is then refused, is a slice between
    boundaries of characters, or else it would give nothing. -/
theorem tokenize_covers (source : String) :
    (∀ ts, tokenize source = .ok ts ↔ Covers [] source.toList ts) ∧
      (∀ e, tokenize source = .error e ↔ Breaks [] source.toList e) ∧
      readTokens source = some (tokenize source) :=
  ⟨fun _ => ⟨covers_of_tokenize, scan_of_covers⟩, fun _ => ⟨breaks_of_tokenize, scan_of_breaks⟩,
    readTokens_eq_tokenize source⟩

example : tokenize "\"é\" // ü\n x" = .ok
    [⟨.string "é", ⟨1, 1⟩⟩, ⟨.ident "x", ⟨2, 2⟩⟩, ⟨.endOfFile, ⟨2, 3⟩⟩] := by cbv

/-! ## Tokens with anything between them -/

/-- Blanks and comments, of which those to the end of a line are closed by a newline. -/
inductive Filler : List Char → Prop
  | nil : Filler []
  | blank {c : Char} {cs : List Char} : Text.isBlank c → Filler cs → Filler (c :: cs)
  | lineComment {body cs : List Char} : '\n' ∉ body → Filler cs →
      Filler ('/' :: '/' :: (body ++ '\n' :: cs))
  | blockComment {body cs : List Char} : ¬ commentEnd <:+: body → Filler cs →
      Filler ('/' :: '*' :: (body ++ (commentEnd ++ cs)))

/-- What may stand between tokens whatever they are: a blank and then anything. -/
def Separator (cs : List Char) : Prop :=
  ∃ c filler, cs = c :: filler ∧ Text.isBlank c ∧ Filler filler

/-- The tokens, each in its spelling with a separator behind it. -/
def separated (items : List (TokenKind × List Char)) : List Char :=
  items.flatMap fun (k, separator) => spelling k ++ separator

theorem Filler.trivia (h : Filler gap) (rest : List Char) : Trivia gap rest := by
  induction h with
  | nil => exact .nil
  | blank hc _ ih => exact .blank hc ih
  | lineComment hbody _ ih =>
    refine .lineComment hbody ?_ (.blank (by decide) ih)
    rintro _ ⟨⟩
    rfl
  | blockComment hbody _ ih => exact .blockComment hbody ih

theorem Separator.trivia (h : Separator gap) (rest : List Char) : Trivia gap rest := by
  obtain ⟨c, filler, rfl, hc, hfiller⟩ := h
  exact .blank hc (hfiller.trivia rest)

/-- Every token ends before a blank. -/
theorem Separator.parted (h : Separator gap) (k : TokenKind) (rest : List Char) :
    Parted k (gap ++ rest) := by
  obtain ⟨c, filler, rfl, hc, -⟩ := h
  have hword : ¬ continuesWord c := by
    intro hword
    have hopens : opensLexeme c := by
      simp only [continuesWord, Char.isAlphanum, Bool.or_eq_true] at hword
      simp only [opensLexeme, startsWord, Bool.or_eq_true]
      tauto
    exact absurd (isBlank_of_opensLexeme hopens) (by simp [hc])
  have hdigit : ¬ c.isDigit :=
    fun hdigit => hword (by simp [continuesWord, Char.isAlphanum, hdigit])
  refine parted_separator hdigit hword ⟨?_, ?_, ?_⟩ k _
  all_goals
    rintro rfl
    exact absurd hc (by decide)

/-- **Separated tokens are read back.** -/
theorem scan_separated {first : List Char} (hfirst : ∀ rest, Trivia first rest)
    {items : List (TokenKind × List Char)} (hitems : ∀ p ∈ items, Writable p.1 ∧ Separator p.2)
    (l : Location) : ∃ ts, scan l (first ++ separated items) = .ok ts ∧
      ts.map Token.kind = items.map (·.1) ++ [.endOfFile] := by
  induction items generalizing first l with
  | nil =>
    have hskip : skipGap .blanks l (first ++ []) = .ok (l.advance first, []) := by
      rw [skipGap_trivia (hfirst _), skipGap_solid solid_nil]
    exact ⟨_, scan_of_skipGap_nil hskip, rfl⟩
  | cons p items ih =>
    obtain ⟨⟨hk, hseparator⟩, hitems⟩ := List.forall_mem_cons.mp hitems
    obtain ⟨ts, hts, hkinds⟩ := ih hseparator.trivia hitems (l.advance (first ++ spelling p.1))
    refine ⟨⟨p.1, l.advance first⟩ :: ts, ?_, ?_⟩
    · have hwrites := writes_of_spells (spells_spelling hk)
      rw [separated] at hts
      rw [separated, List.flatMap_cons, List.append_assoc,
        scan_lexeme l (hfirst _) hwrites (hseparator.parted p.1 _), hts]
      rfl
    · rw [List.map_cons, hkinds]
      rfl

/-- **Tokenizing undoes spelling.**  Tokens in their spellings, with separators around them, are
    read as these tokens. -/
theorem tokenize_separated {first : List Char} (hfirst : Separator first)
    {items : List (TokenKind × List Char)} (hitems : ∀ p ∈ items, Writable p.1 ∧ Separator p.2) :
    ∃ ts, tokenize (String.ofList (first ++ separated items)) = .ok ts ∧
      ts.map Token.kind = items.map (·.1) ++ [.endOfFile] := by
  rw [tokenize, String.toList_ofList]
  exact scan_separated hfirst.trivia hitems .start

/-- A comment that looks closed at once, a string with a comment in it, and a comment with a quote
    in it. -/
def knotty : List (TokenKind × List Char) := [
  (.ident "x", " /*/ */".toList),
  (.mark .lessEqual, "\t/***/ ".toList),
  (.string "//\"é\n", "\n// \"\n".toList),
  (.keyword .ifWord, [' '])]

theorem tokenize_separated_knotty : ∃ ts,
    tokenize " x /*/ */<=\t/***/ \"//\\\"é\\n\"\n// \"\nif " = .ok ts ∧
      ts.map Token.kind =
        [.ident "x", .mark .lessEqual, .string "//\"é\n", .keyword .ifWord, .endOfFile] := by
  have hname : IsIdentifier "x".toList := by decide
  have hblank : Separator [' '] := ⟨' ', [], rfl, by decide, .nil⟩
  have hitems : ∀ p ∈ knotty, Writable p.1 ∧ Separator p.2 := by
    simp only [knotty, List.forall_mem_cons, List.not_mem_nil, false_implies, implies_true,
      and_true]
    refine ⟨⟨hname, ' ', "/*/ */".toList, rfl, by decide, ?_⟩,
      ⟨trivial, '\t', "/***/ ".toList, rfl, by decide, ?_⟩,
      ⟨trivial, '\n', "// \"\n".toList, rfl, by decide, ?_⟩, trivial, hblank⟩
    · exact @Filler.blockComment ['/', ' '] [] (by decide) .nil
    · exact @Filler.blockComment ['*'] [' '] (by decide) (.blank (by decide) .nil)
    · exact @Filler.lineComment [' ', '"'] [] (by decide) .nil
  have htext : [' '] ++ separated knotty =
      " x /*/ */<=\t/***/ \"//\\\"é\\n\"\n// \"\nif ".toList := by cbv
  have hread := tokenize_separated hblank hitems
  rw [htext, String.ofList_toList] at hread
  exact hread

end Token

end ActorScript
