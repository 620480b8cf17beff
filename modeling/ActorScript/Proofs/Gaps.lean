/-
  What stands between tokens.

  A gap is made of blanks and comments (`Trivia`).  A line comment goes to the end of its line and
  leaves the newline to the rest of the gap; a block comment goes to the first `*/`, wherever its
  two characters stand.  Every text starts with such a gap, and behind it stands either the end of
  the text, a character that starts neither a blank nor a comment, or a comment that is never
  closed (`exists_trivia`).  In each case this is what the lexer finds (`skipGap_trivia`).
-/
import ActorScript.Proofs.Spelling

namespace ActorScript.Token

/-- The characters with which a block comment ends. -/
def commentEnd : List Char := ['*', '/']

/-- A sequence of blanks and comments, with the text behind it: a line comment has to end before a
    newline, or else the text has to end with it. -/
inductive Trivia : List Char → List Char → Prop
  | nil {rest : List Char} : Trivia [] rest
  | blank {c : Char} {gap rest : List Char} : Text.isBlank c → Trivia gap rest →
      Trivia (c :: gap) rest
  | lineComment {body gap rest : List Char} : '\n' ∉ body → (∀ c ∈ (gap ++ rest).head?, c = '\n') →
      Trivia gap rest → Trivia ('/' :: '/' :: (body ++ gap)) rest
  | blockComment {body gap rest : List Char} : ¬ commentEnd <:+: body → Trivia gap rest →
      Trivia ('/' :: '*' :: (body ++ (commentEnd ++ gap))) rest

/-- The text starts with a comment that is never closed. -/
def Unclosed (cs : List Char) : Prop := ∃ body, cs = '/' :: '*' :: body ∧ ¬ commentEnd <:+: body

/-! ## The lexer in a gap -/

theorem skipGap_openLine (l : Location) (cs : List Char) : skipGap .blanks l ('/' :: '/' :: cs) =
    skipGap .lineComment (l.advance ['/', '/']) cs := rfl

theorem skipGap_openBlock (l : Location) (cs : List Char) : skipGap .blanks l ('/' :: '*' :: cs) =
    skipGap (.blockComment l) (l.advance ['/', '*']) cs := rfl

theorem skipGap_lineComment {body rest : List Char} (hbody : '\n' ∉ body)
    (hrest : ∀ c ∈ rest.head?, c = '\n') (l : Location) :
    skipGap .lineComment l (body ++ rest) = skipGap .blanks (l.advance body) rest := by
  induction body generalizing l with
  | nil =>
    cases rest with
    | nil => rfl
    | cons c rest =>
      obtain rfl := hrest c rfl
      rfl
  | cons c body ih =>
    obtain ⟨hc, hbody⟩ := not_or.mp (List.mem_cons.not.mp hbody)
    show skipGap (if c = '\n' then .blanks else .lineComment) (l.next c) (body ++ rest) = _
    rw [if_neg (Ne.symm hc)]
    exact ih hbody _

/-- Before the end of a comment, the lexer goes on character by character. -/
theorem skipGap_blockComment_cons {c : Char} {cs : List Char} (h : ¬ commentEnd <+: c :: cs)
    (start l : Location) : skipGap (.blockComment start) l (c :: cs) =
      skipGap (.blockComment start) (l.next c) cs := by
  conv => lhs; unfold skipGap
  split
  case h_8 he =>
    cases he
    exact absurd ⟨_, rfl⟩ h
  case h_9 hgap he =>
    cases hgap
    cases he
    rfl
  all_goals simp_all

theorem skipGap_unclosed {cs : List Char} (h : ¬ commentEnd <:+: cs) (start l : Location) :
    skipGap (.blockComment start) l cs = .error (.atLocation .unterminatedComment start) := by
  induction cs generalizing l with
  | nil => rfl
  | cons c cs ih =>
    obtain ⟨hc, hcs⟩ := not_or.mp (List.infix_cons_iff.not.mp h)
    rw [skipGap_blockComment_cons hc]
    exact ih hcs _

/-- No comment ends across the end of a text in which none ends. -/
theorem not_prefix_commentEnd {c : Char} {cs rest : List Char} (h : ¬ commentEnd <+: c :: cs) :
    ¬ commentEnd <+: c :: (cs ++ (commentEnd ++ rest)) := by
  rintro hprefix
  cases cs with
  | nil =>
    obtain ⟨-, hnext⟩ := List.cons_prefix_cons.mp hprefix
    exact absurd (List.cons_prefix_cons.mp hnext).1 (by decide)
  | cons d cs =>
    obtain ⟨rfl, hnext⟩ := List.cons_prefix_cons.mp hprefix
    obtain ⟨rfl, -⟩ := List.cons_prefix_cons.mp hnext
    exact h ⟨cs, rfl⟩

theorem skipGap_blockComment {body : List Char} (hbody : ¬ commentEnd <:+: body) (rest : List Char)
    (start l : Location) : skipGap (.blockComment start) l (body ++ (commentEnd ++ rest)) =
      skipGap .blanks (l.advance (body ++ commentEnd)) rest := by
  induction body generalizing l with
  | nil => rfl
  | cons c body ih =>
    obtain ⟨hc, hbody⟩ := not_or.mp (List.infix_cons_iff.not.mp hbody)
    rw [List.cons_append, skipGap_blockComment_cons (not_prefix_commentEnd hc)]
    exact ih hbody _

/-- **A gap is skipped**, whatever stands behind it. -/
theorem skipGap_trivia {gap rest : List Char} (h : Trivia gap rest) (l : Location) :
    skipGap .blanks l (gap ++ rest) = skipGap .blanks (l.advance gap) rest := by
  induction h generalizing l with
  | nil => rfl
  | @blank c gap rest hc _ ih =>
    have hslash : c ≠ '/' := by
      rintro rfl
      exact absurd hc (by decide)
    rw [List.cons_append, skipGap_char l fun h => absurd h hslash, if_pos hc, ih]
    rfl
  | @lineComment body gap rest hbody hnewline _ ih =>
    rw [List.cons_append, List.cons_append, skipGap_openLine, List.append_assoc,
      skipGap_lineComment hbody hnewline, ih, ← Location.advance_append, ← Location.advance_append]
    rfl
  | @blockComment body gap rest hbody _ ih =>
    rw [List.cons_append, List.cons_append, skipGap_openBlock, List.append_assoc, List.append_assoc,
      skipGap_blockComment hbody, ih, ← Location.advance_append, ← Location.advance_append,
      ← List.append_assoc body]
    rfl

theorem skipGap_of_unclosed {rest : List Char} (h : Unclosed rest) (l : Location) :
    skipGap .blanks l rest = .error (.atLocation .unterminatedComment l) := by
  obtain ⟨body, rfl, hbody⟩ := h
  rw [skipGap_openBlock]
  exact skipGap_unclosed hbody l _

/-! ## Every text starts with a gap -/

/-- A comment is closed by the first of its ends. -/
theorem exists_first_commentEnd {cs : List Char} (h : commentEnd <:+: cs) :
    ∃ body rest, cs = body ++ (commentEnd ++ rest) ∧ ¬ commentEnd <:+: body := by
  induction cs with
  | nil => exact absurd (List.infix_nil.mp h) (by decide)
  | cons c cs ih =>
    by_cases hc : commentEnd <+: c :: cs
    · obtain ⟨rest, hrest⟩ := hc
      exact ⟨[], rest, hrest.symm, fun hnil => absurd (List.infix_nil.mp hnil) (by decide)⟩
    · rcases List.infix_cons_iff.mp h with hnow | hlater
      · exact absurd hnow hc
      · obtain ⟨body, rest, rfl, hbody⟩ := ih hlater
        refine ⟨c :: body, rest, rfl, fun hin => ?_⟩
        rcases List.infix_cons_iff.mp hin with hnow | hlater
        · exact hc (hnow.trans (List.prefix_append (c :: body) _))
        · exact hbody hlater

/-- A line ends before the first newline, or with the text. -/
theorem exists_line (cs : List Char) :
    ∃ body rest, cs = body ++ rest ∧ '\n' ∉ body ∧ ∀ c ∈ rest.head?, c = '\n' := by
  refine ⟨cs.takeWhile (· ≠ '\n'), cs.dropWhile (· ≠ '\n'), ?_, fun hmem => ?_, fun c hc => ?_⟩
  · exact List.takeWhile_append_dropWhile.symm
  · simpa using List.mem_takeWhile_imp hmem
  · have := List.head?_dropWhile_not (· ≠ '\n') cs
    rw [hc] at this
    simpa using this

/-- **Every text starts with a gap**, and behind it no other gap goes on, unless with a comment
    that is never closed. -/
theorem exists_trivia (cs : List Char) :
    ∃ gap rest, cs = gap ++ rest ∧ Trivia gap rest ∧ (Solid rest ∨ Unclosed rest) := by
  induction hn : cs.length using Nat.strongRecOn generalizing cs with
  | ind n ih =>
    subst hn
    by_cases hsolid : Solid cs
    · exact ⟨[], cs, rfl, .nil, .inl hsolid⟩
    cases cs with
    | nil => exact absurd trivial hsolid
    | cons c cs =>
      by_cases hblank : Text.isBlank c
      · obtain ⟨gap, rest, rfl, hgap, hrest⟩ := ih cs.length (Nat.lt_succ_self _) cs rfl
        exact ⟨c :: gap, rest, rfl, .blank hblank hgap, hrest⟩
      -- no blank, so a comment starts here
      · have hcomment : c = '/' ∧ ∃ d tail, cs = d :: tail ∧ (d = '/' ∨ d = '*') := by
          by_contra hno
          refine hsolid ⟨hblank, fun hc d hd => ?_⟩
          obtain ⟨tail, rfl⟩ := List.head?_eq_some_iff.mp hd
          exact ⟨fun hd => hno ⟨hc, d, tail, rfl, .inl hd⟩,
            fun hd => hno ⟨hc, d, tail, rfl, .inr hd⟩⟩
        obtain ⟨rfl, d, tail, rfl, rfl | rfl⟩ := hcomment
        · obtain ⟨body, tail, rfl, hbody, hnewline⟩ := exists_line tail
          obtain ⟨gap, rest, rfl, hgap, hrest⟩ := ih tail.length
            (by simp only [List.length_cons, List.length_append]; omega) tail rfl
          refine ⟨'/' :: '/' :: (body ++ gap), rest, ?_, .lineComment hbody hnewline hgap, hrest⟩
          rw [List.cons_append, List.cons_append, List.append_assoc]
        · by_cases hclosed : commentEnd <:+: tail
          · obtain ⟨body, tail, rfl, hbody⟩ := exists_first_commentEnd hclosed
            obtain ⟨gap, rest, rfl, hgap, hrest⟩ := ih tail.length
              (by simp only [List.length_cons, List.length_append]; omega) tail rfl
            refine ⟨'/' :: '*' :: (body ++ (commentEnd ++ gap)), rest, ?_,
              .blockComment hbody hgap, hrest⟩
            rw [List.cons_append, List.cons_append, List.append_assoc, List.append_assoc]
          · exact ⟨[], _, rfl, .nil, .inr ⟨tail, rfl, hclosed⟩⟩

end ActorScript.Token
