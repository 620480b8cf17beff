/-
  String literals and the ends of lines.

  A string literal opens where the lexer comes to a quote behind gaps and lexemes (`Leads`).  It
  should be closed in the line in which it opens, and be refused at its opening quote otherwise
  (`SingleLined`).  A newline that stands for itself does end it, but a backslash takes the
  character behind it along whatever it is, so a newline gets into a string just behind a backslash
  (`newline_mem_iff`).  Hence the literals of a source are single lines if and only if none of them
  is continued in this way (`singleLined_iff`).
-/
import ActorScript.Proofs.Located
import ActorScript.Proofs.Numbering

namespace ActorScript

namespace Location

/-- A place further on in a text has another location. -/
theorem behind_append_ne (before : List Char) {cs : List Char} (hcs : cs ≠ []) :
    behind (before ++ cs) ≠ behind before := by
  rw [← advance_behind]
  exact fun h => absurd (congrArg position h) ((behind before).position_advance hcs).ne'

/-- **A location in a text** is that of one place only. -/
theorem eq_of_behind {before before' rest rest' : List Char} (hl : behind before = behind before')
    (htext : before ++ rest = before' ++ rest') : before = before' := by
  obtain ⟨cs, rfl, -⟩ | ⟨cs, rfl, -⟩ := List.append_eq_append_iff.mp htext
  · by_contra hne
    exact behind_append_ne before (fun hcs => hne (by rw [hcs, List.append_nil])) hl.symm
  · by_contra hne
    exact behind_append_ne before' (fun hcs => hne (by rw [hcs, List.append_nil])) hl

end Location

namespace Token

/-! ## The text in front of a lexeme -/

/-- The text `before`, in front of `rest`, is made of gaps and lexemes, and of a last gap. -/
inductive Leads (rest : List Char) : List Char → Prop
  | gap {gap : List Char} : Trivia gap rest → Leads rest gap
  | lexeme {gap cs before : List Char} {k : TokenKind} : Trivia gap (cs ++ (before ++ rest)) →
      Writes k cs → Parted k (before ++ rest) → Leads rest before →
      Leads rest (gap ++ (cs ++ before))

variable {source : String} {before gap cs rest : List Char} {k : TokenKind} {t : Token}
  {ts : List Token} {e : Error}

theorem scan_trivia (h : Trivia gap rest) (l : Location) :
    scan l (gap ++ rest) = scan (l.advance gap) rest := by
  have hskip := skipGap_trivia h l
  cases hrest : skipGap .blanks (l.advance gap) rest with
  | error e =>
    rw [hrest] at hskip
    rw [scan_of_skipGap_error hskip, scan_of_skipGap_error hrest]
  | ok p =>
    obtain ⟨l', cs⟩ := p
    rw [hrest] at hskip
    cases cs with
    | nil => rw [scan_of_skipGap_nil hskip, scan_of_skipGap_nil hrest]
    | cons c cs => rw [scan_of_skipGap_cons hskip, scan_of_skipGap_cons hrest]

/-- **The lexer comes to the rest** with the location it has, and adds to what it reads there. -/
theorem scan_of_leads (h : Leads rest before) (l : Location) :
    ∃ ts, scan l (before ++ rest) = (scan (l.advance before) rest).map (ts ++ ·) := by
  induction h generalizing l with
  | gap hgap =>
    refine ⟨[], ?_⟩
    rw [scan_trivia hgap]
    cases scan (l.advance _) rest with
    | error e => rfl
    | ok ts => rfl
  | @lexeme gap cs before k hgap hk hparted _ ih =>
    obtain ⟨ts, hts⟩ := ih (l.advance (gap ++ cs))
    refine ⟨⟨k, l.advance gap⟩ :: ts, ?_⟩
    rw [List.append_assoc, List.append_assoc, scan_lexeme l hgap hk hparted, hts,
      ← Location.advance_append, List.append_assoc]
    cases scan (l.advance _) rest with
    | error e => rfl
    | ok ts' => rfl

theorem tokenize_of_leads (htext : source.toList = before ++ rest) (h : Leads rest before) :
    ∃ ts, tokenize source = (scan (.behind before) rest).map (ts ++ ·) := by
  obtain ⟨ts, hts⟩ := scan_of_leads h (.behind [])
  rw [Location.advance_behind, List.nil_append, ← htext] at hts
  exact ⟨ts, hts⟩

/-- The lexer comes to the text behind a lexeme. -/
theorem leads_append (h : Leads (cs ++ rest) before) (hk : Writes k cs) (hparted : Parted k rest) :
    Leads rest (before ++ cs) := by
  induction h with
  | @gap gap hgap =>
    have hlast : Leads rest (gap ++ (cs ++ [])) := .lexeme hgap hk hparted (.gap .nil)
    rwa [List.append_nil] at hlast
  | @lexeme gap cs' before k' hgap hk' hparted' _ ih =>
    rw [← List.append_assoc before cs rest] at hgap hparted'
    rw [List.append_assoc, List.append_assoc]
    exact .lexeme hgap hk' hparted' ih

/-- Every token but the last stands where the lexer comes to. -/
theorem exists_leads (h : Covers before cs ts) (ht : t ∈ ts) (hkind : t.kind ≠ .endOfFile) :
    ∃ lead taken rest, cs = lead ++ (taken ++ rest) ∧ Leads (taken ++ rest) lead ∧
      Writes t.kind taken ∧ t.location = .behind (before ++ lead) := by
  induction h with
  | last =>
    obtain rfl := List.mem_singleton.mp ht
    exact absurd rfl hkind
  | @cons before gap cs rest k ts hgap hk hparted _ ih =>
    rcases List.mem_cons.mp ht with rfl | ht
    · exact ⟨gap, cs, rest, rfl, .gap hgap, hk, rfl⟩
    · obtain ⟨lead, taken, rest', rfl, hlead, htaken, hl⟩ := ih ht
      refine ⟨gap ++ (cs ++ lead), taken, rest', by simp, .lexeme hgap hk hparted hlead, htaken, ?_⟩
      rw [hl, List.append_assoc, List.append_assoc]

/-- A failure is about a place of the text in which the lexer fails. -/
theorem location_of_breaks (h : Breaks before cs e) :
    ∃ f more, e = .atLocation f (.behind (before ++ more)) := by
  induction h with
  | here => exact ⟨_, _, rfl⟩
  | later _ _ _ _ ih =>
    obtain ⟨f, more, rfl⟩ := ih
    exact ⟨f, _, by rw [List.append_assoc]⟩

/-! ## Literals -/

/-- In the source, the lexer comes to the quote between `before` and `rest`, which opens a string
    literal. -/
def Literal (source : String) (before rest : List Char) : Prop :=
  source.toList = before ++ '"' :: rest ∧ Leads ('"' :: rest) before

/-- Behind an opening quote, the closing quote stands in the same line. -/
def ClosedInLine (rest : List Char) : Prop :=
  ∃ value inner after, rest = inner ++ '"' :: after ∧ Inside value inner ∧ '\n' ∉ inner

/-- Behind an opening quote there is a closing quote, and between them a line that ends with a
    backslash. -/
def Continued (rest : List Char) : Prop :=
  ∃ value inner after, rest = inner ++ '"' :: after ∧ Inside value inner ∧ ['\\', '\n'] <:+: inner

/-- In the source, the token is written as `cs`. -/
def WrittenAt (source : String) (t : Token) (cs : List Char) : Prop :=
  ∃ before after, source.toList = before ++ (cs ++ after) ∧ t.location = .behind before ∧
    Writes t.kind cs

/-- **String literals never span lines.** -/
structure SingleLined (source : String) : Prop where
  /-- If the source is read, there is no newline in the characters of a string. -/
  spelled : ∀ ts, tokenize source = .ok ts → ∀ t ∈ ts, ∀ s, t.kind = .string s →
    ∀ cs, WrittenAt source t cs → '\n' ∉ cs
  /-- If the line ends before a literal is closed, the source is refused at its opening quote. -/
  refused : ∀ before rest, Literal source before rest → ¬ ClosedInLine rest →
    tokenize source = .error (.atLocation .unterminatedString (.behind before))

/-- **A newline in a string** stands behind a backslash. -/
theorem newline_mem_iff {value inner : List Char} (h : Inside value inner) :
    '\n' ∈ inner ↔ ['\\', '\n'] <:+: inner := by
  refine ⟨fun hmem => ?_, fun hin => hin.subset (by simp)⟩
  induction h with
  | nil => cases hmem
  | @plain c _ inner _ _ hnewline _ ih =>
    exact List.infix_cons (ih ((List.mem_cons.mp hmem).resolve_left hnewline.symm))
  | @escape c _ inner _ ih =>
    rcases List.mem_cons.mp ((List.mem_cons.mp hmem).resolve_left (by decide)) with rfl | hmem
    · exact (List.prefix_append ['\\', '\n'] inner).isInfix
    · exact List.infix_cons (List.infix_cons (ih hmem))

/-- **A string is closed by one quote only.** -/
theorem inside_unique {value value' inner inner' after after' : List Char} (h : Inside value inner)
    (h' : Inside value' inner') (htext : inner ++ '"' :: after = inner' ++ '"' :: after') :
    inner = inner' := by
  have hbody := stringBody_of_inside h after
  rw [htext, stringBody_of_inside h' after'] at hbody
  injection hbody with hbody
  injection hbody with _ hbody
  injection hbody with hbody
  exact (List.append_cancel_right hbody).symm

theorem not_closedInLine_of_continued (h : Continued rest) : ¬ ClosedInLine rest := by
  rintro ⟨value', inner', after', htext', hinside', hnewline⟩
  obtain ⟨value, inner, after, htext, hinside, hin⟩ := h
  obtain rfl := inside_unique hinside hinside' (htext.symm.trans htext')
  exact hnewline ((newline_mem_iff hinside).mpr hin)

/-- **A string that is read** is written as one literal of the source. -/
theorem literal_of_writtenAt {s : String} (hts : tokenize source = .ok ts) (ht : t ∈ ts)
    (hs : t.kind = .string s) (h : WrittenAt source t cs) :
    ∃ before inner after, Literal source before (inner ++ '"' :: after) ∧ Inside s.toList inner ∧
      cs = '"' :: (inner ++ ['"']) := by
  obtain ⟨before, taken, after, htext, hlead, htaken, hl⟩ :=
    exists_leads (covers_of_tokenize hts) ht (by rw [hs]; nofun)
  obtain ⟨before', after', htext', hl', hcs⟩ := h
  obtain rfl := Location.eq_of_behind (hl.symm.trans hl') (htext.symm.trans htext')
  rw [hs] at htaken hcs
  obtain ⟨inner, rfl, hinside⟩ := htaken
  obtain ⟨inner', rfl, hinside'⟩ := hcs
  have hliteral : Literal source before (inner ++ '"' :: after) :=
    ⟨by simp [htext], by simpa using hlead⟩
  have hsource : source.toList = before ++ '"' :: (inner' ++ '"' :: after') := by simp [htext']
  have hsame := List.append_cancel_left (hliteral.1.symm.trans hsource)
  injection hsame with _ hsame
  obtain rfl := inside_unique hinside hinside' hsame
  exact ⟨before, inner, after, hliteral, hinside, rfl⟩

/-- Behind an opening quote, the line or the text ends or the literal is continued, if it is not
    closed in its line. -/
theorem open_or_continued (h : ¬ ClosedInLine rest) : Open rest ∨ Continued rest := by
  rcases exists_inside rest with ⟨value, inner, after, htext, hinside⟩ | hopen
  · refine .inr ⟨value, inner, after, htext, hinside, (newline_mem_iff hinside).mp ?_⟩
    by_contra hnewline
    exact h ⟨value, inner, after, htext, hinside, hnewline⟩
  · exact .inl hopen

/-- A literal that is not closed is refused. -/
theorem tokenize_of_open (h : Literal source before rest) (hopen : Open rest) :
    tokenize source = .error (.atLocation .unterminatedString (.behind before)) := by
  obtain ⟨ts, hts⟩ := tokenize_of_leads h.1 h.2
  have hfault : scan (.behind before) ('"' :: rest) =
      .error (.atLocation .unterminatedString (.behind before)) :=
    scan_fault (.behind before) .nil (.quote hopen)
  rw [hts, hfault]
  rfl

/-- A literal that is closed somewhere is read, and every failure is about a place behind it. -/
theorem tokenize_ne_of_continued (h : Literal source before rest) (hcontinued : Continued rest) :
    tokenize source ≠ .error (.atLocation .unterminatedString (.behind before)) := by
  obtain ⟨htext, hlead⟩ := h
  obtain ⟨value, inner, after, rfl, hinside, -⟩ := hcontinued
  have hwrites : Writes (.string (String.ofList value)) ('"' :: (inner ++ ['"'])) :=
    ⟨inner, rfl, by rwa [String.toList_ofList]⟩
  have hsplit : '"' :: (inner ++ '"' :: after) = '"' :: (inner ++ ['"']) ++ after := by simp
  rw [hsplit] at hlead htext
  rw [← List.append_assoc] at htext
  obtain ⟨ts, hts⟩ := tokenize_of_leads htext (leads_append hlead hwrites fun _ _ => trivial)
  intro herror
  rw [hts] at herror
  rcases covers_or_breaks (before ++ ('"' :: (inner ++ ['"']))) after with
    ⟨ts', hcovers⟩ | ⟨e, hbreaks⟩
  · rw [scan_of_covers hcovers] at herror
    cases herror
  · obtain ⟨f, more, rfl⟩ := location_of_breaks hbreaks
    rw [scan_of_breaks hbreaks] at herror
    injection herror with herror
    injection herror with _ hl
    rw [List.append_assoc] at hl
    exact Location.behind_append_ne before (List.cons_ne_nil _ _) hl

/-- **When string literals are single lines.**  For every source: its strings are written without a
    newline if it is read, and a literal whose line ends before it is closed is refused at its
    opening quote, if and only if no literal is continued behind a backslash at the end of its
    line. -/
theorem singleLined_iff (source : String) :
    SingleLined source ↔ ∀ before rest, Literal source before rest → ¬ Continued rest := by
  constructor
  · intro h before rest hliteral hcontinued
    exact tokenize_ne_of_continued hliteral hcontinued
      (h.refused before rest hliteral (not_closedInLine_of_continued hcontinued))
  · intro h
    refine ⟨fun ts hts t ht s hs cs hcs hnewline => ?_, fun before rest hliteral hclosed => ?_⟩
    · obtain ⟨before, inner, after, hliteral, hinside, rfl⟩ := literal_of_writtenAt hts ht hs hcs
      have hin : '\n' ∈ inner := by simpa using hnewline
      exact h before _ hliteral ⟨_, inner, after, rfl, hinside, (newline_mem_iff hinside).mp hin⟩
    · exact tokenize_of_open hliteral
        ((open_or_continued hclosed).resolve_right (h before rest hliteral))

/-- A literal that goes on behind a backslash at the end of its line. -/
def folded : String := "\"a\\\nb\""

/-- It is read as one string. -/
theorem not_singleLined_folded : ¬ SingleLined folded := by
  intro h
  have hread : tokenize folded = .ok [⟨.string "a\\\nb", .start⟩, ⟨.endOfFile, ⟨2, 3⟩⟩] := by cbv
  have hinside : Inside "a\\\nb".toList "a\\\nb".toList :=
    .plain (by decide) (by decide) (by decide)
      (.escape '\n' (.plain (by decide) (by decide) (by decide) .nil))
  exact h.spelled _ hread _ (.head _) _ rfl folded.toList
    ⟨[], [], (List.append_nil _).symm, rfl, _, rfl, hinside⟩ (by decide)

end Token

end ActorScript
