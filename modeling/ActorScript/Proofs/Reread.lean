/-
  Documents that are read back from their text.

  Behind every piece of a text the reader looks at one more character at most, and it can make a
  difference only for a number: `Ends` says that a number does not go on with what is behind it.
  So each piece is read by itself, with any blanks in front of it, and a document is put together
  from its pieces as the printer has laid it out (`takes_pretty`).

  Not everything that is printed can be read back: of a number that is no integer only the kind is
  known, and there are integers that do not fit into 64 bits.  The documents without such parts
  are `Exact`.
-/
import ActorScript.Json.Printer
import ActorScript.Json.Reader

namespace ActorScript.Json

mutual

/-- Whether the text of the document tells all about it: its numbers are integers of 64 bits, and
    all its parts can be represented. -/
def Exact : Json → Prop
  | int n => -2 ^ 63 ≤ n ∧ n < 2 ^ 64
  | array items => ExactItems items
  | object members => ExactMembers members
  | null | bool _ | string _ => True
  | real | unreadable => False

/-- Whether the texts of some documents tell all about them. -/
def ExactItems : List Json → Prop
  | [] => True
  | j :: js => j.Exact ∧ ExactItems js

/-- Whether the texts of the values of some members tell all about them. -/
def ExactMembers : List (String × Json) → Prop
  | [] => True
  | (_, j) :: ms => j.Exact ∧ ExactMembers ms

end

namespace Reader

variable {α : Type} {cs gap rest body : List Char} {c d : Char} {j : Json}

/-! ## Blanks and marks -/

/-- The reader gives `a` and leaves the characters `rest`. -/
def Takes (x : Option (α × Shorter cs)) (a : α) (rest : List Char) : Prop :=
  ∃ h, x = some (a, ⟨rest, h⟩)

/-- Behind blanks, if there are any, the text goes on with this character. -/
def Opens (cs : List Char) (c : Char) (rest : List Char) : Prop := (skip cs).1 = c :: rest

/-- A character that is no blank is found at once. -/
theorem opens_cons (hc : isBlank c = false) : Opens (c :: rest) c rest :=
  List.dropWhile_cons_of_neg (by simp [hc])

/-- Blanks in front are skipped. -/
theorem Opens.behind (h : Opens cs c rest) (hgap : ∀ b ∈ gap, isBlank b) :
    Opens (gap ++ cs) c rest :=
  (List.dropWhile_append_of_pos hgap).trans h

/-- A text that does not start with a blank is found behind blanks, and the rest of it is behind its
    first character. -/
theorem opens_text {s : String} {body : List Char} (hs : s.toList = c :: body)
    (hc : isBlank c = false) (hgap : ∀ b ∈ gap, isBlank b) :
    Opens (gap ++ (s.toList ++ rest)) c (body ++ rest) := by
  rw [hs]
  exact (opens_cons hc).behind hgap

/-- The next character is the first. -/
@[simp] theorem next?_cons (c : Char) (cs : List Char) : next? (c :: cs) = some (c, .tail c cs) :=
  rfl

/-- A character that comes next is taken. -/
@[simp] theorem take?_cons (c : Char) (cs : List Char) : take? c (c :: cs) = some (.tail c cs) := by
  simp [take?]

/-- Any other character is not taken. -/
theorem take?_of_ne (h : ∀ c ∈ cs.head?, c ≠ d) : take? d cs = none := by
  cases cs with
  | nil => rfl
  | cons c cs => simp [take?, h c rfl]

/-- **A mark** is found behind the blanks in front of it. -/
theorem Opens.finds_mark (h : Opens cs c rest) : ∃ hlt, mark? c cs = some ⟨rest, hlt⟩ := by
  rw [Opens] at h
  rw [mark?]
  generalize skip cs = k at h
  obtain ⟨_, hk⟩ := k
  subst h
  exact ⟨_, congrArg (Option.map _) (take?_cons c rest)⟩

/-- What comes behind the blanks is no mark of another kind. -/
theorem mark?_eq_none (h : ∀ c ∈ (skip cs).1.head?, c ≠ d) : mark? d cs = none := by
  rw [mark?, take?_of_ne h]
  rfl

/-- A text that goes on with one mark does not go on with another. -/
theorem Opens.lacks_mark (h : Opens cs c rest) (hne : c ≠ d) : mark? d cs = none := by
  refine mark?_eq_none ?_
  rw [h]
  simpa using hne

/-! ## Texts -/

section Text

variable {half : Bool} {found : Bool × List Char}

/-- A character that stands for itself. -/
theorem takes_textBody_plain (hquote : c ≠ '"') (hbackslash : c ≠ '\\') (hc : ¬ c.toNat < 32)
    (h : Takes (textBody half cs) found rest) :
    Takes (textBody half (c :: cs)) (found.1, c :: found.2) rest := by
  obtain ⟨hlt, h⟩ := h
  rw [textBody]
  simp only [next?_cons, Option.bind_eq_bind, Option.bind_some, if_neg hquote, if_neg hbackslash,
    if_neg hc, Shorter.tail, h]
  exact ⟨_, rfl⟩

/-- A character with a short escape. -/
theorem takes_textBody_escaped {e : Char} (he : escaped? e = some c)
    (h : Takes (textBody half cs) found rest) :
    Takes (textBody half ('\\' :: e :: cs)) (found.1, c :: found.2) rest := by
  obtain ⟨hlt, h⟩ := h
  have hu : e ≠ 'u' := by
    rintro rfl
    cases he
  rw [textBody]
  simp only [next?_cons, Option.bind_eq_bind, Option.bind_some, Shorter.tail, Shorter.trans,
    Char.reduceEq, if_false, if_true, if_neg hu, he, h]
  exact ⟨_, rfl⟩

/-- The two digits of a control character are read back as its number. -/
theorem codeUnit?_hexDigit : ∀ n < 32,
    codeUnit? '0' '0' (hexDigit (n / 16)) (hexDigit (n % 16)) = some n := by decide

/-- A control character without a short escape. -/
theorem takes_textBody_control (hc : c.toNat < 32) (h : Takes (textBody half cs) found rest) :
    Takes (textBody half ('\\' :: 'u' :: '0' :: '0' :: hexDigit (c.toNat / 16) ::
      hexDigit (c.toNat % 16) :: cs)) (found.1, c :: found.2) rest := by
  obtain ⟨hlt, h⟩ := h
  -- it is neither half of a character that takes two escapes
  have hhigh : ¬ (0xD800 ≤ c.toNat ∧ c.toNat ≤ 0xDBFF) := by omega
  have hlow : ¬ (0xDC00 ≤ c.toNat ∧ c.toNat ≤ 0xDFFF) := by omega
  rw [textBody]
  simp only [next?_cons, Option.bind_eq_bind, Option.bind_some, Option.pure_def, Shorter.tail,
    Shorter.trans, Char.reduceEq, if_false, if_true, takeCodeUnit?, codeUnit?_hexDigit _ hc,
    if_neg hhigh, if_neg hlow, h, Char.ofNat_toNat]
  exact ⟨_, rfl⟩

/-- A character in quotes has a short escape, is a control character or stands for itself. -/
theorem escape_cases (c : Char) :
    (∃ e, escaped? e = some c ∧ escape c = ['\\', e]) ∨
    (c.toNat < 32 ∧ escape c =
      ['\\', 'u', '0', '0', hexDigit (c.toNat / 16), hexDigit (c.toNat % 16)]) ∨
    (c ≠ '"' ∧ c ≠ '\\' ∧ ¬ c.toNat < 32 ∧ escape c = [c]) := by
  unfold escape
  split
  -- the first seven cases are the characters with a short escape
  iterate 7 exact .inl ⟨_, rfl, rfl⟩
  split
  · exact .inr (.inl ⟨‹_›, rfl⟩)
  · exact .inr (.inr ⟨‹_›, ‹_›, ‹_›, rfl⟩)

/-- **A text in quotes** is read back. -/
theorem takes_textBody (half : Bool) (text rest : List Char) :
    Takes (textBody half (text.flatMap escape ++ '"' :: rest)) (half, text) rest := by
  induction text with
  | nil =>
    rw [List.flatMap_nil, List.nil_append, textBody]
    exact ⟨_, rfl⟩
  | cons c text ih =>
    rw [List.flatMap_cons, List.append_assoc]
    obtain ⟨e, he, hc⟩ | ⟨hcontrol, hc⟩ | ⟨hquote, hbackslash, hcontrol, hc⟩ := escape_cases c
    · rw [hc]
      exact takes_textBody_escaped he ih
    · rw [hc]
      exact takes_textBody_control hcontrol ih
    · rw [hc]
      exact takes_textBody_plain hquote hbackslash hcontrol ih

end Text

/-! ## Numbers -/

/-- A number does not go on at the start of a text. -/
def Ends (rest : List Char) : Prop :=
  ∀ c ∈ rest.head?, ¬ c.isDigit ∧ c ≠ '.' ∧ c ≠ 'e' ∧ c ≠ 'E'

/-- Digits are read as far as they go, and that is where the number does not go on. -/
theorem takes_someDigits {ds : List Char} (hne : ds ≠ []) (hds : ∀ d ∈ ds, d.isDigit)
    (hrest : Ends rest) : Takes (someDigits? (ds ++ rest)) ds rest := by
  obtain ⟨d, ds, rfl⟩ := List.exists_cons_of_ne_nil hne
  have hstop : ∀ c ∈ rest.head?, ¬ c.isDigit = true := fun c hc => (hrest c hc).1
  have htail : ∀ c ∈ ds, c.isDigit := fun c hc => hds c (List.mem_cons_of_mem d hc)
  have htake : (ds ++ rest).takeWhile Char.isDigit = ds := by
    rw [List.takeWhile_append_of_pos htail]
    cases rest with
    | nil => simp
    | cons c rest => simp [hstop c rfl]
  have hdrop : (ds ++ rest).dropWhile Char.isDigit = rest := by
    rw [List.dropWhile_append_of_pos htail]
    cases rest with
    | nil => rfl
    | cons c rest => simp [hstop c rfl]
  simp only [List.cons_append, someDigits?, next?_cons, Option.bind_eq_bind, Option.bind_some,
    hds d List.mem_cons_self, if_true, Shorter.tail, digits, Shorter.upTo, htake, hdrop]
  exact ⟨_, rfl⟩

/-- Where a number ends there is no point. -/
theorem fraction?_of_ends (h : Ends rest) : fraction? rest = some (none, .all rest) := by
  rw [fraction?, take?_of_ne fun c hc => (h c hc).2.1]

/-- Where a number ends there is no exponent. -/
theorem exponent?_of_ends (h : Ends rest) : exponent? rest = some (none, .all rest) := by
  rw [exponent?, take?_of_ne fun c hc => (h c hc).2.2.1, take?_of_ne fun c hc => (h c hc).2.2.2]
  rfl

/-- What is printed of a number are digits. -/
theorem isDigit_of_mem_toDigits {n : Nat} {d : Char} (h : d ∈ Nat.toDigits 10 n) : d.isDigit :=
  Nat.isDigit_of_mem_toDigits (by decide) (by decide) h

/-- There is at least one, also of zero. -/
theorem exists_toDigits (n : Nat) : ∃ d ds, Nat.toDigits 10 n = d :: ds ∧ d.isDigit := by
  obtain ⟨d, ds, hds⟩ := List.exists_cons_of_ne_nil (Nat.toDigits_ne_nil (b := 10) (n := n))
  exact ⟨d, ds, hds, isDigit_of_mem_toDigits (hds ▸ List.mem_cons_self)⟩

/-- The digits of a number have no zero in front. -/
theorem head?_toDigits {n : Nat} (hn : n ≠ 0) : (Nat.toDigits 10 n).head? ≠ some '0' := by
  induction n using Nat.strongRecOn with
  | ind n ih =>
    by_cases hlt : n < 10
    · rw [Nat.toDigits_of_lt_base hlt]
      have hdigit : ∀ n < 10, n ≠ 0 → n.digitChar ≠ '0' := by decide
      simpa using hdigit n hlt hn
    · -- without its last digit the number still has the same first one
      have hquot := ih (n / 10) (by omega) (by omega)
      rw [Nat.toDigits_of_base_le (by decide) (by omega), List.head?_append]
      obtain ⟨d, ds, hds, -⟩ := exists_toDigits (n / 10)
      rw [hds] at hquot ⊢
      exact hquot

/-- A number without point and exponent, from its sign and its digits. -/
theorem takes_number_of_digits {negative : Bool} {n : Nat}
    (hsign : ∃ h, minusSign cs = (negative, ⟨Nat.toDigits 10 n ++ rest, h⟩)) (hrest : Ends rest) :
    Takes (number? cs) (number negative (Nat.toDigits 10 n) none none) rest := by
  obtain ⟨hlt, hdigits⟩ := takes_someDigits (Nat.toDigits_ne_nil (b := 10) (n := n))
    (fun _ hd => isDigit_of_mem_toDigits hd) hrest
  have hzero : ¬ ((Nat.toDigits 10 n).head? = some '0' ∧ Nat.toDigits 10 n ≠ ['0']) := by
    rintro ⟨hzero, hne⟩
    refine head?_toDigits ?_ hzero
    rintro rfl
    exact hne rfl
  rw [number?]
  generalize minusSign cs = sign at hsign
  obtain ⟨hle, rfl⟩ := hsign
  simp only [hdigits, Option.bind_eq_bind, Option.bind_some, if_neg hzero,
    fraction?_of_ends hrest, NoLonger.all, exponent?_of_ends hrest]
  exact ⟨_, rfl⟩

/-- **An integer of 64 bits** is read back. -/
theorem takes_number {n : Int} (h : Exact (.int n)) (hrest : Ends rest) :
    Takes (number? ((toString n).toList ++ rest)) (.int n) rest := by
  obtain ⟨hlow, hhigh⟩ := h
  by_cases hn : 0 ≤ n
  · have htext : (toString n).toList = Nat.toDigits 10 n.toNat := by
      rw [Int.toString_eq_repr, Int.repr_eq_if, if_pos hn, Nat.toList_repr]
    have hsign : minusSign (Nat.toDigits 10 n.toNat ++ rest) = (false, .all _) := by
      rw [minusSign, take?_of_ne]
      obtain ⟨d, ds, hds, hd⟩ := exists_toDigits n.toNat
      rw [hds]
      rintro c hc rfl
      cases hc
      exact absurd hd (by decide)
    have hsmall : n.toNat < UInt64.size := by
      rw [UInt64.size]
      omega
    have htake := takes_number_of_digits ⟨_, hsign⟩ hrest
    simp only [number, Nat.ofDigitChars_ten_toDigits, if_pos hsmall, Bool.false_eq_true, if_false,
      Int.toNat_of_nonneg hn] at htake
    rwa [htext]
  · -- the sign is read first, and the digits of `-n` may then be those of the least integer
    have htext : (toString n).toList = '-' :: Nat.toDigits 10 (-n).toNat := by
      rw [Int.toString_eq_repr, Int.repr_eq_if, if_neg hn, String.toList_append, Nat.toList_repr]
      rfl
    have hsign : ∃ h, minusSign ('-' :: (Nat.toDigits 10 (-n).toNat ++ rest)) =
        (true, ⟨Nat.toDigits 10 (-n).toNat ++ rest, h⟩) := by
      rw [minusSign, take?_cons]
      exact ⟨_, rfl⟩
    have hsmall : (-n).toNat ≠ 0 ∧ (-n).toNat ≤ UInt64.size / 2 := by
      rw [UInt64.size]
      omega
    have htake := takes_number_of_digits hsign hrest
    simp only [number, Nat.ofDigitChars_ten_toDigits, if_pos hsmall, if_true] at htake
    rw [Int.toNat_of_nonneg (by omega), Int.neg_neg] at htake
    rwa [htext]

/-! ## Documents -/

/-- The kind of a document shows in its first character. -/
theorem Opens.finds_first (h : Opens cs c rest) :
    ∃ hlt, next? (skip cs).1 = some (c, ⟨rest, hlt⟩) := by
  rw [Opens] at h
  generalize (skip cs).1 = ks at h
  subst h
  exact ⟨_, rfl⟩

/-- A word is read letter by letter. -/
theorem word?_append (w rest : List Char) : ∃ hle, word? w (w ++ rest) = some ⟨rest, hle⟩ := by
  induction w with
  | nil => exact ⟨_, rfl⟩
  | cons c w ih =>
    obtain ⟨hle, ih⟩ := ih
    simp only [List.cons_append, word?, take?_cons, Option.bind_eq_bind, Option.bind_some,
      Shorter.tail, ih]
    exact ⟨Nat.le_succ_of_le hle, rfl⟩

/-- The words that are documents: the first character, the others and what the word spells. -/
def words : List (Char × List Char × Json) :=
  [('n', ['u', 'l', 'l'], .null), ('t', ['r', 'u', 'e'], .bool true),
    ('f', ['a', 'l', 's', 'e'], .bool false)]

/-- The three words are read back; each has a first letter of its own. -/
theorem takes_word {w : List Char} {s : String} (hw : (c, w, j) ∈ words) (hs : s.toList = c :: w)
    (hgap : ∀ b ∈ gap, isBlank b) : Takes (value (gap ++ (s.toList ++ rest))) j rest := by
  obtain ⟨hle, hword⟩ := word?_append w rest
  simp only [words, List.mem_cons, List.not_mem_nil, or_false, Prod.mk.injEq] at hw
  rcases hw with ⟨rfl, rfl, rfl⟩ | ⟨rfl, rfl, rfl⟩ | ⟨rfl, rfl, rfl⟩
  all_goals
    have hopens : Opens (gap ++ (s.toList ++ rest)) _ (_ ++ rest) := opens_text hs rfl hgap
    obtain ⟨hlt, hfirst⟩ := hopens.finds_first
    rw [value]
    simp only [hfirst, Option.bind_eq_bind, Option.bind_some, Char.reduceEq, if_false, if_true,
      NoLonger.trans, hword]
    exact ⟨_, rfl⟩

/-- What starts with a quote is a text. -/
theorem takes_text {found : Bool × List Char} (hopens : Opens cs '"' body)
    (h : Takes (textBody false body) found rest) : Takes (value cs) (text found) rest := by
  obtain ⟨hlt, h⟩ := h
  obtain ⟨hlt', hfirst⟩ := hopens.finds_first
  rw [value]
  simp only [hfirst, Option.bind_eq_bind, Option.bind_some, if_true, NoLonger.trans, Shorter.trans,
    h]
  exact ⟨_, rfl⟩

/-- What starts like nothing else is a number, if it is anything. -/
theorem value_eq_number? (hopens : Opens cs c body)
    (hc : c ≠ '"' ∧ c ≠ '[' ∧ c ≠ '\x7b' ∧ c ≠ 'n' ∧ c ≠ 't' ∧ c ≠ 'f') :
    value cs = (number? (skip cs).1).map fun p => (p.1, (skip cs).trans p.2) := by
  obtain ⟨hquote, hbracket, hbrace, hn, ht, hf⟩ := hc
  obtain ⟨hlt, hfirst⟩ := hopens.finds_first
  rw [value]
  simp only [hfirst, Option.bind_eq_bind, Option.bind_some, if_neg hquote, if_neg hbracket,
    if_neg hbrace, if_neg hn, if_neg ht, if_neg hf]
  cases number? (skip cs).1 with
  | none => rfl
  | some p => rfl

/-- What starts with a digit or a minus sign is a number. -/
theorem takes_numeral (hopens : Opens cs c body) (hc : c.isDigit ∨ c = '-')
    (h : Takes (number? (c :: body)) j rest) : Takes (value cs) j rest := by
  have hother : c ≠ '"' ∧ c ≠ '[' ∧ c ≠ '\x7b' ∧ c ≠ 'n' ∧ c ≠ 't' ∧ c ≠ 'f' := by
    refine ⟨?_, ?_, ?_, ?_, ?_, ?_⟩
    all_goals
      rintro rfl
      exact absurd hc (by decide)
  have hnumber : Takes (number? (skip cs).1) j rest := by
    rw [hopens]
    exact h
  obtain ⟨hlt, hnumber⟩ := hnumber
  rw [value_eq_number? hopens hother, hnumber]
  exact ⟨_, rfl⟩

/-- No document begins with a closing bracket. -/
theorem mark?_of_takes_items {js : List Json} (h : Takes (items cs) js rest) :
    mark? ']' cs = none := by
  refine mark?_eq_none ?_
  rintro c hc rfl
  obtain ⟨body, hopens⟩ := List.head?_eq_some_iff.mp hc
  have hnumber : number? (skip cs).1 = none := by
    rw [hopens]
    rfl
  obtain ⟨hlt, h⟩ := h
  rw [items, value_eq_number? hopens (by decide), hnumber] at h
  cases h

/-- No member begins with a closing brace. -/
theorem mark?_of_takes_members {ms : Option (List (String × Json))}
    (h : Takes (members cs) ms rest) : mark? '\x7d' cs = none := by
  refine mark?_eq_none ?_
  rintro c hc rfl
  obtain ⟨body, hopens⟩ := List.head?_eq_some_iff.mp hc
  have hquote : mark? '"' cs = none := Opens.lacks_mark hopens (by decide)
  obtain ⟨hlt, h⟩ := h
  rw [members, hquote] at h
  cases h

/-- An array that is closed at once has no items. -/
theorem takes_array_nil (hopens : Opens cs '[' body) (hclose : Opens body ']' rest) :
    Takes (value cs) (.array []) rest := by
  obtain ⟨hlt, hmark⟩ := hclose.finds_mark
  obtain ⟨hlt', hfirst⟩ := hopens.finds_first
  rw [value]
  simp only [hfirst, Option.bind_eq_bind, Option.bind_some, Char.reduceEq, if_false, if_true,
    NoLonger.trans, hmark]
  exact ⟨_, rfl⟩

/-- **An array**: since no document begins with a bracket that closes, its items are read. -/
theorem takes_array {js : List Json} (hopens : Opens cs '[' body)
    (h : Takes (items body) js rest) : Takes (value cs) (.array js) rest := by
  have hclose := mark?_of_takes_items h
  obtain ⟨hlt, h⟩ := h
  obtain ⟨hlt', hfirst⟩ := hopens.finds_first
  rw [value]
  simp only [hfirst, Option.bind_eq_bind, Option.bind_some, Char.reduceEq, if_false, if_true,
    NoLonger.trans, Shorter.trans, hclose, h]
  exact ⟨_, rfl⟩

/-- An object that is closed at once has no members. -/
theorem takes_object_nil (hopens : Opens cs '\x7b' body) (hclose : Opens body '\x7d' rest) :
    Takes (value cs) (.object []) rest := by
  obtain ⟨hlt, hmark⟩ := hclose.finds_mark
  obtain ⟨hlt', hfirst⟩ := hopens.finds_first
  rw [value]
  simp only [hfirst, Option.bind_eq_bind, Option.bind_some, Char.reduceEq, if_false, if_true,
    NoLonger.trans, hmark]
  exact ⟨_, rfl⟩

/-- **An object**: since no member begins with a brace that closes, its members are read. -/
theorem takes_object {ms : List (String × Json)} (hopens : Opens cs '\x7b' body)
    (h : Takes (members body) (some ms) rest) : Takes (value cs) (.object ms) rest := by
  have hclose := mark?_of_takes_members h
  obtain ⟨hlt, h⟩ := h
  obtain ⟨hlt', hfirst⟩ := hopens.finds_first
  rw [value]
  simp only [hfirst, Option.bind_eq_bind, Option.bind_some, Char.reduceEq, if_false, if_true,
    NoLonger.trans, Shorter.trans, hclose, h]
  exact ⟨_, rfl⟩

section Sequence

variable {mid mid' mid'' : List Char} {name : String}

/-- The last item has the closing bracket behind it. -/
theorem takes_items_last (h : Takes (value cs) j mid) (hclose : Opens mid ']' rest) :
    Takes (items cs) [j] rest := by
  obtain ⟨hlt, h⟩ := h
  obtain ⟨hlt', hmark⟩ := hclose.finds_mark
  have hcomma : mark? ',' mid = none := hclose.lacks_mark (by decide)
  rw [items]
  simp only [h, Option.bind_eq_bind, Option.bind_some, hcomma, hmark]
  exact ⟨_, rfl⟩

/-- Every other one has a comma behind it. -/
theorem takes_items_cons {js : List Json} (h : Takes (value cs) j mid) (hcomma : Opens mid ',' mid')
    (h' : Takes (items mid') js rest) : Takes (items cs) (j :: js) rest := by
  obtain ⟨hlt, h⟩ := h
  obtain ⟨hlt', hmark⟩ := hcomma.finds_mark
  obtain ⟨hlt'', h'⟩ := h'
  rw [items]
  simp only [h, Option.bind_eq_bind, Option.bind_some, hmark, Shorter.trans, h']
  exact ⟨_, rfl⟩

/-- Behind blanks, the text goes on with a member up to its value. -/
def Names (cs : List Char) (name : String) (rest : List Char) : Prop :=
  ∃ body mid, Opens cs '"' body ∧ Takes (textBody false body) (false, name.toList) mid ∧
    Opens mid ':' rest

/-- The last member has the closing brace behind its value. -/
theorem takes_members_last (hname : Names cs name mid) (h : Takes (value mid) j mid')
    (hclose : Opens mid' '\x7d' rest) : Takes (members cs) (some [(name, j)]) rest := by
  obtain ⟨_, _, hquote, ⟨hlt, htext⟩, hcolon⟩ := hname
  obtain ⟨hlt₁, hquote⟩ := hquote.finds_mark
  obtain ⟨hlt₂, hcolon⟩ := hcolon.finds_mark
  obtain ⟨hlt₃, h⟩ := h
  obtain ⟨hlt₄, hmark⟩ := hclose.finds_mark
  have hcomma : mark? ',' mid' = none := hclose.lacks_mark (by decide)
  rw [members]
  simp only [hquote, htext, hcolon, h, Option.bind_eq_bind, Option.bind_some, Shorter.trans,
    hcomma, hmark, Bool.false_eq_true, if_false, String.ofList_toList]
  exact ⟨_, rfl⟩

/-- Every other one has a comma behind it. -/
theorem takes_members_cons {ms : List (String × Json)} (hname : Names cs name mid)
    (h : Takes (value mid) j mid') (hcomma : Opens mid' ',' mid'')
    (h' : Takes (members mid'') (some ms) rest) :
    Takes (members cs) (some ((name, j) :: ms)) rest := by
  obtain ⟨_, _, hquote, ⟨hlt, htext⟩, hcolon⟩ := hname
  obtain ⟨hlt₁, hquote⟩ := hquote.finds_mark
  obtain ⟨hlt₂, hcolon⟩ := hcolon.finds_mark
  obtain ⟨hlt₃, h⟩ := h
  obtain ⟨hlt₄, hmark⟩ := hcomma.finds_mark
  obtain ⟨hlt₅, h'⟩ := h'
  rw [members]
  simp only [hquote, htext, hcolon, h, Option.bind_eq_bind, Option.bind_some, Shorter.trans,
    hmark, h', Bool.false_eq_true, if_false, String.ofList_toList]
  exact ⟨_, rfl⟩

end Sequence

/-! ## The layout of the printer -/

/-- A line break and the indentation behind it are blanks. -/
theorem isBlank_of_mem_newline {depth : Nat} {b : Char} (h : b ∈ (newline depth).toList) :
    isBlank b = true := by
  simp only [newline, String.toList_append, String.toList_ofList] at h
  rcases List.mem_append.mp h with h | h
  · rw [List.mem_singleton.mp h]
    rfl
  · rw [List.eq_of_mem_replicate h]
    rfl

/-- A number ends in front of a character that can be no part of it. -/
theorem ends_cons (hdigit : ¬ c.isDigit) (h : c ≠ '.' ∧ c ≠ 'e' ∧ c ≠ 'E') : Ends (c :: rest) := by
  rintro _ ⟨⟩
  exact ⟨hdigit, h⟩

/-- A comma is such a character. -/
theorem ends_comma (rest : List Char) : Ends (',' :: rest) := ends_cons (by decide) (by decide)

/-- A line break is such a character, too. -/
theorem ends_newline (depth : Nat) (rest : List Char) : Ends ((newline depth).toList ++ rest) := by
  rw [newline, String.toList_append, List.append_assoc]
  exact ends_cons (by decide) (by decide)

/-- Behind a line break the text goes on where the next line begins. -/
theorem opens_newline (depth : Nat) (hc : isBlank c = false) :
    Opens ((newline depth).toList ++ c :: rest) c rest :=
  (opens_cons hc).behind fun _ => isBlank_of_mem_newline

/-- The text of an integer starts with a digit or the minus sign. -/
theorem exists_toString_int (n : Int) :
    ∃ c body, (toString n).toList = c :: body ∧ (c.isDigit ∨ c = '-') := by
  rw [Int.toString_eq_repr, Int.repr_eq_if]
  by_cases hn : 0 ≤ n
  · obtain ⟨d, ds, hds, hd⟩ := exists_toDigits n.toNat
    rw [if_pos hn, Nat.toList_repr, hds]
    exact ⟨d, ds, rfl, .inl hd⟩
  · rw [if_neg hn, String.toList_append]
    exact ⟨'-', _, rfl, .inr rfl⟩

/-- Neither a digit nor a minus sign is a blank. -/
theorem isBlank_of_numeral (hc : c.isDigit ∨ c = '-') : isBlank c = false := by
  simp only [isBlank, Bool.or_eq_false_iff, beq_eq_false_iff_ne]
  refine ⟨⟨⟨?_, ?_⟩, ?_⟩, ?_⟩
  all_goals
    rintro rfl
    exact absurd hc (by decide)

/-- A text in quotes is the characters of the text, escaped, between two quotes. -/
theorem toList_quote (s : String) :
    (quote s).toList = '"' :: (s.toList.flatMap escape ++ ['"']) := by
  simp only [quote, String.toList_append, String.toList_ofList]
  rfl

/-- **A block of lines** is laid out with a line break behind its opening and one in front of its
    closing. -/
theorem toList_block_append (depth : Nat) (opening closing : String) {lines : List String}
    (h : lines ≠ []) (rest : List Char) :
    (block depth opening closing lines).toList ++ rest =
      opening.toList ++ ((newline (depth + 1)).toList ++
        ((("," ++ newline (depth + 1)).intercalate lines).toList ++
          ((newline depth).toList ++ (closing.toList ++ rest)))) := by
  rw [block, if_neg (by simpa using h)]
  simp only [String.toList_append, List.append_assoc]

/-- Between two lines there is a comma in front of the line break. -/
theorem toList_lines_append (depth : Nat) (line next : String) (lines : List String)
    (rest : List Char) :
    (("," ++ newline depth).intercalate (line :: next :: lines)).toList ++ rest =
      line.toList ++ (',' :: ((newline depth).toList ++
        ((("," ++ newline depth).intercalate (next :: lines)).toList ++ rest))) := by
  rw [String.intercalate_cons_cons]
  simp only [String.toList_append, List.append_assoc]
  rfl

/-- An integer of 64 bits is a document that is read back. -/
theorem takes_int {n : Int} (h : Exact (.int n)) (hgap : ∀ b ∈ gap, isBlank b) (hrest : Ends rest) :
    Takes (value (gap ++ ((toString n).toList ++ rest))) (.int n) rest := by
  obtain ⟨c, body, hbody, hc⟩ := exists_toString_int n
  have htake := takes_number h hrest
  rw [hbody] at htake ⊢
  exact takes_numeral ((opens_cons (isBlank_of_numeral hc)).behind hgap) hc htake

/-- A text in quotes is a document that is read back. -/
theorem takes_quote (s : String) (hgap : ∀ b ∈ gap, isBlank b) :
    Takes (value (gap ++ ((quote s).toList ++ rest))) (.string s) rest := by
  have htake := takes_text ((opens_cons rfl).behind hgap) (takes_textBody false s.toList rest)
  simp only [text, Bool.false_eq_true, if_false, String.ofList_toList] at htake
  rw [toList_quote, List.cons_append, List.append_assoc]
  exact htake

/-- The name of a member is a text, with a colon behind it and one blank more. -/
theorem names_quote (s : String) (hgap : ∀ b ∈ gap, isBlank b) :
    Names (gap ++ ((quote s ++ ": ").toList ++ rest)) s (' ' :: rest) := by
  refine ⟨_, _, ?_, takes_textBody false s.toList _, opens_cons rfl⟩
  rw [String.toList_append, toList_quote]
  simpa using (opens_cons rfl).behind hgap

mutual

/-- **A document as it is printed**, whatever blanks are in front of it. -/
theorem takes_pretty (depth : Nat) : (j : Json) → j.Exact → ∀ gap rest,
    (∀ b ∈ gap, isBlank b) → Ends rest →
      Takes (value (gap ++ ((prettyAt depth j).toList ++ rest))) j rest
  | .null, _, gap, rest, hgap, _ => by
    simp only [prettyAt, scalar]
    exact takes_word (.head _) rfl hgap
  | .bool true, _, gap, rest, hgap, _ => by
    simp only [prettyAt, scalar]
    exact takes_word (.tail _ (.head _)) rfl hgap
  | .bool false, _, gap, rest, hgap, _ => by
    simp only [prettyAt, scalar]
    exact takes_word (.tail _ (.tail _ (.head _))) rfl hgap
  | .int n, h, gap, rest, hgap, hrest => by
    simp only [prettyAt, scalar]
    exact takes_int h hgap hrest
  | .string s, _, gap, rest, hgap, _ => by
    simp only [prettyAt, scalar]
    exact takes_quote s hgap
  | .array [], _, gap, rest, hgap, _ => by
    rw [prettyAt, prettyItems]
    exact takes_array_nil (opens_text (s := "[]") rfl rfl hgap) (opens_cons rfl)
  | .array (j :: js), h, gap, rest, hgap, _ => by
    have htake := takes_prettyItems (depth + 1) depth (j :: js) (by simp) h
      (newline (depth + 1)).toList rest (fun _ => isBlank_of_mem_newline)
    rw [prettyAt, toList_block_append depth "[" "]" (by simp [prettyItems])]
    exact takes_array ((opens_cons rfl).behind hgap) htake
  | .object [], _, gap, rest, hgap, _ => by
    rw [prettyAt, prettyMembers]
    exact takes_object_nil (opens_text (s := "\x7b\x7d") rfl rfl hgap) (opens_cons rfl)
  | .object (m :: ms), h, gap, rest, hgap, _ => by
    have htake := takes_prettyMembers (depth + 1) depth (m :: ms) (by simp) h
      (newline (depth + 1)).toList rest (fun _ => isBlank_of_mem_newline)
    rw [prettyAt, toList_block_append depth "\x7b" "\x7d" (by simp [prettyMembers])]
    exact takes_object ((opens_cons rfl).behind hgap) htake

/-- The items of an array, each on a line of its own.  The depth of the closing bracket is one of
    its own too, since it is laid out one level further left. -/
theorem takes_prettyItems (depth close : Nat) : (js : List Json) → js ≠ [] → ExactItems js →
    ∀ gap rest, (∀ b ∈ gap, isBlank b) →
      Takes (items (gap ++ ((("," ++ newline depth).intercalate (prettyItems depth js)).toList ++
        ((newline close).toList ++ ']' :: rest)))) js rest
  | [j], _, h, gap, rest, hgap => by
    rw [prettyItems, prettyItems, String.intercalate_singleton]
    exact takes_items_last (takes_pretty depth j h.1 gap _ hgap (ends_newline close _))
      (opens_newline close rfl)
  | j :: j' :: js, _, h, gap, rest, hgap => by
    have htake := takes_prettyItems depth close (j' :: js) (by simp) h.2
      (newline depth).toList rest (fun _ => isBlank_of_mem_newline)
    rw [prettyItems] at htake
    rw [prettyItems, prettyItems, toList_lines_append]
    exact takes_items_cons (takes_pretty depth j h.1 gap _ hgap (ends_comma _))
      (opens_cons rfl) htake

/-- The members of an object, each on a line of its own; the blank behind the colon is in front of
    the value. -/
theorem takes_prettyMembers (depth close : Nat) : (ms : List (String × Json)) → ms ≠ [] →
    ExactMembers ms → ∀ gap rest, (∀ b ∈ gap, isBlank b) →
      Takes (members (gap ++
        ((("," ++ newline depth).intercalate (prettyMembers depth ms)).toList ++
          ((newline close).toList ++ '\x7d' :: rest)))) (some ms) rest
  | [(name, j)], _, h, gap, rest, hgap => by
    have hvalue := takes_pretty depth j h.1 [' '] ((newline close).toList ++ '\x7d' :: rest)
      (by simp [isBlank]) (ends_newline close _)
    rw [prettyMembers, prettyMembers, String.intercalate_singleton, String.toList_append,
      List.append_assoc]
    exact takes_members_last (names_quote name hgap) hvalue (opens_newline close rfl)
  | (name, j) :: (name', j') :: ms, _, h, gap, rest, hgap => by
    have htake := takes_prettyMembers depth close ((name', j') :: ms) (by simp) h.2
      (newline depth).toList rest (fun _ => isBlank_of_mem_newline)
    rw [prettyMembers] at htake
    rw [prettyMembers, prettyMembers, toList_lines_append, String.toList_append, List.append_assoc]
    refine takes_members_cons (names_quote name hgap) ?_ (opens_cons rfl) htake
    exact takes_pretty depth j h.1 [' '] _ (by simp [isBlank]) (ends_comma _)

end

end Reader

/-- **A document is read back from its text**, if the text tells all about it. -/
theorem parse?_pretty {j : Json} (h : j.Exact) : parse? j.pretty = some j := by
  have htake := Reader.takes_pretty 0 j h [] [] (by simp) nofun
  rw [List.nil_append, List.append_nil] at htake
  obtain ⟨hlt, hvalue⟩ := htake
  rw [parse?, pretty, hvalue]
  rfl

end ActorScript.Json
