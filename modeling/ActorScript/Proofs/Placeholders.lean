/-
  The placeholders of a template.

  A placeholder is a run of digits between braces, wherever it stands (`Occurs`), and two of them
  never overlap.  To fill a template is to put something in the place of each of them, from left to
  right, and to leave alone what lies between (`Filled`).  Both depend on what counts as a digit.
  The segments of a template are cut with the digits of all scripts, so for every class of these
  the placeholders are among the segments, and the filled template is put together from them
  (`eq_put_of_filled`).  Every template can be filled (`exists_filled`), hence in one way only.

  The number of a placeholder is what its digits say in the decimal system, whatever script they
  are of (`number`).  The argument it names is found only if they are ASCII digits and the number
  has at most 64 bits (`index?_eq_some_iff`).
-/
import Mathlib
import ActorScript.StringTable.Template

namespace ActorScript

namespace Text

/-- What a decimal digit of any script stands for: its place in its run of ten. -/
def digitValue (c : Char) : Nat :=
  ((decimalDigitRanges.find? fun r => r.1 ≤ c.toNat && c.toNat ≤ r.2).map fun r =>
    (c.toNat - r.1) % 10).getD 0

theorem digitValue_of_isDigit {c : Char} (h : c.isDigit = true) :
    digitValue c = c.toNat - '0'.toNat := by
  simp only [Char.isDigit, Bool.and_eq_true, decide_eq_true_eq] at h
  have h₁ : 48 ≤ c.toNat := h.1
  have h₂ : c.toNat ≤ 57 := h.2
  have hzero : '0'.toNat = 48 := rfl
  simp only [digitValue, decimalDigitRanges, List.find?_cons, h₁, h₂, decide_true, Bool.and_self,
    Option.map_some, Option.getD_some, hzero]
  omega

example : digitValue '7' = 7 ∧ digitValue '٣' = 3 ∧ digitValue '𝟗' = 9 := by decide

end Text

namespace Template

/-! ## Numbers -/

/-- The number that some digits say, the first of them the most significant. -/
def number (ds : List Char) : Nat := ds.foldl (fun n c => 10 * n + Text.digitValue c) 0

/-- Digits that can be read as the number of an argument. -/
def Readable (ds : List Char) : Prop := (∀ c ∈ ds, c.isDigit) ∧ number ds ≤ maxIndex

theorem ofDigitChars_eq_number {ds : List Char} (h : ∀ c ∈ ds, c.isDigit) :
    Nat.ofDigitChars 10 ds 0 = number ds :=
  List.foldl_ext _ _ _ fun n c hc => by rw [Text.digitValue_of_isDigit (h c hc)]

theorem index?_eq_some_iff {ds : List Char} {i : Nat} :
    index? ds = some i ↔ Readable ds ∧ i = number ds := by
  rw [index?, Readable]
  split
  · rename_i hall
    have hall : ∀ c ∈ ds, c.isDigit := List.all_eq_true.mp hall
    rw [ofDigitChars_eq_number hall]
    simp only [Option.ite_none_right_eq_some, Option.some.injEq]
    exact ⟨fun ⟨hle, hi⟩ => ⟨⟨hall, hle⟩, hi.symm⟩, fun ⟨⟨_, hle⟩, hi⟩ => ⟨hle, hi.symm⟩⟩
  · rename_i hall
    exact ⟨nofun, fun h => absurd (List.all_eq_true.mpr h.1.1) hall⟩

theorem index?_eq_none_iff {ds : List Char} : index? ds = none ↔ ¬ Readable ds := by
  rw [Option.eq_none_iff_forall_ne_some]
  refine ⟨fun h hds => h (number ds) (index?_eq_some_iff.mpr ⟨hds, rfl⟩), fun h i hi => ?_⟩
  exact h (index?_eq_some_iff.mp hi).1

/-! ## Occurrences -/

/-- A placeholder with these digits, all of them in the class, stands somewhere in the text. -/
def Occurs (digit : Char → Bool) (ds cs : List Char) : Prop :=
  ds ≠ [] ∧ (∀ c ∈ ds, digit c) ∧ (Segment.placeholder ds).text <:+: cs

theorem Occurs.mono {digit digit' : Char → Bool} {ds cs : List Char} (h : Occurs digit ds cs)
    (hdigit : ∀ c ∈ ds, digit' c) : Occurs digit' ds cs :=
  ⟨h.1, hdigit, h.2.2⟩

/-- No digit of any script is a brace. -/
theorem not_isDecimalDigit_brace :
    Text.isDecimalDigit '\x7b' = false ∧ Text.isDecimalDigit '\x7d' = false := by decide

theorem placeholder?_append {ds : List Char} (hne : ds ≠ []) (hds : ∀ c ∈ ds, Text.isDecimalDigit c)
    (rest : List Char) : placeholder? (ds ++ '\x7d' :: rest) = some (ds, rest) := by
  have htake : (ds ++ '\x7d' :: rest).takeWhile Text.isDecimalDigit = ds := by
    rw [List.takeWhile_append_of_pos hds]
    simp [not_isDecimalDigit_brace.2]
  have hdrop : (ds ++ '\x7d' :: rest).dropWhile Text.isDecimalDigit = '\x7d' :: rest := by
    rw [List.dropWhile_append_of_pos hds]
    simp [not_isDecimalDigit_brace.2]
  cases ds with
  | nil => exact absurd rfl hne
  | cons d ds =>
    rw [placeholder?, htake, hdrop]
    rfl

theorem digits_of_placeholder? {cs ds rest : List Char} (h : placeholder? cs = some (ds, rest)) :
    ds ≠ [] ∧ ∀ c ∈ ds, Text.isDecimalDigit c := by
  unfold placeholder? at h
  split at h
  · rename_i d ds' rest' htake _
    obtain ⟨rfl, rfl⟩ : d :: ds' = ds ∧ rest' = rest := by simpa using h
    refine ⟨List.cons_ne_nil _ _, fun c hc => ?_⟩
    rw [← htake] at hc
    exact List.mem_takeWhile_imp hc
  · cases h

/-- Whether a placeholder comes next does not depend on what stands behind another brace. -/
theorem placeholder?_append_brace (cs rest : List Char) :
    placeholder? (cs ++ '\x7b' :: rest) =
      (placeholder? cs).map fun (ds, rest') => (ds, rest' ++ '\x7b' :: rest) := by
  cases hcs : placeholder? cs with
  | some p =>
    obtain ⟨ds, rest'⟩ := p
    obtain ⟨hne, hds⟩ := digits_of_placeholder? hcs
    rw [append_of_placeholder? hcs, List.append_assoc, List.cons_append,
      placeholder?_append hne hds]
    rfl
  | none =>
    cases happ : placeholder? (cs ++ '\x7b' :: rest) with
    | none => rfl
    | some p =>
      obtain ⟨ds, rest'⟩ := p
      obtain ⟨hne, hds⟩ := digits_of_placeholder? happ
      -- the digits and their closing brace end before the opening brace, so they lie in `cs`
      have hsplit := append_of_placeholder? happ
      rw [List.append_eq_append_iff] at hsplit
      obtain ⟨as, rfl, has⟩ | ⟨bs, rfl, hbs⟩ := hsplit
      · cases as with
        | nil => exact absurd (List.cons_eq_cons.mp has).1 (by decide)
        | cons a as =>
          obtain ⟨rfl, -⟩ := List.cons_eq_cons.mp has
          have hbrace := hds '\x7b' (by simp)
          rw [not_isDecimalDigit_brace.1] at hbrace
          cases hbrace
      · cases bs with
        | nil => exact absurd (List.cons_eq_cons.mp hbs).1 (by decide)
        | cons b bs =>
          obtain ⟨rfl, -⟩ := List.cons_eq_cons.mp hbs
          rw [placeholder?_append hne hds] at hcs
          cases hcs

/-! ## Segments -/

/-- **A brace begins a new segment**, whatever stands in front of it. -/
theorem segments_append_brace (cs rest : List Char) :
    segments (cs ++ '\x7b' :: rest) = segments cs ++ segments ('\x7b' :: rest) := by
  fun_induction segments cs with
  | case1 => rfl
  | case2 cs ds rest' h ih =>
    have hnext := placeholder?_append_brace cs rest
    rw [h, Option.map_some] at hnext
    rw [List.cons_append, segments, if_pos rfl]
    split
    · rename_i h'
      cases hnext.symm.trans h'
      rw [ih, List.cons_append]
    · rename_i h'
      cases hnext.symm.trans h'
  | case3 cs h ih =>
    have hnext := placeholder?_append_brace cs rest
    rw [h, Option.map_none] at hnext
    rw [List.cons_append, segments, if_pos rfl]
    split
    · rename_i h'
      cases hnext.symm.trans h'
    · rw [ih, List.cons_append]
  | case4 c cs hc ih => rw [List.cons_append, segments, if_neg hc, ih, List.cons_append]

/-- **A placeholder is a segment**, whatever stands around it. -/
theorem segments_append_placeholder {ds : List Char} (hne : ds ≠ [])
    (hds : ∀ c ∈ ds, Text.isDecimalDigit c) (before rest : List Char) :
    segments (before ++ ((Segment.placeholder ds).text ++ rest)) =
      segments before ++ .placeholder ds :: segments rest := by
  have hnext := placeholder?_append hne hds rest
  rw [Segment.text, List.cons_append, List.append_assoc, List.singleton_append,
    segments_append_brace]
  conv => lhs; rw [segments.eq_def ('\x7b' :: _)]
  dsimp only
  rw [if_pos rfl]
  split
  · rename_i h
    cases hnext.symm.trans h
    rfl
  · rename_i h
    cases hnext.symm.trans h

theorem digits_of_mem_segments {ds cs : List Char} (h : .placeholder ds ∈ segments cs) :
    ds ≠ [] ∧ ∀ c ∈ ds, Text.isDecimalDigit c := by
  fun_induction segments cs with
  | case1 => cases h
  | case2 cs ds' rest h' ih =>
    rcases List.mem_cons.mp h with heq | h
    · cases heq
      exact digits_of_placeholder? h'
    · exact ih h
  | case3 cs h' ih => exact ih ((List.mem_cons.mp h).resolve_left (by simp))
  | case4 c cs hc ih => exact ih ((List.mem_cons.mp h).resolve_left (by simp))

/-- **The placeholders among the segments** of a template are those that occur in it. -/
theorem mem_segments_iff {ds cs : List Char} :
    .placeholder ds ∈ segments cs ↔ Occurs Text.isDecimalDigit ds cs := by
  constructor
  · intro h
    obtain ⟨hne, hds⟩ := digits_of_mem_segments h
    obtain ⟨before, after, hsplit⟩ := List.append_of_mem h
    refine ⟨hne, hds, before.flatMap Segment.text, after.flatMap Segment.text, ?_⟩
    rw [← flatMap_text_segments cs, hsplit]
    simp
  · rintro ⟨hne, hds, before, after, rfl⟩
    rw [List.append_assoc, segments_append_placeholder hne hds]
    simp

/-! ## Filling -/

/-- The text `out` is `cs` with `f ds` in the place of every placeholder, found from left to right,
    whose digits `ds` are in the class, and with nothing else changed. -/
inductive Filled (digit : Char → Bool) (f : List Char → List Char) : List Char → List Char → Prop
  | free {cs : List Char} : (∀ ds, ¬ Occurs digit ds cs) → Filled digit f cs cs
  | placeholder {before ds rest out : List Char} : (∀ ds, ¬ Occurs digit ds before) →
      ds ≠ [] → (∀ c ∈ ds, digit c) → Filled digit f rest out →
      Filled digit f (before ++ ((Segment.placeholder ds).text ++ rest)) (before ++ (f ds ++ out))

variable {digit : Char → Bool} {f : List Char → List Char} {cs out : List Char}

theorem Filled.cons {c : Char} (h : Filled digit f cs out)
    (hc : ∀ ds, ds ≠ [] → (∀ d ∈ ds, digit d) → ¬ (Segment.placeholder ds).text <+: c :: cs) :
    Filled digit f (c :: cs) (c :: out) := by
  cases h with
  | free hfree =>
    refine .free fun ds ⟨hne, hds, hin⟩ => ?_
    rcases List.infix_cons_iff.mp hin with hnow | hlater
    · exact hc ds hne hds hnow
    · exact hfree ds ⟨hne, hds, hlater⟩
  | @placeholder before ds rest out hfree hne hds h =>
    refine @Filled.placeholder _ _ (c :: before) _ _ _ (fun ds' ⟨hne', hds', hin⟩ => ?_) hne hds h
    rcases List.infix_cons_iff.mp hin with hnow | hlater
    · exact hc ds' hne' hds' (hnow.trans (List.prefix_append (c :: before) _))
    · exact hfree ds' ⟨hne', hds', hlater⟩

/-- **Every template can be filled.** -/
theorem exists_filled (digit : Char → Bool) (f : List Char → List Char) (cs : List Char) :
    ∃ out, Filled digit f cs out := by
  induction hn : cs.length using Nat.strongRecOn generalizing cs with
  | ind n ih =>
    subst hn
    cases cs with
    | nil =>
      refine ⟨[], .free fun ds ⟨_, _, hin⟩ => ?_⟩
      cases List.infix_nil.mp hin
    | cons c cs =>
      by_cases hc : ∃ ds, ds ≠ [] ∧ (∀ d ∈ ds, digit d) ∧ (Segment.placeholder ds).text <+: c :: cs
      · obtain ⟨ds, hne, hds, rest, hrest⟩ := hc
        have hshort : rest.length < (c :: cs).length := by
          rw [← hrest, Segment.text, List.length_append, List.length_cons]
          omega
        obtain ⟨out, hout⟩ := ih _ hshort rest rfl
        have hfree : ∀ ds, ¬ Occurs digit ds [] := fun ds ⟨_, _, hin⟩ => by
          cases List.infix_nil.mp hin
        rw [← hrest]
        exact ⟨_, @Filled.placeholder _ _ [] _ _ _ hfree hne hds hout⟩
      · obtain ⟨out, hout⟩ := ih _ (Nat.lt_succ_self _) cs rfl
        exact ⟨_, hout.cons fun ds hne hds hnow => hc ⟨ds, hne, hds, hnow⟩⟩

/-- What stands for a segment in the filled template. -/
def Segment.put (digit : Char → Bool) (f : List Char → List Char) : Segment → List Char
  | char c => [c]
  | placeholder ds => if ds.all digit then f ds else (Segment.placeholder ds).text

theorem flatMap_put_of_free (hfree : ∀ ds, ¬ Occurs digit ds cs) :
    (segments cs).flatMap (Segment.put digit f) = cs := by
  conv => rhs; rw [← flatMap_text_segments cs]
  refine List.flatMap_congr fun s hs => ?_
  cases s with
  | char c => rfl
  | placeholder ds =>
    refine if_neg fun hall => hfree ds ?_
    exact (mem_segments_iff.mp hs).mono (List.all_eq_true.mp hall)

/-- **A filled template** is put together from its segments. -/
theorem eq_put_of_filled (hdigit : ∀ c, digit c → Text.isDecimalDigit c)
    (h : Filled digit f cs out) : out = (segments cs).flatMap (Segment.put digit f) := by
  induction h with
  | free hfree => exact (flatMap_put_of_free hfree).symm
  | @placeholder before ds rest out hfree hne hds _ ih =>
    have hput : Segment.put digit f (.placeholder ds) = f ds := if_pos (List.all_eq_true.mpr hds)
    rw [segments_append_placeholder hne fun c hc => hdigit c (hds c hc), List.flatMap_append,
      List.flatMap_cons, flatMap_put_of_free hfree, hput, ← ih]

theorem filled_iff (hdigit : ∀ c, digit c → Text.isDecimalDigit c) :
    Filled digit f cs out ↔ out = (segments cs).flatMap (Segment.put digit f) := by
  refine ⟨eq_put_of_filled hdigit, ?_⟩
  rintro rfl
  obtain ⟨out, hout⟩ := exists_filled digit f cs
  rwa [← eq_put_of_filled hdigit hout]

end Template

end ActorScript
