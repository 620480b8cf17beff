/-
  Texts with their arguments.

  What `StringTable.format` gives is compared with the filled template (`Filled`), in which the text
  of the argument that is meant stands for every placeholder.  Both are put together from the
  segments of the template, and they agree except for the placeholders that cannot be read as the
  number of an argument, because of digits of another script or of a number of more than 64 bits.
  These are neither checked nor replaced, and nothing of them is left (`filled_fill_iff`).

  So a placeholder is dropped without an error exactly if the template has one that cannot be read
  (`complete_iff`), and a template whose ASCII placeholders all have an argument is filled in a
  single pass exactly if it has no placeholders of other digits (`format_filled_iff`).
-/
import Mathlib
import ActorScript.Proofs.Placeholders
import ActorScript.StringTable

namespace ActorScript

open Template

/-! ## Two ways to put a text together -/

section Pieces

variable {α β : Type} {g h : α → List β} {xs : List α}

theorem length_flatMap_le (hgh : ∀ x ∈ xs, g x = h x ∨ g x = []) :
    (xs.flatMap g).length ≤ (xs.flatMap h).length := by
  rw [List.length_flatMap, List.length_flatMap]
  refine List.sum_le_sum fun x hx => ?_
  rcases hgh x hx with heq | hnil
  · exact (congrArg List.length heq).le
  · simp [hnil]

/-- If the pieces of one text are those of another or missing, and the texts are the same, then
    none is missing. -/
theorem eq_of_flatMap_eq (hgh : ∀ x ∈ xs, g x = h x ∨ g x = [])
    (heq : xs.flatMap g = xs.flatMap h) : ∀ x ∈ xs, g x = h x := by
  induction xs with
  | nil => simp
  | cons x xs ih =>
    obtain ⟨hx, hxs⟩ := List.forall_mem_cons.mp hgh
    have hrest := length_flatMap_le hxs
    rw [List.flatMap_cons, List.flatMap_cons] at heq
    have hlength : (g x).length = (h x).length := by
      have hsum := congrArg List.length heq
      rw [List.length_append, List.length_append] at hsum
      rcases hx with hx | hx
      · rw [hx]
      · rw [hx, List.length_nil] at hsum ⊢
        omega
    obtain ⟨hhead, htail⟩ := List.append_inj heq hlength
    exact List.forall_mem_cons.mpr ⟨hhead, ih hxs htail⟩

end Pieces

namespace Template

/-! ## What is filled in -/

/-- A class of digits that holds all ASCII digits, and nothing but digits. -/
structure DigitClass (digit : Char → Bool) : Prop where
  ascii : ∀ c, c.isDigit → digit c
  decimal : ∀ c, digit c → Text.isDecimalDigit c

theorem digitClass_isDecimalDigit : DigitClass Text.isDecimalDigit :=
  ⟨fun _ => Text.isDecimalDigit_of_isDigit, fun _ => id⟩

theorem digitClass_isDigit : DigitClass Char.isDigit :=
  ⟨fun _ => id, fun _ => Text.isDecimalDigit_of_isDigit⟩

/-- The text of the argument that some digits name. -/
def argumentText (args : List Value) (ds : List Char) : List Char :=
  ((args[number ds]?).map fun v => v.text.toList).getD []

variable {digit : Char → Bool} {template : String} {args : List Value} {ds : List Char}

theorem toList_fill (template : String) (args : List Value) :
    (fill template args).toList =
      (segments template.toList).flatMap fun s => (s.fill args).toList := by
  rw [fill, String.join_eq, String.toList_ofList, List.map_map, List.flatMap_def]
  rfl

theorem fill_char (c : Char) (f : List Char → List Char) :
    ((Segment.char c).fill args).toList = (Segment.char c).put digit f :=
  String.toList_ofList ..

theorem put_placeholder (hds : ∀ c ∈ ds, digit c) (f : List Char → List Char) :
    (Segment.placeholder ds).put digit f = f ds := if_pos (List.all_eq_true.mpr hds)

theorem fill_of_readable (hdigit : DigitClass digit) (h : Readable ds) :
    ((Segment.placeholder ds).fill args).toList =
      (Segment.placeholder ds).put digit (argumentText args) := by
  rw [put_placeholder fun c hc => hdigit.ascii c (h.1 c hc), Segment.fill,
    index?_eq_some_iff.mpr ⟨h, rfl⟩, argumentText, Option.bind_some]
  cases args[number ds]? with
  | none => rfl
  | some v => rfl

/-- A placeholder that cannot be read becomes nothing. -/
theorem fill_of_not_readable (h : ¬ Readable ds) :
    ((Segment.placeholder ds).fill args).toList = [] := by
  rw [Segment.fill, index?_eq_none_iff.mpr h]
  rfl

theorem fill_eq_put_or_nil (hdigit : DigitClass digit) (s : Segment) :
    (s.fill args).toList = s.put digit (argumentText args) ∨ (s.fill args).toList = [] := by
  cases s with
  | char c => exact .inl (fill_char c _)
  | placeholder ds =>
    by_cases hread : Readable ds
    · exact .inl (fill_of_readable hdigit hread)
    · exact .inr (fill_of_not_readable hread)

/-- **The template is filled** if and only if nothing should stand for the placeholders that cannot
    be read. -/
theorem filled_fill_iff (hdigit : DigitClass digit) :
    Filled digit (argumentText args) template.toList (fill template args).toList ↔
      ∀ ds, Occurs Text.isDecimalDigit ds template.toList → ¬ Readable ds →
        (Segment.placeholder ds).put digit (argumentText args) = [] := by
  rw [filled_iff hdigit.decimal, toList_fill]
  constructor
  · intro heq ds hds hread
    have hpiece := eq_of_flatMap_eq (fun s _ => fill_eq_put_or_nil hdigit s) heq _
      (mem_segments_iff.mpr hds)
    rw [← hpiece, fill_of_not_readable hread]
  · intro h
    refine List.flatMap_congr fun s hs => ?_
    cases s with
    | char c => exact fill_char c _
    | placeholder ds =>
      by_cases hread : Readable ds
      · exact fill_of_readable hdigit hread
      · rw [fill_of_not_readable hread, h ds (mem_segments_iff.mp hs) hread]

/-- The template has a placeholder that can be read as the number of an argument, which is not
    given. -/
def Exceeds (template : String) (args : List Value) : Prop :=
  ∃ ds, Occurs Text.isDecimalDigit ds template.toList ∧ Readable ds ∧ args.length ≤ number ds

theorem excess?_eq_none_iff : excess? template args.length = none ↔ ¬ Exceeds template args := by
  rw [excess?, List.find?_eq_none]
  constructor
  · rintro h ⟨ds, hds, hread, hle⟩
    refine h (number ds) (List.mem_filterMap.mpr ⟨_, mem_segments_iff.mpr hds, ?_⟩) (by simpa)
    exact index?_eq_some_iff.mpr ⟨hread, rfl⟩
  · intro h i hi hle
    obtain ⟨s, hs, hi⟩ := List.mem_filterMap.mp hi
    cases s with
    | char c => cases hi
    | placeholder ds =>
      obtain ⟨hread, rfl⟩ := index?_eq_some_iff.mp hi
      exact h ⟨ds, mem_segments_iff.mp hs, hread, by simpa using hle⟩

end Template

namespace StringTable

variable {t : StringTable} {key template : String} {args : List Value}

theorem format_of_exceeds (hkey : t.get? key = some template) (h : Exceeds template args) :
    ∃ fault, t.format key args = .error (.invalidArgument "getString" fault) := by
  rw [format, hkey]
  dsimp only
  cases hexcess : excess? template args.length with
  | none => exact absurd h (excess?_eq_none_iff.mp hexcess)
  | some i => exact ⟨_, rfl⟩

theorem format_of_not_exceeds (hkey : t.get? key = some template) (h : ¬ Exceeds template args) :
    t.format key args = .ok (fill template args) := by
  rw [format, hkey]
  dsimp only
  rw [excess?_eq_none_iff.mpr h]

/-! ## Nothing is dropped -/

/-- No placeholder of the template is dropped silently, whatever its digits and however many. -/
structure Complete (t : StringTable) (key template : String) (args : List Value) : Prop where
  /-- There is a text only if every placeholder names an argument that is given, and then the text
      of its argument stands for every placeholder. -/
  replaced : ∀ s, t.format key args = .ok s →
    (∀ ds, Occurs Text.isDecimalDigit ds template.toList → number ds < args.length) ∧
      Filled Text.isDecimalDigit (argumentText args) template.toList s.toList
  /-- A placeholder that names an argument that is not given is an error. -/
  refused : (∃ ds, Occurs Text.isDecimalDigit ds template.toList ∧ args.length ≤ number ds) →
    ∃ fault, t.format key args = .error (.invalidArgument "getString" fault)

/-- **When nothing is dropped.**  For every template and all arguments: no placeholder is dropped
    silently if and only if a placeholder that can be read names an argument that is not given, so
    that there is an error, or the placeholders that cannot be read, if there are any, name
    arguments that are given and have no text. -/
theorem complete_iff (hkey : t.get? key = some template) :
    t.Complete key template args ↔
      Exceeds template args ∨
        ∀ ds, Occurs Text.isDecimalDigit ds template.toList → ¬ Readable ds →
          ∃ v, args[number ds]? = some v ∧ v.text = "" := by
  by_cases hexceeds : Exceeds template args
  · obtain ⟨fault, hformat⟩ := format_of_exceeds hkey hexceeds
    refine iff_of_true ⟨fun s hs => ?_, fun _ => ⟨fault, hformat⟩⟩ (.inl hexceeds)
    cases hformat.symm.trans hs
  rw [or_iff_right hexceeds]
  have hformat := format_of_not_exceeds hkey hexceeds
  have hlt : ∀ ds, Occurs Text.isDecimalDigit ds template.toList → Readable ds →
      number ds < args.length := fun ds hds hread =>
    Nat.lt_of_not_le fun hle => hexceeds ⟨ds, hds, hread, hle⟩
  constructor
  · intro h ds hds hread
    obtain ⟨hall, hfilled⟩ := h.replaced _ hformat
    have hnone := (filled_fill_iff digitClass_isDecimalDigit).mp hfilled ds hds hread
    rw [put_placeholder hds.2.1, argumentText, List.getElem?_eq_getElem (hall ds hds)] at hnone
    exact ⟨_, List.getElem?_eq_getElem (hall ds hds), String.toList_eq_nil_iff.mp hnone⟩
  · intro h
    have hall : ∀ ds, Occurs Text.isDecimalDigit ds template.toList →
        number ds < args.length := by
      intro ds hds
      by_cases hread : Readable ds
      · exact hlt ds hds hread
      · obtain ⟨v, hv, -⟩ := h ds hds hread
        exact (List.getElem?_eq_some_iff.mp hv).1
    refine ⟨fun s hs => ?_, fun ⟨ds, hds, hle⟩ => absurd (hall ds hds) (Nat.not_lt.mpr hle)⟩
    cases hformat.symm.trans hs
    refine ⟨hall, (filled_fill_iff digitClass_isDecimalDigit).mpr fun ds hds hread => ?_⟩
    obtain ⟨v, hv, htext⟩ := h ds hds hread
    rw [put_placeholder hds.2.1, argumentText, hv, Option.map_some, Option.getD_some, htext]
    rfl

/-- A table with one template. -/
def single (template : String) : StringTable := StringTable.insert {} "k" template

/-- A template for two arguments. -/
def greeting : String := "Halt, \x7b0\x7d! You owe \x7b1\x7d coins."

theorem complete_greeting : (single greeting).get? "k" = some greeting ∧
    (single greeting).Complete "k" greeting [.string "Ana", .int 12] := by
  have hkey : (single greeting).get? "k" = some greeting := by cbv
  refine ⟨hkey, (complete_iff hkey).mpr (.inr fun ds hds hread => absurd ?_ hread)⟩
  have hmem := mem_segments_iff.mpr hds
  rw [show segments greeting.toList = _ by cbv] at hmem
  simp only [List.mem_cons, reduceCtorEq, false_or, Segment.placeholder.injEq] at hmem
  rcases hmem with rfl | rfl | hnil
  · exact ⟨List.all_eq_true.mp (by decide), by cbv⟩
  · exact ⟨List.all_eq_true.mp (by decide), by cbv⟩
  · cases hnil

/-- A number that needs more than 64 bits. -/
def overflowing : String := "\x7b18446744073709551616\x7d"

/-- Its placeholder is dropped, although there is no such argument. -/
theorem dropped_overflowing : (single overflowing).get? "k" = some overflowing ∧
    ¬ (single overflowing).Complete "k" overflowing [] := by
  refine ⟨by cbv, fun h => ?_⟩
  have hformat : (single overflowing).format "k" [] = .ok "" := by cbv
  have hdigits : ∀ c ∈ "18446744073709551616".toList, c.isDigit :=
    List.all_eq_true.mp (by decide)
  have hoccurs : Occurs Char.isDigit "18446744073709551616".toList overflowing.toList :=
    ⟨List.cons_ne_nil _ _, hdigits, [], [], by cbv⟩
  obtain ⟨fault, herror⟩ := h.refused
    ⟨_, hoccurs.mono fun c hc => Text.isDecimalDigit_of_isDigit (hdigits c hc), Nat.zero_le _⟩
  cases hformat.symm.trans herror

/-! ## A single pass -/

/-- **When a template is filled in one pass.**  For every template whose placeholders of ASCII
    digits all name an argument that is given, and any number of arguments that 64 bits can count:
    the format is the template with the texts of the arguments for these placeholders, and with
    nothing else changed, if and only if there are no placeholders of other digits. -/
theorem format_filled_iff (hkey : t.get? key = some template) (hfits : args.length ≤ maxIndex + 1)
    (hargs : ∀ ds, Occurs Char.isDigit ds template.toList → number ds < args.length) :
    (∃ s, t.format key args = .ok s ∧
      Filled Char.isDigit (argumentText args) template.toList s.toList) ↔
      ∀ ds, Occurs Text.isDecimalDigit ds template.toList → ∀ c ∈ ds, c.isDigit := by
  have hexceeds : ¬ Exceeds template args := fun ⟨ds, hds, hread, hle⟩ =>
    absurd (hargs ds (hds.mono hread.1)) (Nat.not_lt.mpr hle)
  have hread : ∀ ds, Occurs Text.isDecimalDigit ds template.toList → (∀ c ∈ ds, c.isDigit) →
      Readable ds := by
    intro ds hds hascii
    have := hargs ds (hds.mono hascii)
    exact ⟨hascii, by omega⟩
  have hformat := format_of_not_exceeds hkey hexceeds
  simp only [hformat, Except.ok.injEq, exists_eq_left', filled_fill_iff digitClass_isDigit]
  constructor
  · intro h ds hds
    by_contra hascii
    -- a placeholder of other digits should stay as it is
    have hstays : (Segment.placeholder ds).put Char.isDigit (argumentText args) =
        (Segment.placeholder ds).text := if_neg fun hall => hascii (List.all_eq_true.mp hall)
    rw [h ds hds fun hread => hascii hread.1] at hstays
    cases hstays
  · intro h ds hds hnot
    exact absurd (hread ds hds (h ds hds)) hnot

/-- A template in which braces are nested. -/
def nested : String := "\x7b\x7b0\x7d\x7b1\x7d\x7d \x7b0\x7b1\x7d\x7d"

/-- Arguments that look like placeholders, or that would complete one, are not scanned again. -/
theorem format_nested_filled : (single nested).get? "k" = some nested ∧
    ∃ s, (single nested).format "k" [.string "\x7b1\x7d", .string "0\x7d"] = .ok s ∧
      Filled Char.isDigit (argumentText [.string "\x7b1\x7d", .string "0\x7d"]) nested.toList
        s.toList := by
  have hkey : (single nested).get? "k" = some nested := by cbv
  have hdigits : ∀ ds, Occurs Text.isDecimalDigit ds nested.toList → ds = ['0'] ∨ ds = ['1'] := by
    intro ds hds
    have hmem := mem_segments_iff.mpr hds
    rw [show segments nested.toList = _ by cbv] at hmem
    simpa [or_assoc] using hmem
  refine ⟨hkey, (format_filled_iff hkey (by decide) fun ds hds => ?_).mpr fun ds hds => ?_⟩
  · rcases hdigits ds (hds.mono fun c hc => Text.isDecimalDigit_of_isDigit (hds.2.1 c hc)) with
      rfl | rfl
    · cbv
    · cbv
  · rcases hdigits ds hds with rfl | rfl
    · simp
    · simp

/-- A template with a placeholder whose digit is not an ASCII digit. -/
def foreign : String := "\x7b٣\x7d \x7b0\x7d"

/-- It is not a placeholder of ASCII digits, so it should be kept, and it is lost. -/
theorem lost_foreign : (single foreign).get? "k" = some foreign ∧
    (∀ ds, Occurs Char.isDigit ds foreign.toList → number ds < [Value.string "x"].length) ∧
    ¬ ∃ s, (single foreign).format "k" [.string "x"] = .ok s ∧
      Filled Char.isDigit (argumentText [.string "x"]) foreign.toList s.toList := by
  refine ⟨by cbv, fun ds hds => ?_, ?_⟩
  · have hmem := mem_segments_iff.mpr
      (hds.mono fun c hc => Text.isDecimalDigit_of_isDigit (hds.2.1 c hc))
    rw [show segments foreign.toList = _ by cbv] at hmem
    simp only [List.mem_cons, reduceCtorEq, false_or, Segment.placeholder.injEq] at hmem
    rcases hmem with rfl | rfl | hnil
    · exact absurd (hds.2.1 '٣' (by simp)) (by decide)
    · cbv
    · cases hnil
  · rintro ⟨s, hs, hfilled⟩
    have hformat : (single foreign).format "k" [.string "x"] = .ok " x" := by cbv
    cases hformat.symm.trans hs
    have hput := eq_put_of_filled digitClass_isDigit.decimal hfilled
    rw [show (segments foreign.toList).flatMap
      (Segment.put Char.isDigit (argumentText [.string "x"])) = "\x7b٣\x7d x".toList by cbv] at hput
    exact absurd hput (by decide)

end StringTable

end ActorScript
