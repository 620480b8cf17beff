/-
  Text templates.

  A placeholder is a run of decimal digits between braces.  `Template.segments` cuts a template
  into placeholders and other characters in one pass from left to right, and loses nothing
  (`flatMap_text_segments`).  A brace that opens no placeholder is a character like any other, so
  in `{{0}}` the inner braces are the placeholder's.

  Digits of any script make a placeholder, but only ASCII digits have a value, and only a value
  of at most 64 bits names an argument.
-/
import ActorScript.Text.DecimalDigit
import ActorScript.Value

namespace ActorScript.Template

/-- A part of a template. -/
inductive Segment
  | char (c : Char)
  | placeholder (digits : List Char)
deriving DecidableEq, Repr, Inhabited

/-- The characters of a segment in the template. -/
def Segment.text : Segment → List Char
  | char c => [c]
  | placeholder digits => '\x7b' :: (digits ++ ['\x7d'])

/-- The digits of a placeholder whose opening brace stands before some characters, and what
    follows it. -/
def placeholder? (cs : List Char) : Option (List Char × List Char) :=
  match cs.takeWhile Text.isDecimalDigit, cs.dropWhile Text.isDecimalDigit with
  | d :: ds, '\x7d' :: rest => some (d :: ds, rest)
  | _, _ => none

theorem append_of_placeholder? {cs digits rest : List Char}
    (h : placeholder? cs = some (digits, rest)) : cs = digits ++ '\x7d' :: rest := by
  unfold placeholder? at h
  split at h
  · rename_i d ds rest' ht hd
    obtain ⟨rfl, rfl⟩ : d :: ds = digits ∧ rest' = rest := by simpa using h
    rw [← ht, ← hd, List.takeWhile_append_dropWhile]
  · simp at h

/-- The parts of a template, in order. -/
def segments : List Char → List Segment
  | [] => []
  | c :: cs =>
    if c = '\x7b' then
      match _h : placeholder? cs with
      | some (digits, rest) => .placeholder digits :: segments rest
      | none => .char c :: segments cs
    else .char c :: segments cs
termination_by cs => cs.length
decreasing_by
  all_goals simp only [List.length_cons]
  · have := congrArg List.length (append_of_placeholder? _h)
    simp only [List.length_append, List.length_cons] at this
    omega
  all_goals omega

/-- The segments of a template, written one after the other, are the template. -/
theorem flatMap_text_segments (cs : List Char) : (segments cs).flatMap Segment.text = cs := by
  fun_induction segments cs with
  | case1 => rfl
  | case2 cs digits rest h ih =>
    simp [Segment.text, ih, append_of_placeholder? h]
  | case3 => simp_all [Segment.text]
  | case4 => simp_all [Segment.text]

/-- The greatest number that names an argument. -/
def maxIndex : Nat := UInt64.size - 1

/-- The number of the argument that some digits name. -/
def index? (digits : List Char) : Option Nat :=
  if digits.all Char.isDigit then
    let n := Nat.ofDigitChars 10 digits 0
    if n ≤ maxIndex then some n else none
  else none

/-- The number of the argument that a segment names, if it does. -/
def Segment.index? : Segment → Option Nat
  | char _ => none
  | placeholder digits => Template.index? digits

/-- What a segment becomes.  A placeholder that names no argument at all becomes nothing. -/
def Segment.fill (args : List Value) : Segment → String
  | char c => c.toString
  | placeholder digits =>
    (((Template.index? digits).bind fun i => args[i]?).map Value.text).getD ""

/-- The first number in a template that is too great for so many arguments. -/
def excess? (template : String) (given : Nat) : Option Nat :=
  ((segments template.toList).filterMap Segment.index?).find? (given ≤ ·)

/-- The template with the texts of the arguments in place of the placeholders. -/
def fill (template : String) (args : List Value) : String :=
  String.join ((segments template.toList).map (·.fill args))

end ActorScript.Template
