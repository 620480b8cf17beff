/-
  From a text to the JSON document that it spells.

  The reader keeps to the grammar of JSON and to nothing else: blanks are the space, the tab and
  the two line ends; a number has no leading zeros and digits on both sides of its point; control
  characters have to be escaped.  Numbers without point and exponent are integers as long as they
  fit into 64 bits, with a sign for the negative ones; the others are `real`, and so is `-0`.

  Every function takes characters off the front of the text and gives back a shorter rest.
-/
import ActorScript.Json
import ActorScript.Rounding
import ActorScript.Shorter

namespace ActorScript.Json

namespace Reader

/-- Whether a character is a blank of JSON. -/
def isBlank (c : Char) : Bool := c == ' ' || c == '\t' || c == '\n' || c == '\r'

/-- Skips blanks. -/
def skip (cs : List Char) : NoLonger cs :=
  ⟨cs.dropWhile isBlank, (List.dropWhile_suffix isBlank).length_le⟩

/-- Takes a character. -/
def next? : (cs : List Char) → Option (Char × Shorter cs)
  | [] => none
  | c :: cs => some (c, .tail c cs)

/-- Takes a fixed character. -/
def take? (c : Char) (cs : List Char) : Option (Shorter cs) := do
  let (d, r) ← next? cs
  if d = c then return r else none

/-- Takes a fixed character, and blanks in front of it. -/
def mark? (c : Char) (cs : List Char) : Option (Shorter cs) :=
  (take? c (skip cs).1).map (skip cs).trans

/-- Takes a fixed word. -/
def word? : (w : List Char) → (cs : List Char) → Option (NoLonger cs)
  | [], cs => some (.all cs)
  | c :: w, cs => do
    let r ← take? c cs
    let r' ← word? w r.1
    return (r.upTo r').noLonger

/-! ## Texts -/

/-- The value of a hexadecimal digit. -/
def hexValue? (c : Char) : Option Nat :=
  if '0' ≤ c ∧ c ≤ '9' then some (c.toNat - 48)
  else if 'a' ≤ c ∧ c ≤ 'f' then some (c.toNat - 87)
  else if 'A' ≤ c ∧ c ≤ 'F' then some (c.toNat - 55)
  else none

/-- The number that four hexadecimal digits spell. -/
def codeUnit? (a b c d : Char) : Option Nat := do
  return 4096 * (← hexValue? a) + 256 * (← hexValue? b) + 16 * (← hexValue? c) + (← hexValue? d)

/-- What a character behind a backslash stands for. -/
def escaped? : Char → Option Char
  | '"' => some '"'
  | '\\' => some '\\'
  | '/' => some '/'
  | 'b' => some '\x08'
  | 'f' => some '\x0c'
  | 'n' => some '\n'
  | 'r' => some '\r'
  | 't' => some '\t'
  | _ => none

/-- Takes the four digits of a code unit. -/
def takeCodeUnit? (cs : List Char) : Option (Nat × Shorter cs) := do
  let (a, r₁) ← next? cs
  let (b, r₂) ← next? r₁.1
  let (c, r₃) ← next? r₂.1
  let (d, r₄) ← next? r₃.1
  return (← codeUnit? a b c d, r₁.trans (r₂.trans (r₃.trans r₄)))

/-- Takes the second half of a surrogate pair. -/
def lowSurrogate? (cs : List Char) : Option (Nat × Shorter cs) := do
  let r₁ ← take? '\\' cs
  let r₂ ← take? 'u' r₁.1
  let (n, r₃) ← takeCodeUnit? r₂.1
  if 0xDC00 ≤ n ∧ n ≤ 0xDFFF then return (n - 0xDC00, r₁.trans (r₂.trans r₃)) else none

/-- Takes the characters of a text and its closing quote.  `half` tells that there is half of a
    surrogate pair among them. -/
def textBody (half : Bool) (cs : List Char) : Option ((Bool × List Char) × Shorter cs) := do
  let (c, r) ← next? cs
  if c = '"' then return ((half, []), r)
  else if c = '\\' then
    let (e, r') ← next? r.1
    let r := r.trans r'
    if e = 'u' then
      let (n, r') ← takeCodeUnit? r.1
      let r := r.trans r'
      if 0xD800 ≤ n ∧ n ≤ 0xDBFF then
        match lowSurrogate? r.1 with
        | some (low, r') =>
          let r := r.trans r'
          let ((half, text), r') ← textBody half r.1
          return ((half, Char.ofNat (0x10000 + 1024 * (n - 0xD800) + low) :: text), r.trans r')
        | none =>
          let ((_, text), r') ← textBody true r.1
          return ((true, text), r.trans r')
      else if 0xDC00 ≤ n ∧ n ≤ 0xDFFF then
        let ((_, text), r') ← textBody true r.1
        return ((true, text), r.trans r')
      else
        let ((half, text), r') ← textBody half r.1
        return ((half, Char.ofNat n :: text), r.trans r')
    else
      let c ← escaped? e
      let ((half, text), r') ← textBody half r.1
      return ((half, c :: text), r.trans r')
  else if c.toNat < 32 then none
  else
    let ((half, text), r') ← textBody half r.1
    return ((half, c :: text), r.trans r')
termination_by cs.length
decreasing_by all_goals exact Shorter.length_lt _

/-! ## Numbers -/

/-- Appends digits to the significant part `m` of a number as long as it fits into 64 bits; gives
    that part and the digits that are left. -/
def significant (m : Nat) : List Char → Nat × List Char
  | [] => (m, [])
  | d :: ds =>
    let next := Nat.ofDigitChars 10 [d] m
    if next < UInt64.size then significant next ds else (m, d :: ds)

/-- Whether `m * 10 ^ e` is small enough for a floating-point number.  Each factor is rounded
    before they are multiplied, and the power of ten must be finite itself. -/
def isFinite (m : Nat) (e : Int) : Bool :=
  m == 0 || e < 0 || (e ≤ 308 && Rounding.nearest m * Rounding.nearest (Nat.pow 10 e.toNat) <
    Nat.pow 2 1024 - Nat.pow 2 970)

example : isFinite 17976931348623157 292 ∧ !isFinite 17976931348623158 292 ∧ isFinite 0 309 := by
  decide +kernel

/-- The document for a number that is no integer: the digits in front of its point, those behind
    it and its exponent.  Digits that are not significant are not looked at; in front of the point
    each of them still makes the number ten times as large. -/
def magnitude (whole fraction : List Char) (exponent : Int) : Json :=
  let (m, skipped) := significant 0 whole
  let (m, rest) := significant m fraction
  let e := exponent + skipped.length - (fraction.length - rest.length : Nat)
  if isFinite m e then .real else .unreadable

/-- The document for a number: its sign, the digits in front of the point, those behind it and
    the exponent, if there are any. -/
def number (negative : Bool) (whole : List Char) (fraction : Option (List Char))
    (exponent : Option Int) : Json :=
  match fraction, exponent with
  | none, none =>
    let n := Nat.ofDigitChars 10 whole 0
    if negative then
      if n ≠ 0 ∧ n ≤ UInt64.size / 2 then .int (-n) else magnitude whole [] 0
    else if n < UInt64.size then .int n
    else magnitude whole [] 0
  | _, _ => magnitude whole (fraction.getD []) (exponent.getD 0)

/-- The digits at the start of a text and the text behind them. -/
def digits (cs : List Char) : List Char × NoLonger cs :=
  (cs.takeWhile Char.isDigit, ⟨cs.dropWhile Char.isDigit, (List.dropWhile_suffix _).length_le⟩)

/-- Takes one or more digits. -/
def someDigits? (cs : List Char) : Option (List Char × Shorter cs) := do
  let (d, r) ← next? cs
  if d.isDigit then
    let (ds, r') := digits r.1
    return (d :: ds, r.upTo r')
  else none

/-- Takes the digits behind a point, if there is one. -/
def fraction? (cs : List Char) : Option (Option (List Char) × NoLonger cs) :=
  match take? '.' cs with
  | none => some (none, .all cs)
  | some r => do
    let (ds, r') ← someDigits? r.1
    return (some ds, (r.trans r').noLonger)

/-- Takes the sign of an exponent, if there is one. -/
def exponentSign (cs : List Char) : Bool × NoLonger cs :=
  match take? '-' cs, take? '+' cs with
  | some r, _ => (true, r.noLonger)
  | none, some r => (false, r.noLonger)
  | none, none => (false, .all cs)

/-- Takes an exponent, if there is one. -/
def exponent? (cs : List Char) : Option (Option Int × NoLonger cs) :=
  match (take? 'e' cs).or (take? 'E' cs) with
  | none => some (none, .all cs)
  | some r₁ => do
    let (negative, r₂) := exponentSign r₁.1
    let (ds, r₃) ← someDigits? r₂.1
    let n : Int := Nat.ofDigitChars 10 ds 0
    return (some (if negative then -n else n), (r₁.trans (r₂.trans r₃)).noLonger)

/-- Takes a minus sign, if there is one. -/
def minusSign (cs : List Char) : Bool × NoLonger cs :=
  match take? '-' cs with
  | some r => (true, r.noLonger)
  | none => (false, .all cs)

/-- Takes a number. -/
def number? (cs : List Char) : Option (Json × Shorter cs) := do
  let (negative, r₁) := minusSign cs
  let (whole, r₂) ← someDigits? r₁.1
  if whole.head? = some '0' ∧ whole ≠ ['0'] then none
  else
    let (f, r₃) ← fraction? r₂.1
    let (e, r₄) ← exponent? r₃.1
    return (number negative whole f e, r₁.trans (r₂.upTo (r₃.upTo r₄)))

/-! ## Documents -/

/-- The text or the marker for what `textBody` has found. -/
def text (found : Bool × List Char) : Json :=
  if found.1 then .unreadable else .string (String.ofList found.2)

mutual

/-- Takes a document, and blanks in front of it. -/
def value (cs : List Char) : Option (Json × Shorter cs) := do
  let (c, r') ← next? (skip cs).1
  let r := (skip cs).trans r'
  if c = '"' then
    let (found, r') ← textBody false r.1
    return (text found, r.trans r')
  else if c = '[' then
    match mark? ']' r.1 with
    | some r' => return (.array [], r.trans r')
    | none =>
      let (found, r') ← items r.1
      return (.array found, r.trans r')
  else if c = '{' then
    match mark? '}' r.1 with
    | some r' => return (.object [], r.trans r')
    | none =>
      let (found, r') ← members r.1
      return (match found with | some ms => .object ms | none => .unreadable, r.trans r')
  else if c = 'n' then
    let r' ← word? ['u', 'l', 'l'] r.1
    return (.null, r.upTo r')
  else if c = 't' then
    let r' ← word? ['r', 'u', 'e'] r.1
    return (.bool true, r.upTo r')
  else if c = 'f' then
    let r' ← word? ['a', 'l', 's', 'e'] r.1
    return (.bool false, r.upTo r')
  else
    let (j, r') ← number? (skip cs).1
    return (j, (skip cs).trans r')
termination_by (cs.length, 0)
decreasing_by all_goals exact Shorter.lex_left _ _ _

/-- Takes one or more documents with commas between them, and the closing bracket. -/
def items (cs : List Char) : Option (List Json × Shorter cs) := do
  let (j, r) ← value cs
  match mark? ',' r.1 with
  | some r' =>
    let r := r.trans r'
    let (js, r') ← items r.1
    return (j :: js, r.trans r')
  | none =>
    let r' ← mark? ']' r.1
    return ([j], r.trans r')
termination_by (cs.length, 1)
decreasing_by
  · exact Prod.Lex.right _ (by decide)
  · exact Shorter.lex_left _ _ _

/-- Takes one or more members with commas between them, and the closing brace.  There are no
    members if one of the names cannot be represented. -/
def members (cs : List Char) : Option (Option (List (String × Json)) × Shorter cs) := do
  let r₁ ← mark? '"' cs
  let ((half, name), r₂) ← textBody false r₁.1
  let r₃ ← mark? ':' r₂.1
  let r := r₁.trans (r₂.trans r₃)
  let (j, r₄) ← value r.1
  let first := if half then none else some (String.ofList name, j)
  let r := r.trans r₄
  match mark? ',' r.1 with
  | some r₅ =>
    let r := r.trans r₅
    let (ms, r₆) ← members r.1
    return (first.bind fun m => ms.map (m :: ·), r.trans r₆)
  | none =>
    let r₅ ← mark? '}' r.1
    return (first.map ([·]), r.trans r₅)
termination_by (cs.length, 1)
decreasing_by all_goals exact Shorter.lex_left _ _ _

end

end Reader

/-- The document that a text spells, blanks around it apart. -/
def parse? (source : String) : Option Json :=
  match Reader.value source.toList with
  | some (j, ⟨rest, _⟩) => if rest.all Reader.isBlank then some j else none
  | none => none

end ActorScript.Json
