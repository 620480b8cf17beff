/-
  The text of a JSON document.

  `compact` writes no blanks at all.  `pretty` puts every item and member on a line of its own,
  two spaces deeper than its container, and a space behind the colon; an empty array or object
  stays on one line.  In a text the quote, the backslash and the control characters below the
  space are escaped, those with a short escape by it; every other character stands for itself.
-/
import ActorScript.Json

namespace ActorScript.Json

/-- A hexadecimal digit in lower case. -/
def hexDigit (n : Nat) : Char := if n < 10 then Char.ofNat (48 + n) else Char.ofNat (87 + n)

/-- What stands for a character in a quoted text. -/
def escape (c : Char) : List Char :=
  match c with
  | '"' => ['\\', '"']
  | '\\' => ['\\', '\\']
  | '\x08' => ['\\', 'b']
  | '\x0c' => ['\\', 'f']
  | '\n' => ['\\', 'n']
  | '\r' => ['\\', 'r']
  | '\t' => ['\\', 't']
  | c =>
    if c.toNat < 32 then ['\\', 'u', '0', '0', hexDigit (c.toNat / 16), hexDigit (c.toNat % 16)]
    else [c]

/-- A text in quotes. -/
def quote (s : String) : String :=
  "\"" ++ String.ofList (s.toList.flatMap escape) ++ "\""

/-- The text of a document that is neither an array nor an object.  What has no value of its own
    is written as null. -/
def scalar : Json → String
  | bool b => if b then "true" else "false"
  | int n => toString n
  | string s => quote s
  | _ => "null"

mutual

/-- The text of a document without blanks. -/
def compact : Json → String
  | array items => "[" ++ ",".intercalate (compactItems items) ++ "]"
  | object members => "\x7b" ++ ",".intercalate (compactMembers members) ++ "\x7d"
  | j => j.scalar

/-- The texts of some documents. -/
def compactItems : List Json → List String
  | [] => []
  | j :: js => compact j :: compactItems js

/-- The texts of some members. -/
def compactMembers : List (String × Json) → List String
  | [] => []
  | (k, j) :: ms => (quote k ++ ":" ++ compact j) :: compactMembers ms

end

/-- A new line, indented by two spaces for each container around it. -/
def newline (depth : Nat) : String := "\n" ++ String.ofList (List.replicate (2 * depth) ' ')

/-- The lines of a container between its brackets. -/
def block (depth : Nat) (opening closing : String) (lines : List String) : String :=
  if lines.isEmpty then opening ++ closing
  else opening ++ newline (depth + 1) ++ ("," ++ newline (depth + 1)).intercalate lines ++
    newline depth ++ closing

mutual

/-- The text of a document inside `depth` containers, one item or member on a line. -/
def prettyAt (depth : Nat) : Json → String
  | array items => block depth "[" "]" (prettyItems (depth + 1) items)
  | object members => block depth "\x7b" "\x7d" (prettyMembers (depth + 1) members)
  | j => j.scalar

/-- The texts of some documents inside `depth` containers. -/
def prettyItems (depth : Nat) : List Json → List String
  | [] => []
  | j :: js => prettyAt depth j :: prettyItems depth js

/-- The texts of some members inside `depth` containers. -/
def prettyMembers (depth : Nat) : List (String × Json) → List String
  | [] => []
  | (k, j) :: ms => (quote k ++ ": " ++ prettyAt depth j) :: prettyMembers depth ms

end

/-- The text of a document, one item or member on a line. -/
def pretty (j : Json) : String := prettyAt 0 j

end ActorScript.Json
