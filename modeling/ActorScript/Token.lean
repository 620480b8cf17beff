/-
  The tokens of script text.

  Words with a meaning of their own (`Keyword`) and punctuation (`Mark`) are enumerations with a
  spelling; everything about them that depends on the spelling is computed from it.
-/
import ActorScript.Location

namespace ActorScript

/-- The words that are not identifiers. -/
inductive Keyword
  | constWord
  | varWord
  | savedWord
  | stateWord
  | eventWord
  | ifWord
  | elseWord
  | trueWord
  | falseWord
deriving DecidableEq, Repr, Inhabited

namespace Keyword

/-- All keywords. -/
def all : List Keyword :=
  [constWord, varWord, savedWord, stateWord, eventWord, ifWord, elseWord, trueWord, falseWord]

/-- The word itself. -/
def spelling : Keyword → String
  | constWord => "const"
  | varWord => "var"
  | savedWord => "saved"
  | stateWord => "state"
  | eventWord => "event"
  | ifWord => "if"
  | elseWord => "else"
  | trueWord => "true"
  | falseWord => "false"

/-- The keyword with this spelling, if there is one. -/
def ofSpelling? (word : String) : Option Keyword := all.find? (·.spelling == word)

@[simp] theorem ofSpelling?_spelling (k : Keyword) : ofSpelling? k.spelling = some k := by
  cases k <;> decide

theorem spelling_of_ofSpelling? {w : String} {k : Keyword} (h : ofSpelling? w = some k) :
    k.spelling = w := by
  simpa using List.find?_some h

end Keyword

/-- Punctuation and operators. -/
inductive Mark
  | equal
  | notEqual
  | lessEqual
  | greaterEqual
  | and
  | or
  | leftParen
  | rightParen
  | leftBrace
  | rightBrace
  | leftBracket
  | rightBracket
  | comma
  | semicolon
  | question
  | colon
  | assign
  | bang
  | plus
  | minus
  | star
  | slash
  | less
  | greater
deriving DecidableEq, Repr, Inhabited

namespace Mark

/-- All marks, those of two characters in front: the first mark of this list that a text starts
    with is the longest one. -/
def all : List Mark :=
  [equal, notEqual, lessEqual, greaterEqual, and, or, leftParen, rightParen, leftBrace, rightBrace,
   leftBracket, rightBracket, comma, semicolon, question, colon, assign, bang, plus, minus, star,
   slash, less, greater]

/-- The characters of a mark. -/
def chars : Mark → List Char
  | equal => ['=', '=']
  | notEqual => ['!', '=']
  | lessEqual => ['<', '=']
  | greaterEqual => ['>', '=']
  | and => ['&', '&']
  | or => ['|', '|']
  | leftParen => ['(']
  | rightParen => [')']
  | leftBrace => ['{']
  | rightBrace => ['}']
  | leftBracket => ['[']
  | rightBracket => [']']
  | comma => [',']
  | semicolon => [';']
  | question => ['?']
  | colon => [':']
  | assign => ['=']
  | bang => ['!']
  | plus => ['+']
  | minus => ['-']
  | star => ['*']
  | slash => ['/']
  | less => ['<']
  | greater => ['>']

/-- The longest mark that a text starts with. -/
def leading? (cs : List Char) : Option Mark := all.find? (·.chars.isPrefixOf cs)

theorem chars_ne_nil (m : Mark) : m.chars ≠ [] := by cases m <;> simp [chars]

theorem chars_isPrefixOf_of_leading? {cs : List Char} {m : Mark} (h : leading? cs = some m) :
    m.chars.isPrefixOf cs = true := by
  unfold leading? at h
  have := List.find?_some h
  exact this

end Mark

/-- What a token is. -/
inductive TokenKind
  | int (n : Int64)
  | string (s : String)
  | ident (name : String)
  | keyword (k : Keyword)
  | mark (m : Mark)
  | endOfFile
deriving DecidableEq, Repr, Inhabited

/-- How a kind of token is named in messages. -/
def TokenKind.text : TokenKind → String
  | int n => "integer " ++ toString n.toInt
  | string s => "string \"" ++ s ++ "\""
  | ident name => "identifier \"" ++ name ++ "\""
  | keyword k => "\"" ++ k.spelling ++ "\""
  | mark m => "\"" ++ String.ofList m.chars ++ "\""
  | endOfFile => "end of file"

/-- A token and the location of its first character. -/
structure Token where
  kind : TokenKind
  location : Location
deriving DecidableEq, Repr, Inhabited

end ActorScript
