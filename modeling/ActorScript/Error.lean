/-
  Everything that can go wrong with a script, as causes.

  An `Error` says what happened in terms of the domain; the code of an error, its message and the
  location it names are functions of the cause.  Messages are made in this module only.
-/
import ActorScript.Location
import ActorScript.Token

namespace ActorScript

/-- What the grammar allows at the place of a fault. -/
inductive Expectation
  | kind (k : TokenKind)
  | identifier
  | expression
  | declaration
  | afterName
  | literal
  | registerKey
deriving DecidableEq, Repr, Inhabited

/-- How an expectation is named in messages. -/
def Expectation.text : Expectation → String
  | kind k => k.text
  | identifier => "identifier"
  | expression => "expression"
  | declaration => "\"const\", \"var\", \"saved\" or \"state\""
  | afterName => "\"(\", \"[\" or \"=\""
  | literal => "literal value"
  | registerKey => "register key"

/-- Why a text is not a script. -/
inductive SyntaxFault
  /-- Something else stands where the grammar wants `wanted`. -/
  | expected (wanted : Expectation) (found : TokenKind)
  /-- A minus sign of a literal is not followed by a number. -/
  | expectedInteger
  | unexpectedCharacter (c : Char)
  | integerOutOfRange (digits : String)
  | unterminatedString
  | unterminatedComment
  | unterminatedState (name : String)
  | unterminatedBlock
  /-- A bracket follows a name that is no register space. -/
  | notARegisterSpace (name : String)
  /-- A fault described by whoever reports it. -/
  | described (text : String)
deriving DecidableEq, Repr, Inhabited

/-- The wording of a fault. -/
def SyntaxFault.message : SyntaxFault → String
  | expected wanted found => "expected " ++ wanted.text ++ ", found " ++ found.text
  | expectedInteger => "expected integer after \"-\""
  | unexpectedCharacter c => "unexpected character '" ++ c.toString ++ "'"
  | integerOutOfRange digits => "integer literal \"" ++ digits ++ "\" is out of range"
  | unterminatedString => "unterminated string literal"
  | unterminatedComment => "unterminated block comment"
  | unterminatedState name => "unterminated state \"" ++ name ++ "\""
  | unterminatedBlock => "unterminated block"
  | notARegisterSpace name => "\"" ++ name ++ "\" is not a register space"
  | described text => text

/-- What a declaration declares. -/
inductive DeclarationKind
  | constant
  | variable
  | state
  /-- A kind described by whoever reports the fault. -/
  | described (text : String)
deriving DecidableEq, Repr, Inhabited

/-- The word for a kind of declaration. -/
def DeclarationKind.name : DeclarationKind → String
  | constant => "constant"
  | «variable» => "variable"
  | state => "state"
  | described text => text

/-- Why a built-in function refuses its arguments.  Arguments are counted from zero. -/
inductive ArgumentFault
  | missing (index : Nat)
  | wrongType (index : Nat) (wanted : String) (given : String)
  | negativeDuration (n : Int)
  /-- A template names an argument that was not given. -/
  | placeholder (key : String) (index : Nat) (given : Nat)
  /-- A fault described by whoever reports it. -/
  | described (text : String)
deriving DecidableEq, Repr, Inhabited

/-- The wording of a fault. -/
def ArgumentFault.message : ArgumentFault → String
  | missing index => "missing argument " ++ toString (index + 1)
  | wrongType index wanted given =>
      "argument " ++ toString (index + 1) ++ " must be " ++ wanted ++ ", got " ++ given
  | negativeDuration n => "negative duration " ++ toString n
  | placeholder key index given =>
      "string \"" ++ key ++ "\" uses placeholder \x7b" ++ toString index ++ "\x7d but only " ++
        toString given ++ " argument(s) were given"
  | described text => text

/-- A failure of loading or running a script. -/
inductive Error
  | parse (fault : SyntaxFault) (location : Location) (file : Option String)
  | unknownEvent (name : String) (location : Location)
  | duplicateEvent (name : String) (state : String) (location : Location)
  | duplicateDeclaration (kind : DeclarationKind) (name : String) (location : Location)
  /-- A variable is saved, but the actor has no name to save it under. -/
  | missingActorName (name : String)
  | unknownFunction (name : String)
  | unknownSymbol (name : String)
  | constantAssignment (name : String)
  | noActiveState (actor : String)
  /-- An operator got operands it has no meaning for; `left` and `right` describe them. -/
  | typeMismatch (op : String) (left right : String)
  | divisionByZero
  | stateSwitchOverflow (actor : String) (limit : Nat)
  | scriptRead (path : String) (reason : String)
  | saveStore (reason : String)
  | stringNotFound (key : String)
  | invalidArgument (function : String) (fault : ArgumentFault)
deriving DecidableEq, Repr, Inhabited

namespace Error

/-- A syntax error in a text that has no file name yet. -/
def atLocation (fault : SyntaxFault) (l : Location) : Error := .parse fault l none

/-- An arithmetic result outside the range of integers. -/
def overflow (op : String) : Error := .typeMismatch op "int" "overflowing int"

/-- The stable name of the kind of error. -/
def code : Error → String
  | parse .. => "PARSE_ERROR"
  | unknownEvent .. => "UNKNOWN_EVENT"
  | duplicateEvent .. => "DUPLICATE_EVENT"
  | duplicateDeclaration .. => "DUPLICATE_DECLARATION"
  | missingActorName _ => "MISSING_ACTOR_NAME"
  | unknownFunction _ => "UNKNOWN_FUNCTION"
  | unknownSymbol _ => "UNKNOWN_SYMBOL"
  | constantAssignment _ => "CONSTANT_ASSIGNMENT"
  | noActiveState _ => "NO_ACTIVE_STATE"
  | typeMismatch .. => "TYPE_MISMATCH"
  | divisionByZero => "DIVISION_BY_ZERO"
  | stateSwitchOverflow .. => "STATE_SWITCH_OVERFLOW"
  | scriptRead .. => "SCRIPT_READ"
  | saveStore _ => "SAVE_STORE"
  | stringNotFound _ => "STRING_NOT_FOUND"
  | invalidArgument .. => "INVALID_ARGUMENT"

/-- What went wrong, without the place. -/
def detail : Error → String
  | parse fault _ _ => fault.message
  | unknownEvent name _ => "unknown event \"" ++ name ++ "\""
  | duplicateEvent name state _ =>
      "duplicate event \"" ++ name ++ "\" in state \"" ++ state ++ "\""
  | duplicateDeclaration kind name _ => "duplicate " ++ kind.name ++ " \"" ++ name ++ "\""
  | missingActorName name => "saved variable \"" ++ name ++ "\" requires the actor to have a name"
  | unknownFunction name => "unknown function \"" ++ name ++ "\""
  | unknownSymbol name => "unknown symbol \"" ++ name ++ "\""
  | constantAssignment name => "constant \"" ++ name ++ "\" cannot be assigned"
  | noActiveState actor => "no state condition is true for actor \"" ++ actor ++ "\""
  | typeMismatch op left right =>
      "operator \"" ++ op ++ "\" cannot combine " ++ left ++ " and " ++ right
  | divisionByZero => "division by zero"
  | stateSwitchOverflow actor limit =>
      "state switches nested deeper than " ++ toString limit ++ " for actor \"" ++ actor ++ "\""
  | scriptRead path reason => "could not read script \"" ++ path ++ "\": " ++ reason
  | saveStore reason => "save store error: " ++ reason
  | stringNotFound key => "unknown string \"" ++ key ++ "\""
  | invalidArgument function fault => "function \"" ++ function ++ "\": " ++ fault.message

/-- The place in the script that an error names; only errors of reading a script name one. -/
def location? : Error → Option Location
  | parse _ l _ | unknownEvent _ l | duplicateEvent _ _ l | duplicateDeclaration _ _ l => some l
  | _ => none

/-- The file that an error names; only syntax errors can. -/
def file? : Error → Option String
  | parse _ _ file => file
  | _ => none

/-- The full message: the file and the place, as far as they are known, and the detail. -/
def message (e : Error) : String :=
  (e.file?.map (· ++ ":")).getD "" ++ (e.location?.map (·.text ++ ": ")).getD "" ++ e.detail

/-- Whether the error keeps an actor from being loaded, as opposed to one that arises while its
    script runs. -/
def isLoadError : Error → Bool
  | parse .. | unknownEvent .. | duplicateEvent .. | duplicateDeclaration .. | missingActorName _
  | scriptRead .. => true
  | _ => false

/-- A syntax error with the name of its file; other errors stay as they are. -/
def inFile (e : Error) (path : String) : Error :=
  match e with
  | parse fault l _ => .parse fault l (some path)
  | e => e

end Error

end ActorScript
