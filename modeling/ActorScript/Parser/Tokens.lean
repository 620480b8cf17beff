/-
  Reading a list of tokens from the front.

  A parser takes the tokens that are left and gives back what it found with the tokens behind it.
  Past the last token a parser sees the end of the file; `finish` is the location that errors
  name there.
-/
import ActorScript.Error
import ActorScript.Script
import ActorScript.Shorter

namespace ActorScript.Parser

/-- The kind of the next token. -/
def peek : List Token → TokenKind
  | [] => .endOfFile
  | t :: _ => t.kind

/-- The location of the next token. -/
def here (finish : Location) : List Token → Location
  | [] => finish
  | t :: _ => t.location

/-- The error for a next token that is not `wanted`. -/
def unexpected (finish : Location) (wanted : Expectation) (ts : List Token) : Error :=
  .atLocation (.expected wanted (peek ts)) (here finish ts)

/-- Takes a token of kind `k`, if that is what comes next. -/
def accept? (k : TokenKind) : (ts : List Token) → Option (Shorter ts)
  | [] => none
  | t :: rest => if t.kind = k then some (.tail t rest) else none

/-- Takes a token of kind `k`, which has to come next. -/
def expect (finish : Location) (k : TokenKind) (ts : List Token) : Except Error (Shorter ts) :=
  match accept? k ts with
  | some rest => .ok rest
  | none => .error (unexpected finish (.kind k) ts)

/-- Takes an identifier, which has to come next. -/
def expectIdent (finish : Location) : (ts : List Token) → Except Error (String × Shorter ts)
  | ⟨.ident name, _⟩ :: rest => .ok (name, .tail _ rest)
  | ts => .error (unexpected finish .identifier ts)

/-- Takes the key of a register, an identifier or a string, for which errors name `l`. -/
def registerName (l : Location) : (ts : List Token) → Except Error (String × Shorter ts)
  | ⟨.ident key, _⟩ :: rest | ⟨.string key, _⟩ :: rest => .ok (key, .tail _ rest)
  | ts => .error (.atLocation (.expected .registerKey (peek ts)) l)

/-- Takes the `[key]` behind the name of a register space.  Whatever is wrong with the key or the
    name is reported at the name's location `l`. -/
def registerKey (finish : Location) (name : String) (l : Location) (ts : List Token) :
    Except Error (Register × Shorter ts) := do
  let some space := RegisterSpace.ofKeyword? name
    | .error (.atLocation (.notARegisterSpace name) l)
  let r₁ ← expect finish (.mark .leftBracket) ts
  let (key, r₂) ← registerName l r₁.1
  let r₃ ← expect finish (.mark .rightBracket) r₂.1
  return (⟨space, key⟩, r₁.trans (r₂.trans r₃))

/-- Takes a literal value: a number with or without a minus sign, a string, a truth value or the
    name of an orientation. -/
def literal (finish : Location) : (ts : List Token) → Except Error (Value × Shorter ts)
  | ⟨.int n, _⟩ :: rest => .ok (.int n, .tail _ rest)
  | ⟨.mark .minus, _⟩ :: ⟨.int n, _⟩ :: rest => .ok (.int (-n), .trans (.tail _ _) (.tail _ rest))
  | ⟨.mark .minus, l⟩ :: _ => .error (.atLocation .expectedInteger l)
  | ⟨.string s, _⟩ :: rest => .ok (.string s, .tail _ rest)
  | ⟨.keyword .trueWord, _⟩ :: rest => .ok (.bool true, .tail _ rest)
  | ⟨.keyword .falseWord, _⟩ :: rest => .ok (.bool false, .tail _ rest)
  | ⟨.ident name, l⟩ :: rest =>
    match Orientation.ofName? name with
    | some o => .ok (.orientation o, .tail _ rest)
    | none => .error (.atLocation (.expected .literal (.ident name)) l)
  | ts => .error (unexpected finish .literal ts)

end ActorScript.Parser
