/-
  The grammar of scripts: a list of declarations.

  Constants and variables share one space of names and states have another; a name that is taken
  is refused as soon as it has been read.  `Script.parse` is the way from the text of a script to
  the script.
-/
import ActorScript.Parser.Statement
import ActorScript.Token.Lexer

namespace ActorScript.Parser

/-- Refuses a name that a constant or variable of the script already has; `l` is where the new
    declaration starts. -/
def checkUnique (script : Script) (name : String) (l : Location) : Except Error Unit :=
  if (script.constant? name).isSome then .error (.duplicateDeclaration .constant name l)
  else if (script.declared? name).isSome then .error (.duplicateDeclaration .variable name l)
  else .ok ()

/-- Takes the declaration of a constant and adds it to the script. -/
def constant (finish : Location) (script : Script) (ts : List Token) :
    Except Error (Script × Shorter ts) := do
  let l := here finish ts
  let r₁ ← expect finish (.keyword .constWord) ts
  let (name, r₂) ← expectIdent finish r₁.1
  checkUnique script name l
  let r₃ ← expect finish (.mark .assign) r₂.1
  let (value, r₄) ← literal finish r₃.1
  let r₅ ← expect finish (.mark .semicolon) r₄.1
  return ({ script with constants := script.constants ++ [⟨name, value, l⟩] },
    r₁.trans (r₂.trans (r₃.trans (r₄.trans r₅))))

/-- Takes the default of a variable, if an equals sign comes next. -/
def initialValue (finish : Location) (ts : List Token) :
    Except Error (Option Value × NoLonger ts) := do
  match accept? (.mark .assign) ts with
  | none => return (none, .all ts)
  | some r =>
    let (value, r') ← literal finish r.1
    return (some value, (r.trans r').noLonger)

/-- Takes the `saved` in front of a variable, if it is there. -/
def savedMark (ts : List Token) : Bool × NoLonger ts :=
  match accept? (.keyword .savedWord) ts with
  | none => (false, .all ts)
  | some r => (true, r.noLonger)

/-- Takes the declaration of a variable and adds it to the script. -/
def variableDeclaration (finish : Location) (script : Script) (ts : List Token) :
    Except Error (Script × Shorter ts) := do
  let l := here finish ts
  let (persisted, r₁) := savedMark ts
  let r₂ ← expect finish (.keyword .varWord) r₁.1
  let (name, r₃) ← expectIdent finish r₂.1
  checkUnique script name l
  let (initial, r₄) ← initialValue finish r₃.1
  let r₅ ← expect finish (.mark .semicolon) r₄.1
  return ({ script with vars := script.vars ++ [⟨name, persisted, initial, l⟩] },
    r₁.trans (r₂.trans (r₃.trans (r₄.trans r₅))))

/-- Takes the event handlers of the state `name` up to and with the closing brace of the state,
    which was opened at `start`.  `handlers` are those already found, and the blocks of the new
    ones get numbers from `base` on. -/
def handlers (finish start : Location) (name : String) (base : Nat) (found : EventMap BlockId)
    (ts : List Token) : Except Error (EventMap BlockId × Chunk × Shorter ts) := do
  match accept? (.mark .rightBrace) ts with
  | some r => return (found, [], r)
  | none =>
    if peek ts = .endOfFile then .error (.atLocation (.unterminatedState name) start)
    else
      let l := here finish ts
      let r₁ ← expect finish (.keyword .eventWord) ts
      let (eventName, r₂) ← expectIdent finish r₁.1
      let some event := Event.ofName? eventName
        | .error (.unknownEvent eventName l)
      if found.contains event then .error (.duplicateEvent eventName name l)
      else
        let r₃ ← expect finish (.mark .leftParen) r₂.1
        let r₄ ← expect finish (.mark .rightParen) r₃.1
        let (chunk, r₅) ← block finish base r₄.1
        let r := r₁.trans (r₂.trans (r₃.trans (r₄.trans r₅)))
        let (all, chunk', r₆) ←
          handlers finish start name (base + chunk.length) (found.insert event base) r.1
        return (all, chunk ++ chunk', r.trans r₆)
termination_by ts.length
decreasing_by exact Shorter.length_lt _

/-- Takes a state and adds it and its blocks to the script. -/
def stateDeclaration (finish : Location) (script : Script) (ts : List Token) :
    Except Error (Script × Shorter ts) := do
  let l := here finish ts
  let r₁ ← expect finish (.keyword .stateWord) ts
  let (name, r₂) ← expectIdent finish r₁.1
  if (script.state? name).isSome then .error (.duplicateDeclaration .state name l)
  else
    let r₃ ← expect finish (.mark .leftParen) r₂.1
    let (condition, r₄) ← expression finish .ternary r₃.1
    let r₅ ← expect finish (.mark .rightParen) r₄.1
    let r₆ ← expect finish (.mark .leftBrace) r₅.1
    let (found, chunk, r₇) ←
      handlers finish (here finish r₅.1) name script.blocks.length .empty r₆.1
    return ({ script with
        states := script.states ++ [⟨name, condition, found, l⟩]
        blocks := script.blocks ++ chunk },
      r₁.trans (r₂.trans (r₃.trans (r₄.trans (r₅.trans (r₆.trans r₇))))))

/-- Takes one declaration and adds it to the script. -/
def declaration (finish : Location) (script : Script) (ts : List Token) :
    Except Error (Script × Shorter ts) :=
  match peek ts with
  | .keyword .constWord => constant finish script ts
  | .keyword .varWord | .keyword .savedWord => variableDeclaration finish script ts
  | .keyword .stateWord => stateDeclaration finish script ts
  | _ => .error (unexpected finish .declaration ts)

/-- Takes declarations up to the end of the file and adds them to the script. -/
def declarations (finish : Location) (script : Script) (ts : List Token) :
    Except Error Script := do
  if peek ts = .endOfFile then return script
  else
    let (script', r) ← declaration finish script ts
    declarations finish script' r.1
termination_by ts.length
decreasing_by exact Shorter.length_lt _

/-- The script that a list of tokens spells. -/
def script (ts : List Token) : Except Error Script :=
  declarations ((ts.getLast?.map Token.location).getD .start) {} ts

end ActorScript.Parser

namespace ActorScript

/-- **Reading a script**: the script that a text spells, or the first error in it. -/
def Script.parse (source : String) : Except Error Script := do
  Parser.script (← Token.tokenize source)

end ActorScript
