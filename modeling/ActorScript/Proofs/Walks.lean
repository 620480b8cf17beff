/-
  The parsers of scripts as walks, to some depth.

  Each parser is written once more, as a walk along its tokens.  These walks are defined by
  recursion on their depth and on nothing else: every call, also that for the next round of a loop,
  goes one level deeper, and a walk that has no level left is cut off.  So they go on whether or not
  tokens are taken, and that they come to an end with enough levels is a property of the grammar.
-/
import ActorScript.Parser.Declaration
import ActorScript.Proofs.Cursor

namespace ActorScript.Parser.Walk

variable (tokens : List Token) (finish : Location)

/-! ## Expressions -/

section Levels

/-! What a walk does at each level, given the walks that it calls. -/

/-- A condition, and if a question mark comes next, the two branches. -/
def ternary (condition branch : Walk Expr) : Walk Expr := do
  let e ← condition
  if ← eat tokens (.mark .question) then
    let whenTrue ← branch
    expect tokens finish (.mark .colon)
    let whenFalse ← branch
    return .ternary e whenTrue whenFalse
  else return e

/-- A negation if an exclamation mark comes next, and else something tighter. -/
def negation (operand tighter : Walk Expr) : Walk Expr := do
  if ← eat tokens (.mark .bang) then
    let e ← operand
    return .unary .not e
  else tighter

/-- An operator in front of its operand, or a number with its sign. -/
def unary (operand tighter : Walk Expr) : Walk Expr := do
  match ← peek tokens with
  | .mark .minus =>
    let _ ← advance tokens
    match ← peek tokens with
    | .int n =>
      let _ ← advance tokens
      return .literal (.int (-n))
    | _ =>
      let e ← operand
      return .unary .negate e
  | .mark .bang =>
    let _ ← advance tokens
    let e ← operand
    return .unary .not e
  | _ => tighter

/-- A literal, an expression in parentheses, a call, a register or a symbol. -/
def primary (inner : Walk Expr) (args : Walk (List Expr)) : Walk Expr := do
  let l ← here tokens finish
  match ← peek tokens with
  | .int n =>
    let _ ← advance tokens
    return .literal (.int n)
  | .string s =>
    let _ ← advance tokens
    return .literal (.string s)
  | .keyword .trueWord =>
    let _ ← advance tokens
    return .literal (.bool true)
  | .keyword .falseWord =>
    let _ ← advance tokens
    return .literal (.bool false)
  | .mark .leftParen =>
    let _ ← advance tokens
    let e ← inner
    expect tokens finish (.mark .rightParen)
    return e
  | .ident name =>
    let _ ← advance tokens
    match ← peek tokens, ← peekBehind tokens with
    | .mark .leftParen, _ =>
      let es ← args
      return .call name es
    | .mark .leftBracket, .ident _ | .mark .leftBracket, .string _ =>
      let register ← registerKey tokens finish name l
      return .register register
    | _, _ => return word name
  | _ => unexpected tokens finish .expression

/-- An operand of the tighter level, and what follows it. -/
def joined (operand : Walk Expr) (others : Expr → Walk Expr) : Walk Expr := do
  let left ← operand
  others left

end Levels

mutual

/-- Takes an expression of a level. -/
def expression (depth : Nat) (level : Level) : Walk Expr :=
  match depth with
  | 0 => cutOff
  | depth + 1 =>
    match level with
    | .ternary => ternary tokens finish (expression depth .or) (expression depth .ternary)
    | .not => negation tokens (expression depth .not) (expression depth .equality)
    | .unary => unary tokens (expression depth .unary) (expression depth .primary)
    | .primary => primary tokens finish (expression depth .ternary) (arguments depth)
    | .or | .and | .equality | .additive | .multiplicative =>
      joined (expression depth level.tighter) (chain depth level)

/-- Takes the operators of a level and their right operands for as long as there are any. -/
def chain (depth : Nat) (level : Level) (left : Expr) : Walk Expr :=
  match depth with
  | 0 => cutOff
  | depth + 1 => do
    match level.operator? (← peek tokens) with
    | none => return left
    | some op =>
      let _ ← advance tokens
      let right ← expression depth level.tighter
      chain depth level (.binary op left right)

/-- Takes the arguments of a call, in their parentheses. -/
def arguments (depth : Nat) : Walk (List Expr) :=
  match depth with
  | 0 => cutOff
  | depth + 1 => do
    expect tokens finish (.mark .leftParen)
    if ← eat tokens (.mark .rightParen) then return []
    else argumentList depth

/-- Takes one or more expressions with commas between them, and the closing parenthesis. -/
def argumentList (depth : Nat) : Walk (List Expr) :=
  match depth with
  | 0 => cutOff
  | depth + 1 => do
    let arg ← expression depth .ternary
    if ← eat tokens (.mark .comma) then
      let args ← argumentList depth
      return arg :: args
    else
      expect tokens finish (.mark .rightParen)
      return [arg]

end

/-! ## Statements -/

/-- Takes a statement that is not an `if`. -/
def simpleStatement (depth : Nat) : Walk Statement := do
  let l ← here tokens finish
  let name ← expectIdent tokens finish
  match ← peek tokens with
  | .mark .leftParen =>
    let args ← arguments tokens finish depth
    expect tokens finish (.mark .semicolon)
    return .call name args l
  | .mark .leftBracket =>
    let register ← registerKey tokens finish name l
    expect tokens finish (.mark .assign)
    let value ← expression tokens finish depth .ternary
    expect tokens finish (.mark .semicolon)
    return .assign (.register register) value l
  | .mark .assign =>
    expect tokens finish (.mark .assign)
    let value ← expression tokens finish depth .ternary
    expect tokens finish (.mark .semicolon)
    return .assign (.symbol name) value l
  | _ => unexpected tokens finish .afterName

mutual

/-- Takes a block in braces, as block number `base`. -/
def block (depth base : Nat) : Walk Chunk :=
  match depth with
  | 0 => cutOff
  | depth + 1 => do
    let start ← here tokens finish
    expect tokens finish (.mark .leftBrace)
    let (body, nested) ← statements depth start (base + 1)
    return body :: nested

/-- Takes statements up to and with the closing brace; `start` is where the opening brace was. -/
def statements (depth : Nat) (start : Location) (base : Nat) : Walk (Block × Chunk) :=
  match depth with
  | 0 => cutOff
  | depth + 1 => do
    if ← eat tokens (.mark .rightBrace) then return ([], [])
    else if (← peek tokens) = .endOfFile then fail (.atLocation .unterminatedBlock start)
    else
      let (first, nested) ← statement depth base
      let (others, nested') ← statements depth start (base + nested.length)
      return (first :: others, nested ++ nested')

/-- Takes one statement. -/
def statement (depth base : Nat) : Walk (Statement × Chunk) :=
  match depth with
  | 0 => cutOff
  | depth + 1 => do
    if (← peek tokens) = .keyword .ifWord then ifStatement depth base
    else
      let s ← simpleStatement tokens finish depth
      return (s, [])

/-- Takes an `if` with its branches. -/
def ifStatement (depth base : Nat) : Walk (Statement × Chunk) :=
  match depth with
  | 0 => cutOff
  | depth + 1 => do
    let l ← here tokens finish
    expect tokens finish (.keyword .ifWord)
    expect tokens finish (.mark .leftParen)
    let condition ← expression tokens finish depth .ternary
    expect tokens finish (.mark .rightParen)
    let thenChunk ← block depth base
    if ← eat tokens (.keyword .elseWord) then
      let elseBlock := base + thenChunk.length
      if (← peek tokens) = .keyword .ifWord then
        let (inner, nested) ← ifStatement depth (elseBlock + 1)
        return (.ifElse condition base (some elseBlock) l, thenChunk ++ [inner] :: nested)
      else
        let elseChunk ← block depth elseBlock
        return (.ifElse condition base (some elseBlock) l, thenChunk ++ elseChunk)
    else return (.ifElse condition base none l, thenChunk)

end

/-! ## Declarations -/

/-- Takes the declaration of a constant and adds it to the script. -/
def constant (script : Script) : Walk Script := do
  let l ← here tokens finish
  expect tokens finish (.keyword .constWord)
  let name ← expectIdent tokens finish
  check (checkUnique script name l)
  expect tokens finish (.mark .assign)
  let value ← literal tokens finish
  expect tokens finish (.mark .semicolon)
  return { script with constants := script.constants ++ [⟨name, value, l⟩] }

/-- Takes the default of a variable, if an equals sign comes next. -/
def initialValue : Walk (Option Value) := do
  if ← eat tokens (.mark .assign) then
    let value ← literal tokens finish
    return some value
  else return none

/-- Takes the declaration of a variable and adds it to the script. -/
def variableDeclaration (script : Script) : Walk Script := do
  let l ← here tokens finish
  let persisted ← eat tokens (.keyword .savedWord)
  expect tokens finish (.keyword .varWord)
  let name ← expectIdent tokens finish
  check (checkUnique script name l)
  let initial ← initialValue tokens finish
  expect tokens finish (.mark .semicolon)
  return { script with vars := script.vars ++ [⟨name, persisted, initial, l⟩] }

/-- Takes the event handlers of the state `name` up to and with the closing brace of the state,
    which was opened at `start`. -/
def handlers (depth : Nat) (start : Location) (name : String) (base : Nat)
    (found : EventMap BlockId) : Walk (EventMap BlockId × Chunk) :=
  match depth with
  | 0 => cutOff
  | depth + 1 => do
    if ← eat tokens (.mark .rightBrace) then return (found, [])
    else if (← peek tokens) = .endOfFile then fail (.atLocation (.unterminatedState name) start)
    else
      let l ← here tokens finish
      expect tokens finish (.keyword .eventWord)
      let eventName ← expectIdent tokens finish
      match Event.ofName? eventName with
      | none => fail (.unknownEvent eventName l)
      | some event =>
        if found.contains event then fail (.duplicateEvent eventName name l)
        else
          expect tokens finish (.mark .leftParen)
          expect tokens finish (.mark .rightParen)
          let chunk ← block tokens finish depth base
          let (all, chunk') ←
            handlers depth start name (base + chunk.length) (found.insert event base)
          return (all, chunk ++ chunk')

/-- Takes a state and adds it and its blocks to the script. -/
def stateDeclaration (depth : Nat) (script : Script) : Walk Script := do
  let l ← here tokens finish
  expect tokens finish (.keyword .stateWord)
  let name ← expectIdent tokens finish
  if (script.state? name).isSome then fail (.duplicateDeclaration .state name l)
  else
    expect tokens finish (.mark .leftParen)
    let condition ← expression tokens finish depth .ternary
    expect tokens finish (.mark .rightParen)
    let start ← here tokens finish
    expect tokens finish (.mark .leftBrace)
    let (found, chunk) ← handlers tokens finish depth start name script.blocks.length .empty
    return { script with
      states := script.states ++ [⟨name, condition, found, l⟩]
      blocks := script.blocks ++ chunk }

/-- Takes one declaration and adds it to the script. -/
def declaration (depth : Nat) (script : Script) : Walk Script := do
  match ← peek tokens with
  | .keyword .constWord => constant tokens finish script
  | .keyword .varWord | .keyword .savedWord => variableDeclaration tokens finish script
  | .keyword .stateWord => stateDeclaration tokens finish depth script
  | _ => unexpected tokens finish .declaration

/-- Takes declarations up to the end of the file and adds them to the script. -/
def declarations (depth : Nat) (script : Script) : Walk Script :=
  match depth with
  | 0 => cutOff
  | depth + 1 => do
    if (← peek tokens) = .endOfFile then return script
    else
      let script' ← declaration tokens finish depth script
      declarations depth script'

end ActorScript.Parser.Walk
