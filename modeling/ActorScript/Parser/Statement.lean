/-
  The grammar of statement blocks.

  A script keeps the blocks of all handlers in one list.  A block that is the `base`-th of its
  script comes out as a `Chunk`: its own statements, and behind them the blocks nested in it, in
  the order of their opening braces.  Appending the chunk to the `base` blocks before it puts
  every block at the index by which the statements refer to it.  An `else` that is followed by
  another `if` gets a block of its own, which holds nothing but that `if` and counts from there.
-/
import ActorScript.Parser.Expression

namespace ActorScript.Parser

/-- Takes a statement that is not an `if`: a call or an assignment, and the semicolon. -/
def simpleStatement (finish : Location) (ts : List Token) :
    Except Error (Statement × Shorter ts) := do
  let l := here finish ts
  let (name, r) ← expectIdent finish ts
  match peek r.1 with
  | .mark .leftParen =>
    let (args, r₁) ← arguments finish r.1
    let r₂ ← expect finish (.mark .semicolon) r₁.1
    return (.call name args l, r.trans (r₁.trans r₂))
  | .mark .leftBracket =>
    let (register, r₁) ← registerKey finish name l r.1
    let r₂ ← expect finish (.mark .assign) r₁.1
    let (value, r₃) ← expression finish .ternary r₂.1
    let r₄ ← expect finish (.mark .semicolon) r₃.1
    return (.assign (.register register) value l, r.trans (r₁.trans (r₂.trans (r₃.trans r₄))))
  | .mark .assign =>
    let r₁ ← expect finish (.mark .assign) r.1
    let (value, r₂) ← expression finish .ternary r₁.1
    let r₃ ← expect finish (.mark .semicolon) r₂.1
    return (.assign (.symbol name) value l, r.trans (r₁.trans (r₂.trans r₃)))
  | _ => .error (unexpected finish .afterName r.1)

/-- The blocks that a piece of a script adds to it. -/
abbrev Chunk := List Block

mutual

/-- Takes a block in braces, as block number `base`.  Its chunk starts with the block itself. -/
def block (finish : Location) (base : Nat) (ts : List Token) :
    Except Error (Chunk × Shorter ts) := do
  let r ← expect finish (.mark .leftBrace) ts
  let (body, nested, r') ← statements finish (here finish ts) (base + 1) r.1
  return (body :: nested, r.trans r')
termination_by (ts.length, 0)
decreasing_by exact Shorter.lex_left _ _ _

/-- Takes statements up to and with the closing brace; `start` is where the opening brace was.
    The blocks nested in them get numbers from `base` on. -/
def statements (finish start : Location) (base : Nat) (ts : List Token) :
    Except Error (Block × Chunk × Shorter ts) := do
  match accept? (.mark .rightBrace) ts with
  | some r => return ([], [], r)
  | none =>
    if peek ts = .endOfFile then .error (.atLocation .unterminatedBlock start)
    else
      let (first, nested, r) ← statement finish base ts
      let (others, nested', r') ← statements finish start (base + nested.length) r.1
      return (first :: others, nested ++ nested', r.trans r')
termination_by (ts.length, 2)
decreasing_by
  · exact Prod.Lex.right _ (by decide)
  · exact Shorter.lex_left _ _ _

/-- Takes one statement. -/
def statement (finish : Location) (base : Nat) (ts : List Token) :
    Except Error (Statement × Chunk × Shorter ts) := do
  if peek ts = .keyword .ifWord then ifStatement finish base ts
  else
    let (s, r) ← simpleStatement finish ts
    return (s, [], r)
termination_by (ts.length, 1)
decreasing_by exact Prod.Lex.right _ (by decide)

/-- Takes an `if` with its branches. -/
def ifStatement (finish : Location) (base : Nat) (ts : List Token) :
    Except Error (Statement × Chunk × Shorter ts) := do
  let l := here finish ts
  let r₁ ← expect finish (.keyword .ifWord) ts
  let r₂ ← expect finish (.mark .leftParen) r₁.1
  let (condition, r₃) ← expression finish .ternary r₂.1
  let r₄ ← expect finish (.mark .rightParen) r₃.1
  let r := r₁.trans (r₂.trans (r₃.trans r₄))
  let (thenChunk, r₅) ← block finish base r.1
  let r := r.trans r₅
  match accept? (.keyword .elseWord) r.1 with
  | none => return (.ifElse condition base none l, thenChunk, r)
  | some r₆ =>
    let elseBlock := base + thenChunk.length
    let r := r.trans r₆
    if peek r.1 = .keyword .ifWord then
      let (inner, nested, r₇) ← ifStatement finish (elseBlock + 1) r.1
      return (.ifElse condition base (some elseBlock) l, thenChunk ++ [inner] :: nested,
        r.trans r₇)
    else
      let (elseChunk, r₇) ← block finish elseBlock r.1
      return (.ifElse condition base (some elseBlock) l, thenChunk ++ elseChunk, r.trans r₇)
termination_by (ts.length, 0)
decreasing_by all_goals exact Shorter.lex_left _ _ _

end

end ActorScript.Parser
