/-
  Scripts as JSON.

  A script is an object of its declarations and blocks.  Expressions, references and statements
  are objects that name their kind and hold the fields of that kind; the handlers of a state are
  an object from event names to block numbers.  What can be left out when a script is read are
  the default of a variable and the block of an `else`, which may also be null.

  An expression or statement inside a declaration is read as a whole before its kind is known, so
  it has to be representable in every part and must not be nested too deep (`wholesReadable`);
  members of a declaration that do not belong to it are passed over without looking inside.
-/
import ActorScript.Value.Json
import ActorScript.Json.Part
import ActorScript.Json.Reader
import ActorScript.Script

namespace ActorScript

/-! ## Writing -/

namespace Location

/-- Writes a location. -/
def toJson (l : Location) : Json := .object [("line", .int l.line), ("column", .int l.column)]

end Location

namespace UnaryOp

/-- All operators with one operand. -/
def all : List UnaryOp := [not, negate]

/-- The word for an operator in JSON. -/
def word : UnaryOp → String
  | not => "not"
  | negate => "negate"

end UnaryOp

namespace BinaryOp

/-- All operators with two operands. -/
def all : List BinaryOp :=
  [add, subtract, multiply, divide, equal, notEqual, less, lessEqual, greater, greaterEqual, and,
   or]

/-- The word for an operator in JSON. -/
def word : BinaryOp → String
  | add => "add"
  | subtract => "subtract"
  | multiply => "multiply"
  | divide => "divide"
  | equal => "equal"
  | notEqual => "notEqual"
  | less => "less"
  | lessEqual => "lessEqual"
  | greater => "greater"
  | greaterEqual => "greaterEqual"
  | and => "and"
  | or => "or"

end BinaryOp

namespace Register

/-- Writes a register. -/
def toJson (r : Register) : Json :=
  .object [("space", .string r.space.keyword), ("key", .string r.key)]

end Register

namespace Reference

/-- Writes a reference. -/
def toJson : Reference → Json
  | register r => .object [("kind", .string "register"), ("register", r.toJson)]
  | symbol name => .object [("kind", .string "symbol"), ("name", .string name)]

end Reference

namespace Expr

mutual

/-- Writes an expression. -/
def toJson : Expr → Json
  | literal v => .object [("kind", .string "literal"), ("value", v.toJson)]
  | symbol name => .object [("kind", .string "symbol"), ("name", .string name)]
  | register r => .object [("kind", .string "register"), ("register", r.toJson)]
  | call f args =>
    .object [("kind", .string "call"), ("name", .string f), ("args", .array (toJsonList args))]
  | unary op e =>
    .object [("kind", .string "unary"), ("op", .string op.word), ("operand", toJson e)]
  | binary op l r =>
    .object [("kind", .string "binary"), ("op", .string op.word), ("lhs", toJson l),
      ("rhs", toJson r)]
  | ternary c t e =>
    .object [("kind", .string "ternary"), ("condition", toJson c), ("then_expr", toJson t),
      ("else_expr", toJson e)]

/-- Writes expressions. -/
def toJsonList : List Expr → List Json
  | [] => []
  | e :: es => toJson e :: toJsonList es

end

end Expr

namespace Statement

/-- Writes a statement. -/
def toJson : Statement → Json
  | call f args l =>
    .object [("kind", .string "call"), ("name", .string f), ("args", .array (Expr.toJsonList args)),
      ("location", l.toJson)]
  | assign target value l =>
    .object [("kind", .string "affectation"), ("target", target.toJson), ("value", value.toJson),
      ("location", l.toJson)]
  | ifElse c t e l =>
    .object [("kind", .string "if"), ("condition", c.toJson), ("then_block", .int t),
      ("else_block", e.elim .null fun b => .int b), ("location", l.toJson)]

end Statement

namespace Script

/-- Writes the declaration of a constant. -/
def constantToJson (c : Constant) : Json :=
  .object [("name", .string c.name), ("value", c.value.toJson), ("location", c.location.toJson)]

/-- Writes the declaration of a variable. -/
def variableToJson (v : Variable) : Json :=
  .object [("name", .string v.name), ("persisted", .bool v.persisted),
    ("default", v.initial.elim .null Value.toJson), ("location", v.location.toJson)]

/-- Writes a state. -/
def stateToJson (st : State) : Json :=
  .object [("name", .string st.name), ("condition", st.condition.toJson),
    ("events", .object (st.handlers.toList.map fun p => (p.1.name, .int p.2))),
    ("location", st.location.toJson)]

/-- Writes a block. -/
def blockToJson (b : Block) : Json := .object [("statements", .array (b.map Statement.toJson))]

/-- Writes a script. -/
def toJson (s : Script) : Json :=
  .object [("constants", .array (s.constants.map constantToJson)),
    ("variables", .array (s.vars.map variableToJson)),
    ("states", .array (s.states.map stateToJson)),
    ("blocks", .array (s.blocks.map blockToJson))]

end Script

/-! ## Reading -/

namespace Json

/-- The value of a field that has to be there. -/
def required? (field : Option Json) (read : Json → Option α) : Option α := field.bind read

/-- The value of a field that may be missing or null. -/
def optional? (field : Option Json) (read : Json → Option α) : Option (Option α) :=
  match field with
  | none | some .null => some none
  | some j => (read j).map some

/-- The items of an array, read one by one. -/
def listOf? (read : Json → Option α) (j : Json) : Option (List α) := do
  (← j.items?).mapM read

end Json

namespace Location

/-- Reads a location. -/
def ofJson? (j : Json) : Option Location := do
  let [line, column] ← j.fields? ["line", "column"] | none
  return ⟨← Json.required? line Json.nat?, ← Json.required? column Json.nat?⟩

end Location

namespace Register

/-- Reads a register. -/
def ofJson? (j : Json) : Option Register := do
  let [space, key] ← j.fields? ["space", "key"] | none
  let word ← Json.required? space (·.choice? true)
  return ⟨← RegisterSpace.ofKeyword? word, ← Json.required? key Json.string?⟩

end Register

namespace Reference

/-- Reads a reference. -/
def ofJson? (j : Json) : Option Reference := do
  let (kind, rest) ← j.tagged? true ["register", "symbol"]
  match kind with
  | "register" => do
    let [r] ← rest.fields? ["register"] | none
    return .register (← Json.required? r Register.ofJson?)
  | "symbol" => do
    let [name] ← rest.fields? ["name"] | none
    return .symbol (← Json.required? name Json.string?)
  | _ => none

end Reference

namespace Expr

/-- The kinds of expressions. -/
def kinds : List String :=
  ["literal", "symbol", "register", "call", "unary", "binary", "ternary"]

/-- Reads the operator of a unary expression. -/
def unaryOp? (j : Json) : Option UnaryOp := do
  let word ← j.choice? true
  UnaryOp.all.find? (·.word == word)

/-- Reads the operator of a binary expression. -/
def binaryOp? (j : Json) : Option BinaryOp := do
  let word ← j.choice? true
  BinaryOp.all.find? (·.word == word)

/-- The fields of an expression of some kind. -/
def fieldNames : String → List String
  | "literal" => ["value"]
  | "symbol" => ["name"]
  | "register" => ["register"]
  | "call" => ["name", "args"]
  | "unary" => ["op", "operand"]
  | "binary" => ["op", "lhs", "rhs"]
  | "ternary" => ["condition", "then_expr", "else_expr"]
  | _ => []

/-- Reads an expression; `nested` tells whether it is a part of another document. -/
def ofJson? (nested : Bool) (j : Json) : Option Expr := do
  let (kind, parts) ← j.taggedParts? nested kinds fieldNames
  match kind, parts with
  | "literal", [some v] => return .literal (← Value.ofJson? true v.1)
  | "symbol", [some name] => return .symbol (← name.1.string?)
  | "register", [some r] => return .register (← Register.ofJson? r.1)
  | "call", [some name, some args] => do
    let args ← (← args.items?).mapM fun a => ofJson? true a.1
    return .call (← name.1.string?) args
  | "unary", [some op, some e] => return .unary (← unaryOp? op.1) (← ofJson? true e.1)
  | "binary", [some op, some l, some r] =>
    return .binary (← binaryOp? op.1) (← ofJson? true l.1) (← ofJson? true r.1)
  | "ternary", [some c, some t, some e] =>
    return .ternary (← ofJson? true c.1) (← ofJson? true t.1) (← ofJson? true e.1)
  | _, _ => none
termination_by sizeOf j
decreasing_by all_goals exact Json.Part.sizeOf_lt _

end Expr

namespace Statement

/-- Reads a statement. -/
def ofJson? (j : Json) : Option Statement := do
  let (kind, rest) ← j.tagged? false ["call", "affectation", "if"]
  match kind with
  | "call" => do
    let [name, args, l] ← rest.fields? ["name", "args", "location"] | none
    return .call (← Json.required? name Json.string?)
      (← Json.required? args (Json.listOf? (Expr.ofJson? true)))
      (← Json.required? l Location.ofJson?)
  | "affectation" => do
    let [target, value, l] ← rest.fields? ["target", "value", "location"] | none
    return .assign (← Json.required? target Reference.ofJson?)
      (← Json.required? value (Expr.ofJson? true)) (← Json.required? l Location.ofJson?)
  | "if" => do
    let [c, t, e, l] ← rest.fields? ["condition", "then_block", "else_block", "location"] | none
    return .ifElse (← Json.required? c (Expr.ofJson? true)) (← Json.required? t Json.nat?)
      (← Json.optional? e Json.nat?) (← Json.required? l Location.ofJson?)
  | _ => none

end Statement

namespace Script

/-- Reads the declaration of a constant. -/
def constantOfJson? (j : Json) : Option Constant := do
  let [name, value, l] ← j.fields? ["name", "value", "location"] | none
  return ⟨← Json.required? name Json.string?, ← Json.required? value (Value.ofJson? false),
    ← Json.required? l Location.ofJson?⟩

/-- Reads the declaration of a variable. -/
def variableOfJson? (j : Json) : Option Variable := do
  let [name, persisted, initial, l] ←
    j.fields? ["name", "persisted", "default", "location"] | none
  return ⟨← Json.required? name Json.string?, ← Json.required? persisted Json.bool?,
    ← Json.optional? initial (Value.ofJson? false), ← Json.required? l Location.ofJson?⟩

/-- Reads the handlers of a state; for an event that occurs twice the last block counts. -/
def handlersOfJson? (j : Json) : Option (EventMap BlockId) := do
  let entries ← (← j.members?).mapM fun (name, b) => do
    return (← Event.ofName? name, ← b.nat?)
  return entries.foldl (fun m p => m.insert p.1 p.2) .empty

/-- Reads a state. -/
def stateOfJson? (j : Json) : Option State := do
  let [name, condition, events, l] ←
    j.fields? ["name", "condition", "events", "location"] | none
  return ⟨← Json.required? name Json.string?, ← Json.required? condition (Expr.ofJson? false),
    ← Json.required? events handlersOfJson?, ← Json.required? l Location.ofJson?⟩

/-- Reads a block. -/
def blockOfJson? (j : Json) : Option Block := do
  let [statements] ← j.fields? ["statements"] | none
  Json.required? statements (Json.listOf? Statement.ofJson?)

/-- **Reads a script** from a JSON document. -/
def ofJson? (j : Json) : Option Script := do
  let [constants, vars, states, blocks] ←
    j.fields? ["constants", "variables", "states", "blocks"] | none
  return {
    constants := ← Json.required? constants (Json.listOf? constantOfJson?)
    vars := ← Json.required? vars (Json.listOf? variableOfJson?)
    states := ← Json.required? states (Json.listOf? stateOfJson?)
    blocks := ← Json.required? blocks (Json.listOf? blockOfJson?) }

/-- The values of a field in all records of a list, which is itself a field of a document. -/
def collect (names : List String) (list : Nat) (inner : List String) (field : Nat) (j : Json) :
    List Json :=
  let records := ((j.fields? names).bind (·[list]?.join)).bind Json.items?
  (records.getD []).filterMap fun r => (r.fields? inner).bind (·[field]?.join)

/-- Whether the parts of a script that are read as a whole, its conditions and statements, can be
    represented and are not nested too deep: at most 127 arrays and objects may lie in each
    other, of which a condition has three around it and a statement four. -/
def wholesReadable (j : Json) : Bool :=
  let names := ["constants", "variables", "states", "blocks"]
  let conditions := collect names 2 ["name", "condition", "events", "location"] 1 j
  let statements := (collect names 3 ["statements"] 0 j).flatMap fun b => b.items?.getD []
  conditions.all (fun c => c.readable && c.height ≤ 124) &&
    statements.all (fun st => st.readable && st.height ≤ 123)

/-- The script that a JSON text spells. -/
def ofJsonText? (source : String) : Option Script := do
  let j ← Json.parse? source
  if wholesReadable j then ofJson? j else none

end Script

end ActorScript
