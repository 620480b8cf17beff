/-
  Scripts: what an actor's script declares and what its handlers do.

  The statement blocks of all handlers lie in one list, `Script.blocks`, and refer to each other
  by index.  A script need not come from a text: indices may dangle, and blocks may refer to
  each other in a circle.  Whatever runs a script has to cope with that, so a dangling index
  reads as a block without statements.
-/
import ActorScript.Expr
import ActorScript.Event
import ActorScript.Location

namespace ActorScript

/-- The index of a statement block in its script. -/
abbrev BlockId := Nat

/-- A statement of a handler.  An `ifElse` names the blocks of its branches. -/
inductive Statement
  | call (function : String) (args : List Expr) (location : Location)
  | assign (target : Reference) (value : Expr) (location : Location)
  | ifElse (condition : Expr) (thenBlock : BlockId) (elseBlock : Option BlockId)
      (location : Location)
deriving DecidableEq, Repr, Inhabited

namespace Statement

/-- Where the statement starts. -/
def location : Statement → Location
  | call _ _ l => l
  | assign _ _ l => l
  | ifElse _ _ _ l => l

/-- The functions a statement calls: a call statement first its own function, then those of its
    arguments. -/
def calls : Statement → List String
  | call f args _ => f :: Expr.callsList args
  | assign _ value _ => value.calls
  | ifElse condition _ _ _ => condition.calls

/-- The blocks a statement refers to. -/
def targets : Statement → List BlockId
  | call .. | assign .. => []
  | ifElse _ t e _ => t :: e.toList

end Statement

/-- The statements between two braces. -/
abbrev Block := List Statement

/-- A declaration `const NAME = value;`. -/
structure Constant where
  name : String
  value : Value
  location : Location
deriving DecidableEq, Repr, Inhabited

/-- A declaration `var name = value;`, or `saved var name = value;` for one that outlives the
    actor in the save store. -/
structure Variable where
  name : String
  persisted : Bool
  initial : Option Value
  location : Location
deriving DecidableEq, Repr, Inhabited

/-- A state: when it is active, and the block that handles each of its events. -/
structure State where
  name : String
  condition : Expr
  handlers : EventMap BlockId
  location : Location
deriving DecidableEq, Repr, Inhabited

/-- A script. -/
structure Script where
  constants : List Constant := []
  vars : List Variable := []
  states : List State := []
  blocks : List Block := []
deriving DecidableEq, Repr, Inhabited

namespace Script

/-- The value of the first constant with this name. -/
def constant? (s : Script) (name : String) : Option Value :=
  (s.constants.find? (·.name == name)).map (·.value)

/-- The first variable with this name. -/
def declared? (s : Script) (name : String) : Option Variable :=
  s.vars.find? (·.name == name)

/-- The first state with this name. -/
def state? (s : Script) (name : String) : Option State :=
  s.states.find? (·.name == name)

/-- The statements of a block; a dangling index has none. -/
def block (s : Script) (id : BlockId) : Block := (s.blocks[id]?).getD []

/-- The statement at a position of a block. -/
def statement? (s : Script) (id : BlockId) (index : Nat) : Option Statement := (s.block id)[index]?

/-- Whether a name is a declared variable that is not saved. -/
def isLocal (s : Script) (name : String) : Bool :=
  (s.declared? name).any (!·.persisted)

/-- Whether some variable is saved. -/
def hasSavedVariables (s : Script) : Bool := s.vars.any (·.persisted)

/-- Every call of a function in the script, with the location of the state or statement that
    holds it: first the conditions of the states, then the statements of the blocks. -/
def calledFunctions (s : Script) : List (String × Location) :=
  s.states.flatMap (fun st => st.condition.calls.map (·, st.location)) ++
    s.blocks.flatten.flatMap (fun st => st.calls.map (·, st.location))

end Script

end ActorScript
