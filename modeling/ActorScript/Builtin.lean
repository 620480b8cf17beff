/-
  The functions that every script can call.

  There are two kinds.  A `Procedure` is called as a statement and acts on the body of the actor;
  a `Function` is called inside an expression and changes nothing.  The two have no name in
  common, and calling one in the place of the other is a call of an unknown function.

  Both are actions on the body: what a call had done before it failed would stay done.  It has done
  nothing, since each of them checks its arguments first and has nothing to fail at once it acts.
  Arguments beyond those a function takes do not matter.
-/
import ActorScript.Action
import ActorScript.Body
import ActorScript.Context
import ActorScript.Facing
import ActorScript.StringTable

namespace ActorScript.Builtin

/-- The built-in functions for statements. -/
inductive Procedure
  | wait
  | print
  | triggerStateChange
  | lockInputs
  | unlockInputs
  | setOrientation
  | turnToFaceCharacter
  | walk
  | setParameter
deriving DecidableEq, Repr, Inhabited

namespace Procedure

/-- All procedures. -/
def all : List Procedure :=
  [wait, print, triggerStateChange, lockInputs, unlockInputs, setOrientation,
   turnToFaceCharacter, walk, setParameter]

/-- The name of a procedure. -/
def name : Procedure → String
  | wait => "wait"
  | print => "print"
  | triggerStateChange => "triggerStateChange"
  | lockInputs => "lockInputs"
  | unlockInputs => "unlockInputs"
  | setOrientation => "setOrientation"
  | turnToFaceCharacter => "turnToFaceCharacter"
  | walk => "walk"
  | setParameter => "setParameter"

/-- The procedure with a name, if there is one. -/
def ofName? (name : String) : Option Procedure := all.find? (·.name == name)

@[simp] theorem ofName?_name (p : Procedure) : ofName? p.name = some p := by
  cases p <;> decide

theorem name_of_ofName? {s : String} {p : Procedure} (h : ofName? s = some p) : p.name = s := by
  simpa using List.find?_some h

end Procedure

/-- The built-in functions for expressions. -/
inductive Function
  | getString
  | toString
  | inParameters
deriving DecidableEq, Repr, Inhabited

namespace Function

/-- All functions. -/
def all : List Function := [getString, toString, inParameters]

/-- The name of a function. -/
def name : Function → String
  | getString => "getString"
  | toString => "toString"
  | inParameters => "inParameters"

/-- The function with a name, if there is one. -/
def ofName? (name : String) : Option Function := all.find? (·.name == name)

@[simp] theorem ofName?_name (f : Function) : ofName? f.name = some f := by
  cases f <;> decide

theorem name_of_ofName? {s : String} {f : Function} (h : ofName? s = some f) : f.name = s := by
  simpa using List.find?_some h

end Function

/-- Whether a name is that of a built-in function of either kind. -/
def isKnown (name : String) : Bool :=
  (Procedure.ofName? name).isSome || (Function.ofName? name).isSome

/-! ## Arguments -/

/-- The argument with an index, counted from zero. -/
def argument (function : String) (args : List Value) (i : Nat) : Except Error Value :=
  match args[i]? with
  | some v => .ok v
  | none => .error (.invalidArgument function (.missing i))

/-- The argument with an index as what `read?` makes of it; `wanted` describes that. -/
def argumentAs {α : Type} (read? : Value → Option α) (wanted : String) (function : String)
    (args : List Value) (i : Nat) : Except Error α := do
  let v ← argument function args i
  match read? v with
  | some a => .ok a
  | none => .error (.invalidArgument function (.wrongType i wanted v.typeName))

/-- An argument that has to be an integer. -/
def intArgument : String → List Value → Nat → Except Error Int64 :=
  argumentAs Value.int? "an int"

/-- An argument that has to be a string. -/
def stringArgument : String → List Value → Nat → Except Error String :=
  argumentAs Value.string? "a string"

/-- The direction that a value names: an orientation, or a string with the name of one. -/
def direction? (v : Value) : Option Orientation :=
  v.orientation?.or (v.string?.bind Orientation.ofName?)

/-- An argument that has to name a direction. -/
def orientationArgument : String → List Value → Nat → Except Error Orientation :=
  argumentAs direction? "an orientation"

/-! ## What the functions do -/

/-- What an actor can perceive besides itself. -/
structure Surroundings where
  strings : StringTable
  /-- The tile of the player's character, if it is on the map. -/
  character : Option Tile := none
deriving DecidableEq, Repr, Inhabited

/-- The milliseconds that one step of a walk takes. -/
def walkDuration : UInt64 := 200

/-- What a procedure does with the body, and what it replies. -/
def Procedure.run (around : Surroundings) (p : Procedure) (args : List Value) :
    Action Body Reply := do
  match p with
  | wait =>
    let ms ← Action.lift (intArgument p.name args 0)
    if 0 ≤ ms then return .wait ms.toUInt64
    else Action.fail (.invalidArgument p.name (.negativeDuration ms.toInt))
  | print =>
    Action.update (·.issue (.print (String.join (args.map Value.text))))
    return .proceed
  | triggerStateChange => return .reselect
  | lockInputs =>
    Action.update (·.issue .lockInputs)
    return .proceed
  | unlockInputs =>
    Action.update (·.issue .unlockInputs)
    return .proceed
  | setOrientation =>
    let o ← Action.lift (orientationArgument p.name args 0)
    Action.update (·.turn o)
    return .proceed
  | turnToFaceCharacter =>
    Action.update fun b => around.character.elim b fun t => b.turn (b.position.facing t)
    return .proceed
  | walk =>
    let o ← Action.lift (orientationArgument p.name args 0)
    Action.update (·.walk o)
    return .wait walkDuration
  | setParameter =>
    let key ← Action.lift (stringArgument p.name args 0)
    let v ← Action.lift (argument p.name args 1)
    Action.update (·.setParameter key v)
    return .proceed

/-- What a function gives. -/
def Function.value (around : Surroundings) (f : Function) (args : List Value) :
    Action Body Value := do
  match f with
  | getString =>
    let key ← Action.lift (stringArgument f.name args 0)
    let text ← Action.lift (around.strings.format key (args.drop 1))
    return .string text
  | toString =>
    let v ← Action.lift (argument f.name args 0)
    return .string v.text
  | inParameters =>
    let key ← Action.lift (stringArgument f.name args 0)
    Action.look fun b => .bool (b.parameters.contains key)

/-- Calls the procedure with a name. -/
def callProcedure (around : Surroundings) (name : String) (args : List Value) :
    Action Body Reply :=
  match Procedure.ofName? name with
  | none => .fail (.unknownFunction name)
  | some p => p.run around args

/-- Calls the function with a name. -/
def callFunction (around : Surroundings) (name : String) (args : List Value) :
    Action Body Value :=
  match Function.ofName? name with
  | none => .fail (.unknownFunction name)
  | some f => f.value around args

end ActorScript.Builtin
