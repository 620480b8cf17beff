/-
  Surroundings for trying out scripts without a game.

  `flatContext` keeps every name and register in one dictionary; `recordingHost` keeps parameters
  and saved values.  Both know the same few functions, and both record what a script asks of
  them: every call before it is acted on, so that failing calls are recorded too.
-/
import ActorScript.Dict
import ActorScript.Host
import ActorScript.Script

namespace ActorScript.Recording

/-- What a script asked of its surroundings. -/
inductive Entry
  | call (function : String) (args : List Value)
  | value (function : String) (args : List Value)
  | read (key : String)
  | write (key : String) (v : Value)
  | store (slot : Slot) (v : Value)
deriving DecidableEq, Repr, Inhabited

/-- The functions for statements. -/
def callFunction (function : String) (args : List Value) : Except Error Reply :=
  match function with
  | "wait" => .ok (.wait ((args.head?.bind Value.int?).elim 0 fun n => UInt64.ofNat n.toInt.toNat))
  | "triggerStateChange" => .ok .reselect
  | "print" | "count" | "mark" => .ok .proceed
  | _ => .error (.unknownFunction function)

/-- The functions for expressions. -/
def callValue (function : String) (args : List Value) : Except Error Value :=
  match function with
  | "id" => .ok (args.head?.getD .absent)
  | "type" => .ok (.string (args.head?.elim "none" Value.typeName))
  | "toString" => .ok (.string (args.head?.elim "" Value.text))
  | "argc" => .ok (.int (Int64.ofNat args.length))
  | _ => .error (.unknownFunction function)

/-! ## One dictionary for everything -/

/-- The state of `flatContext`: what is stored, and the record. -/
structure Flat where
  symbols : Dict Value
  trace : List Entry := []
deriving Repr

/-- Adds an entry to the record. -/
def Flat.note (s : Flat) (e : Entry) : Flat := { s with trace := s.trace ++ [e] }

/-- A context with some constants, in which every reference is stored under its spelling. -/
def flatContext (constants : Dict Value) : Context Flat where
  constant name _ := constants.get? name
  read r s := ((s.symbols.get? r.text).getD .absent, s.note (.read r.text))
  callValue f args s := (callValue f args, s.note (.value f args))
  callFunction f args s := (callFunction f args, s.note (.call f args))
  write r v s :=
    let s := s.note (.write r.text v)
    (.ok (), { s with symbols := s.symbols.insert r.text v })

/-! ## Parameters and saved values -/

/-- The state of `recordingHost`: what is stored, and the record. -/
structure Storage where
  parameters : Dict Value
  saved : Dict Value
  trace : List Entry := []
deriving Repr

namespace Storage

/-- Adds an entry to the record. -/
def note (s : Storage) (e : Entry) : Storage := { s with trace := s.trace ++ [e] }

/-- What is stored in a slot. -/
def get? (s : Storage) : Slot → Option Value
  | .parameter key => s.parameters.get? key
  | .saved key => s.saved.get? key

/-- Stores a value in a slot. -/
def set (s : Storage) (slot : Slot) (v : Value) : Storage :=
  match slot with
  | .parameter key => { s with parameters := s.parameters.insert key v }
  | .saved key => { s with saved := s.saved.insert key v }

end Storage

/-- The key of a slot. -/
def slotKey : Slot → String
  | .parameter key | .saved key => key

/-- A host that stores what it is given, except under the keys in `refused`. -/
def recordingHost (refused : List String) : Host Storage where
  callFunction f args s := (callFunction f args, s.note (.call f args))
  callValue f args s := (callValue f args, s.note (.value f args))
  read slot s := (s.get? slot).getD .absent
  write slot v s :=
    let s := s.note (.store slot v)
    if refused.contains (slotKey slot) then (.error (.saveStore "write refused"), s)
    else (.ok (), s.set slot v)

end ActorScript.Recording
