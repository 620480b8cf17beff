/-
  Where the names and registers of a script are stored.

  A variable that is not saved lives in the machine, in the dictionary of its locals.  Everything
  else is the host's: parameters, and saved variables under their key.  `variables[x]` reaches a
  local if `x` is one and the saved entry of that name if not.  `messageParameters` is reserved:
  it reads as absent and takes no values.  `registers` puts all of this together into the context
  in which the handlers of a machine run; its state is the locals and the state of the host.
-/
import ActorScript.Script
import ActorScript.Host
import ActorScript.Dict
import ActorScript.Machine.Identity

namespace ActorScript

/-- The values of the variables that are not saved. -/
abbrev Locals := Dict Value

namespace Locals

/-- The locals of a script before it runs: every variable that is not saved with its default, or
    absent if it has none. -/
def initial (script : Script) : Locals :=
  .ofList <| (script.vars.filter (!·.persisted)).map fun v =>
    (v.name, v.initial.getD .absent)

end Locals

namespace Registers

variable {σ : Type}

/-- Reads a saved variable; an actor without a name reads nothing. -/
def readSaved (identity : Identity) (host : Host σ) (name : String) (s : σ) : Value :=
  match identity.savedKey name with
  | .ok key => host.read (.saved key) s
  | .error _ => .absent

/-- Reads a variable by name: a local, or else the saved variable. -/
def readVariable (script : Script) (identity : Identity) (host : Host σ) (name : String)
    (s : Locals × σ) : Value :=
  if script.isLocal name then (s.1.get? name).getD .absent
  else readSaved identity host name s.2

/-- Reads a name that is no constant, or a register. -/
def read (script : Script) (identity : Identity) (host : Host σ) (r : Reference)
    (s : Locals × σ) : Value :=
  match r with
  | .symbol name =>
    if (script.declared? name).isSome then readVariable script identity host name s else .absent
  | .register ⟨.parameters, key⟩ => host.read (.parameter key) s.2
  | .register ⟨.vars, key⟩ => readVariable script identity host key s
  | .register ⟨.savedVariables, key⟩ => readSaved identity host key s.2
  | .register ⟨.messageParameters, _⟩ => .absent

/-- An action of the host, next to the locals. -/
def onHost {α : Type} (a : Action σ α) : Action (Locals × σ) α := fun s =>
  ((a s.2).1, (s.1, (a s.2).2))

/-- Writes a saved variable. -/
def writeSaved (identity : Identity) (host : Host σ) (name : String) (v : Value) :
    Action (Locals × σ) Unit := do
  let key ← .lift (identity.savedKey name)
  onHost (host.write (.saved key) v)

/-- Writes a variable by name: a local, or else the saved variable. -/
def writeVariable (script : Script) (identity : Identity) (host : Host σ) (name : String)
    (v : Value) : Action (Locals × σ) Unit :=
  if script.isLocal name then .update fun s => (s.1.insert name v, s.2)
  else writeSaved identity host name v

/-- Assigns to a name or a register. -/
def write (script : Script) (identity : Identity) (host : Host σ) (r : Reference) (v : Value) :
    Action (Locals × σ) Unit :=
  match r with
  | .symbol name =>
    if (script.constant? name).isSome then .fail (.constantAssignment name)
    else if (script.declared? name).isNone then .fail (.unknownSymbol name)
    else writeVariable script identity host name v
  | .register ⟨.parameters, key⟩ => onHost (host.write (.parameter key) v)
  | .register ⟨.vars, key⟩ => writeVariable script identity host key v
  | .register ⟨.savedVariables, key⟩ => writeSaved identity host key v
  | .register ⟨.messageParameters, _⟩ => pure ()

end Registers

/-- The context of a machine's handlers.  `describe` says what is told to the host about a
    statement that is about to be executed. -/
def registers {σ : Type} (script : Script) (identity : Identity) (host : Host σ)
    (describe : Position → Option Step := fun _ => none) : Context (Locals × σ) where
  constant name _ := script.constant? name
  read r s := (Registers.read script identity host r s, s)
  callValue f args := Registers.onHost (host.callValue f args)
  callFunction f args := Registers.onHost (host.callFunction f args)
  write := Registers.write script identity host
  observe p s :=
    match describe p with
    | some step => (s.1, host.observe step s.2)
    | none => s

end ActorScript
