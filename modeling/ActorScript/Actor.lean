/-
  Actors: the things on a map that have a script.

  An actor is the machine that runs its script, together with its body.  Nothing happens to an
  actor that is not on the map (`spawned`), and an actor without a machine does nothing by itself.
  An actor that leaves the map keeps its body: its place, its parameters and the commands that
  have not been taken.
-/
import ActorScript.Builtin
import ActorScript.Machine
import ActorScript.SaveStore
import ActorScript.ScriptCache

namespace ActorScript

/-- How an actor is placed on a map. -/
structure ActorSpec where
  name : Option String := none
  position : Tile := ⟨0, 0⟩
  orientation : Orientation := .down
  parameters : Dict Value := .empty
  script : Option String := none
deriving DecidableEq, Repr, Inhabited

/-- Something on a map that has a script. -/
structure Actor where
  name : Option String
  /-- How the actor is called in reports, whether it has a name or not. -/
  label : String
  script : Option String
  body : Body
  machine : Option Machine := none
  /-- Whether the actor is on the map. -/
  spawned : Bool := false
deriving DecidableEq, Repr

namespace Actor

/-- A new actor, which is not on the map yet and has no machine. -/
def ofSpec (spec : ActorSpec) : Actor where
  name := spec.name
  label := spec.name.getD
    ("actor@" ++ toString spec.position.x ++ "," ++ toString spec.position.y)
  script := spec.script
  body := {
    position := spec.position
    orientation := spec.orientation
    parameters := spec.parameters }

/-- The state that the actor's machine is in. -/
def state? (a : Actor) : Option State := a.machine.bind (·.state?)

/-- Fetches the actor's script and gives the actor a new machine for it, if it has a script. -/
def load (mapName : String) (options : MachineOptions) (d : Disk) :
    Action (Actor × ScriptCache) Unit := fun (a, c) =>
  match a.script with
  | none => (.ok (), a, c)
  | some scriptName =>
    match ScriptCache.load d ⟨mapName, scriptName⟩ c with
    | (.error e, c) => (.error e, a, c)
    | (.ok script, c) =>
      match Machine.create script ⟨mapName, a.name⟩ options with
      | .error e => (.error e, a, c)
      | .ok m => (.ok (), { a with machine := some m }, c)

/-- What an actor's script can reach: the built-in functions, the actor's body and the save
    store. -/
def host (around : Builtin.Surroundings) : Host (Body × SaveStore) where
  callFunction name args := fun (b, s) =>
    let (r, b) := Builtin.callProcedure around name args b
    (r, b, s)
  callValue name args := fun (b, s) =>
    let (r, b) := Builtin.callFunction around name args b
    (r, b, s)
  read slot := fun (b, s) =>
    match slot with
    | .parameter key => (b.parameters.get? key).getD .absent
    | .saved key => (s.get? key).getD .absent
  write slot v := fun (b, s) =>
    match slot with
    | .parameter key => (.ok (), b.setParameter key v, s)
    | .saved key => (.ok (), b, s.set key v)

/-- Lets the machine of an actor do something, if there is one. -/
def withMachine (op : Action (Machine × Body × SaveStore) Unit) :
    Action (Actor × SaveStore) Unit := fun (a, s) =>
  match a.machine with
  | none => (.ok (), a, s)
  | some m =>
    let (r, m, body, s) := op (m, a.body, s)
    (r, { a with machine := some m, body }, s)

/-- Puts the actor on the map and activates its script. -/
def spawn (around : Builtin.Surroundings) : Action (Actor × SaveStore) Unit := fun (a, s) =>
  if a.spawned then (.ok (), a, s)
  else withMachine (Machine.activate (host around)) ({ a with spawned := true }, s)

/-- Takes the actor off the map and resets its machine. -/
def despawn (a : Actor) : Actor :=
  if a.spawned then { a with spawned := false, machine := a.machine.map Machine.despawn } else a

/-- Tells an actor on the map that something has happened. -/
def trigger (around : Builtin.Surroundings) (event : Event) : Action (Actor × SaveStore) Unit :=
  fun (a, s) =>
    if a.spawned then withMachine (Machine.trigger (host around) event) (a, s) else (.ok (), a, s)

/-- Lets a frame of `dt` milliseconds pass for an actor on the map. -/
def update (around : Builtin.Surroundings) (dt : UInt64) : Action (Actor × SaveStore) Unit :=
  fun (a, s) =>
    if a.spawned then withMachine (Machine.newFrame (host around) dt) (a, s) else (.ok (), a, s)

/-- Takes the commands that the actor has issued since the last time. -/
def drain (a : Actor) : List Command × Actor :=
  (a.body.commands, { a with body := { a.body with commands := [] } })

end Actor

end ActorScript
