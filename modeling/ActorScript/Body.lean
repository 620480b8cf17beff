/-
  What scripts can do to their actor.

  The body of an actor is everything about it that its script can see and change: where it stands,
  where it looks, its parameters, and the commands for the game that have not been taken yet.  A
  turn or a walk changes the body and issues the command for it in one step, so the commands
  always tell how the actor got where it is (`Command.apply`).
-/
import ActorScript.Dict
import ActorScript.Value

namespace ActorScript

/-- Something the game has to show or do for an actor. -/
inductive Command
  | print (text : String)
  | lockInputs
  | unlockInputs
  | setOrientation (o : Orientation)
  | walk (o : Orientation) (start goal : Tile)
deriving DecidableEq, Repr, Inhabited

/-- Where an actor stands and looks after a command. -/
def Command.apply : Command → Tile × Orientation → Tile × Orientation
  | setOrientation o, (t, _) => (t, o)
  | walk o _ goal, _ => (goal, o)
  | _, s => s

/-- The part of an actor that belongs to its script. -/
structure Body where
  position : Tile
  orientation : Orientation
  parameters : Dict Value := .empty
  /-- The commands that have not been taken yet, in the order in which they were issued. -/
  commands : List Command := []
deriving DecidableEq, Repr, Inhabited

namespace Body

/-- Issues a command. -/
def issue (b : Body) (c : Command) : Body := { b with commands := b.commands ++ [c] }

/-- Turns the actor. -/
def turn (b : Body) (o : Orientation) : Body :=
  { b with orientation := o }.issue (.setOrientation o)

/-- Turns the actor and moves it one tile ahead. -/
def walk (b : Body) (o : Orientation) : Body :=
  { b with position := b.position.step o, orientation := o }.issue
    (.walk o b.position (b.position.step o))

/-- Changes a parameter. -/
def setParameter (b : Body) (key : String) (v : Value) : Body :=
  { b with parameters := b.parameters.insert key v }

end Body

end ActorScript
