/-
  Who a script belongs to.

  Saved variables live in one store for all actors, under the key `map.actor.variable`; an actor
  without a name has nothing to save them under.
-/
import ActorScript.Error

namespace ActorScript

/-- The map an actor is on, and its name if it has one. -/
structure Identity where
  mapName : String
  actorName : Option String
deriving DecidableEq, Repr, Inhabited

namespace Identity

/-- The key of a saved variable in the store. -/
def savedKey (i : Identity) (name : String) : Except Error String :=
  match i.actorName with
  | some actor => .ok (i.mapName ++ "." ++ actor ++ "." ++ name)
  | none => .error (.missingActorName name)

/-- How the actor is named in messages. -/
def displayName (i : Identity) : String :=
  match i.actorName with
  | some actor => actor
  | none => "<unnamed actor on " ++ i.mapName ++ ">"

end Identity

end ActorScript
