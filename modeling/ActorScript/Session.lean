/-
  Sessions: all actors of a map together.

  The actors share the save store, the scripts and the texts of the session.  An operation on all
  of them goes on after a failure, so that each actor gets its turn, and reports the first error.
  Actors are known by their index, which is the order in which they were added.
-/
import ActorScript.Actor
import ActorScript.Text.Visible

namespace ActorScript

/-- A loaded map with its actors. -/
structure Session where
  mapName : String
  cache : ScriptCache
  store : SaveStore := {}
  strings : StringTable := {}
  options : MachineOptions := {}
  actors : List Actor := []
  /-- The tile of the player's character, if it is on the map. -/
  character : Option Tile := none
deriving Repr

namespace Session

/-- What the actors of the session can perceive. -/
def surroundings (s : Session) : Builtin.Surroundings :=
  { strings := s.strings, character := s.character }

/-- Registers the text of a script. -/
def insertSource (s : Session) (k : ScriptKey) (source : String) : Session :=
  { s with cache := s.cache.insertSource k source }

/-- Loads an actor and adds it to the session, not yet on the map; gives its index. -/
def add (d : Disk) (spec : ActorSpec) : Action Session Nat := fun s =>
  match Actor.load s.mapName s.options d (.ofSpec spec, s.cache) with
  | (.error e, _, cache) => (.error e, { s with cache })
  | (.ok (), a, cache) => (.ok s.actors.length, { s with cache, actors := s.actors ++ [a] })

/-- The index of the first actor with a name. -/
def find? (s : Session) (name : String) : Option Nat :=
  s.actors.findIdx? (·.name = some name)

/-! ## Operations on actors -/

/-- Does something with every actor in order, whatever becomes of the others; the error is the
    first one. -/
def forEach (op : Action (Actor × SaveStore) Unit) :
    List Actor → SaveStore → Except Error Unit × List Actor × SaveStore
  | [], store => (.ok (), [], store)
  | a :: rest, store =>
    let (r, a', store) := op (a, store)
    let (r', rest', store) := forEach op rest store
    (match r with | .error e => .error e | .ok () => r', a' :: rest', store)

/-- Does something with all actors. -/
def withAll (op : Builtin.Surroundings → Action (Actor × SaveStore) Unit) :
    Action Session Unit := fun s =>
  let (r, actors, store) := forEach (op s.surroundings) s.actors s.store
  (r, { s with actors, store })

/-- Does something with one actor; nothing if there is none with this index. -/
def withActor (op : Builtin.Surroundings → Action (Actor × SaveStore) Unit) (i : Nat) :
    Action Session Unit := fun s =>
  match s.actors[i]? with
  | none => (.ok (), s)
  | some a =>
    let (r, a, store) := op s.surroundings (a, s.store)
    (r, { s with actors := s.actors.set i a, store })

/-- Puts all actors on the map. -/
def spawnAll : Action Session Unit := withAll Actor.spawn

/-- Takes all actors off the map. -/
def despawnAll (s : Session) : Session := { s with actors := s.actors.map Actor.despawn }

/-- Lets a frame of `dt` milliseconds pass. -/
def tick (dt : UInt64) : Action Session Unit := withAll fun around => Actor.update around dt

/-- Tells an actor that something has happened. -/
def trigger (event : Event) (i : Nat) : Action Session Unit :=
  withActor (fun around => Actor.trigger around event) i

/-- Takes the commands that the actors have issued since the last time, actor by actor, each
    with the index of its actor. -/
def drain (s : Session) : List (Nat × Command) × Session :=
  ((s.actors.mapIdx fun i a => a.drain.1.map (i, ·)).flatten,
    { s with actors := s.actors.map (·.drain.2) })

/-- Takes all actors off the map, forgets them and their scripts and writes the save store. -/
def unload : Action (Session × Disk) Unit := fun (s, d) =>
  let (r, store, d) := SaveStore.flush (s.store, d)
  (r, { s with store, actors := [], cache := s.cache.clear }, d)

/-- A one-line description of the session; the map's name is quoted. -/
def summary (s : Session) : String :=
  "MapSession \x7b map_name: " ++ Text.quoteVisible s.mapName ++
    ", actors: " ++ toString s.actors.length ++
    ", cached_scripts: " ++ toString s.cache.size ++ " \x7d"

end Session

end ActorScript
