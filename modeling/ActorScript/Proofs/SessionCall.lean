/-
  What can be done with a session.

  A session is driven from outside by operations on all of its actors or on one of them; actors are
  added to it, and its scripts and the player's character change.  Every session comes about from
  one without actors by such operations (`Session.after`).  What all these histories have in common
  is that the machine of an actor belongs to this actor and to the map of the session
  (`Session.Placed`).
-/
import ActorScript.Proofs.Operation
import ActorScript.Session

namespace ActorScript

/-- An operation on a session. -/
inductive SessionOperation
  | add (disk : Disk) (spec : ActorSpec)
  | spawnAll
  | despawnAll
  | tick (dt : UInt64)
  | trigger (event : Event) (i : Nat)
  | drain
  | unload (disk : Disk)
  /-- The scripts that are kept and the texts for them are replaced. -/
  | setCache (cache : ScriptCache)
  | setCharacter (tile : Option Tile)

/-- Carries out an operation, which may fail, on a session. -/
def SessionOperation.perform (s : Session) : SessionOperation → Session
  | .add disk spec => (s.add disk spec).2
  | .spawnAll => s.spawnAll.2
  | .despawnAll => s.despawnAll
  | .tick dt => (Session.tick dt s).2
  | .trigger event i => (Session.trigger event i s).2
  | .drain => s.drain.2
  | .unload disk => (Session.unload (s, disk)).2.1
  | .setCache cache => { s with cache }
  | .setCharacter tile => { s with character := tile }

namespace Actor

/-- Whom the machine of an actor on a map belongs to. -/
def identity (mapName : String) (a : Actor) : Identity := ⟨mapName, a.name⟩

/-- The machine of the actor, if there is one, belongs to the actor and the map. -/
def PlacedOn (mapName : String) (a : Actor) : Prop :=
  ∀ m, a.machine = some m → m.identity = a.identity mapName

variable {mapName : String} {a : Actor}

/-- An operation that keeps the actor's name and leaves it a machine of its own. -/
def KeepsPlace (mapName : String) (op : Action (Actor × SaveStore) Unit) : Prop :=
  ∀ a s, a.PlacedOn mapName → (op (a, s)).2.1.PlacedOn mapName

/-- **An operation of the machine** leaves its identity as it is, and so the actor in its place. -/
theorem keepsPlace_withMachine (mapName : String) (around : Builtin.Surroundings) (op : Operation) :
    KeepsPlace mapName (withMachine (op.perform (host around))) := by
  intro a s ha
  rw [withMachine]
  cases hm : a.machine with
  | none => exact ha
  | some m =>
    rintro _ hm'
    cases hm'
    exact (Machine.identity_next m ⟨host around, (a.body, s), op⟩).trans (ha m hm)

/-- An actor that is not on the map stays as it is. -/
theorem KeepsPlace.onMap {op : Action (Actor × SaveStore) Unit} (h : KeepsPlace mapName op) :
    KeepsPlace mapName fun x => if x.1.spawned then op x else (.ok (), x) := by
  intro a s ha
  simp only
  split
  · exact h a s ha
  · exact ha

/-- A trigger is an operation of the machine. -/
theorem keepsPlace_trigger (mapName : String) (around : Builtin.Surroundings) (e : Event) :
    KeepsPlace mapName (trigger around e) :=
  (keepsPlace_withMachine mapName around (.trigger e)).onMap

/-- A frame is an operation of the machine. -/
theorem keepsPlace_update (mapName : String) (around : Builtin.Surroundings) (dt : UInt64) :
    KeepsPlace mapName (update around dt) :=
  (keepsPlace_withMachine mapName around (.newFrame dt)).onMap

/-- A spawn is an activation, if there is a machine to activate. -/
theorem keepsPlace_spawn (mapName : String) (around : Builtin.Surroundings) :
    KeepsPlace mapName (spawn around) := by
  intro a s ha
  rw [spawn]
  split
  · exact ha
  · exact keepsPlace_withMachine mapName around .activate { a with spawned := true } s ha

/-- A despawn ends the machine, and a machine that is ended is still the actor's. -/
theorem PlacedOn.despawn (h : a.PlacedOn mapName) : a.despawn.PlacedOn mapName := by
  rw [Actor.despawn]
  split
  · rintro m hm
    obtain ⟨m₀, hm₀, rfl⟩ := Option.map_eq_some_iff.mp hm
    exact h m₀ hm₀
  · exact h

/-- A machine is made for the map it is loaded on and with the name of its actor. -/
theorem placedOn_load {mapName : String} {options : MachineOptions} {d : Disk} {spec : ActorSpec}
    {cache cache' : ScriptCache} {r : Except Error Unit}
    (h : load mapName options d (ofSpec spec, cache) = (r, a, cache')) : a.PlacedOn mapName := by
  have hnone : (ofSpec spec).PlacedOn mapName := fun m hm => nomatch hm
  rw [load] at h
  split at h
  · cases h
    exact hnone
  · split at h
    · cases h
      exact hnone
    · split at h
      · cases h
        exact hnone
      · rename_i hm
        cases h
        rintro m hm'
        cases hm'
        rw [Machine.create_eq_ok hm]
        rfl

end Actor

namespace Session

/-- The machine of every actor belongs to this actor and the map of the session. -/
def Placed (s : Session) : Prop := ∀ a ∈ s.actors, a.PlacedOn s.mapName

/-- What leaves one actor in its place leaves all of them there, one after another. -/
theorem placed_forEach {op : Action (Actor × SaveStore) Unit} {mapName : String}
    (hop : Actor.KeepsPlace mapName op) {actors : List Actor}
    (h : ∀ a ∈ actors, a.PlacedOn mapName) (s : SaveStore) :
    ∀ a ∈ (forEach op actors s).2.1, a.PlacedOn mapName := by
  induction actors generalizing s with
  | nil => exact h
  | cons a rest ih =>
    obtain ⟨ha, hrest⟩ := List.forall_mem_cons.mp h
    exact List.forall_mem_cons.mpr ⟨hop a s ha, ih hrest _⟩

/-- What leaves one actor in its place leaves all of them there, if it is done with one. -/
theorem Placed.withActor {s : Session} (h : s.Placed)
    {op : Builtin.Surroundings → Action (Actor × SaveStore) Unit}
    (hop : ∀ around, Actor.KeepsPlace s.mapName (op around)) (i : Nat) :
    (Session.withActor op i s).2.Placed := by
  rw [Session.withActor]
  split
  · exact h
  · rename_i a hi
    rintro b hb
    rcases List.mem_or_eq_of_mem_set hb with hb | rfl
    · exact h b hb
    · exact hop _ a s.store (h a (List.mem_of_getElem? hi))

/-- **Every operation** leaves the actors machines of their own. -/
theorem placed_perform {s : Session} (h : s.Placed) (op : SessionOperation) :
    (op.perform s).Placed := by
  cases op with
  | add disk spec =>
    simp only [SessionOperation.perform, add]
    rcases hload : Actor.load s.mapName s.options disk (.ofSpec spec, s.cache) with
      ⟨_ | _, a, cache⟩
    · exact h
    · rintro b hb
      rcases List.mem_append.mp hb with hb | hb
      · exact h b hb
      · rw [List.mem_singleton.mp hb]
        exact Actor.placedOn_load hload
  | spawnAll => exact placed_forEach (Actor.keepsPlace_spawn _ _) h _
  | despawnAll =>
    rintro a ha
    obtain ⟨b, hb, rfl⟩ := List.mem_map.mp ha
    exact (h b hb).despawn
  | tick dt => exact placed_forEach (Actor.keepsPlace_update _ _ dt) h _
  | trigger event i => exact h.withActor (fun around => Actor.keepsPlace_trigger _ around event) i
  | drain =>
    rintro a ha
    obtain ⟨b, hb, rfl⟩ := List.mem_map.mp ha
    exact h b hb
  | unload disk =>
    rintro a ha
    cases ha
  | setCache cache => exact h
  | setCharacter tile => exact h

/-- The session after several operations, whether they succeed or fail. -/
def after (s : Session) : List SessionOperation → Session
  | [] => s
  | op :: ops => (op.perform s).after ops

/-- **All actors stay in their places**, whatever the session does. -/
theorem placed_after {s : Session} (h : s.Placed) (ops : List SessionOperation) :
    (s.after ops).Placed := by
  induction ops generalizing s with
  | nil => exact h
  | cons op ops ih => exact ih (placed_perform h op)

end Session

end ActorScript
