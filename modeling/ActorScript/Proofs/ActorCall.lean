/-
  What can be done with an actor.

  An `ActorCall` is an operation on an actor together with what the actor perceives and with the
  saved values at that moment.  Nothing ties the calls of a history to each other: the texts, the
  player's character, the saved values and the cache with the scripts may change in any way in
  between.  What every history has in common is that the actor keeps its name and that of its
  script, and that its machine, if it has one, was made from a script the cache has given
  (`Actor.Runs`).
-/
import ActorScript.Proofs.Operation
import ActorScript.Actor

namespace ActorScript

/-- An operation on an actor. -/
inductive ActorOperation
  /-- Its script is fetched from a cache. -/
  | load (mapName : String) (options : MachineOptions) (disk : Disk) (cache : ScriptCache)
  | spawn
  | despawn
  | trigger (event : Event)
  | update (dt : UInt64)
  | drain

/-- An operation, with what the actor perceives and the saved values. -/
structure ActorCall where
  around : Builtin.Surroundings
  store : SaveStore
  operation : ActorOperation

/-- Carries out an operation on an actor. -/
def ActorCall.perform (c : ActorCall) (a : Actor) : Except Error Unit × Actor :=
  match c.operation with
  | .load mapName options disk cache =>
    let (r, a, _) := Actor.load mapName options disk (a, cache)
    (r, a)
  | .spawn =>
    let (r, a, _) := Actor.spawn c.around (a, c.store)
    (r, a)
  | .despawn => (.ok (), a.despawn)
  | .trigger event =>
    let (r, a, _) := Actor.trigger c.around event (a, c.store)
    (r, a)
  | .update dt =>
    let (r, a, _) := Actor.update c.around dt (a, c.store)
    (r, a)
  | .drain => (.ok (), a.drain.2)

namespace Actor

/-- The actor after a history of calls, whether they succeed or fail. -/
def after (a : Actor) : List ActorCall → Actor
  | [] => a
  | c :: cs => (c.perform a).2.after cs

variable {a b : Actor} {s : Script} {name : Option String}

/-- The actor's machine, if it has one, runs this script, and the actor has the script of this
    name. -/
structure Runs (a : Actor) (s : Script) (name : Option String) : Prop where
  machine : ∀ m, a.machine = some m → m.script = s
  script : a.script = name

theorem runs_ofSpec (spec : ActorSpec) (s : Script) : (ofSpec spec).Runs s spec.script := by
  refine ⟨fun m hm => ?_, rfl⟩
  have hnone : (ofSpec spec).machine = none := rfl
  exact absurd (hnone.symm.trans hm) (Option.some_ne_none m).symm

theorem Runs.congr (h : a.Runs s name) (hmachine : b.machine = a.machine)
    (hscript : b.script = a.script) : b.Runs s name :=
  ⟨fun m hm => h.machine m (hmachine ▸ hm), hscript.trans h.script⟩

theorem Runs.despawn (h : a.Runs s name) : a.despawn.Runs s name := by
  rw [Actor.despawn]
  split
  · refine ⟨fun m hm => ?_, h.script⟩
    obtain ⟨m₀, hm₀, rfl⟩ := Option.map_eq_some_iff.mp hm
    exact h.machine m₀ hm₀
  · exact h

end Actor

/-! ## Where scripts come from -/

/-- Whatever the cache gives for a key, it was made from this text. -/
structure ScriptCache.Holds (c : ScriptCache) (d : Disk) (k : ScriptKey) (source : String) :
    Prop where
  parsed : ∀ script, k.find? c.parsed = some script → Script.parse source = .ok script
  registered : ∀ text, k.find? c.sources = some text → text = source
  file : k.find? c.sources = none → ∀ text, d.readText (k.path c.root) = .ok text → text = source

theorem ScriptCache.holds_insertSource (c : ScriptCache) (d : Disk) (k : ScriptKey)
    (source : String) : (c.insertSource k source).Holds d k source := by
  have hparsed : k.find? (c.insertSource k source).parsed = none := by
    rw [insertSource, ScriptKey.find?_drop, if_pos rfl]
  have hsource : k.find? (c.insertSource k source).sources = some source := by
    rw [insertSource, ScriptKey.find?_put, if_pos rfl]
  refine ⟨fun s h => ?_, fun text h => ?_, fun h => ?_⟩
  · cases hparsed.symm.trans h
  · exact Option.some.inj (h.symm.trans hsource)
  · cases hsource.symm.trans h

/-- A cache that holds the text of a script gives the script, unless there is no file to read. -/
theorem ScriptCache.load_of_holds {c : ScriptCache} {d : Disk} {k : ScriptKey} {source : String}
    {script : Script} (h : c.Holds d k source) (hparse : Script.parse source = .ok script) :
    (∃ c', ScriptCache.load d k c = (.ok script, c')) ∨
      ∃ path reason c', ScriptCache.load d k c = (.error (.scriptRead path reason), c') := by
  rw [ScriptCache.load]
  cases hfound : k.find? c.parsed with
  | some s =>
    cases (h.parsed s hfound).symm.trans hparse
    exact .inl ⟨c, rfl⟩
  | none =>
    have hread : c.read d k = .ok script ∨
        ∃ path reason, c.read d k = .error (.scriptRead path reason) := by
      rw [ScriptCache.read]
      cases hsource : k.find? c.sources with
      | some text =>
        obtain rfl := h.registered text hsource
        simp only [hparse]
        exact .inl rfl
      | none =>
        cases hfile : d.readText (k.path c.root) with
        | error fault => exact .inr ⟨_, _, rfl⟩
        | ok text =>
          obtain rfl := h.file hsource text hfile
          simp only [hparse]
          exact .inl rfl
    rcases hread with hr | ⟨path, reason, hr⟩
    · simp only [hr]
      exact .inl ⟨_, rfl⟩
    · simp only [hr]
      exact .inr ⟨path, reason, c, rfl⟩

/-- If the call fetches the actor's script, which has this name, the cache has it from this text. -/
def ActorCall.LoadsFrom (source : String) (name : Option String) (c : ActorCall) : Prop :=
  match c.operation with
  | .load mapName _ disk cache =>
    ∀ scriptName, name = some scriptName → cache.Holds disk ⟨mapName, scriptName⟩ source
  | .spawn | .despawn | .trigger _ | .update _ | .drain => True

end ActorScript
