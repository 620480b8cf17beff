/-
  The commands of a session.

  A session takes the commands of its actors all at once, each with the index of its actor: they
  come grouped by actor, in the order of the actors, and those of one actor are the ones the actor
  has issued (`Session.drain_grouped`, `Session.takenFrom_drain`).

  For an actor, a history of its session is a history of its own: an operation on the session is one
  certain call for it or nothing, whatever it is for the others (`SessionOperation.calls`,
  `Session.after_calls`).  So what the session has taken from an actor, over any history without an
  unloading, is what these calls have taken from it, and together with what is still waiting it is
  the actor's journal.
-/
import ActorScript.Proofs.Journal
import ActorScript.Proofs.SessionCall

namespace ActorScript

/-! ## Commands of several actors -/

/-- The commands of the actor with this index. -/
def takenFrom (i : Nat) (commands : List (Nat × Command)) : List Command :=
  (commands.filter fun p => p.1 = i).map (·.2)

theorem takenFrom_append (i : Nat) (xs ys : List (Nat × Command)) :
    takenFrom i (xs ++ ys) = takenFrom i xs ++ takenFrom i ys := by
  simp only [takenFrom, List.filter_append, List.map_append]

/-- The commands of some actors, of which the first has the index `k`. -/
def numbered (k : Nat) : List (List Command) → List (Nat × Command)
  | [] => []
  | cs :: rest => cs.map (k, ·) ++ numbered (k + 1) rest

theorem flatten_mapIdx (k : Nat) (actors : List Actor) :
    (actors.mapIdx fun i a => a.drain.1.map (k + i, ·)).flatten =
      numbered k (actors.map fun a => a.drain.1) := by
  induction actors generalizing k with
  | nil => rfl
  | cons a rest ih =>
    rw [List.mapIdx_cons, List.flatten_cons, List.map_cons, numbered, ← ih (k + 1)]
    simp only [Nat.add_zero, Nat.add_assoc, Nat.add_comm 1]

theorem le_of_mem_numbered {k : Nat} {lists : List (List Command)} {p : Nat × Command}
    (hp : p ∈ numbered k lists) : k ≤ p.1 := by
  induction lists generalizing k with
  | nil => cases hp
  | cons cs rest ih =>
    rcases List.mem_append.mp hp with hp | hp
    · obtain ⟨c, -, rfl⟩ := List.mem_map.mp hp
      exact Nat.le_refl k
    · exact Nat.le_of_succ_le (ih hp)

theorem numbered_pairwise (k : Nat) (lists : List (List Command)) :
    (numbered k lists).Pairwise fun p q => p.1 ≤ q.1 := by
  induction lists generalizing k with
  | nil => exact .nil
  | cons cs rest ih =>
    refine List.pairwise_append.mpr ⟨?_, ih (k + 1), ?_⟩
    · exact List.pairwise_map.mpr (List.pairwise_of_forall fun _ _ => Nat.le_refl k)
    · intro p hp q hq
      obtain ⟨c, -, rfl⟩ := List.mem_map.mp hp
      exact Nat.le_of_succ_le (le_of_mem_numbered hq)

theorem takenFrom_map_self (k : Nat) (cs : List Command) : takenFrom k (cs.map (k, ·)) = cs := by
  rw [takenFrom, List.filter_eq_self.mpr]
  · rw [List.map_map]
    exact List.map_id cs
  · intro p hp
    obtain ⟨c, -, rfl⟩ := List.mem_map.mp hp
    exact decide_eq_true rfl

theorem takenFrom_eq_nil {i : Nat} {commands : List (Nat × Command)}
    (h : ∀ p ∈ commands, p.1 ≠ i) : takenFrom i commands = [] := by
  rw [takenFrom, List.filter_eq_nil_iff.mpr fun p hp => by simpa using h p hp]
  rfl

theorem takenFrom_numbered (k i : Nat) (lists : List (List Command)) :
    takenFrom (k + i) (numbered k lists) = lists[i]?.getD [] := by
  induction lists generalizing k i with
  | nil => rfl
  | cons cs rest ih =>
    rw [numbered, takenFrom_append]
    cases i with
    | zero =>
      have hrest : takenFrom k (numbered (k + 1) rest) = [] :=
        takenFrom_eq_nil fun p hp => Nat.ne_of_gt (le_of_mem_numbered hp)
      rw [Nat.add_zero, takenFrom_map_self, hrest, List.append_nil]
      rfl
    | succ i =>
      have hfirst : takenFrom (k + (i + 1)) (cs.map (k, ·)) = [] := by
        refine takenFrom_eq_nil fun p hp => ?_
        obtain ⟨c, -, rfl⟩ := List.mem_map.mp hp
        show k ≠ k + (i + 1)
        omega
      rw [hfirst, List.nil_append, show k + (i + 1) = k + 1 + i by omega, ih]
      rfl

namespace Session

theorem drain_eq (s : Session) :
    s.drain.1 = numbered 0 (s.actors.map fun a => a.drain.1) := by
  rw [← flatten_mapIdx]
  simp only [drain, Nat.zero_add]

/-- The commands of a session are grouped by actor, in the order of the actors. -/
theorem drain_grouped (s : Session) : s.drain.1.Pairwise fun p q => p.1 ≤ q.1 := by
  rw [drain_eq]
  exact numbered_pairwise _ _

/-- The commands of one actor are those that the actor itself would give. -/
theorem takenFrom_drain (s : Session) (i : Nat) :
    takenFrom i s.drain.1 = (s.actors[i]?.elim [] fun a => a.drain.1) := by
  have := takenFrom_numbered 0 i (s.actors.map fun a => a.drain.1)
  rw [Nat.zero_add] at this
  rw [drain_eq, this, List.getElem?_map]
  cases s.actors[i]? <;> rfl

/-- Nothing is left behind when the commands are taken. -/
theorem commands_of_mem_drain {s : Session} {a : Actor} (ha : a ∈ s.drain.2.actors) :
    a.body.commands = [] := by
  obtain ⟨b, -, rfl⟩ := List.mem_map.mp ha
  rfl

end Session

/-! ## Histories -/

namespace Actor

theorem after_append (a : Actor) (xs ys : List ActorCall) :
    a.after (xs ++ ys) = (a.after xs).after ys := by
  induction xs generalizing a with
  | nil => rfl
  | cons c cs ih => exact ih (c.perform a).2

theorem taken_append (a : Actor) (xs ys : List ActorCall) :
    a.taken (xs ++ ys) = a.taken xs ++ (a.after xs).taken ys := by
  induction xs generalizing a with
  | nil => rfl
  | cons c cs ih =>
    show c.taken a ++ (c.perform a).2.taken (cs ++ ys) = _
    rw [ih, ← List.append_assoc]
    rfl

end Actor

/-- Whether the operation makes the session forget its actors. -/
def SessionOperation.forgets : SessionOperation → Bool
  | unload _ => true
  | add .. | spawnAll | despawnAll | tick _ | trigger .. | drain | setCache _ | setCharacter _ =>
    false

/-- The commands that an operation takes from the session. -/
def SessionOperation.taken (s : Session) : SessionOperation → List (Nat × Command)
  | drain => s.drain.1
  | add .. | spawnAll | despawnAll | tick _ | trigger .. | unload _ | setCache _ | setCharacter _ =>
    []

/-- What an operation on the session is for the actor with the index `i`: an operation on all actors
    is one on it, and an operation on one actor only if that is the one. -/
def SessionOperation.operation? (i : Nat) : SessionOperation → Option ActorOperation
  | spawnAll => some .spawn
  | despawnAll => some .despawn
  | tick dt => some (.update dt)
  | trigger event j => if j = i then some (.trigger event) else none
  | drain => some .drain
  | add .. | unload _ | setCache _ | setCharacter _ => none

/-- The saved values when it is the turn of the actor with the index `i`: those that the actors in
    front of it have left. -/
def SessionOperation.storeFor (s : Session) (i : Nat) : SessionOperation → SaveStore
  | spawnAll => (Session.forEach (Actor.spawn s.surroundings) (s.actors.take i) s.store).2.2
  | tick dt => (Session.forEach (Actor.update s.surroundings dt) (s.actors.take i) s.store).2.2
  | add .. | despawnAll | trigger .. | drain | unload _ | setCache _ | setCharacter _ => s.store

/-- **The call** that an operation on the session is for the actor with the index `i`, if it is one
    for it. -/
def SessionOperation.calls (s : Session) (i : Nat) (op : SessionOperation) : List ActorCall :=
  ((op.operation? i).map fun o => ⟨s.surroundings, op.storeFor s i, o⟩).toList

namespace Session

/-- The calls that a history of the session is for the actor with the index `i`. -/
def calls (i : Nat) : Session → List SessionOperation → List ActorCall
  | _, [] => []
  | s, op :: ops => op.calls s i ++ calls i (op.perform s) ops

/-- The call by which an added actor gets its script. -/
def loadCall (s : Session) (disk : Disk) : ActorCall :=
  ⟨s.surroundings, s.store, .load s.mapName s.options disk s.cache⟩

/-- All commands that are taken from the session in a history. -/
def taken : Session → List SessionOperation → List (Nat × Command)
  | _, [] => []
  | s, op :: ops => op.taken s ++ taken (op.perform s) ops

/-- What is done with every actor is done with the one that has this index, after all in front of
    it. -/
theorem getElem?_forEach (op : Action (Actor × SaveStore) Unit) {actors : List Actor} {i : Nat}
    {a : Actor} (hi : actors[i]? = some a) (store : SaveStore) :
    (forEach op actors store).2.1[i]? =
      some (op (a, (forEach op (actors.take i) store).2.2)).2.1 := by
  induction actors generalizing i store with
  | nil => cases hi
  | cons b rest ih =>
    cases i with
    | zero =>
      cases hi
      rfl
    | succ i => exact ih hi _

variable {s : Session} {op : SessionOperation} {i : Nat} {a : Actor}

/-- **Whatever is done with a session** without forgetting its actors, is its call for each of
    them. -/
theorem perform_calls (hi : s.actors[i]? = some a) (hop : op.forgets = false) :
    (op.perform s).actors[i]? = some (a.after (op.calls s i)) := by
  cases op with
  | add disk spec =>
    simp only [SessionOperation.perform, add]
    rcases Actor.load s.mapName s.options disk (.ofSpec spec, s.cache) with ⟨_ | _, b, cache⟩
    · exact hi
    · exact (List.getElem?_append_left (List.getElem?_eq_some_iff.mp hi).1).trans hi
  | spawnAll => exact getElem?_forEach (Actor.spawn s.surroundings) hi s.store
  | despawnAll => exact (List.getElem?_map ..).trans (congrArg (Option.map Actor.despawn) hi)
  | tick dt => exact getElem?_forEach (Actor.update s.surroundings dt) hi s.store
  | trigger event j =>
    simp only [SessionOperation.calls, SessionOperation.operation?, SessionOperation.perform,
      trigger, withActor]
    by_cases hj : j = i
    · subst hj
      rw [if_pos rfl, hi]
      exact List.getElem?_set_self (List.getElem?_eq_some_iff.mp hi).1
    · rw [if_neg hj]
      split
      · exact hi
      · exact (List.getElem?_set_ne hj).trans hi
  | drain => exact (List.getElem?_map ..).trans (congrArg (Option.map fun a => a.drain.2) hi)
  | unload disk => cases hop
  | setCache cache => exact hi
  | setCharacter tile => exact hi

/-- What an operation takes from an actor, its call takes. -/
theorem taken_calls (hi : s.actors[i]? = some a) :
    takenFrom i (op.taken s) = a.taken (op.calls s i) := by
  cases op with
  | drain =>
    show takenFrom i s.drain.1 = a.drain.1 ++ []
    rw [takenFrom_drain, hi, List.append_nil]
    rfl
  | trigger event j =>
    simp only [SessionOperation.calls, SessionOperation.operation?]
    split <;> rfl
  | _ => rfl

/-- **A history of a session** is a history of each of its actors. -/
theorem after_calls (hi : s.actors[i]? = some a) {ops : List SessionOperation}
    (hops : ∀ op ∈ ops, op.forgets = false) :
    (s.after ops).actors[i]? = some (a.after (s.calls i ops)) ∧
      takenFrom i (s.taken ops) = a.taken (s.calls i ops) := by
  induction ops generalizing s a with
  | nil => exact ⟨hi, rfl⟩
  | cons op ops ih =>
    obtain ⟨hop, hrest⟩ := List.forall_mem_cons.mp hops
    obtain ⟨hafter, htaken⟩ := ih (perform_calls hi hop) hrest
    rw [calls, Actor.after_append, Actor.taken_append, ← taken_calls hi, ← htaken,
      ← takenFrom_append]
    exact ⟨hafter, rfl⟩

/-- An actor that is added gets an index, and its script. -/
theorem getElem?_add {disk : Disk} {spec : ActorSpec} (h : (s.add disk spec).1 = .ok i) :
    (s.add disk spec).2.actors[i]? = some ((Actor.ofSpec spec).after [s.loadCall disk]) := by
  simp only [add] at h ⊢
  rcases hload : Actor.load s.mapName s.options disk (.ofSpec spec, s.cache) with
    ⟨_ | _, a, cache⟩
  · rw [hload] at h
    cases h
  · rw [hload] at h
    cases h
    simp only [Actor.after, ActorCall.perform, loadCall, hload]
    exact List.getElem?_concat_length

end Session

/-- **The command queue is a faithful journal.**  For every actor, script and surroundings and every
    history, what has been taken from an actor and what is still waiting are the commands of all its
    calls, each once and in order, and tell how it has come from its first place to where it stands
    and looks.  A session gives the commands of its actors grouped in their order, to each of them
    what the actor itself would have given, and leaves none waiting.  A history of the session is
    for each actor the history of its own calls: every operation on all actors and every trigger of
    this one reaches it, and nothing else does.

    The saved values are those of a store of this library, in memory or in a file, which takes every
    value; a store that could refuse one is not considered. -/
theorem Session.commands_journal :
    (∀ (spec : ActorSpec) (cs : List ActorCall),
      Journal (spec.position, spec.orientation) ((Actor.ofSpec spec).after cs).body.pose
        ((Actor.ofSpec spec).acts cs) ((Actor.ofSpec spec).journal cs)) ∧
    (∀ s : Session, (s.drain.1.Pairwise fun p q => p.1 ≤ q.1) ∧
      (∀ i, takenFrom i s.drain.1 = s.actors[i]?.elim [] fun a => a.drain.1) ∧
      ∀ a ∈ s.drain.2.actors, a.body.commands = []) ∧
    ∀ (s : Session) (disk : Disk) (spec : ActorSpec) (i : Nat) (ops : List SessionOperation),
      (s.add disk spec).1 = .ok i → (∀ op ∈ ops, op.forgets = false) →
      ((s.add disk spec).2.after ops).actors[i]? =
          some ((Actor.ofSpec spec).after (s.loadCall disk :: (s.add disk spec).2.calls i ops)) ∧
        takenFrom i ((s.add disk spec).2.taken ops) =
          (Actor.ofSpec spec).taken (s.loadCall disk :: (s.add disk spec).2.calls i ops) := by
  refine ⟨Actor.journal_after, fun s => ⟨s.drain_grouped, s.takenFrom_drain,
    fun _ => commands_of_mem_drain⟩, ?_⟩
  intro s disk spec i ops hadd hops
  exact after_calls (getElem?_add hadd) hops

/-- The text of a script that takes a step and says so. -/
def stepText : String := "state S(true) { event spawn() { walk(RIGHT); print(1); } }"

/-- A session of a town that knows this script. -/
def stepTown : Session :=
  { mapName := "town", cache := .insertSource { root := "scripts" } ⟨"town", "step"⟩ stepText }

/-- An actor with this script. -/
def stepper : ActorSpec := { position := ⟨2, 3⟩, script := some "step" }

/-- The actor is put on the map, and two frames later the step is over. -/
def stepHistory : List SessionOperation :=
  [.spawnAll, .drain, .tick 100, .tick 100, .despawnAll, .drain]

theorem Session.commands_journal_step :
    (stepTown.add {} stepper).1 = .ok 0 ∧ (∀ op ∈ stepHistory, op.forgets = false) ∧
      (stepTown.add {} stepper).2.taken stepHistory =
        [(0, .walk .right ⟨2, 3⟩ ⟨3, 3⟩), (0, .print "1")] ∧
      ((stepTown.add {} stepper).2.after stepHistory).actors[0]? =
          some ((Actor.ofSpec stepper).after
            (stepTown.loadCall {} :: (stepTown.add {} stepper).2.calls 0 stepHistory)) ∧
        takenFrom 0 ((stepTown.add {} stepper).2.taken stepHistory) =
          (Actor.ofSpec stepper).taken
            (stepTown.loadCall {} :: (stepTown.add {} stepper).2.calls 0 stepHistory) := by
  have hadd : (stepTown.add {} stepper).1 = .ok 0 := by cbv
  have hops : ∀ op ∈ stepHistory, op.forgets = false := by decide
  exact ⟨hadd, hops, by cbv, Session.commands_journal.2.2 _ _ _ _ _ hadd hops⟩

end ActorScript
