/-
  The commands of an actor as its journal.

  All that moves or turns an actor are functions which its script calls as statements, and each
  call of one issues at most one command (`Act.command?`).  Which one, depends on the call and on
  where the actor stands; so a list of the calls determines what has been issued (`issued`).  Such
  lists replay well: every walk begins where the last one has ended (`journal_issued`).

  A host that keeps a list of those calls disturbs nothing (`perform_watched_host`), and what an
  operation adds to the commands of the body is what its calls issue (`Machine.perform_issues`).
  Commands leave the body only by being taken, so over any history of an actor the commands taken
  and those still waiting are the journal of all calls (`Actor.journal_after`).
-/
import ActorScript.Proofs.ActorCall
import ActorScript.Proofs.Asked
import ActorScript.Proofs.Atomic
import ActorScript.Proofs.Counterpart

namespace ActorScript

/-! ## Replaying commands -/

/-- Where an actor stands, and where it looks. -/
abbrev Pose := Tile × Orientation

/-- The pose of an actor. -/
def Body.pose (b : Body) : Pose := (b.position, b.orientation)

namespace Command

/-- The tile to which a command moves the actor, if it does. -/
def goal? : Command → Option Tile
  | walk _ _ goal => some goal
  | print _ | lockInputs | unlockInputs | setOrientation _ => none

/-- The orientation that a command gives the actor, if it does. -/
def orientation? : Command → Option Orientation
  | walk o _ _ | setOrientation o => some o
  | print _ | lockInputs | unlockInputs => none

/-- What `f` gives for the last command for which it gives anything; `d` if there is none. -/
def latest {α : Type} (f : Command → Option α) (d : α) (commands : List Command) : α :=
  (commands.filterMap f).getLast?.getD d

/-- The pose after some commands. -/
def replay (start : Pose) (commands : List Command) : Pose :=
  commands.foldl (fun s c => c.apply s) start

theorem apply_eq (c : Command) (s : Pose) :
    c.apply s = (c.goal?.getD s.1, c.orientation?.getD s.2) := by
  cases c <;> rfl

theorem latest_cons {α : Type} (f : Command → Option α) (d : α) (c : Command)
    (cs : List Command) : latest f d (c :: cs) = latest f ((f c).getD d) cs := by
  rw [latest, latest, List.filterMap_cons]
  cases f c with
  | none => rfl
  | some x =>
    rw [List.getLast?_cons]
    cases (cs.filterMap f).getLast? <;> rfl

/-- **Replaying** leads to the goal of the last walk and to the orientation of the last walk or
    turn. -/
theorem replay_eq (start : Pose) (commands : List Command) :
    replay start commands =
      (latest goal? start.1 commands, latest orientation? start.2 commands) := by
  induction commands generalizing start with
  | nil => rfl
  | cons c cs ih =>
    rw [latest_cons, latest_cons]
    show replay (c.apply start) cs = _
    rw [ih, apply_eq]

theorem replay_append (start : Pose) (xs ys : List Command) :
    replay start (xs ++ ys) = replay (replay start xs) ys :=
  List.foldl_append

end Command

/-! ## Calls and what they issue -/

/-- The command that a procedure issues for an actor on the tile `t`.  If its arguments are refused
    it issues none, and neither does a procedure that only waits, asks for a state or sets a
    parameter. -/
def Builtin.Procedure.command? (around : Builtin.Surroundings) (args : List Value) (t : Tile)
    (p : Builtin.Procedure) : Option Command :=
  match p with
  | print => some (.print (String.join (args.map Value.text)))
  | lockInputs => some .lockInputs
  | unlockInputs => some .unlockInputs
  | setOrientation => (orientationArgument p.name args 0).toOption.map .setOrientation
  | turnToFaceCharacter => around.character.map fun goal => .setOrientation (t.facing goal)
  | walk => (orientationArgument p.name args 0).toOption.map fun o => .walk o t (t.step o)
  | wait | triggerStateChange | setParameter => none

/-- A function that a script has called as a statement, with its arguments and with what the actor
    perceived. -/
structure Act where
  around : Builtin.Surroundings
  function : String
  args : List Value

/-- The command that the call issues for an actor on the tile `t`, if it issues one. -/
def Act.command? (t : Tile) (a : Act) : Option Command :=
  (Builtin.Procedure.ofName? a.function).bind (Builtin.Procedure.command? a.around a.args t)

/-- The commands that some calls issue, one call after the other. -/
def issued : Pose → List Act → List Command
  | _, [] => []
  | s, a :: rest =>
    (a.command? s.1).toList ++ issued (Command.replay s (a.command? s.1).toList) rest

theorem issued_append (s : Pose) (xs ys : List Act) :
    issued s (xs ++ ys) = issued s xs ++ issued (Command.replay s (issued s xs)) ys := by
  induction xs generalizing s with
  | nil => rfl
  | cons a rest ih =>
    rw [List.cons_append, issued, issued, ih, List.append_assoc, Command.replay_append]

/-- A walk starts where the actor stands, and ends on the next tile. -/
theorem Act.walk_of_command? {t : Tile} {a : Act} {o : Orientation} {origin goal : Tile}
    (h : a.command? t = some (.walk o origin goal)) : origin = t ∧ goal = t.step o := by
  obtain ⟨p, -, hp⟩ := Option.bind_eq_some_iff.mp h
  cases p with
  | walk =>
    obtain ⟨x, -, hx⟩ := Option.map_eq_some_iff.mp hp
    cases hx
    exact ⟨rfl, rfl⟩
  | setOrientation =>
    obtain ⟨x, -, hx⟩ := Option.map_eq_some_iff.mp hp
    cases hx
  | turnToFaceCharacter =>
    obtain ⟨x, -, hx⟩ := Option.map_eq_some_iff.mp hp
    cases hx
  | _ => cases hp

theorem walks_issued {s : Pose} {acts : List Act} {before after : List Command} {o : Orientation}
    {origin goal : Tile} (h : issued s acts = before ++ .walk o origin goal :: after) :
    origin = Command.latest Command.goal? s.1 before ∧ goal = origin.step o := by
  induction acts generalizing s before with
  | nil => cases before <;> cases h
  | cons a rest ih =>
    rw [issued] at h
    cases hc : a.command? s.1 with
    | none =>
      rw [hc] at h
      exact ih h
    | some c =>
      rw [hc] at h
      cases before with
      | nil =>
        obtain ⟨rfl, -⟩ := List.cons.inj h
        obtain ⟨rfl, rfl⟩ := Act.walk_of_command? hc
        exact ⟨rfl, rfl⟩
      | cons c' before =>
        obtain ⟨rfl, hrest⟩ := List.cons.inj h
        rw [Command.latest_cons]
        have hstart : (Command.replay s [c]).1 = c.goal?.getD s.1 :=
          congrArg Prod.fst (c.apply_eq s)
        exact hstart ▸ ih hrest

/-- The commands `C` are a faithful journal of an actor that made the calls `acts` and came from
    `start` to `stop`. -/
structure Journal (start stop : Pose) (acts : List Act) (C : List Command) : Prop where
  /-- What each call has issued is there once, in the order of the calls, and nothing else. -/
  issued : C = issued start acts
  /-- Every walk starts where the one before has ended, and goes one tile ahead. -/
  walks : ∀ before o origin goal after, C = before ++ .walk o origin goal :: after →
    origin = Command.latest Command.goal? start.1 before ∧ goal = origin.step o
  replay : Command.replay start C = stop
  position : stop.1 = Command.latest Command.goal? start.1 C
  orientation : stop.2 = Command.latest Command.orientation? start.2 C

/-- **What calls issue** is their journal. -/
theorem journal_issued (start : Pose) (acts : List Act) :
    Journal start (Command.replay start (ActorScript.issued start acts)) acts
      (ActorScript.issued start acts) where
  issued := rfl
  walks _ _ _ _ _ h := walks_issued h
  replay := rfl
  position := congrArg Prod.fst (Command.replay_eq _ _)
  orientation := congrArg Prod.snd (Command.replay_eq _ _)

/-! ## One call -/

/-- The body has come from `b` to `b'` by these calls, and these commands have been taken from it
    on the way. -/
structure Body.Issues (b : Body) (acts : List Act) (taken : List Command) (b' : Body) : Prop where
  commands : taken ++ b'.commands = b.commands ++ issued b.pose acts
  pose : b'.pose = Command.replay b.pose (issued b.pose acts)

namespace Body

variable {b b₁ b₂ : Body} {acts xs ys : List Act} {taken ts us : List Command}

theorem Issues.refl (b : Body) : b.Issues [] [] b := ⟨(List.append_nil _).symm, rfl⟩

theorem Issues.trans (h : b.Issues xs ts b₁) (h' : b₁.Issues ys us b₂) :
    b.Issues (xs ++ ys) (ts ++ us) b₂ where
  commands := by
    rw [List.append_assoc, h'.commands, ← List.append_assoc, h.commands, h.pose, issued_append,
      List.append_assoc]
  pose := by rw [h'.pose, h.pose, issued_append, Command.replay_append]

theorem Issues.congr (h : b.Issues acts taken b₁) (hcommands : b₂.commands = b₁.commands)
    (hpose : b₂.pose = b₁.pose) : b.Issues acts taken b₂ :=
  ⟨(congrArg (taken ++ ·) hcommands).trans h.commands, hpose.trans h.pose⟩

end Body

/-- The body has come from `b` to `b'` by issuing a command, or nothing has happened to it. -/
structure Body.Adds (b : Body) (c : Option Command) (b' : Body) : Prop where
  commands : b'.commands = b.commands ++ c.toList
  pose : b'.pose = Command.replay b.pose c.toList

theorem Body.adds_none {b b' : Body} (hcommands : b'.commands = b.commands)
    (hpose : b'.pose = b.pose) : b.Adds none b' :=
  ⟨hcommands.trans (List.append_nil _).symm, hpose⟩

/-- **A procedure** adds its command.  Where it refuses its arguments there is none to add. -/
theorem Builtin.Procedure.run_adds (around : Builtin.Surroundings) (p : Builtin.Procedure)
    (args : List Value) (b : Body) :
    b.Adds (p.command? around args b.position) (p.run around args b).2 := by
  cases p with
  | wait =>
    rw [run, command?]
    cases intArgument (name .wait) args 0 with
    | error e => exact Body.adds_none rfl rfl
    | ok ms =>
      show b.Adds none ((if 0 ≤ ms then pure _ else Action.fail _ : Action Body Reply) b).2
      split
      · exact Body.adds_none rfl rfl
      · exact Body.adds_none rfl rfl
  | print => exact ⟨rfl, rfl⟩
  | triggerStateChange => exact Body.adds_none rfl rfl
  | lockInputs => exact ⟨rfl, rfl⟩
  | unlockInputs => exact ⟨rfl, rfl⟩
  | setOrientation =>
    rw [run, command?]
    cases orientationArgument (name .setOrientation) args 0 with
    | error e => exact Body.adds_none rfl rfl
    | ok o => exact ⟨rfl, rfl⟩
  | turnToFaceCharacter =>
    rw [run, command?]
    cases around.character with
    | none => exact Body.adds_none rfl rfl
    | some goal => exact ⟨rfl, rfl⟩
  | walk =>
    rw [run, command?]
    cases orientationArgument (name .walk) args 0 with
    | error e => exact Body.adds_none rfl rfl
    | ok o => exact ⟨rfl, rfl⟩
  | setParameter =>
    rw [run, command?]
    cases stringArgument (name .setParameter) args 0 with
    | error e => exact Body.adds_none rfl rfl
    | ok key =>
      cases argument (name .setParameter) args 1 with
      | error e => exact Body.adds_none rfl rfl
      | ok v => exact Body.adds_none rfl rfl

/-- **A function that is called as a statement** issues the command of the call. -/
theorem Builtin.callProcedure_issues (around : Builtin.Surroundings) (f : String)
    (args : List Value) (b : Body) :
    b.Issues [⟨around, f, args⟩] [] (Builtin.callProcedure around f args b).2 := by
  suffices hadds : b.Adds (Act.command? b.position ⟨around, f, args⟩)
      (callProcedure around f args b).2 by
    have hissued : issued b.pose [⟨around, f, args⟩] =
        (Act.command? b.position ⟨around, f, args⟩).toList := List.append_nil _
    exact ⟨hissued ▸ hadds.commands, hissued ▸ hadds.pose⟩
  rw [callProcedure, Act.command?]
  cases hp : Procedure.ofName? f with
  | none => exact Body.adds_none rfl rfl
  | some p =>
    exact p.run_adds around args b

/-! ## Operations of a machine -/

/-- Takes down the functions that are called as statements. -/
def Recorder.acts (around : Builtin.Surroundings) : Recorder (List Act) where
  callFunction f vs _ acts := acts ++ [⟨around, f, vs⟩]

namespace Actor

/-- The host of an actor that does the same and keeps a list of the functions that are called as
    statements. -/
def watched (around : Builtin.Surroundings) : Host (List Act × Body × SaveStore) :=
  (host around).recording (.acts around)

/-- Whatever is called, the body has come from `b` by the calls in the list. -/
theorem watched_serves (around : Builtin.Surroundings) (script : Script) (b : Body) :
    (watched around).Serves script (fun x => b.Issues x.1 [] x.2.1) fun _ => True where
  others _ _ := trivial
  callValue f _ vs x hx := by
    have hbody := Builtin.callFunction_pure around f vs x.2.1
    exact ⟨hx.congr (congrArg Body.commands hbody) (congrArg Body.pose hbody), fun _ _ => trivial⟩
  callFunction f _ vs x hx :=
    ⟨hx.trans (Builtin.callProcedure_issues around f vs x.2.1), fun _ _ => trivial⟩
  write slot v x hx := by
    refine ⟨?_, fun _ _ => trivial⟩
    cases slot with
    | parameter key => exact hx.congr rfl rfl
    | saved key => exact hx.congr rfl rfl
  observe _ _ hx := hx

end Actor

/-- **The calls of an operation**, in the order in which the script makes them. -/
def Operation.acts (around : Builtin.Surroundings) (op : Operation) (m : Machine) (b : Body)
    (s : SaveStore) : List Act :=
  (op.perform (Actor.watched around) (m, [], b, s)).2.2.1

namespace Machine

/-- **Listening disturbs nothing**: result, machine, body and store come out as without the list. -/
theorem perform_watched_host (around : Builtin.Surroundings) (op : Operation) (m : Machine)
    (b : Body) (s : SaveStore) :
    op.perform (Actor.watched around) (m, [], b, s) =
      ((op.perform (Actor.host around) (m, b, s)).1,
        (op.perform (Actor.host around) (m, b, s)).2.1, op.acts around m b s,
        (op.perform (Actor.host around) (m, b, s)).2.2) := by
  obtain ⟨log, hlog⟩ := perform_recording (Actor.host around) (.acts around) op m (b, s) []
  have hacts : op.acts around m b s = log := by
    rw [Operation.acts, Actor.watched, hlog]
  rw [Actor.watched, hlog, hacts]

/-- **An operation adds what its calls issue.** -/
theorem perform_issues (around : Builtin.Surroundings) (op : Operation) (m : Machine) (b : Body)
    (s : SaveStore) :
    b.Issues (op.acts around m b s) [] (op.perform (Actor.host around) (m, b, s)).2.2.1 := by
  have hissues := (perform_ensures (Actor.watched_serves around m.script b) op ([], b, s)
    (.refl b)).1
  rw [perform_watched_host] at hissues
  exact hissues

end Machine

/-! ## Histories of an actor -/

/-- What a call makes the actor's machine do, if anything: an actor that is not on the map is not
    reached, and one that is on it does not spawn again. -/
def ActorCall.operation? (c : ActorCall) (a : Actor) : Option Operation :=
  match c.operation with
  | .spawn => if a.spawned then none else some .activate
  | .trigger event => if a.spawned then some (.trigger event) else none
  | .update dt => if a.spawned then some (.newFrame dt) else none
  | .load .. | .despawn | .drain => none

/-- The functions that the script calls as statements while the machine of an actor, if there is
    one, does something. -/
def Actor.actsOf (a : Actor) (around : Builtin.Surroundings) (s : SaveStore) (op : Operation) :
    List Act :=
  a.machine.elim [] fun m => op.acts around m a.body s

/-- The functions that the script calls as statements while a call is carried out. -/
def ActorCall.acts (c : ActorCall) (a : Actor) : List Act :=
  (c.operation? a).elim [] (a.actsOf c.around c.store)

/-- The commands that a call takes from the actor. -/
def ActorCall.taken (c : ActorCall) (a : Actor) : List Command :=
  match c.operation with
  | .drain => a.drain.1
  | .load .. | .spawn | .despawn | .trigger _ | .update _ => []

namespace Actor

/-- The functions that the script calls as statements in a history. -/
def acts : Actor → List ActorCall → List Act
  | _, [] => []
  | a, c :: cs => c.acts a ++ acts (c.perform a).2 cs

/-- All commands that are taken from the actor in a history. -/
def taken : Actor → List ActorCall → List Command
  | _, [] => []
  | a, c :: cs => c.taken a ++ taken (c.perform a).2 cs

/-- The commands that have been taken from the actor, followed by those that wait to be taken. -/
def journal (a : Actor) (cs : List ActorCall) : List Command :=
  a.taken cs ++ (a.after cs).body.commands

theorem issues_withMachine (a : Actor) (around : Builtin.Surroundings) (op : Operation)
    (s : SaveStore) :
    a.body.Issues (a.actsOf around s op) []
      (withMachine (op.perform (host around)) (a, s)).2.1.body := by
  rw [withMachine, actsOf]
  cases hm : a.machine with
  | none => exact .refl a.body
  | some m => exact Machine.perform_issues around op m a.body s

/-- An actor that is not on the map is not reached. -/
theorem issues_onMap (a : Actor) (around : Builtin.Surroundings) (op : Operation) (s : SaveStore) :
    a.body.Issues ((if a.spawned then some op else none).elim [] (a.actsOf around s)) []
      (if a.spawned then withMachine (op.perform (host around)) (a, s)
        else (.ok (), a, s)).2.1.body := by
  split
  · exact issues_withMachine a around op s
  · exact .refl a.body

/-- **One call on an actor** takes and leaves what was there before and what the script has issued
    meanwhile. -/
theorem issues_perform (c : ActorCall) (a : Actor) :
    a.body.Issues (c.acts a) (c.taken a) (c.perform a).2.body := by
  obtain ⟨around, store, op⟩ := c
  cases op with
  | load mapName options disk cache =>
    have hbody : (load mapName options disk (a, cache)).2.1.body = a.body := by
      rw [load]
      split
      · rfl
      · split
        · rfl
        · split <;> rfl
    exact (Body.Issues.refl a.body).congr (congrArg Body.commands hbody) (congrArg Body.pose hbody)
  | spawn =>
    simp only [ActorCall.perform, ActorCall.acts, ActorCall.operation?, ActorCall.taken, spawn]
    split
    · exact .refl a.body
    · exact issues_withMachine { a with spawned := true } around .activate store
  | despawn =>
    simp only [ActorCall.perform, despawn]
    split
    · exact .refl a.body
    · exact .refl a.body
  | trigger event => exact issues_onMap a around (.trigger event) store
  | update dt => exact issues_onMap a around (.newFrame dt) store
  | drain => exact ⟨rfl, rfl⟩

/-- **Over a history**, nothing is lost and nothing is doubled. -/
theorem issues_after (a : Actor) (cs : List ActorCall) :
    a.body.Issues (a.acts cs) (a.taken cs) (a.after cs).body := by
  induction cs generalizing a with
  | nil => exact .refl a.body
  | cons c cs ih => exact (issues_perform c a).trans (ih (c.perform a).2)

/-- **The commands of an actor are its journal**, whatever is done with it: everything taken so far,
    followed by what is still waiting. -/
theorem journal_after (spec : ActorSpec) (cs : List ActorCall) :
    Journal (spec.position, spec.orientation) ((ofSpec spec).after cs).body.pose
      ((ofSpec spec).acts cs) ((ofSpec spec).journal cs) := by
  obtain ⟨hcommands, hpose⟩ := issues_after (ofSpec spec) cs
  rw [hpose, journal, hcommands]
  exact journal_issued (ofSpec spec).body.pose ((ofSpec spec).acts cs)

end Actor

end ActorScript
