/-
  Saved values across reloads.

  A run of a machine is followed through a host that keeps a list of what is saved
  (`Host.journaled`) and disturbs nothing, and a choice of state through a context that keeps a list
  of what is read (`Context.noted`).  The value that a run has saved last under a key is in its
  entry (`entry_of_lastSaved?`), and the first choice of a new machine reads what seeding has made
  of that entry (`eq_of_mem_firstReads`).

  So a new machine reads the value that an old one has saved last, unless the value is `absent` and
  the variable has a default: seeding takes such an entry for a missing one
  (`read_eq_lastSaved_iff`, and `not_kept_mood` for a script to which this happens).
-/
import Mathlib
import ActorScript.Proofs.Asked
import ActorScript.Proofs.Counterpart
import ActorScript.Proofs.Seeding

namespace ActorScript

variable {σ : Type}

/-! ## What a run saves -/

/-- The list of what is saved, with the last value first, after the host was asked to store one. -/
def journal (slot : Slot) (v : Value) (answer : Except Error Unit) (log : List (String × Value)) :
    List (String × Value) :=
  match slot, answer with
  | .saved key, .ok () => (key, v) :: log
  | _, _ => log

/-- Takes down what is saved. -/
def Recorder.saves : Recorder (List (String × Value)) where
  write := journal

/-- The host that does the same as `host` and keeps a list of what is saved. -/
def Host.journaled (host : Host σ) : Host (List (String × Value) × σ) := host.recording .saves

namespace Operation

/-- Carries out operations one after the other, also behind one that fails. -/
def performEach (host : Host σ) : List Operation → Machine × σ → Machine × σ
  | [], x => x
  | op :: ops, x => performEach host ops (op.perform host x).2

/-- **The value that a run of operations saves last** under a key, if it saves any. -/
def lastSaved? (host : Host σ) (ops : List Operation) (x : Machine × σ) (key : String) :
    Option Value := (performEach host.journaled ops (x.1, [], x.2)).2.1.lookup key

end Operation

/-- The list disturbs no run. -/
theorem Operation.performEach_journaled (host : Host σ) (ops : List Operation) (m : Machine) (s : σ)
    (log : List (String × Value)) :
    ∃ log', performEach host.journaled ops (m, log, s) =
      ((performEach host ops (m, s)).1, log', (performEach host ops (m, s)).2) := by
  induction ops generalizing m s log with
  | nil => exact ⟨log, rfl⟩
  | cons op ops ih =>
    obtain ⟨log', hop⟩ := Machine.perform_recording host .saves op m s log
    rw [performEach, performEach, Host.journaled, hop]
    exact ih _ _ log'

/-- What the list says of an entry last, is in it. -/
def Accurate (entry : String → σ → Option Value) (key : String)
    (x : List (String × Value) × σ) : Prop := ∀ v, x.1.lookup key = some v → entry key x.2 = some v

variable {host : Host σ} {entry : String → σ → Option Value}

theorem Host.Stores.accurate_write (h : host.Stores entry) {key : String}
    {x : List (String × Value) × σ} (hx : Accurate entry key x) (slot : Slot) (w : Value) :
    Accurate entry key (host.journaled.write slot w x).2 := by
  intro v hv
  cases slot with
  | parameter name => exact (h.parameter name w x.2 key).trans (hx v hv)
  | saved key' =>
    rcases hr : host.write (.saved key') w x.2 with ⟨e | ⟨⟨⟩⟩, s'⟩
    · simp only [journaled, recording, Action.noting, Recorder.saves, journal, hr] at hv ⊢
      exact (h.refused key' w x.2 s' e hr key).trans (hx v hv)
    · simp only [journaled, recording, Action.noting, Recorder.saves, journal, hr,
        List.lookup_cons] at hv ⊢
      rw [h.saved key' w x.2 s' hr]
      -- the new value is in front, and hides all earlier ones of its entry, but of no other
      by_cases hkey : key' = key
      · subst hkey
        rw [beq_self_eq_true] at hv
        rwa [if_pos rfl]
      · rw [beq_false_of_ne (Ne.symm hkey)] at hv
        rw [if_neg hkey]
        exact hx v hv

/-- Whatever a script does, its list stays accurate. -/
theorem Host.Stores.serves_journaled (h : host.Stores entry) (key : String) (script : Script) :
    host.journaled.Serves script (Accurate entry key) fun _ => True where
  others _ _ := trivial
  callValue f _ vs x hx :=
    ⟨fun v hv => (h.callValue f vs x.2 key).trans (hx v hv), fun _ _ => trivial⟩
  callFunction f _ vs x hx :=
    ⟨fun v hv => (h.callFunction f vs x.2 key).trans (hx v hv), fun _ _ => trivial⟩
  write slot w _ hx := ⟨h.accurate_write hx slot w, fun _ _ => trivial⟩
  observe step _ hx v hv := (h.observe step _ key).trans (hx v hv)

theorem Host.Stores.accurate_performEach (h : host.Stores entry) (key : String)
    (ops : List Operation) {m : Machine} {x : List (String × Value) × σ}
    (hx : Accurate entry key x) :
    Accurate entry key (Operation.performEach host.journaled ops (m, x)).2 := by
  induction ops generalizing m x with
  | nil => exact hx
  | cons op ops ih =>
    have hop := Machine.perform_ensures (h.serves_journaled key m.script) op x hx
    exact ih hop.1

/-- **What a run has saved last** is in the entry. -/
theorem entry_of_lastSaved? (h : host.Stores entry) {ops : List Operation} {m : Machine} {s : σ}
    {key : String} {v : Value} (hv : Operation.lastSaved? host ops (m, s) key = some v) :
    entry key (Operation.performEach host ops (m, s)).2 = some v := by
  have hempty : Accurate entry key ([], s) := fun _ hv => nomatch hv
  obtain ⟨log', hrun⟩ := Operation.performEach_journaled host ops m s []
  have haccurate := h.accurate_performEach key ops (m := m) hempty v hv
  rwa [hrun] at haccurate

/-! ## Ways to name a saved variable -/

/-- The variable that a reference names, if it does not stand for something else. -/
def Reference.varName? : Reference → Option String
  | .symbol name | .register ⟨.vars, name⟩ | .register ⟨.savedVariables, name⟩ => some name
  | .register ⟨.parameters, _⟩ | .register ⟨.messageParameters, _⟩ => none

theorem Reference.varName?_eq_some {r : Reference} {name : String} :
    r.varName? = some name ↔ r = .symbol name ∨ r = .register ⟨.vars, name⟩ ∨
      r = .register ⟨.savedVariables, name⟩ := by
  rcases r with name' | ⟨space, name'⟩
  · simp [varName?]
  · cases space <;> simp [varName?]

namespace Registers

variable {script : Script} {i : Identity} {x : Variable} {key : String} {r : Reference}

theorem isLocal_saved (hx : script.declared? x.name = some x) (hkey : x.SavedAs i key) :
    script.isLocal x.name = false := by
  simp [Script.isLocal, hx, hkey.persisted]

/-- In whichever way a saved variable is named, its entry is read. -/
theorem read_saved (hx : script.declared? x.name = some x) (hkey : x.SavedAs i key)
    (hr : r.varName? = some x.name) (y : Locals × σ) :
    read script i host r y = host.read (.saved key) y.2 := by
  have hsaved : readSaved i host x.name y.2 = host.read (.saved key) y.2 := by
    rw [readSaved, hkey.savedKey]
  have hvar : readVariable script i host x.name y = host.read (.saved key) y.2 := by
    rw [readVariable, isLocal_saved hx hkey, ← hsaved]
    rfl
  rcases Reference.varName?_eq_some.mp hr with rfl | rfl | rfl
  · rw [read, hx]
    exact hvar
  · exact hvar
  · exact hsaved

/-- And its entry is written, if there is no constant of that name. -/
theorem write_saved (hconstant : script.constant? x.name = none)
    (hx : script.declared? x.name = some x) (hkey : x.SavedAs i key)
    (hr : r.varName? = some x.name) (v : Value) :
    write script i host r v = onHost (host.write (.saved key) v) := by
  have hsaved : writeSaved i host x.name v = onHost (host.write (.saved key) v) := by
    rw [writeSaved, hkey.savedKey]
    rfl
  have hvar : writeVariable script i host x.name v = onHost (host.write (.saved key) v) := by
    rw [writeVariable, isLocal_saved hx hkey, ← hsaved]
    rfl
  rcases Reference.varName?_eq_some.mp hr with rfl | rfl | rfl
  · rw [write, hconstant, hx]
    exact hvar
  · exact hvar
  · exact hsaved

end Registers

/-! ## What the first choice of state reads -/

/-- The context that does the same as `ctx` and keeps a list of what is read, with the values. -/
def Context.noted (ctx : Context σ) : Context (List (Reference × Value) × σ) where
  constant name x := ctx.constant name x.2
  read r x := ((ctx.read r x.2).1, x.1 ++ [(r, (ctx.read r x.2).1)], (ctx.read r x.2).2)
  callValue f vs x := ((ctx.callValue f vs x.2).1, x.1, (ctx.callValue f vs x.2).2)
  callFunction f vs x := ((ctx.callFunction f vs x.2).1, x.1, (ctx.callFunction f vs x.2).2)
  write r v x := ((ctx.write r v x.2).1, x.1, (ctx.write r v x.2).2)
  observe p x := (x.1, ctx.observe p x.2)

namespace Machine

/-- **What a machine reads in the first choice of state** after the defaults have been seeded, in
    the order of the reads. -/
def firstReads (host : Host σ) (m : Machine) (s : σ) : List (Reference × Value) :=
  match seedSaved m.identity host m.script.vars s with
  | (.error _, _) => []
  | (.ok (), s₁) => (firstHolding (registers m.script m.identity host).noted m.script.states 0
      ([], m.locals, s₁)).2.1

variable {script : Script} {i : Identity} {x : Variable} {key : String}

/-- The value in an entry is `before`, and whenever the variable was read, it was that. -/
structure Sees (entry : String → σ → Option Value) (key name : String) (before : Option Value)
    (y : List (Reference × Value) × Locals × σ) : Prop where
  same : entry key y.2.2 = before
  reads : ∀ a ∈ y.1, a.1.varName? = some name → a.2 = before.getD .absent

/-- Conditions change no entry, so that every read of a variable gives what is in its entry. -/
theorem answers_noted (h : host.Stores entry) (hx : script.declared? x.name = some x)
    (hkey : x.SavedAs i key) (before : Option Value) :
    (registers script i host).noted.Answers (fun _ => True) (Sees entry key x.name before)
      fun _ => True where
  others _ _ := trivial
  read r y hy := by
    refine ⟨hy.same, fun a ha hname => ?_⟩
    rcases List.mem_append.mp ha with ha | ha
    · exact hy.reads a ha hname
    · obtain rfl := List.mem_singleton.mp ha
      rw [← hy.same, ← h.read]
      exact Registers.read_saved hx hkey hname y.2
  callValue f _ vs y hy :=
    ⟨⟨(h.callValue f vs y.2.2 key).trans hy.same, hy.reads⟩, fun _ _ => trivial⟩

/-- **The first choice of state** reads of a variable what seeding has made of its entry. -/
theorem eq_of_mem_firstReads (h : host.Stores entry) {m : Machine}
    (hnames : m.script.takenNames.Nodup) (hx : x ∈ m.script.vars)
    (hkey : x.SavedAs m.identity key) {s : σ} {a : Reference × Value}
    (ha : a ∈ firstReads host m s) (hname : a.1.varName? = some x.name) :
    a.2 = (x.seeded (entry key s)).getD .absent := by
  rw [firstReads] at ha
  rcases hseed : seedSaved m.identity host m.script.vars s with ⟨err | ⟨⟨⟩⟩, s₁⟩
  · rw [hseed] at ha
    cases ha
  · rw [hseed] at ha
    -- nothing has been refused, so all variables are seeded before anything is read
    obtain ⟨done, -, hall, hseeds⟩ :=
      seedSaved_seeds h (Script.nodup_names_of_takenNames hnames) hseed
    obtain rfl := hall rfl
    rw [← hseeds.saved x hx key hkey]
    have hanswers := answers_noted h (Script.declared?_eq_some hnames hx) hkey (entry key s₁)
    have hstart : Sees entry key x.name (entry key s₁) ([], m.locals, s₁) := ⟨rfl, nofun⟩
    exact (firstHolding_ensures hanswers (fun _ _ _ _ => trivial) 0 _ hstart).1.reads a ha hname

/-- **Saved values across reloads**, for a script that was read from a text and an actor with a
    name.  Each way to assign to a saved variable stores the value in its entry, and no constant
    hides it.  Then a new machine that finds the entries as a run of an old one has left them reads,
    in its first choice of state, the value that the run has saved last, exactly if the variable
    keeps it.

    Seeding, which succeeds unless the host refuses a default, leaves an entry that is there as it
    is, exactly if the variable saved in it keeps the value, also where it fails half-way; and if it
    succeeds, an entry that was not there holds the default of its variable or is still missing. -/
theorem read_eq_lastSaved_iff {source : String} {script : Script}
    (hparse : Script.parse source = .ok script) {i : Identity} (hname : i.actorName.isSome)
    {host : Host σ} {entry : String → σ → Option Value} (hhost : host.Stores entry)
    {host' : Host τ} {entry' : String → τ → Option Value} (hhost' : host'.Stores entry')
    {options options' : MachineOptions} {m m' : Machine}
    (hm : create script i options = .ok m) (hm' : create script i options' = .ok m')
    (ops : List Operation) (s : σ) (t : τ)
    (hsame : ∀ key, entry' key t = entry key (Operation.performEach host ops (m, s)).2) :
    (∀ x ∈ script.vars, ∀ key, x.SavedAs i key →
      (∀ r v, r.varName? = some x.name →
        (registers m.script m.identity host).write r v =
          Registers.onHost (host.write (.saved key) v)) ∧
      script.constant? x.name = none ∧
      ∀ v, Operation.lastSaved? host ops (m, s) key = some v →
        ∀ a ∈ firstReads host' m' t, a.1.varName? = some x.name → (a.2 = v ↔ x.Keeps v)) ∧
    ∀ r t', seedSaved i host' script.vars t = (r, t') →
      ((∀ key v u, (host'.write (.saved key) v u).1 = .ok ()) → r = .ok ()) ∧
      (∀ key v, entry' key t = some v → (∀ x ∈ script.vars, x.SavedAs i key → x.Keeps v) →
        entry' key t' = some v) ∧
      (r = .ok () → ∀ key,
        (∀ v, entry' key t = some v →
          (entry' key t' = some v ↔ ∀ x ∈ script.vars, x.SavedAs i key → x.Keeps v)) ∧
        ∀ d, entry' key t = none →
          (entry' key t' = some d ↔ ∃ x ∈ script.vars, x.SavedAs i key ∧ x.initial = some d)) := by
  have hnames := Script.nodup_takenNames_of_parse hparse
  obtain rfl := create_eq_ok hm
  obtain rfl := create_eq_ok hm'
  refine ⟨fun x hx key hkey => ⟨fun r v hr => ?_, Script.constant?_eq_none hnames hx,
    fun v hv a ha har => ?_⟩, fun r t' hr => ?_⟩
  · exact Registers.write_saved (Script.constant?_eq_none hnames hx)
      (Script.declared?_eq_some hnames hx) hkey hr v
  · have hentry : entry' key t = some v := (hsame key).trans (entry_of_lastSaved? hhost hv)
    rw [eq_of_mem_firstReads hhost' hnames hx hkey ha har, hentry]
    exact Variable.getD_seeded_iff
  · -- `done` are the variables that seeding has come to
    obtain ⟨done, hfront, hall, hseeds⟩ :=
      seedSaved_seeds hhost' (Script.nodup_names_of_takenNames hnames) hr
    refine ⟨fun hwrite => ?_, fun key v hv hkeeps => ?_, fun hok key => ?_⟩
    · rw [← seedSaved_eq_ok hname hwrite script.vars t, hr]
    · exact (hseeds.eq_some_iff hv).mpr fun x hx => hkeeps x (hfront.subset hx)
    · obtain rfl := hall hok
      exact ⟨fun v hv => hseeds.eq_some_iff hv, fun d hnone => hseeds.eq_some_iff_of_none hnone⟩

end Machine

/-! An actor that counts how often it is pressed, and one that forgets its mood. -/

/-- A machine of the actor Bob before anything is done with it. -/
def bobMachine (script : Script) : Machine where
  script := script
  identity := ⟨"town", some "Bob"⟩
  options := {}
  locals := .initial script

/-- A script that counts the presses of the actor, and reads the count in all ways there are. -/
def visitsText : String :=
  "saved var visits = 0; " ++
    "state Visited(variables[\"visits\"] + savedVariables[\"visits\"] > visits) \x7b \x7d " ++
    "state Fresh(true) \x7b event actionPressed() \x7b visits = visits + 1; \x7d \x7d"

def visitsScript : Script where
  vars := [⟨"visits", true, some (.int 0), ⟨1, 1⟩⟩]
  states := [
    { name := "Visited"
      condition := .binary .greater
        (.binary .add (.register ⟨.vars, "visits"⟩) (.register ⟨.savedVariables, "visits"⟩))
        (.symbol "visits")
      handlers := {}
      location := ⟨1, 23⟩ },
    { name := "Fresh", condition := .literal (.bool true),
      handlers := { actionPressed := some 0 }, location := ⟨1, 98⟩ }]
  blocks := [
    [.assign (.symbol "visits") (.binary .add (.symbol "visits") (.literal (.int 1))) ⟨1, 142⟩]]

/-- The actor appears and is pressed. -/
def visit : List Operation := [.activate, .trigger .actionPressed]

/-- Nothing has been stored so far. -/
def blank : Recording.Storage := { parameters := .empty, saved := .empty }

/-- What is found when the actor is loaded again: a new body and the values that were saved. -/
def revisited : Body × SaveStore :=
  ({ position := ⟨0, 0⟩, orientation := .down },
    { values := (Operation.performEach (Recording.recordingHost []) visit
        (bobMachine visitsScript, blank)).2.saved })

/-- What is read then. -/
def revisitReads : List (Reference × Value) :=
  Machine.firstReads (Actor.host { strings := {} }) (bobMachine visitsScript) revisited

theorem read_eq_lastSaved_visits :
    Operation.lastSaved? (Recording.recordingHost []) visit (bobMachine visitsScript, blank)
        "town.Bob.visits" = some (.int 1) ∧
      revisitReads.map Prod.fst = [.register ⟨.vars, "visits"⟩,
        .register ⟨.savedVariables, "visits"⟩, .symbol "visits"] ∧
      ∀ a ∈ revisitReads, a.1.varName? = some "visits" → a.2 = .int 1 := by
  have hparse : Script.parse visitsText = .ok visitsScript := by cbv
  have hlast : Operation.lastSaved? (Recording.recordingHost []) visit
      (bobMachine visitsScript, blank) "town.Bob.visits" = some (.int 1) := by cbv
  have hcreate : Machine.create visitsScript ⟨"town", some "Bob"⟩ {} =
      .ok (bobMachine visitsScript) := rfl
  obtain ⟨hreload, -⟩ := Machine.read_eq_lastSaved_iff hparse rfl
    (Recording.stores_recordingHost []) (Actor.stores_host { strings := {} }) hcreate hcreate
    visit blank revisited fun _ => rfl
  refine ⟨hlast, by cbv, fun a ha hname => ?_⟩
  obtain ⟨-, -, hread⟩ := hreload _ List.mem_cons_self "town.Bob.visits" ⟨rfl, by cbv⟩
  exact (hread (.int 1) hlast a ha hname).mpr (Variable.keeps_of_ne (by decide))

/-- A script that overwrites what it has saved with something that is not there. -/
def moodText : String :=
  "saved var mood = 5; state Calm(mood == 5) \x7b event actionPressed() \x7b mood = missing; " ++
    "\x7d \x7d state Lost(true) \x7b \x7d"

/-- Bob appears with nothing saved and is pressed, and then he is loaded again: the value that the
    first run has saved last, what the first choice of the new machine reads, and what is in the
    entry before and after seeding. -/
def moodAfter : Except Error (Option Value × List (Reference × Value) × Option Value × Option Value)
    := do
  let m ← Machine.create (← Script.parse moodText) ⟨"town", some "Bob"⟩ {}
  let host := Actor.host { strings := {} }
  let start : Body × SaveStore := ({ position := ⟨0, 0⟩, orientation := .down }, {})
  let s := (Operation.performEach host [.activate, .trigger .actionPressed] (m, start)).2
  let seeded := (Machine.seedSaved m.identity host m.script.vars s).2
  return (
    Operation.lastSaved? host [.activate, .trigger .actionPressed] (m, start) "town.Bob.mood",
    Machine.firstReads host m s, s.2.get? "town.Bob.mood", seeded.2.get? "town.Bob.mood")

/-- **A value that is not kept**: the run has saved `absent`, and yet the entry, which is there, is
    overwritten with the default, and the default is what is read. -/
theorem not_kept_mood :
    moodAfter = .ok (some .absent, [(.symbol "mood", .int 5)], some .absent, some (.int 5)) := by
  cbv

end ActorScript
