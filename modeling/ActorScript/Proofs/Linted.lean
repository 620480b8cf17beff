/-
  What a script that has passed the linter can still get wrong about functions.

  The linter looks every name up among all built-in functions, whether it is called as a statement
  or in an expression; at run time the two kinds of calls are looked up apart from each other.  So
  a script without findings can still call a function that is not known, but only one that is
  built in and stands in the wrong place (`Script.Misplaces`).  `misplaces_of_unknownFunction` says
  so for every history of an actor with such a script.
-/
import Mathlib
import ActorScript.Proofs.ActorCall
import ActorScript.Proofs.Asked
import ActorScript.Lint

namespace ActorScript

variable {α : Type}

/-! ## Built-in functions -/

namespace Builtin

theorem knows_argument (function : String) (args : List Value) (i : Nat) :
    Knows (argument function args i) := by
  rw [argument]
  split
  · exact knows_ok _
  · exact knows_error rfl

theorem knows_argumentAs (read? : Value → Option α) (wanted function : String)
    (args : List Value) (i : Nat) : Knows (argumentAs read? wanted function args i) := by
  rw [argumentAs]
  refine (knows_argument function args i).bind fun v => ?_
  split
  · exact knows_ok _
  · exact knows_error rfl

theorem knows_format (t : StringTable) (key : String) (args : List Value) :
    Knows (t.format key args) := by
  rw [StringTable.format]
  split
  · exact knows_error rfl
  · split
    · exact knows_error rfl
    · exact knows_ok _

/-- The action may fail, but not for want of a function. -/
def Answers (a : Action Body α) : Prop :=
  a.Ensures (fun _ => True) fun e => e.unknownFunction? = none

theorem answers_pure (x : α) : Answers (pure x) := Action.ensures_pure x

theorem answers_lift {r : Except Error α} (h : Knows r) : Answers (Action.lift r) :=
  Action.ensures_lift h

/-- What acts at once does not fail. -/
theorem answers_act (f : Body → Body) (x : α) : Answers (Action.update f >>= fun _ => pure x) :=
  (Action.ensures_update fun _ _ => trivial).bind fun _ => answers_pure x

/-- A procedure may refuse its arguments, but it calls nothing else. -/
theorem Procedure.answers_run (around : Surroundings) (p : Procedure) (args : List Value) :
    Answers (p.run around args) := by
  cases p with
  | wait =>
    refine (answers_lift (knows_argumentAs _ _ wait.name args 0)).bind fun ms => ?_
    split
    · exact answers_pure _
    · exact Action.ensures_fail rfl
  | print => exact answers_act _ _
  | triggerStateChange => exact answers_pure _
  | lockInputs => exact answers_act _ _
  | unlockInputs => exact answers_act _ _
  | setOrientation =>
    exact (answers_lift (knows_argumentAs _ _ setOrientation.name args 0)).bind fun o =>
      answers_act _ _
  | turnToFaceCharacter => exact answers_act _ _
  | walk =>
    exact (answers_lift (knows_argumentAs _ _ walk.name args 0)).bind fun o => answers_act _ _
  | setParameter =>
    exact (answers_lift (knows_argumentAs _ _ setParameter.name args 0)).bind fun key =>
      (answers_lift (knows_argument setParameter.name args 1)).bind fun v => answers_act _ _

theorem Function.answers_value (around : Surroundings) (f : Function) (args : List Value) :
    Answers (f.value around args) := by
  cases f with
  | getString =>
    exact (answers_lift (knows_argumentAs _ _ getString.name args 0)).bind fun key =>
      (answers_lift (knows_format around.strings key (args.drop 1))).bind fun text =>
        answers_pure _
  | toString =>
    exact (answers_lift (knows_argument toString.name args 0)).bind fun v => answers_pure _
  | inParameters =>
    exact (answers_lift (knows_argumentAs _ _ inParameters.name args 0)).bind fun key =>
      Action.ensures_look _

/-- A call as a statement complains about its own function, and only if that is no procedure. -/
theorem unknown_of_callProcedure {around : Surroundings} {name f : String} {args : List Value}
    {b : Body} {e : Error} (h : (callProcedure around name args b).1 = .error e)
    (hf : e.unknownFunction? = some f) : f = name ∧ Procedure.ofName? name = none := by
  rw [callProcedure] at h
  cases hp : Procedure.ofName? name with
  | none =>
    rw [hp] at h
    cases h
    exact ⟨(Option.some.inj hf).symm, rfl⟩
  | some p =>
    rw [hp] at h
    cases hf.symm.trans ((p.answers_run around args b trivial).2 e h)

/-- A call in an expression complains about its own function, and only if that is none for
    expressions. -/
theorem unknown_of_callFunction {around : Surroundings} {name f : String} {args : List Value}
    {b : Body} {e : Error} (h : (callFunction around name args b).1 = .error e)
    (hf : e.unknownFunction? = some f) : f = name ∧ Function.ofName? name = none := by
  rw [callFunction] at h
  cases hg : Function.ofName? name with
  | none =>
    rw [hg] at h
    cases h
    exact ⟨(Option.some.inj hf).symm, rfl⟩
  | some g =>
    rw [hg] at h
    cases hf.symm.trans ((g.answers_value around args b trivial).2 e h)

end Builtin

/-! ## Functions in the wrong place -/

/-- The script calls a built-in function in the wrong place: one for expressions as a statement, or
    one for statements in an expression. -/
def Script.Misplaces (s : Script) (name : String) : Prop :=
  (name ∈ s.statementCalls ∧ (Builtin.Function.ofName? name).isSome) ∨
    (name ∈ s.valueCalls ∧ (Builtin.Procedure.ofName? name).isSome)

/-- All functions that the script calls are built in. -/
def Script.CallsKnown (s : Script) : Prop :=
  ∀ name, name ∈ s.statementCalls ∨ name ∈ s.valueCalls → Builtin.isKnown name = true

/-- The error is not about a function, or it is about one in the wrong place. -/
def Script.Blames (s : Script) (e : Error) : Prop :=
  ∀ name, e.unknownFunction? = some name → s.Misplaces name

theorem Script.blames_of_none (s : Script) {e : Error} (h : e.unknownFunction? = none) :
    s.Blames e := by
  intro name hname
  cases h.symm.trans hname

/-- **The built-in functions** fail to be found only in the wrong place. -/
theorem Actor.host_serves {s : Script} (hs : s.CallsKnown) (around : Builtin.Surroundings) :
    (Actor.host around).Serves s (fun _ => True) s.Blames where
  others _ h := s.blames_of_none h
  callValue f hf vs x _ := by
    refine ⟨trivial, fun e he name hname => ?_⟩
    obtain ⟨rfl, hnone⟩ := Builtin.unknown_of_callFunction he hname
    have hknown := hs name (.inr hf)
    rw [Builtin.isKnown, hnone, Option.isSome_none, Bool.or_false] at hknown
    exact .inr ⟨hf, hknown⟩
  callFunction f hf vs x _ := by
    refine ⟨trivial, fun e he name hname => ?_⟩
    obtain ⟨rfl, hnone⟩ := Builtin.unknown_of_callProcedure he hname
    have hknown := hs name (.inl hf)
    rw [Builtin.isKnown, hnone, Option.isSome_none, Bool.false_or] at hknown
    exact .inl ⟨hf, hknown⟩
  write slot v x _ := by
    cases slot with
    | parameter key => exact .ok trivial
    | saved key => exact .ok trivial
  observe _ _ _ := trivial

theorem Machine.knows_create (script : Script) (identity : Identity) (options : MachineOptions) :
    Knows (Machine.create script identity options) := by
  rw [Machine.create.eq_def]
  split
  · exact knows_error rfl
  · exact knows_ok _

/-! ## Findings -/

namespace Lint

/-- **A text without findings** is a script all of whose functions are built in. -/
theorem callsKnown_of_diagnose {path source : String} (h : diagnose path source = []) :
    ∃ script, Script.parse source = .ok script ∧ script.CallsKnown := by
  rw [diagnose] at h
  split at h
  · cases h
  · rename_i script hparse
    refine ⟨script, hparse, fun name hname => ?_⟩
    obtain ⟨l, hl⟩ := Script.mem_calledFunctions.mpr hname
    have hnone := List.filter_eq_nil_iff.mp (List.map_eq_nil_iff.mp h) (name, l) hl
    simpa using hnone

theorem diagnose_of_report {sources : Dict String} {path source : String}
    (hclean : (Report.ofSources sources).diagnostics = [])
    (hs : (path, source) ∈ sources.entries) : diagnose path source = [] :=
  List.flatMap_eq_nil_iff.mp hclean (path, source) hs

end Lint

/-! ## Actors -/

namespace Actor

variable {s : Script} {name : Option String} {a : Actor}

/-- What the actor runs, and what is to blame for a failure. -/
abbrev Fares (s : Script) (name : Option String) (r : Except Error Unit × Actor) : Prop :=
  Ensured (fun a => a.Runs s name) s.Blames r

/-- **The machine of an actor** fails to find only functions in the wrong place. -/
theorem fares_withMachine (hs : s.CallsKnown) (ha : a.Runs s name) (around : Builtin.Surroundings)
    (store : SaveStore) (op : Operation) :
    Fares s name
      ((withMachine (op.perform (host around)) (a, store)).1,
        (withMachine (op.perform (host around)) (a, store)).2.1) := by
  cases hm : a.machine with
  | none =>
    simp only [withMachine, hm]
    exact .ok ha
  | some m =>
    have hscript := ha.machine m hm
    subst hscript
    have hensured := Machine.perform_ensures (host_serves hs around) op (a.body, store) trivial
    have hkept := Machine.script_next m ⟨host around, (a.body, store), op⟩
    rw [Machine.next] at hkept
    simp only [withMachine, hm]
    refine ⟨⟨fun m' hm' => ?_, ha.script⟩, hensured.2⟩
    cases hm'
    exact hkept

/-- **Every operation on an actor** whose script calls only functions that are built in. -/
theorem fares_perform {source : String} (hparse : Script.parse source = .ok s)
    (hs : s.CallsKnown) (ha : a.Runs s name) (c : ActorCall) (hc : c.LoadsFrom source name) :
    Fares s name (c.perform a) := by
  obtain ⟨around, store, op⟩ := c
  cases op with
  | load mapName options disk cache =>
    simp only [ActorCall.perform, load]
    cases hscript : a.script with
    | none => exact .ok ha
    | some scriptName =>
      have hholds := hc scriptName (ha.script.symm.trans hscript)
      rcases ScriptCache.load_of_holds hholds hparse with ⟨c', hload⟩ | ⟨path, reason, c', hload⟩
      · simp only [hload]
        cases hcreate : Machine.create s ⟨mapName, a.name⟩ options with
        | error err => exact .error ha (s.blames_of_none (Machine.knows_create _ _ _ err hcreate))
        | ok m =>
          refine .ok ⟨fun m' hm' => ?_, hscript.symm.trans ha.script⟩
          cases hm'
          rw [Machine.create_eq_ok hcreate]
      · simp only [hload]
        exact .error ha (s.blames_of_none rfl)
  | spawn =>
    simp only [ActorCall.perform, spawn]
    split
    · exact .ok ha
    · exact fares_withMachine hs (ha.congr (b := { a with spawned := true }) rfl rfl) around store
        .activate
  | despawn => exact .ok ha.despawn
  | trigger event =>
    simp only [ActorCall.perform, trigger]
    split
    · exact fares_withMachine hs ha around store (.trigger event)
    · exact .ok ha
  | update dt =>
    simp only [ActorCall.perform, update]
    split
    · exact fares_withMachine hs ha around store (.newFrame dt)
    · exact .ok ha
  | drain => exact .ok (ha.congr rfl rfl)

theorem runs_after {source : String} (hparse : Script.parse source = .ok s) (hs : s.CallsKnown)
    (ha : a.Runs s name) (calls : List ActorCall) (hcalls : ∀ c ∈ calls, c.LoadsFrom source name) :
    (a.after calls).Runs s name := by
  induction calls generalizing a with
  | nil => exact ha
  | cons c cs ih =>
    have hstep := (fares_perform hparse hs ha c (hcalls c List.mem_cons_self)).1
    exact ih hstep fun c' hc' => hcalls c' (List.mem_cons_of_mem _ hc')

/-- **A script without findings** makes an actor fail to find a function only if the script calls it
    in the wrong place, whatever is done with the actor. -/
theorem misplaces_of_unknownFunction {sources : Dict String}
    (hclean : (Lint.Report.ofSources sources).diagnostics = []) {path source : String}
    (hsource : (path, source) ∈ sources.entries) :
    ∃ s, Script.parse source = .ok s ∧ ∀ spec calls c,
      (∀ c' ∈ calls ++ [c], ActorCall.LoadsFrom source spec.script c') →
      ∀ name, (c.perform ((ofSpec spec).after calls)).1 = .error (.unknownFunction name) →
        s.Misplaces name := by
  obtain ⟨s, hparse, hs⟩ := Lint.callsKnown_of_diagnose (Lint.diagnose_of_report hclean hsource)
  refine ⟨s, hparse, fun spec calls c hloads name herr => ?_⟩
  have hruns := runs_after hparse hs (runs_ofSpec spec s) calls
    fun c' hc' => hloads c' (List.mem_append_left _ hc')
  have hlast := hloads c (List.mem_append_right _ List.mem_cons_self)
  exact (fares_perform hparse hs hruns c hlast).2 _ herr name rfl

end Actor

/-! A function for expressions, called as a statement. -/

/-- The text of a script whose only statement calls a function for expressions. -/
def strayText : String := "state S(true) \x7b event spawn() \x7b toString(1); \x7d \x7d"

/-- That script by itself, for the linter. -/
def strays : Dict String := Dict.empty.insert "stray" strayText

/-- Fetches that script for an actor, while nothing is known around it. -/
def fetchStray : ActorCall where
  around := { strings := {} }
  store := {}
  operation := .load "town" {} {} (.insertSource { root := "scripts" } ⟨"town", "stray"⟩ strayText)

/-- Puts an actor on the map, while nothing is known around it. -/
def putOnMap : ActorCall := ⟨{ strings := {} }, {}, .spawn⟩

/-- An actor with that script. -/
def bystander : ActorSpec := { name := some "Bob", script := some "stray" }

theorem diagnostics_strays : (Lint.Report.ofSources strays).diagnostics = [] := by cbv

theorem loadsFrom_stray : ∀ c ∈ [fetchStray] ++ [putOnMap],
    ActorCall.LoadsFrom strayText bystander.script c := by
  intro c hc
  simp only [List.cons_append, List.nil_append, List.mem_cons, List.not_mem_nil, or_false] at hc
  rcases hc with rfl | rfl
  · intro scriptName hname
    cases hname
    exact ScriptCache.holds_insertSource _ _ _ _
  · trivial

theorem perform_putOnMap : (putOnMap.perform ((Actor.ofSpec bystander).after [fetchStray])).1 =
    .error (.unknownFunction "toString") := by cbv

/-- The linter finds nothing in the script, and yet its actor fails to find a function. -/
theorem unfound_stray :
    (Lint.Report.ofSources strays).diagnostics = [] ∧ ("stray", strayText) ∈ strays.entries ∧
      (∀ c ∈ [fetchStray] ++ [putOnMap], ActorCall.LoadsFrom strayText bystander.script c) ∧
      (putOnMap.perform ((Actor.ofSpec bystander).after [fetchStray])).1 =
        .error (.unknownFunction "toString") :=
  ⟨diagnostics_strays, List.mem_singleton_self _, loadsFrom_stray, perform_putOnMap⟩

/-- What it calls in the wrong place is to blame. -/
theorem misplaces_stray :
    (Lint.Report.ofSources strays).diagnostics = [] ∧ ∃ s, Script.parse strayText = .ok s ∧
      (putOnMap.perform ((Actor.ofSpec bystander).after [fetchStray])).1 =
        .error (.unknownFunction "toString") ∧ s.Misplaces "toString" := by
  obtain ⟨s, hparse, hblame⟩ := Actor.misplaces_of_unknownFunction diagnostics_strays
    (List.mem_singleton_self ("stray", strayText))
  refine ⟨diagnostics_strays, s, hparse, perform_putOnMap, ?_⟩
  exact hblame bystander [fetchStray] putOnMap loadsFrom_stray "toString" perform_putOnMap

end ActorScript
