/-
  References as aliases of cells.

  A script spells one and the same place in several ways: a variable by its name, as
  `variables["x"]` and, if it is saved, as `savedVariables["x"]`.  And one name can be that of a
  constant, of a variable and a key of all four spaces at once.  `Script.cell?` says which cell a
  reference stands for, a parameter, a local or a saved variable, and that some references stand
  for none: constants, names that are not declared, and `messageParameters`.

  Reading and assigning go separate ways through the declarations.  Both come down to the cell
  (`eval_of_cell`, `write_of_cell`), and so the laws of a store with aliases are those of the cells
  themselves, which are laws of two maps: the locals, and what the host stores (`Host.Maps`).
-/
import ActorScript.Proofs.Seeding

namespace ActorScript

variable {σ : Type}

/-! ## Cells -/

/-- A place where a script keeps a value. -/
inductive Cell
  | parameter (key : String)
  /-- A variable in the machine. -/
  | locals (name : String)
  /-- A variable in the save store, under the key of the actor. -/
  | saved (name : String)
deriving DecidableEq, Repr

/-- The cell of `variables[name]`: whatever is not a local is saved. -/
def Script.variableCell (script : Script) (name : String) : Cell :=
  if script.isLocal name then .locals name else .saved name

/-- **The cell a reference stands for.** -/
def Script.cell? (script : Script) : Reference → Option Cell
  | .symbol name =>
    if (script.constant? name).isSome then none
    else if (script.declared? name).isSome then some (script.variableCell name)
    else none
  | .register ⟨.parameters, key⟩ => some (.parameter key)
  | .register ⟨.vars, key⟩ => some (script.variableCell key)
  | .register ⟨.savedVariables, key⟩ => some (.saved key)
  | .register ⟨.messageParameters, _⟩ => none

/-- What a reference without a cell always reads: a constant its value, and all others nothing. -/
def Script.fixed (script : Script) : Reference → Value
  | .symbol name => (script.constant? name).getD .absent
  | .register _ => .absent

/-- The expression that reads a reference. -/
def Reference.expr : Reference → Expr
  | .symbol name => .symbol name
  | .register r => .register r

/-- The host stores values as a map does: it refuses nothing, and a slot has the value that was
    written to it last. -/
structure Host.Maps (host : Host σ) : Prop where
  accepts : ∀ slot v s, (host.write slot v s).1 = .ok ()
  read : ∀ slot v s slot', host.read slot' (host.write slot v s).2 =
    if slot = slot' then v else host.read slot' s

/-- **The host of an actor** keeps the parameters with the actor and the saved values in the
    store. -/
theorem Actor.maps_host (around : Builtin.Surroundings) : (Actor.host around).Maps where
  accepts slot v s := by
    cases slot <;> rfl
  read slot v s slot' := by
    obtain ⟨b, store⟩ := s
    cases slot with
    | parameter key =>
      cases slot' with
      | parameter key' =>
        show ((b.parameters.insert key v).get? key').getD .absent = _
        rw [Dict.get?_insert]
        by_cases hk : key = key' <;> simp [hk, Actor.host]
      | saved key' => rfl
    | saved key =>
      cases slot' with
      | parameter key' => rfl
      | saved key' =>
        show ((store.set key v).get? key').getD .absent = _
        rw [SaveStore.get?_set]
        by_cases hk : key = key' <;> simp [hk, Actor.host]

/-- So does the recording host if it refuses nothing. -/
theorem Recording.maps_recordingHost : (recordingHost []).Maps where
  accepts slot v s := rfl
  read slot v s slot' := by
    cases slot with
    | parameter key =>
      cases slot' with
      | parameter key' =>
        show ((s.parameters.insert key v).get? key').getD .absent = _
        rw [Dict.get?_insert]
        by_cases hk : key = key' <;> simp [hk, recordingHost, Storage.get?]
      | saved key' => rfl
    | saved key =>
      cases slot' with
      | parameter key' => rfl
      | saved key' =>
        show ((s.saved.insert key v).get? key').getD .absent = _
        rw [Dict.get?_insert]
        by_cases hk : key = key' <;> simp [hk, recordingHost, Storage.get?]

namespace Cell

variable (identity : Identity) (host : Host σ)

/-- What is in a cell. -/
def read : Cell → Locals × σ → Value
  | parameter key, s => host.read (.parameter key) s.2
  | locals name, s => (s.1.get? name).getD .absent
  | saved name, s => Registers.readSaved identity host name s.2

/-- Puts a value into a cell. -/
def write (v : Value) : Cell → Action (Locals × σ) Unit
  | parameter key => Registers.onHost (host.write (.parameter key) v)
  | locals name => .update fun s => (s.1.insert name v, s.2)
  | saved name => Registers.writeSaved identity host name v

variable {identity host}

/-- **Only a saved cell refuses a value**, if the actor has no name to save it under. -/
theorem write_error_iff (hhost : host.Maps) (c : Cell) (v : Value) (s : Locals × σ) (e : Error) :
    (c.write identity host v s).1 = .error e ↔
      ∃ name, c = saved name ∧ identity.actorName = none ∧ e = .missingActorName name := by
  obtain ⟨mapName, actorName⟩ := identity
  cases c with
  | parameter key =>
    have hok : ((parameter key).write ⟨mapName, actorName⟩ host v s).1 = .ok () :=
      hhost.accepts (.parameter key) v s.2
    simp [hok]
  | locals name => simp [write, Action.update]
  | saved name =>
    cases actorName with
    | none =>
      have herror : ((saved name).write ⟨mapName, none⟩ host v s).1 =
          .error (.missingActorName name) := rfl
      simp [herror, eq_comm]
    | some a =>
      have hok : ((saved name).write ⟨mapName, some a⟩ host v s).1 = .ok () :=
        hhost.accepts (.saved _) v s.2
      simp [hok]

/-- A value that is refused changes nothing. -/
theorem write_of_error (hhost : host.Maps) {c : Cell} {v : Value} {s : Locals × σ} {e : Error}
    (he : (c.write identity host v s).1 = .error e) : (c.write identity host v s).2 = s := by
  obtain ⟨name, rfl, hnone, -⟩ := (write_error_iff hhost c v s e).mp he
  obtain ⟨mapName, actorName⟩ := identity
  cases hnone
  rfl

/-- A parameter is no saved variable. -/
theorem readSaved_write_parameter (hhost : host.Maps) (key : String) (v : Value) (name : String)
    (s : σ) : Registers.readSaved identity host name (host.write (.parameter key) v s).2 =
      Registers.readSaved identity host name s := by
  rw [Registers.readSaved, Registers.readSaved]
  cases identity.savedKey name with
  | error e => rfl
  | ok key' => simp [hhost.read]

/-- One key is that of one saved variable. -/
theorem readSaved_write_saved (hhost : host.Maps) {key name : String}
    (hkey : identity.savedKey name = .ok key) (v : Value) (name' : String) (s : σ) :
    Registers.readSaved identity host name' (host.write (.saved key) v s).2 =
      if name = name' then v else Registers.readSaved identity host name' s := by
  rw [Registers.readSaved, Registers.readSaved]
  cases hkey' : identity.savedKey name' with
  | error e =>
    have hne : name ≠ name' := by
      rintro rfl
      cases hkey.symm.trans hkey'
    simp [hne]
  | ok key' =>
    have hsame : key = key' ↔ name = name' := by
      constructor
      · rintro rfl
        exact Identity.savedKey_injective hkey hkey'
      · rintro rfl
        exact Except.ok.inj (hkey.symm.trans hkey')
    simp only [hhost.read, Slot.saved.injEq, hsame]

/-- **The law of the cells**: a value that has been accepted is in its cell, and all other cells
    hold what they held. -/
theorem read_write (hhost : host.Maps) (c c' : Cell) (v : Value) (s : Locals × σ)
    (hok : (c.write identity host v s).1 = .ok ()) :
    c'.read identity host (c.write identity host v s).2 =
      if c = c' then v else c'.read identity host s := by
  cases c with
  | parameter key =>
    cases c' with
    | parameter key' =>
      show host.read (.parameter key') (host.write (.parameter key) v s.2).2 = _
      simp only [hhost.read, Slot.parameter.injEq, Cell.parameter.injEq, read]
    | locals name' => rfl
    | saved name' => exact readSaved_write_parameter hhost key v name' s.2
  | locals name =>
    cases c' with
    | parameter key' => rfl
    | locals name' =>
      show ((s.1.insert name v).get? name').getD .absent = _
      rw [Dict.get?_insert]
      by_cases hname : name = name' <;> simp [hname, read]
    | saved name' => rfl
  | saved name =>
    obtain ⟨key, hkey⟩ : ∃ key, identity.savedKey name = .ok key := by
      cases hkey : identity.savedKey name with
      | ok key => exact ⟨key, rfl⟩
      | error e =>
        simp [write, Registers.writeSaved, hkey, Action.bind_apply] at hok
    have hwrite : (saved name).write identity host v s =
        Registers.onHost (host.write (.saved key) v) s := by
      simp [write, Registers.writeSaved, hkey, Action.bind_apply]
    rw [hwrite]
    cases c' with
    | parameter key' =>
      show host.read (.parameter key') (host.write (.saved key) v s.2).2 = _
      simp [hhost.read, read]
    | locals name' => rfl
    | saved name' =>
      simp only [Cell.saved.injEq]
      exact readSaved_write_saved hhost hkey v name' s.2

end Cell

/-! ## References -/

section References

variable {script : Script} {identity : Identity} {host : Host σ}
  {describe : Position → Option Step} {r : Reference} {c : Cell}

/-- The two ways in which a name that is declared is read are one. -/
theorem readVariable_eq (name : String) (s : Locals × σ) :
    Registers.readVariable script identity host name s =
      (script.variableCell name).read identity host s := by
  rw [Registers.readVariable, Script.variableCell]
  split <;> rfl

theorem writeVariable_eq (name : String) (v : Value) :
    Registers.writeVariable script identity host name v =
      (script.variableCell name).write identity host v := by
  rw [Registers.writeVariable, Script.variableCell]
  split <;> rfl

/-- **Reading a reference** is reading its cell or, if it has none, what it always gives. -/
theorem eval_reference (r : Reference) (s : Locals × σ) :
    r.expr.eval (registers script identity host describe) s =
      (.ok ((script.cell? r).elim (script.fixed r) fun c => c.read identity host s), s) := by
  cases r with
  | symbol name =>
    rw [Reference.expr, Expr.eval, Context.lookup, Script.cell?, Script.fixed]
    cases hconst : script.constant? name with
    | some v => simp only [registers, hconst, Option.isSome_some, if_true, Option.elim_none,
        Option.getD_some]
    | none =>
      simp only [registers, hconst, Context.fetch, Registers.read, readVariable_eq,
        Option.isSome_none, Bool.false_eq_true, if_false, Option.getD_none]
      split <;> rfl
  | register reg =>
    obtain ⟨space, key⟩ := reg
    have hread : (Expr.register ⟨space, key⟩).eval (registers script identity host describe) s =
        (.ok (Registers.read script identity host (.register ⟨space, key⟩) s), s) := rfl
    refine hread.trans ?_
    cases space with
    | parameters => rfl
    | vars =>
      simp only [Registers.read, readVariable_eq]
      rfl
    | savedVariables => rfl
    | messageParameters => rfl

/-- **Assigning to a reference** is writing its cell.  Without a cell it is refused, or nothing at
    all. -/
theorem write_reference (r : Reference) (v : Value) :
    Registers.write script identity host r v = match script.cell? r, r with
      | some c, _ => c.write identity host v
      | none, .symbol name => .fail (if (script.constant? name).isSome then .constantAssignment name
          else .unknownSymbol name)
      | none, .register _ => pure () := by
  cases r with
  | symbol name =>
    rw [Registers.write, Script.cell?]
    by_cases hconst : (script.constant? name).isSome = true
    · simp only [hconst, if_true]
    · by_cases hdecl : (script.declared? name).isSome = true
      · have hsome : (script.declared? name).isNone = false := by simpa using hdecl
        simp only [hconst, hdecl, hsome, Bool.false_eq_true, if_false, if_true, writeVariable_eq]
      · have hnone : (script.declared? name).isNone = true := by simpa using hdecl
        simp only [hconst, hdecl, hnone, Bool.false_eq_true, if_false, if_true]
  | register reg =>
    obtain ⟨space, key⟩ := reg
    cases space with
    | parameters => rfl
    | vars => exact writeVariable_eq key v
    | savedVariables => rfl
    | messageParameters => rfl

end References

/-! ## The laws -/

/-- An assignment is refused: to a constant, to a name that is not declared, and to a saved variable
    if the actor has no name. -/
inductive Refuses (script : Script) (identity : Identity) : Reference → Error → Prop
  | constant {name : String} (h : (script.constant? name).isSome) :
    Refuses script identity (.symbol name) (.constantAssignment name)
  | undeclared {name : String} (hc : script.constant? name = none)
    (hd : script.declared? name = none) :
    Refuses script identity (.symbol name) (.unknownSymbol name)
  | unnamed {r : Reference} {name : String} (hcell : script.cell? r = some (.saved name))
    (h : identity.actorName = none) :
    Refuses script identity r (.missingActorName name)

/-- **The laws of a store with aliases**, for assigning the value `v` to `t` in the state `s`. -/
structure Aliased (script : Script) (identity : Identity) (host : Host σ)
    (ctx : Context (Locals × σ)) (t : Reference) (v : Value) (s : Locals × σ) : Prop where
  /-- A reference reads what is in its cell, -/
  reads : ∀ r c, script.cell? r = some c → r.expr.eval ctx s = (.ok (c.read identity host s), s)
  /-- or without a cell always the same. -/
  fixed : ∀ r, script.cell? r = none → r.expr.eval ctx s = (.ok (script.fixed r), s)
  /-- An assignment fails exactly if it is refused, -/
  refused : ∀ e, (ctx.write t v s).1 = .error e ↔ Refuses script identity t e
  /-- and then it changes nothing. -/
  unchanged : ∀ e, (ctx.write t v s).1 = .error e → (ctx.write t v s).2 = s
  /-- Nor does one that finds no cell. -/
  discarded : script.cell? t = none → (ctx.write t v s).2 = s
  /-- If it succeeds, all references with the same cell read the value, -/
  same : (ctx.write t v s).1 = .ok () → ∀ r c, script.cell? t = some c → script.cell? r = some c →
    r.expr.eval ctx (ctx.write t v s).2 = (.ok v, (ctx.write t v s).2)
  /-- and all others what they read before. -/
  others : (ctx.write t v s).1 = .ok () → ∀ r, (∀ c, script.cell? t = some c →
      script.cell? r ≠ some c) →
    (r.expr.eval ctx (ctx.write t v s).2).1 = (r.expr.eval ctx s).1

section Laws

variable {script : Script} {identity : Identity} {host : Host σ} {t : Reference} {v : Value}
  {s : Locals × σ} {e : Error}

theorem cell?_of_constant {name : String} (h : (script.constant? name).isSome) :
    script.cell? (.symbol name) = none := by
  rw [Script.cell?, if_pos h]

theorem cell?_of_undeclared {name : String} (h : script.declared? name = none) :
    script.cell? (.symbol name) = none := by
  rw [Script.cell?, h]
  simp

/-- Assigning where there is no cell leaves everything as it is. -/
theorem write_of_no_cell (hcell : script.cell? t = none) (v : Value) (s : Locals × σ) :
    (Registers.write script identity host t v s).2 = s := by
  rw [write_reference, hcell]
  cases t <;> rfl

theorem write_error_iff_refuses (hhost : host.Maps) :
    (Registers.write script identity host t v s).1 = .error e ↔ Refuses script identity t e := by
  rw [write_reference]
  cases hcell : script.cell? t with
  | some c =>
    rw [Cell.write_error_iff hhost]
    constructor
    · rintro ⟨name, rfl, hnone, rfl⟩
      exact .unnamed hcell hnone
    · intro hr
      cases hr with
      | constant h => cases (cell?_of_constant h).symm.trans hcell
      | undeclared hc hd => cases (cell?_of_undeclared hd).symm.trans hcell
      | unnamed hcell' h =>
        obtain rfl := Option.some.inj (hcell.symm.trans hcell')
        exact ⟨_, rfl, h, rfl⟩
  | none =>
    cases t with
    | symbol name =>
      simp only [Action.fail_apply, Except.error.injEq]
      constructor
      · rintro rfl
        by_cases hconst : (script.constant? name).isSome = true
        · rw [if_pos hconst]
          exact .constant hconst
        · rw [if_neg hconst]
          refine .undeclared (by simpa using hconst) ?_
          -- it would have a cell otherwise
          rw [Script.cell?, if_neg hconst] at hcell
          by_contra hdecl
          rw [if_pos (Option.isSome_iff_ne_none.mpr hdecl)] at hcell
          cases hcell
      · intro hr
        cases hr with
        | constant h => rw [if_pos h]
        | undeclared hc hd => simp [hc]
        | unnamed hcell' h => cases hcell.symm.trans hcell'
    | register reg =>
      simp only [Action.pure_apply]
      refine ⟨nofun, fun hr => ?_⟩
      cases hr with
      | unnamed hcell' h => cases hcell.symm.trans hcell'

/-- A successful assignment to a cell, seen from any reference. -/
theorem eval_of_written (hhost : host.Maps) (describe : Position → Option Step) {c : Cell}
    (hcell : script.cell? t = some c)
    (hok : (Registers.write script identity host t v s).1 = .ok ()) (r : Reference) :
    (r.expr.eval (registers script identity host describe)
      (Registers.write script identity host t v s).2).1 =
      .ok (if some c = script.cell? r then v else
        (script.cell? r).elim (script.fixed r) fun c' => c'.read identity host s) := by
  rw [eval_reference]
  rw [write_reference, hcell] at hok ⊢
  cases hr : script.cell? r with
  | none => rfl
  | some c' =>
    simp only [Option.elim_some, Option.some.injEq]
    rw [Cell.read_write hhost c c' v s hok]

end Laws

variable {host : Host σ}

/-- **Registers are a store with aliases**: for every script, also one that declares a name several
    times, every actor and every host that stores values as a map does. -/
theorem registers_aliased (hhost : host.Maps) (script : Script) (identity : Identity)
    (describe : Position → Option Step) (t : Reference) (v : Value) (s : Locals × σ) :
    Aliased script identity host (registers script identity host describe) t v s where
  reads r c hr := by
    rw [eval_reference, hr]
    rfl
  fixed r hr := by
    rw [eval_reference, hr]
    rfl
  refused e := write_error_iff_refuses hhost
  unchanged e he := by
    have he' : (Registers.write script identity host t v s).1 = .error e := he
    show (Registers.write script identity host t v s).2 = s
    cases hcell : script.cell? t with
    | none => exact write_of_no_cell hcell v s
    | some c =>
      rw [write_reference, hcell] at he' ⊢
      exact Cell.write_of_error hhost he'
  discarded hcell := write_of_no_cell hcell v s
  same hok r c ht hr := by
    have hvalue := eval_of_written hhost describe ht hok r
    rw [if_pos hr.symm] at hvalue
    refine Prod.ext hvalue ?_
    rw [eval_reference]
  others hok r hne := by
    cases hcell : script.cell? t with
    | none =>
      have hsame : ((registers script identity host describe).write t v s).2 = s :=
        write_of_no_cell hcell v s
      rw [hsame]
    | some c =>
      refine (eval_of_written hhost describe hcell hok r).trans ?_
      rw [if_neg (hne c hcell).symm, eval_reference]

/-- A script that declares `a` as a constant and as a variable, and `b` as a saved variable. -/
def tangle : Script where
  constants := [⟨"a", .int 1, ⟨1, 1⟩⟩]
  vars := [⟨"a", false, none, ⟨2, 1⟩⟩, ⟨"b", true, none, ⟨3, 1⟩⟩]

/-- What its handlers can reach when Bob runs it. -/
def tangled : Context (Locals × Recording.Storage) :=
  registers tangle ⟨"town", some "Bob"⟩ (Recording.recordingHost [])

/-- After `savedVariables["b"] = 7` the name `b` reads 7, and `a` is still the constant. -/
theorem aliased_tangle : ∃ s, (tangled.write (.register ⟨.savedVariables, "b"⟩) (.int 7)
      (.initial tangle, { parameters := .empty, saved := .empty })).2 = s ∧
    (Reference.symbol "b").expr.eval tangled s = (.ok (.int 7), s) ∧
    (Reference.symbol "a").expr.eval tangled s = (.ok (.int 1), s) := by
  have h := registers_aliased Recording.maps_recordingHost tangle ⟨"town", some "Bob"⟩
    (fun _ => none) (.register ⟨.savedVariables, "b"⟩) (.int 7)
    (.initial tangle, { parameters := .empty, saved := .empty })
  have hok : (tangled.write (.register ⟨.savedVariables, "b"⟩) (.int 7)
      (.initial tangle, { parameters := .empty, saved := .empty })).1 = .ok () := rfl
  refine ⟨_, rfl, h.same hok (.symbol "b") (.saved "b") rfl (by decide), ?_⟩
  have hfixed := (registers_aliased Recording.maps_recordingHost tangle ⟨"town", some "Bob"⟩
    (fun _ => none) (.register ⟨.savedVariables, "b"⟩) (.int 7)
    (tangled.write (.register ⟨.savedVariables, "b"⟩) (.int 7)
      (.initial tangle, { parameters := .empty, saved := .empty })).2).fixed (.symbol "a")
  exact hfixed (by decide)

end ActorScript
