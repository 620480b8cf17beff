/-
  Statements that fail.

  An expression changes nothing, and of the operations that do change something each checks
  everything before it begins (`Context.Atomic`).  A statement first evaluates its expressions and
  then performs one such operation, so a statement that fails has done nothing
  (`Statement.perform_atomic`), whatever has gone wrong with it and at whatever depth.

  A handler that fails does so at one of its statements.  The statements before that one have been
  executed, in the order in which the handler goes through its script (`Handler.Moves`), and the
  state that is left is the one which they have reached (`Handler.execute_failsCleanly`).  What an
  actor's script reaches is such a context (`Actor.registers_atomic`): the locals, the body with its
  commands, and the save store.
-/
import Mathlib
import ActorScript.Actor
import ActorScript.Proofs.Phase

namespace ActorScript

variable {σ α β : Type}

/-! ## Operations that fail without a trace -/

/-- Where the action fails, it leaves the state as it was. -/
def Action.Atomic (a : Action σ α) : Prop := ∀ s e s', a s = (.error e, s') → s' = s

/-- The action never changes the state. -/
def Action.Pure (a : Action σ α) : Prop := ∀ s, (a s).2 = s

namespace Action

/-- What never changes the state does not change it when it fails. -/
theorem Pure.atomic {a : Action σ α} (ha : a.Pure) : a.Atomic := by
  intro s e s' h
  have := ha s
  rwa [h] at this

/-- Such an action keeps every state that it may begin in. -/
theorem pure_iff_keeps {a : Action σ α} : a.Pure ↔ ∀ s₀, a.Keeps (· = s₀) := by
  refine ⟨fun ha s₀ s hs => ?_, fun ha s => ha s s rfl⟩
  rw [ha s, hs]

theorem pure_lift (r : Except Error α) : (lift r : Action σ α).Pure := fun _ => rfl

/-- A look changes nothing. -/
theorem pure_look (f : σ → α) : (look f).Pure := fun _ => rfl

theorem pure_pure (a : α) : (pure a : Action σ α).Pure := fun _ => rfl

theorem pure_fail (e : Error) : (fail e : Action σ α).Pure := fun _ => rfl

/-- Two actions of this kind in a row are one. -/
theorem Pure.bind {x : Action σ α} {f : α → Action σ β} (hx : x.Pure) (hf : ∀ a, (f a).Pure) :
    (x >>= f).Pure := by
  intro s
  have hs := hx s
  rw [bind_apply]
  split
  · rename_i a s₁ hx₁
    rw [hx₁] at hs
    exact (hf a s₁).trans hs
  · rename_i e s₁ hx₁
    rw [hx₁] at hs
    exact hs

/-- What acts at once has nothing to fail. -/
theorem atomic_act (f : σ → σ) (a : α) : (update f >>= fun _ => pure a).Atomic := by
  rintro s e s' ⟨⟩

theorem atomic_fail (e : Error) : (fail e : Action σ α).Atomic := (pure_fail e).atomic

/-- Nothing has happened before the second action, and it decides. -/
theorem Pure.bind_atomic {x : Action σ α} {f : α → Action σ β} (hx : x.Pure)
    (hf : ∀ a, (f a).Atomic) : (x >>= f).Atomic := by
  intro s e s' h
  have hs := hx s
  rw [bind_apply] at h
  split at h
  · rename_i a s₁ hx₁
    rw [hx₁] at hs
    rw [← show s₁ = s from hs]
    exact hf a s₁ e s' h
  · rename_i e₁ s₁ hx₁
    rw [hx₁] at hs
    cases h
    exact hs

/-- What comes after the action cannot fail any more. -/
theorem Atomic.bind_pure {x : Action σ α} (hx : x.Atomic) (f : α → β) :
    (x >>= fun a => pure (f a)).Atomic := by
  intro s e s' h
  rw [bind_apply] at h
  split at h
  · cases h
  · rename_i e₁ s₁ hx₁
    cases h
    exact hx s e s' hx₁

end Action

/-- Evaluating and observing change nothing, and what is done to the surroundings is done completely
    or not at all. -/
structure Context.Atomic (ctx : Context σ) : Prop where
  read : ∀ r s, (ctx.read r s).2 = s
  callValue : ∀ f vs, (ctx.callValue f vs).Pure
  callFunction : ∀ f vs, (ctx.callFunction f vs).Atomic
  write : ∀ r v, (ctx.write r v).Atomic
  observe : ∀ p s, ctx.observe p s = s

/-! ## Statements -/

section Statements

variable {ctx : Context σ}

/-- **Expressions change nothing**, whether they have a value or fail. -/
theorem Expr.eval_pure (hctx : ctx.Atomic) (e : Expr) : (e.eval ctx).Pure := by
  refine Action.pure_iff_keeps.mpr fun s₀ => Action.keeps_iff_ensures.mpr ?_
  refine e.eval_ensures (Context.answers ?_ ?_ fun _ => True) fun _ _ => trivial
  · exact fun r s hs => (hctx.read r s).trans hs
  · exact fun f vs => Action.pure_iff_keeps.mp (hctx.callValue f vs) s₀

/-- **Arguments change nothing** either, whichever of them fails. -/
theorem Expr.evalList_pure (hctx : ctx.Atomic) (es : List Expr) : (Expr.evalList ctx es).Pure := by
  refine Action.pure_iff_keeps.mpr fun s₀ => Action.keeps_iff_ensures.mpr ?_
  exact Expr.evalList_ensures fun e _ => Action.keeps_iff_ensures.mp <|
    Action.pure_iff_keeps.mp (e.eval_pure hctx) s₀

/-- **A statement that fails has done nothing.** -/
theorem Statement.perform_atomic (hctx : ctx.Atomic) (st : Statement) :
    (st.perform ctx).Atomic := by
  cases st with
  | call f args l =>
    exact (Expr.evalList_pure hctx args).bind_atomic fun vs =>
      (hctx.callFunction f vs).bind_pure _
  | assign target value l =>
    exact (value.eval_pure hctx).bind_atomic fun v => (hctx.write target v).bind_pure _
  | ifElse condition t e l =>
    exact (condition.eval_pure hctx).atomic.bind_pure _

end Statements

/-! ## Handlers -/

namespace Handler

variable {script : Script} {ctx : Context σ}

/-- One round of a handler after which it goes on: a block that is done is left, or the statement to
    come is executed. -/
inductive Moves (script : Script) (ctx : Context σ) : Handler × σ → Handler × σ → Prop
  | leave {h : Handler} {s : σ} {p : Position} : h.position? = some p →
      script.statement? p.block p.index = none → Moves script ctx (h, s) (h.leave, s)
  | next {h : Handler} {s s' : σ} {p : Position} {st : Statement} : h.position? = some p →
      script.statement? p.block p.index = some st → h.usedBudget < h.budget →
      st.perform ctx (ctx.observe p s) = (.ok .next, s') →
      Moves script ctx (h, s) (h.count.advance, s')
  | enter {h : Handler} {s s' : σ} {p : Position} {st : Statement} {b : Option BlockId} :
      h.position? = some p → script.statement? p.block p.index = some st →
      h.usedBudget < h.budget → st.perform ctx (ctx.observe p s) = (.ok (.enter b), s') →
      Moves script ctx (h, s) (h.count.advance.enter b, s')

/-- A handler that has a position has something on its stack. -/
theorem exists_stack {h : Handler} {p : Position} (hp : h.position? = some p) :
    ∃ rest, h.stack = p :: rest :=
  List.head?_eq_some_iff.mp hp

/-- A round is a part of the execution. -/
theorem execute_of_moves {x y : Handler × σ} (hxy : Moves script ctx x y) :
    execute script ctx x.1 x.2 = execute script ctx y.1 y.2 := by
  cases hxy with
  | leave hp hst =>
    obtain ⟨rest, hs⟩ := exists_stack hp
    exact execute_leave ctx _ hs hst
  | next hp hst hb hv =>
    obtain ⟨rest, hs⟩ := exists_stack hp
    rw [execute_statement ctx _ hs hst, if_neg (Nat.not_le.mpr hb), hv]
  | enter hp hst hb hv =>
    obtain ⟨rest, hs⟩ := exists_stack hp
    rw [execute_statement ctx _ hs hst, if_neg (Nat.not_le.mpr hb), hv]

/-- From `h₀` and `s`, the handler has come to a statement that fails with `e`.  The statements
    before it have been executed, it has done nothing itself, and the handler is stopped. -/
structure FailsCleanly (script : Script) (ctx : Context σ) (h₀ : Handler) (s : σ) (e : Error)
    (y : Handler × σ) : Prop where
  failing : ∃ h p st, Relation.ReflTransGen (Moves script ctx) (h₀, s) (h, y.2) ∧
    h.position? = some p ∧ script.statement? p.block p.index = some st ∧
    st.perform ctx y.2 = (.error e, y.2) ∧ y.1 = h.count.reset
  running : y.1.running = false
  stack : y.1.stack = []

/-- Statements before a clean failure make no difference to it. -/
theorem FailsCleanly.head {h₀ h₁ : Handler} {s s₁ : σ} {e : Error} {y : Handler × σ}
    (hx : Moves script ctx (h₀, s) (h₁, s₁)) (hy : h₁.FailsCleanly script ctx s₁ e y) :
    h₀.FailsCleanly script ctx s e y := by
  obtain ⟨⟨h, p, st, hmoves, hfails⟩, hrunning, hstack⟩ := hy
  exact ⟨⟨h, p, st, hmoves.head hx, hfails⟩, hrunning, hstack⟩

/-- **An execution that fails** fails at one of its statements, and that statement leaves what the
    ones before it have done. -/
theorem execute_failsCleanly (hctx : ctx.Atomic) {h : Handler} {s : σ} {e : Error}
    {y : Handler × σ} (he : execute script ctx h s = (.error e, y)) :
    h.FailsCleanly script ctx s e y := by
  fun_induction execute script ctx h s with
  | case1 => cases he
  | case2 h s p rest hs hp ih =>
    exact (ih he).head (.leave (by simp [position?, hs]) hp)
  | case3 => cases he
  | case4 h s p rest hs st hp hb e' s' hv =>
    cases he
    rw [hctx.observe] at hv
    obtain rfl := st.perform_atomic hctx s _ _ hv
    exact ⟨⟨h, p, st, .refl, by simp [position?, hs], hp, hv, rfl⟩, rfl, rfl⟩
  | case5 h s p rest hs st hp hb s' hv ih =>
    exact (ih he).head (.next (by simp [position?, hs]) hp (Nat.lt_of_not_le hb) hv)
  | case6 h s p rest hs st hp hb b s' hv ih =>
    exact (ih he).head (.enter (by simp [position?, hs]) hp (Nat.lt_of_not_le hb) hv)
  | case7 => cases he
  | case8 => cases he

/-- A cue that fails has woken the handler, and it is the handler that has failed. -/
theorem obey_failsCleanly (hctx : ctx.Atomic) {c : Cue} {h : Handler} {s : σ} {e : Error}
    {y : Handler × σ} (he : h.obey script ctx s c = (.error e, y)) :
    ∃ h₀, h.woken script c = some h₀ ∧ h₀.FailsCleanly script ctx s e y := by
  rw [obey_eq] at he
  cases hw : h.woken script c with
  | none =>
    rw [hw] at he
    cases he
  | some h₀ =>
    rw [hw] at he
    exact ⟨h₀, rfl, execute_failsCleanly hctx he⟩

/-- A handler that goes on behind a switch that was none fails in the same way. -/
theorem proceed_failsCleanly (hctx : ctx.Atomic) {h : Handler} {s : σ} {e : Error}
    {y : Handler × σ} (he : h.proceed script ctx s = (.error e, y)) :
    h.FailsCleanly script ctx s e y := by
  rcases proceed_idle_or_execute script ctx h s with hp | hp
  · rw [hp] at he
    cases he
  · exact execute_failsCleanly hctx (hp ▸ he)

end Handler

/-! ## What an actor's script reaches -/

/-- The host changes nothing when it is asked for a value, and does everything else completely or
    not at all. -/
structure Host.Atomic (host : Host σ) : Prop where
  callValue : ∀ f vs, (host.callValue f vs).Pure
  callFunction : ∀ f vs, (host.callFunction f vs).Atomic
  write : ∀ slot v, (host.write slot v).Atomic
  observe : ∀ step s, host.observe step s = s

namespace Registers

variable {host : Host σ}

/-- What changes nothing on the host changes nothing at all. -/
theorem onHost_pure {a : Action σ α} (ha : a.Pure) : (onHost a).Pure :=
  fun s => Prod.ext rfl (ha s.2)

/-- What fails on the host without a trace fails without a trace. -/
theorem onHost_atomic {a : Action σ α} (ha : a.Atomic) : (onHost a).Atomic := by
  rintro s e s' h
  obtain ⟨he, hs⟩ := Prod.mk.inj h
  rw [← hs]
  exact Prod.ext rfl (ha s.2 e _ (Prod.ext he rfl))

/-- An assignment looks for the place of the value before it stores it. -/
theorem write_atomic (hhost : host.Atomic) (script : Script) (identity : Identity) (r : Reference)
    (v : Value) : (write script identity host r v).Atomic := by
  have hsaved : ∀ name, (writeSaved identity host name v).Atomic := fun name =>
    Action.Pure.bind_atomic (fun _ => rfl) fun key => onHost_atomic (hhost.write (.saved key) v)
  have hvar : ∀ name, (writeVariable script identity host name v).Atomic := by
    intro name
    rw [writeVariable]
    split
    · intro s e s' h
      cases h
    · exact hsaved name
  rw [write.eq_def]
  split
  · split
    · exact Action.atomic_fail _
    · split
      · exact Action.atomic_fail _
      · exact hvar _
  · exact onHost_atomic (hhost.write _ v)
  · exact hvar _
  · exact hsaved _
  · intro s e s' h
    cases h

end Registers

/-- **The registers of a machine** add nothing to what a host does when it fails: local variables
    cannot fail to be written. -/
theorem Host.Atomic.registers {host : Host σ} (hhost : host.Atomic) (script : Script)
    (identity : Identity) (describe : Position → Option Step) :
    (registers script identity host describe).Atomic where
  read _ _ := rfl
  callValue f vs := Registers.onHost_pure (hhost.callValue f vs)
  callFunction f vs := Registers.onHost_atomic (hhost.callFunction f vs)
  write := Registers.write_atomic hhost script identity
  observe p s := by
    show (ActorScript.registers script identity host describe).observe p s = s
    simp only [ActorScript.registers]
    split
    · rw [hhost.observe]
    · rfl

/-- **Every procedure checks before it acts.**  The ones that take arguments read all of them first,
    and then act in one step that cannot fail. -/
theorem Builtin.Procedure.run_atomic (around : Surroundings) (p : Procedure) (args : List Value) :
    (p.run around args).Atomic := by
  cases p with
  | wait =>
    -- it only looks at its argument
    refine (Action.pure_lift _).bind_atomic fun ms => Action.Pure.atomic ?_
    split
    · exact Action.pure_pure _
    · exact Action.pure_fail _
  | print => exact Action.atomic_act _ _
  | triggerStateChange => exact (Action.pure_pure _).atomic
  | lockInputs => exact Action.atomic_act _ _
  | unlockInputs => exact Action.atomic_act _ _
  | setOrientation =>
    exact (Action.pure_lift _).bind_atomic fun o => Action.atomic_act _ _
  | turnToFaceCharacter => exact Action.atomic_act _ _
  | walk =>
    exact (Action.pure_lift _).bind_atomic fun o => Action.atomic_act _ _
  | setParameter =>
    exact (Action.pure_lift _).bind_atomic fun key => (Action.pure_lift _).bind_atomic fun v =>
      Action.atomic_act _ _

/-- **Every function for expressions** only looks at the body. -/
theorem Builtin.Function.value_pure (around : Surroundings) (f : Function) (args : List Value) :
    (f.value around args).Pure := by
  cases f with
  | getString =>
    exact (Action.pure_lift _).bind fun key => (Action.pure_lift _).bind fun text =>
      Action.pure_pure _
  | toString => exact (Action.pure_lift _).bind fun v => Action.pure_pure _
  | inParameters => exact (Action.pure_lift _).bind fun key => Action.pure_look _

/-- A call that fails leaves the body as it was: the function is unknown, or it is a procedure that
    has refused its arguments. -/
theorem Builtin.callProcedure_atomic (around : Surroundings) (name : String) (args : List Value) :
    (callProcedure around name args).Atomic := by
  rw [callProcedure]
  split
  · exact Action.atomic_fail _
  · exact Procedure.run_atomic around _ args

/-- The value functions by name, with the names that are none. -/
theorem Builtin.callFunction_pure (around : Surroundings) (name : String) (args : List Value) :
    (callFunction around name args).Pure := by
  rw [callFunction]
  split
  · exact Action.pure_fail _
  · exact Function.value_pure around _ args

namespace Actor

/-- **The host of an actor** fails without a trace. -/
theorem host_atomic (around : Builtin.Surroundings) : (host around).Atomic where
  callValue f vs := fun (b, s) => by
    have hpure := Builtin.callFunction_pure around f vs b
    exact Prod.ext hpure rfl
  callFunction f vs := by
    rintro ⟨b, s⟩ e ⟨b', s'⟩ h
    obtain ⟨he, hs⟩ := Prod.mk.inj h
    obtain ⟨hb, rfl⟩ := Prod.mk.inj hs
    obtain rfl := Builtin.callProcedure_atomic around f vs b e b' (Prod.ext he hb)
    rfl
  write slot v := by
    rintro ⟨b, s⟩ e s' h
    cases slot <;> cases h
  observe _ _ := rfl

/-- **A failing statement has no effect.**  For every script, every actor and every state of its
    locals, its body and the save store: a statement that fails leaves all of them as they were.  A
    handler that fails, whatever it was told to do, has executed the statements before that one,
    leaves what they have done, and is stopped. -/
theorem failing_statement_harmless (around : Builtin.Surroundings) (script : Script)
    (identity : Identity) (describe : Position → Option Step) :
    (∀ st : Statement, (st.perform (registers script identity (host around) describe)).Atomic) ∧
    (∀ (c : Cue) (h : Handler) (s : Locals × Body × SaveStore) (e : Error)
        (y : Handler × Locals × Body × SaveStore),
      h.obey script (registers script identity (host around) describe) s c = (.error e, y) →
      ∃ h₀, h.woken script c = some h₀ ∧
        h₀.FailsCleanly script (registers script identity (host around) describe) s e y) ∧
    ∀ (h : Handler) (s : Locals × Body × SaveStore) (e : Error)
        (y : Handler × Locals × Body × SaveStore),
      h.proceed script (registers script identity (host around) describe) s = (.error e, y) →
      h.FailsCleanly script (registers script identity (host around) describe) s e y := by
  have hctx := (host_atomic around).registers script identity describe
  exact ⟨fun st => st.perform_atomic hctx, fun _ _ _ _ _ => Handler.obey_failsCleanly hctx,
    fun _ _ _ _ => Handler.proceed_failsCleanly hctx⟩

/-- The text of a script whose second statement lacks an argument. -/
def halting : String := "state S(true) { event spawn() { print(1); setParameter(2); } }"

/-- The handler of `halting`, before it is told anything. -/
def halter : Handler := { event := .spawn, entry := 0, budget := 10 }

/-- What an actor without a name reaches in a town without a character. -/
def townRegisters (script : Script) : Context (Locals × Body × SaveStore) :=
  registers script ⟨"town", none⟩ (host { strings := {} })

/-- An actor's state before anything has happened, with a file for the save store. -/
def untouched : Locals × Body × SaveStore :=
  (.empty, { position := ⟨0, 0⟩, orientation := .down }, { file := some { path := "save" } })

/-- The statement before the failing one has left its command, and the failing one nothing. -/
theorem failing_statement_harmless_halting : ∃ script, Script.parse halting = .ok script ∧
    ∃ e y, halter.obey script (townRegisters script) untouched .run = (.error e, y) ∧
      y.2.2.1.commands = [.print "1"] ∧ ∃ h₀, halter.woken script .run = some h₀ ∧
        h₀.FailsCleanly script (townRegisters script) untouched e y := by
  obtain ⟨script, hparse, e, y, he, hy⟩ : ∃ script, Script.parse halting = .ok script ∧
      ∃ e y, halter.obey script (townRegisters script) untouched .run = (.error e, y) ∧
        y.2.2.1.commands = [.print "1"] := ⟨_, by cbv, _, _, by cbv, by cbv⟩
  exact ⟨script, hparse, e, y, he, hy, (failing_statement_harmless _ _ _ _).2.1 _ _ _ _ _ he⟩

end Actor

end ActorScript
