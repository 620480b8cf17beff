/-
  Cutting a handler into frames changes nothing but when its statements are executed.

  `Script.exec` says what a block does without stacks, budgets and waits: its statements are
  executed in order, an `if` executes the chosen branch as a whole and then goes on, and an error
  ends everything.  It is defined by recursion along the references between blocks, which is why
  they have to lead forward, as they do in every script that was read from a text.

  `Handler.drive` is the same block executed by a handler: started with `run`, and told to go on
  as often as it comes to rest before its end.  `drive_eq_exec` says that it comes to an end, and
  that result, state and number of statements are those of `exec`, for every context and every
  budget.  The invariant is what still has to be done (`remaining`): the statements on the stack,
  by themselves.  No stretch of execution and no pause changes it.
-/
import Mathlib
import ActorScript.Proofs.Layout
import ActorScript.Proofs.Phase
import ActorScript.Recording

namespace ActorScript

variable {σ α β : Type}

/-! ## Executing a block as a whole -/

/-- Does something at a statement: the context takes note of the position, and the statement is
    counted. -/
def Context.visit (ctx : Context σ) (p : Position) (a : Action σ α) : Action (Nat × σ) α :=
  fun x => ((a (ctx.observe p x.2)).1, x.1 + 1, (a (ctx.observe p x.2)).2)

theorem Context.visit_of_eq {ctx : Context σ} {p : Position} {a : Action σ α} {k : Nat} {s s' : σ}
    {r : Except Error α} (h : a (ctx.observe p s) = (r, s')) :
    ctx.visit p a (k, s) = (r, k + 1, s') := by
  rw [visit, h]

namespace Script

theorem lt_length_of_statement? {script : Script} {b i : Nat} {st : Statement}
    (h : script.statement? b i = some st) :
    b < script.blocks.length ∧ i < (script.block b).length := by
  rw [statement?] at h
  obtain ⟨hi, -⟩ := List.getElem?_eq_some_iff.mp h
  refine ⟨Decidable.byContradiction fun hb => ?_, hi⟩
  rw [block, List.getElem?_eq_none (Nat.le_of_not_lt hb)] at hi
  exact absurd hi (Nat.not_lt_zero i)

/-- **Executes the statements of a block** from index `i` on, and counts them. -/
def exec (script : Script) (hf : script.Forward) (ctx : Context σ) (b i : Nat) :
    Action (Nat × σ) Unit :=
  match hst : script.statement? b i with
  | none => pure ()
  | some (.call f args _) => do
    let _ ← ctx.visit ⟨b, i⟩ (do ctx.callFunction f (← Expr.evalList ctx args))
    exec script hf ctx b (i + 1)
  | some (.assign target value _) => do
    ctx.visit ⟨b, i⟩ (do ctx.write target (← value.eval ctx))
    exec script hf ctx b (i + 1)
  | some (.ifElse condition t e _) => do
    let v ← ctx.visit ⟨b, i⟩ (condition.eval ctx)
    let _ ← (if v.truthy then exec script hf ctx t 0
      else match _he : e with
        | some e' => exec script hf ctx e' 0
        | none => pure () : Action (Nat × σ) Unit)
    exec script hf ctx b (i + 1)
termination_by (script.blocks.length - b, (script.block b).length - i)
decreasing_by
  all_goals have hlt := lt_length_of_statement? hst
  · exact Prod.Lex.right _ (by omega)
  · exact Prod.Lex.right _ (by omega)
  · have := hf b i _ hst t (by simp [Statement.targets])
    exact Prod.Lex.left _ _ (by omega)
  · have := hf b i _ hst e' (by simp [Statement.targets])
    exact Prod.Lex.left _ _ (by omega)
  · exact Prod.Lex.right _ (by omega)

/-- Executes a block as a whole, if there is one. -/
def execBranch (script : Script) (hf : script.Forward) (ctx : Context σ) :
    Option BlockId → Action (Nat × σ) Unit
  | some b => script.exec hf ctx b 0
  | none => pure ()

/-- Executes the statements at several positions and behind them, one block after the other. -/
def execStack (script : Script) (hf : script.Forward) (ctx : Context σ) :
    List Position → Action (Nat × σ) Unit
  | [] => pure ()
  | p :: rest => do
    script.exec hf ctx p.block p.index
    execStack script hf ctx rest

end Script

/-! ## A statement and what comes behind it -/

/-- An action whose result is only looked at, and how it ends. -/
theorem Action.of_map_eq {a : Action σ α} {g : α → β} {s s' : σ} {r : Except Error β}
    (h : (a >>= fun x => pure (g x)) s = (r, s')) :
    (∃ e, r = .error e ∧ a s = (.error e, s')) ∨ ∃ x, r = .ok (g x) ∧ a s = (.ok x, s') := by
  rw [bind_apply] at h
  split at h
  · rename_i x s₁ hx
    cases h
    exact .inr ⟨x, rfl, hx⟩
  · rename_i e s₁ hx
    cases h
    exact .inl ⟨e, rfl, hx⟩

/-- Where a handler goes on after a statement at the position `p`, with the blocks `rest` around
    it. -/
def Effect.goOn (p : Position) (rest : List Position) : Effect → List Position
  | .enter (some b) => ⟨b, 0⟩ :: { p with index := p.index + 1 } :: rest
  | .enter none | .next | .wait _ | .reselect => { p with index := p.index + 1 } :: rest

namespace Script

variable {script : Script} {hf : script.Forward} {ctx : Context σ} {p : Position}
  {rest : List Position} {st : Statement} {k : Nat} {s s' : σ}

/-- Behind the last statement of a block there is nothing to do. -/
theorem exec_of_none {b i : Nat} (h : script.statement? b i = none) :
    script.exec hf ctx b i = pure () := by
  rw [exec]
  split <;> rename_i hst <;> cases h.symm.trans hst
  rfl

theorem exec_call {b i : Nat} {f : String} {args : List Expr} {l : Location}
    (h : script.statement? b i = some (.call f args l)) : script.exec hf ctx b i = (do
      let _ ← ctx.visit ⟨b, i⟩ (do ctx.callFunction f (← Expr.evalList ctx args))
      script.exec hf ctx b (i + 1)) := by
  rw [exec]
  split <;> rename_i hst <;> cases h.symm.trans hst
  rfl

theorem exec_assign {b i : Nat} {target : Reference} {value : Expr} {l : Location}
    (h : script.statement? b i = some (.assign target value l)) : script.exec hf ctx b i = (do
      ctx.visit ⟨b, i⟩ (do ctx.write target (← value.eval ctx))
      script.exec hf ctx b (i + 1)) := by
  rw [exec]
  split <;> rename_i hst <;> cases h.symm.trans hst
  rfl

theorem exec_ifElse {b i : Nat} {condition : Expr} {t : BlockId} {e : Option BlockId}
    {l : Location} (h : script.statement? b i = some (.ifElse condition t e l)) :
    script.exec hf ctx b i = (do
      let v ← ctx.visit ⟨b, i⟩ (condition.eval ctx)
      let _ ← script.execBranch hf ctx (if v.truthy then some t else e)
      script.exec hf ctx b (i + 1)) := by
  rw [exec]
  split <;> rename_i hst <;> cases h.symm.trans hst
  congr 1
  funext v
  cases v.truthy with
  | true => rfl
  | false => cases e <;> rfl

theorem execStack_cons (x : Nat × σ) : script.execStack hf ctx (p :: rest) x =
    (script.exec hf ctx p.block p.index >>= fun _ => script.execStack hf ctx rest) x := rfl

/-- At the end of a block it goes on with the block around it. -/
theorem execStack_of_none (h : script.statement? p.block p.index = none) :
    script.execStack hf ctx (p :: rest) = script.execStack hf ctx rest := by
  funext x
  rw [execStack_cons, exec_of_none h]
  rfl

/-- **A statement** is counted.  If it fails that is the end, and if it succeeds it goes on where a
    handler would. -/
theorem execStack_of_perform (h : script.statement? p.block p.index = some st)
    {r : Except Error Effect} (hp : st.perform ctx (ctx.observe p s) = (r, s')) :
    script.execStack hf ctx (p :: rest) (k, s) =
      match r with
      | .error e => (.error e, k + 1, s')
      | .ok eff => script.execStack hf ctx (eff.goOn p rest) (k + 1, s') := by
  rw [execStack_cons]
  -- one case for each kind of statement: `perform` is the visit that `exec` makes, and an effect
  cases st with
  | call f args l =>
    have hmap : (do ctx.callFunction f (← Expr.evalList ctx args) : Action σ Reply) >>=
        (fun x => pure (Effect.ofReply x)) = Statement.perform ctx (.call f args l) := by
      rw [Statement.perform, bind_assoc]
    rw [← hmap] at hp
    rw [exec_call h, bind_assoc]
    rcases Action.of_map_eq hp with ⟨e, rfl, ha⟩ | ⟨reply, rfl, ha⟩
    · rw [Action.bind_apply_error (Context.visit_of_eq ha)]
    · rw [Action.bind_apply_ok (Context.visit_of_eq ha)]
      cases reply <;> rfl
  | assign target value l =>
    have hmap : (do ctx.write target (← value.eval ctx) : Action σ Unit) >>=
        (fun _ => pure Effect.reselect) = Statement.perform ctx (.assign target value l) := by
      rw [Statement.perform, bind_assoc]
    rw [← hmap] at hp
    rw [exec_assign h, bind_assoc]
    rcases Action.of_map_eq hp with ⟨e, rfl, ha⟩ | ⟨u, rfl, ha⟩
    · rw [Action.bind_apply_error (Context.visit_of_eq ha)]
    · rw [Action.bind_apply_ok (Context.visit_of_eq ha)]
      rfl
  | ifElse condition t e l =>
    have hmap : condition.eval ctx >>= (fun v => pure (Effect.enter
        (if v.truthy then some t else e))) = Statement.perform ctx (.ifElse condition t e l) := rfl
    rw [← hmap] at hp
    rw [exec_ifElse h, bind_assoc]
    rcases Action.of_map_eq hp with ⟨err, rfl, ha⟩ | ⟨v, rfl, ha⟩
    · rw [Action.bind_apply_error (Context.visit_of_eq ha)]
    · rw [Action.bind_apply_ok (Context.visit_of_eq ha)]
      simp only [bind_assoc]
      cases (if v.truthy then some t else e) with
      | none => rfl
      | some b => rfl

/-! ## The number of statements only grows -/

theorem visit_keeps_le (ctx : Context σ) (p : Position) (a : Action σ α) (k : Nat) :
    (ctx.visit p a).Keeps fun x => k ≤ x.1 :=
  fun _ hk => Nat.le_succ_of_le hk

theorem exec_keeps_le (hf : script.Forward) (ctx : Context σ) (b i k : Nat) :
    (script.exec hf ctx b i).Keeps fun x => k ≤ x.1 := by
  fun_induction exec script hf ctx b i with
  | case1 => exact Action.keeps_pure _
  | case2 b i f args l hst ih => exact (visit_keeps_le ctx _ _ k).bind fun _ => ih
  | case3 b i target value l hst ih => exact (visit_keeps_le ctx _ _ k).bind fun _ => ih
  | case4 b i condition t e l hst iht ihe ih =>
    refine (visit_keeps_le ctx _ _ k).bind fun v => Action.Keeps.bind ?_ fun _ => ih
    split
    · exact iht
    · split
      · rename_i hst'
        exact ihe _ hst'
      · exact Action.keeps_pure _

theorem execStack_keeps_le (hf : script.Forward) (ctx : Context σ) (stack : List Position)
    (k : Nat) : (script.execStack hf ctx stack).Keeps fun x => k ≤ x.1 := by
  induction stack with
  | nil => exact Action.keeps_pure _
  | cons p rest ih => exact (exec_keeps_le hf ctx p.block p.index k).bind fun _ => ih

end Script

/-! ## Executing a block in slices -/

namespace Handler

/-- Lets a handler that has come to rest before its end go on: with the next frame if its budget
    is spent, after its timer, or after a choice of state that stays the same. -/
def goOn (script : Script) (ctx : Context σ) : Except Error Outcome × Handler × σ →
    Except Error Outcome × Handler × σ
  | (.ok .outOfBudget, h, s) => h.newFrame script ctx s
  | (.ok (.waiting _), h, s) => h.resume script ctx s
  | (.ok .reselect, h, s) => h.proceed script ctx s
  | x => x

/-- Lets a handler go on `n` times. -/
def drive (script : Script) (ctx : Context σ) : Nat → Except Error Outcome × Handler × σ →
    Except Error Outcome × Handler × σ
  | 0, x => x
  | n + 1, x => drive script ctx n (goOn script ctx x)

/-- A handler that has just been made. -/
def fresh (event : Event) (entry : BlockId) (budget : Nat) : Handler := { event, entry, budget }

/-- What still has to be done when a handler has come to rest: the statements on its stack, behind
    the call if it waits for its timer. -/
def remaining (script : Script) (hf : script.Forward) (ctx : Context σ) :
    Except Error Outcome × Handler × σ → Except Error Unit × Nat × σ
  | (.error e, h, s) => (.error e, h.executed, s)
  | (.ok .idle, h, s) | (.ok .finished, h, s) => (.ok (), h.executed, s)
  | (.ok (.waiting _), h, s) => script.execStack hf ctx h.advance.stack (h.executed, s)
  | (.ok .outOfBudget, h, s) | (.ok .reselect, h, s) =>
    script.execStack hf ctx h.stack (h.executed, s)

variable {script : Script} {hf : script.Forward} {ctx : Context σ} {h : Handler} {s : σ} {b : Nat}

/-- **A stretch of execution** does what is on the stack, as far as it comes. -/
theorem remaining_execute (hf : script.Forward) (ctx : Context σ) (h : Handler) (s : σ) :
    remaining script hf ctx (execute script ctx h s) =
      script.execStack hf ctx h.stack (h.executed, s) := by
  fun_induction execute script ctx h s with
  | case1 h s hs =>
    rw [hs]
    rfl
  | case2 h s p rest hs hp ih =>
    rw [ih, hs, Script.execStack_of_none hp, leave, hs]
    rfl
  | case3 => rfl
  | case4 h s p rest hs st hp hb e s' hv =>
    rw [hs, Script.execStack_of_perform hp hv]
    rfl
  | case5 h s p rest hs st hp hb s' hv ih =>
    rw [ih, hs, Script.execStack_of_perform hp hv, executed_advance,
      stack_advance (h := h.count) hs]
    rfl
  | case6 h s p rest hs st hp hb b s' hv ih =>
    have hstack := stack_advance (h := h.count) hs
    rw [ih, hs, Script.execStack_of_perform hp hv, executed_enter, executed_advance]
    cases b with
    | none =>
      rw [enter, hstack]
      rfl
    | some b =>
      rw [enter, hstack]
      rfl
  | case7 h s p rest hs st hp hb s' ms hv =>
    have hstack : ({ h.count with suspended := true } : Handler).advance.stack = _ :=
      stack_advance hs
    rw [hs, Script.execStack_of_perform hp hv, remaining, hstack]
    rfl
  | case8 h s p rest hs st hp hb s' hv =>
    rw [hs, Script.execStack_of_perform hp hv, remaining, stack_advance (h := h.count) hs,
      executed_advance]
    rfl

/-! ## The end is reached -/

/-- The handler has come to rest before its end. -/
def Pauses : Except Error Outcome → Prop
  | .ok .outOfBudget | .ok (.waiting _) | .ok .reselect => True
  | .ok .idle | .ok .finished | .error _ => False

/-- What a stretch of execution does to the counters of a handler: the budget is kept to, it is
    spent if that ends the stretch, and a wait or a request comes from a statement. -/
structure Counts (h : Handler) (x : Except Error Outcome × Handler × σ) : Prop where
  used : x.2.1.usedBudget ≤ h.budget
  spent : x.1 = .ok .outOfBudget → x.2.1.usedBudget = h.budget ∧
    x.2.1.executed + h.usedBudget = h.executed + h.budget
  moved : Pauses x.1 → x.1 ≠ .ok .outOfBudget → h.executed < x.2.1.executed
  loopsNext : Pauses x.1 → x.2.1.loopsNext = h.loopsNext

theorem Counts.of_counted {h h' : Handler} {x : Except Error Outcome × Handler × σ}
    (hc : Counts h' x) (hb : h'.budget = h.budget) (hu : h'.usedBudget = h.usedBudget + 1)
    (he : h'.executed = h.executed + 1) (hl : h'.loopsNext = h.loopsNext) : Counts h x where
  used := hb ▸ hc.used
  spent ho := by
    obtain ⟨hu', he'⟩ := hc.spent ho
    exact ⟨hu'.trans hb, by omega⟩
  moved hp ho := by
    have := hc.moved hp ho
    omega
  loopsNext hp := (hc.loopsNext hp).trans hl

theorem counts_of_not_pauses {x : Except Error Outcome × Handler × σ} (hp : ¬ Pauses x.1)
    (hu : x.2.1.usedBudget ≤ h.budget) : Counts h x where
  used := hu
  spent ho := absurd (ho ▸ trivial) hp
  moved hp' := absurd hp' hp
  loopsNext hp' := absurd hp' hp

theorem counts_execute (script : Script) (ctx : Context σ) (h : Handler) (s : σ)
    (hu : h.usedBudget ≤ h.budget) : Counts h (execute script ctx h s) := by
  fun_induction execute script ctx h s with
  | case1 h s hs => exact counts_of_not_pauses id hu
  | case2 h s p rest hs hp ih =>
    have := ih hu
    exact ⟨this.used, this.spent, this.moved, this.loopsNext⟩
  | case3 h s p rest hs st hp hb =>
    have hfull : h.usedBudget = h.budget := Nat.le_antisymm hu hb
    refine ⟨hu, fun _ => ⟨hfull, ?_⟩, fun _ hne => absurd rfl hne, fun _ => rfl⟩
    show h.executed + h.usedBudget = h.executed + h.budget
    rw [hfull]
  | case4 h s p rest hs st hp hb e s' hv => exact counts_of_not_pauses id (Nat.zero_le _)
  | case5 h s p rest hs st hp hb s' hv ih =>
    have hlt : h.usedBudget + 1 ≤ h.budget := by omega
    exact (ih (by simpa using hlt)).of_counted (by simp) (by simp) (by simp) (by simp [count])
  | case6 h s p rest hs st hp hb b s' hv ih =>
    have hlt : h.usedBudget + 1 ≤ h.budget := by omega
    exact (ih (by simpa using hlt)).of_counted (by simp) (by simp) (by simp) (by simp [count])
  | case7 h s p rest hs st hp hb s' ms hv =>
    have hlt : h.usedBudget + 1 ≤ h.budget := by omega
    exact ⟨hlt, by simp, fun _ _ => Nat.lt_succ_self _, fun _ => rfl⟩
  | case8 h s p rest hs st hp hb s' hv =>
    have hlt : h.usedBudget + 1 ≤ h.budget := by omega
    refine ⟨by simpa using hlt, by simp, fun _ _ => ?_, fun _ => by simp [count]⟩
    simp

/-- The invariant of a handler with budget `b` that is executed in slices. -/
structure Underway (b : Nat) (x : Except Error Outcome × Handler × σ) : Prop where
  phase : x.2.1.phase? = some (Phase.after x.1)
  busy : x.1 ≠ .ok .idle
  budget : x.2.1.budget = b
  used : x.2.1.usedBudget ≤ b
  spent : x.1 = .ok .outOfBudget → x.2.1.usedBudget = b
  loopsNext : Pauses x.1 → x.2.1.loopsNext = false

/-- A handler that is set to execute: in the middle of its work, within its budget `b`. -/
structure Ready (b : Nat) (h : Handler) : Prop where
  phase : h.phase? = some .midway
  budget : h.budget = b
  used : h.usedBudget ≤ b
  loopsNext : h.loopsNext = false

theorem Ready.underway (hr : Ready b h) (script : Script) (ctx : Context σ) (s : σ) :
    Underway b (execute script ctx h s) := by
  have hc := counts_execute script ctx h s (hr.budget ▸ hr.used)
  obtain ⟨hphase, hbusy⟩ := phase_execute script ctx h s hr.phase
  refine ⟨hphase, hbusy, ?_, hr.budget ▸ hc.used, fun ho => ?_,
    fun hp => (hc.loopsNext hp).trans hr.loopsNext⟩
  · rw [budget_execute, hr.budget]
  · rw [(hc.spent ho).1, hr.budget]

/-- **Going on** after a pause is executing what remains, with a new budget if it was spent. -/
theorem goOn_eq_execute (hf : script.Forward) (ctx : Context σ)
    {x : Except Error Outcome × Handler × σ} (hx : Underway b x) (hp : Pauses x.1) :
    ∃ h₁, goOn script ctx x = execute script ctx h₁ x.2.2 ∧ Ready b h₁ ∧
      h₁.executed = x.2.1.executed ∧ (x.1 = .ok .outOfBudget → h₁.usedBudget = 0) ∧
      remaining script hf ctx x = script.execStack hf ctx h₁.stack (h₁.executed, x.2.2) := by
  obtain ⟨o, h, s⟩ := x
  have hl : h.loopsNext = false := hx.loopsNext hp
  rcases o with e | (_ | _ | _ | ms | _)
  · exact absurd hp id
  · exact absurd hp id
  · exact absurd hp id
  · -- the budget is spent: the next frame starts with a new one
    obtain ⟨hr, hw, ht⟩ := phase?_nextFrame_iff.mp hx.phase
    have hwaits : h.waitingForFrame = true := hw
    refine ⟨{ h with usedBudget := 0, waitingForFrame := false }, ?_,
      ⟨phase?_midway_iff.mpr ⟨hr, rfl, ht⟩, hx.budget, Nat.zero_le _, hl⟩, rfl, fun _ => rfl, rfl⟩
    rw [goOn, newFrame]
    simp only [hl, hwaits, Bool.false_eq_true, if_false, if_true]
  · -- the call that has waited is left behind first
    obtain ⟨hr, hw, ht⟩ := phase?_timer_iff.mp hx.phase
    have hadv : ({ h with suspended := false } : Handler).advance.stack = h.advance.stack :=
      stack_advance_congr rfl
    refine ⟨{ h with suspended := false }.advance, ?_, ⟨?_, ?_, ?_, ?_⟩, ?_, ?_, ?_⟩
    · rw [goOn, resume, if_pos ht]
    · rw [phase?_advance]
      exact phase?_midway_iff.mpr ⟨hr, hw, rfl⟩
    · rw [budget_advance]
      exact hx.budget
    · rw [usedBudget_advance]
      exact hx.used
    · rw [loopsNext_advance]
      exact hl
    · rw [executed_advance]
    · intro ho
      cases ho
    · rw [remaining, hadv, executed_advance]
  · -- a request changes nothing: the handler is still in the middle of its work
    exact ⟨h, proceed_of_midway script ctx s hx.phase, ⟨hx.phase, hx.budget, hx.used, hl⟩, rfl,
      by simp, rfl⟩

theorem goOn_of_not_pauses {x : Except Error Outcome × Handler × σ} (hp : ¬ Pauses x.1) :
    goOn script ctx x = x := by
  obtain ⟨e | (_ | _ | _ | ms | _), h, s⟩ := x
  · rfl
  · rfl
  · rfl
  · exact absurd trivial hp
  · exact absurd trivial hp
  · exact absurd trivial hp

/-- **A pause changes nothing** of what has to be done. -/
theorem Underway.goOn {x : Except Error Outcome × Handler × σ} (hx : Underway b x)
    (hf : script.Forward) (ctx : Context σ) :
    Underway b (goOn script ctx x) ∧
      remaining script hf ctx (Handler.goOn script ctx x) = remaining script hf ctx x := by
  by_cases hp : Pauses x.1
  · obtain ⟨h₁, hgo, hready, -, -, hrem⟩ := goOn_eq_execute hf ctx hx hp
    rw [hgo, hrem]
    exact ⟨hready.underway script ctx x.2.2, remaining_execute hf ctx h₁ x.2.2⟩
  · rw [goOn_of_not_pauses hp]
    exact ⟨hx, rfl⟩

theorem Underway.drive {x : Except Error Outcome × Handler × σ} (hx : Underway b x)
    (hf : script.Forward) (ctx : Context σ) (n : Nat) :
    Underway b (drive script ctx n x) ∧
      remaining script hf ctx (Handler.drive script ctx n x) = remaining script hf ctx x := by
  induction n generalizing x with
  | zero => exact ⟨hx, rfl⟩
  | succ n ih =>
    obtain ⟨hgo, hrem⟩ := hx.goOn hf ctx
    obtain ⟨hdrive, hrem'⟩ := ih hgo
    exact ⟨hdrive, hrem'.trans hrem⟩

theorem executed_le_remaining (hf : script.Forward) (ctx : Context σ)
    (x : Except Error Outcome × Handler × σ) :
    x.2.1.executed ≤ (remaining script hf ctx x).2.1 := by
  obtain ⟨e | (_ | _ | _ | ms | _), h, s⟩ := x
  · exact Nat.le_refl _
  · exact Nat.le_refl _
  · exact Nat.le_refl _
  · exact Script.execStack_keeps_le hf ctx _ h.executed (h.executed, s) (Nat.le_refl _)
  · exact Script.execStack_keeps_le hf ctx _ h.executed (h.executed, s) (Nat.le_refl _)
  · exact Script.execStack_keeps_le hf ctx _ h.executed (h.executed, s) (Nat.le_refl _)

/-- How often the handler may pause before it executes another statement: once, unless its budget
    is spent already. -/
def idlePauses : Except Error Outcome → Nat
  | .ok .outOfBudget => 0
  | _ => 1

theorem idlePauses_of_ne {o : Except Error Outcome} (h : o ≠ .ok .outOfBudget) :
    idlePauses o = 1 := by
  rw [idlePauses]
  exact h

/-- What bounds the pauses that are still to come: two for every statement that remains. -/
def pausesLeft (script : Script) (hf : script.Forward) (ctx : Context σ)
    (x : Except Error Outcome × Handler × σ) : Nat :=
  2 * ((remaining script hf ctx x).2.1 - x.2.1.executed) + idlePauses x.1

/-- **Every pause but the last is followed by fewer**: a new frame executes a statement, and a
    handler that goes on after a wait or a request executes one or has spent its budget. -/
theorem pausesLeft_goOn_lt {x : Except Error Outcome × Handler × σ} (hb : 1 ≤ b)
    (hx : Underway b x) (hp : Pauses x.1) (hp' : Pauses (goOn script ctx x).1) :
    pausesLeft script hf ctx (goOn script ctx x) < pausesLeft script hf ctx x := by
  obtain ⟨h₁, hgo, hready, hex, hzero, -⟩ := goOn_eq_execute hf ctx hx hp
  have hrem := (hx.goOn hf ctx).2
  have hle := executed_le_remaining hf ctx (goOn script ctx x)
  have hcounts := counts_execute script ctx h₁ x.2.2 (by rw [hready.budget]; exact hready.used)
  rw [← hgo] at hcounts
  have hspent := hcounts.spent
  have hmoved := hcounts.moved hp'
  have hused := hready.used
  rw [hready.budget] at hspent
  rw [pausesLeft, pausesLeft, hrem]
  rw [hrem] at hle
  -- whether each of the two pauses has spent its budget
  by_cases ho : x.1 = .ok .outOfBudget
  · have := hzero ho
    by_cases ho' : (goOn script ctx x).1 = .ok .outOfBudget
    · have := (hspent ho').2
      rw [ho, ho', idlePauses]
      omega
    · have := hmoved ho'
      rw [ho, idlePauses_of_ne ho', idlePauses]
      omega
  · rw [idlePauses_of_ne ho]
    by_cases ho' : (goOn script ctx x).1 = .ok .outOfBudget
    · have := (hspent ho').2
      rw [ho', idlePauses]
      omega
    · have := hmoved ho'
      rw [idlePauses_of_ne ho']
      omega

/-- **The end is reached**, however often the handler pauses. -/
theorem exists_drive_ends (hf : script.Forward) (hb : 1 ≤ b)
    (x : Except Error Outcome × Handler × σ) (hx : Underway b x) :
    ∃ n, ¬ Pauses (drive script ctx n x).1 := by
  -- on the pauses that are left, which every pause but the last makes fewer
  induction hk : pausesLeft script hf ctx x using Nat.strongRecOn generalizing x with
  | _ k ih =>
    by_cases hp : Pauses x.1
    · by_cases hp' : Pauses (goOn script ctx x).1
      · subst hk
        obtain ⟨n, hn⟩ := ih _ (pausesLeft_goOn_lt hb hx hp hp') _ (hx.goOn hf ctx).1 rfl
        exact ⟨n + 1, hn⟩
      · exact ⟨1, hp'⟩
    · exact ⟨0, hp⟩

/-- A handler that has reached its end has done what there was to do. -/
theorem ends_of_not_pauses {x : Except Error Outcome × Handler × σ} (hp : ¬ Pauses x.1)
    (hidle : x.1 ≠ .ok .idle) (hf : script.Forward) (ctx : Context σ) :
    x.1 = (remaining script hf ctx x).1.map (fun _ => .finished) ∧
      x.2.1.executed = (remaining script hf ctx x).2.1 ∧
      x.2.2 = (remaining script hf ctx x).2.2 := by
  obtain ⟨e | (_ | _ | _ | ms | _), h, s⟩ := x
  · exact ⟨rfl, rfl, rfl⟩
  · exact absurd rfl hidle
  · exact ⟨rfl, rfl, rfl⟩
  · exact absurd trivial hp
  · exact absurd trivial hp
  · exact absurd trivial hp

/-- The handler of a block, made with budget `b` and driven from the state `s`, ends like `big`:
    with this result, number of statements and state.  Whenever it pauses because its budget is
    spent, it has executed `b` statements in its frame. -/
structure SlicesTo (script : Script) (ctx : Context σ) (event : Event) (entry : BlockId) (b : Nat)
    (s : σ) (big : Except Error Unit × Nat × σ) : Prop where
  ends : ∃ n, ∃ h : Handler, h.executed = big.2.1 ∧
    drive script ctx n ((fresh event entry b).run script ctx s) =
      (big.1.map fun _ => if (script.block entry).isEmpty then .idle else .finished, h, big.2.2)
  spent : ∀ n, (drive script ctx n ((fresh event entry b).run script ctx s)).1 =
      .ok .outOfBudget →
    (drive script ctx n ((fresh event entry b).run script ctx s)).2.1.usedBudget = b

theorem drive_of_not_pauses {x : Except Error Outcome × Handler × σ} (hp : ¬ Pauses x.1) (n : Nat) :
    drive script ctx n x = x := by
  induction n with
  | zero => rfl
  | succ n ih => rw [drive, goOn_of_not_pauses hp, ih]

/-- A handler without statements is not started. -/
theorem run_of_isEmpty {event : Event} {entry : BlockId}
    (hempty : (script.block entry).isEmpty = true) :
    (fresh event entry b).run script ctx s = (.ok .idle, fresh event entry b, s) := by
  rw [run]
  simp [fresh, hempty]

theorem slicesTo_of_forward (hf : script.Forward) (ctx : Context σ) (event : Event)
    (entry : BlockId) (hb : 1 ≤ b) (s : σ) :
    SlicesTo script ctx event entry b s (script.exec hf ctx entry 0 (0, s)) := by
  by_cases hempty : (script.block entry).isEmpty = true
  · -- nothing is executed, and nothing is left to pause for
    have hnone : script.statement? entry 0 = none := by
      rw [Script.statement?, List.isEmpty_iff.mp hempty]
      rfl
    have hexec : script.exec hf ctx entry 0 (0, s) = (.ok (), 0, s) := by
      rw [Script.exec_of_none hnone]
      rfl
    have hdrive : ∀ n, drive script ctx n ((fresh event entry b).run script ctx s) =
        (.ok .idle, fresh event entry b, s) := by
      intro n
      rw [run_of_isEmpty hempty, drive_of_not_pauses (by exact id)]
    rw [hexec]
    refine ⟨⟨0, fresh event entry b, rfl, ?_⟩, fun n ho => ?_⟩
    · rw [hdrive, if_pos hempty]
      rfl
    · rw [hdrive] at ho
      cases ho
  · let h₁ : Handler := { fresh event entry b with running := true, stack := [⟨entry, 0⟩] }
    have hrun : (fresh event entry b).run script ctx s = execute script ctx h₁ s := by
      rw [run]
      simp only [fresh, hempty, Bool.or_self, Bool.false_eq_true, if_false]
      rfl
    have hready : Ready b h₁ := ⟨rfl, rfl, Nat.zero_le _, rfl⟩
    have hunder := hready.underway script ctx s
    have hrem : remaining script hf ctx (execute script ctx h₁ s) =
        script.exec hf ctx entry 0 (0, s) := by
      rw [remaining_execute]
      show (script.exec hf ctx entry 0 >>= fun _ => pure ()) (0, s) = _
      rw [bind_pure_unit]
    obtain ⟨n, hn⟩ := exists_drive_ends hf hb _ hunder
    obtain ⟨hx, hrem'⟩ := hunder.drive hf ctx n
    obtain ⟨hend, hexecuted, hstate⟩ := ends_of_not_pauses hn hx.busy hf ctx
    rw [hrem', hrem] at hend hexecuted hstate
    rw [← hrun] at hend hexecuted hstate
    refine ⟨⟨n, _, hexecuted, ?_⟩, fun n ho => ?_⟩
    · rw [if_neg hempty]
      exact Prod.ext hend (Prod.ext rfl hstate)
    · rw [hrun] at ho ⊢
      exact (hunder.drive hf ctx n).1.spent ho

end Handler

/-! ## What a context is asked -/

/-- Something that a context is asked to do, in the order in which that happens. -/
inductive Request
  | statement (p : Position)
  | read (r : Reference)
  | value (function : String) (args : List Value)
  | call (function : String) (args : List Value)
  | write (r : Reference) (v : Value)

/-- A context that does the same and keeps a list of all it was asked. -/
def Context.logged (ctx : Context σ) : Context (σ × List Request) where
  constant name x := ctx.constant name x.1
  read r x := ((ctx.read r x.1).1, (ctx.read r x.1).2, x.2 ++ [.read r])
  callValue f vs x :=
    ((ctx.callValue f vs x.1).1, (ctx.callValue f vs x.1).2, x.2 ++ [.value f vs])
  callFunction f vs x :=
    ((ctx.callFunction f vs x.1).1, (ctx.callFunction f vs x.1).2, x.2 ++ [.call f vs])
  write r v x := ((ctx.write r v x.1).1, (ctx.write r v x.1).2, x.2 ++ [.write r v])
  observe p x := (ctx.observe p x.1, x.2 ++ [.statement p])

/-- **Cutting a handler into frames changes nothing.**  For every script that was read from a text,
    every block, context and state, and every budget of at least one statement, the handler
    comes to its end, with the result, the number of statements and the state of `exec`, in which
    no budget occurs; and it asks the context for the same things in the same order. -/
theorem Script.slicesTo_exec {source : String} {script : Script}
    (h : Script.parse source = .ok script) (ctx : Context σ) (event : Event) (entry : BlockId)
    (s : σ) :
    (∀ b, 1 ≤ b → Handler.SlicesTo script ctx event entry b s
      (script.exec (forward_of_parse h) ctx entry 0 (0, s))) ∧
    ∀ b, 1 ≤ b → Handler.SlicesTo script ctx.logged event entry b (s, [])
      (script.exec (forward_of_parse h) ctx.logged entry 0 (0, s, [])) :=
  ⟨fun _ hb => Handler.slicesTo_of_forward _ ctx event entry hb s,
    fun _ hb => Handler.slicesTo_of_forward _ ctx.logged event entry hb (s, [])⟩

/-- The text of a script with a branch, a wait and an assignment. -/
def ferry : String := "state S(true) { event spawn() { if (n == 0) { wait(5); } n = 1; } }"

theorem slicesTo_ferry : ∃ script, ∃ h : Script.parse ferry = .ok script,
    Handler.SlicesTo script (Recording.flatContext .empty) .spawn 0 1 { symbols := .empty }
      (script.exec (Script.forward_of_parse h) (Recording.flatContext .empty) 0 0
        (0, { symbols := .empty })) := by
  obtain ⟨script, h⟩ : ∃ script, Script.parse ferry = .ok script := ⟨_, by cbv⟩
  exact ⟨script, h, (Script.slicesTo_exec h _ _ _ _).1 1 (Nat.le_refl 1)⟩

/-- A handler without statements never comes to rest as finished: it is not even started. -/
theorem drive_of_no_statements : ∃ script,
    Script.parse "state S(true) { event spawn() { } }" = .ok script ∧
    (script.states.head?.bind fun st => st.handlers.get? .spawn) = some 0 ∧
    ∀ b n, (Handler.drive script (Recording.flatContext .empty) n
      ((Handler.fresh .spawn 0 b).run script (Recording.flatContext .empty)
        { symbols := .empty })).1 = .ok .idle := by
  refine ⟨_, by cbv, by cbv, fun b n => ?_⟩
  rw [Handler.run_of_isEmpty (by cbv), Handler.drive_of_not_pauses (by exact id)]

end ActorScript
