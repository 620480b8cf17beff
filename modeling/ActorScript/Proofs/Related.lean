/-
  The same run over another state.

  Two actions are related along `R` if, started in related states, they give the same result and
  leave related states behind (`Action.Related`).  What a script computes is determined by the
  operations of its context alone, so contexts whose operations are related make everything
  related: expressions, statements, handlers, whole turns.  This is the free theorem of the
  interpreter, proved construct by construct.

  It is used to watch a run without disturbing it: a host that keeps a record of what happens is
  related to the host it was made from, by forgetting the record.
-/
import ActorScript.Proofs.Turn

namespace ActorScript

variable {σ τ α β : Type} {R : σ → τ → Prop}

/-! ## Actions -/

/-- In states related by `R`, both actions give the same result, and related states after it. -/
def Action.Related (R : σ → τ → Prop) (a : Action σ α) (b : Action τ α) : Prop :=
  ∀ s t, R s t → (a s).1 = (b t).1 ∧ R (a s).2 (b t).2

namespace Action

theorem related_pure (x : α) : Related R (pure x) (pure x) := fun _ _ h => ⟨rfl, h⟩

/-- What does not touch the state gives the same on both sides. -/
theorem related_lift (r : Except Error α) : Related R (lift r) (lift r) := fun _ _ h => ⟨rfl, h⟩

theorem related_fail (e : Error) : Related R (fail e : Action σ α) (fail e) :=
  fun _ _ h => ⟨rfl, h⟩

/-- An action is related to itself if only equal states are. -/
theorem related_eq (a : Action σ α) : Related Eq a a := by
  rintro s _ rfl
  exact ⟨rfl, rfl⟩

/-- **One action after another**: the second ones begin with the same result in related states. -/
theorem Related.bind {a : Action σ α} {b : Action τ α} {f : α → Action σ β} {g : α → Action τ β}
    (h : Related R a b) (hf : ∀ x, Related R (f x) (g x)) : Related R (a >>= f) (b >>= g) := by
  intro s t hst
  obtain ⟨hres, hst'⟩ := h s t hst
  rw [bind_apply, bind_apply]
  rcases ha : a s with ⟨r, s'⟩
  rcases hb : b t with ⟨r', t'⟩
  rw [ha, hb] at hres hst'
  obtain rfl : r = r' := hres
  cases r with
  | error e => exact ⟨rfl, hst'⟩
  | ok x => exact hf x s' t' hst'

/-- Behind a result that does not depend on the state, only the case of that result matters. -/
theorem related_lift_bind {r : Except Error α} {f : α → Action σ β} {g : α → Action τ β}
    (h : ∀ x, r = .ok x → Related R (f x) (g x)) : Related R (lift r >>= f) (lift r >>= g) := by
  cases r with
  | error e => exact related_fail e
  | ok x => exact h x rfl

end Action

/-! ## Contexts -/

/-- All operations of the two contexts are related. -/
structure Context.Related (R : σ → τ → Prop) (ctx : Context σ) (ctx' : Context τ) : Prop where
  constant : ∀ name s t, R s t → ctx.constant name s = ctx'.constant name t
  fetch : ∀ r, Action.Related R (ctx.fetch r) (ctx'.fetch r)
  callValue : ∀ f vs, Action.Related R (ctx.callValue f vs) (ctx'.callValue f vs)
  callFunction : ∀ f vs, Action.Related R (ctx.callFunction f vs) (ctx'.callFunction f vs)
  write : ∀ r v, Action.Related R (ctx.write r v) (ctx'.write r v)
  observe : ∀ p s t, R s t → R (ctx.observe p s) (ctx'.observe p t)

variable {ctx : Context σ} {ctx' : Context τ}

namespace Expr

/-- Arguments are evaluated to the same values, or to the same error. -/
theorem evalList_related {es : List Expr}
    (hes : ∀ e ∈ es, Action.Related R (e.eval ctx) (e.eval ctx')) :
    Action.Related R (evalList ctx es) (evalList ctx' es) := by
  induction es with
  | nil =>
    rw [evalList, evalList]
    exact Action.related_pure _
  | cons e es ih =>
    rw [evalList, evalList]
    refine (hes e List.mem_cons_self).bind fun v => ?_
    exact (ih fun a ha => hes a (List.mem_cons_of_mem _ ha)).bind fun vs =>
      Action.related_pure _

/-- **Expressions** have the same value in related contexts. -/
theorem eval_related (h : ctx.Related R ctx') (e : Expr) :
    Action.Related R (e.eval ctx) (e.eval ctx') := by
  induction e using Expr.induct with
  | literal v =>
    rw [eval, eval]
    exact Action.related_pure _
  | symbol n =>
    intro s t hst
    rw [eval, eval, Context.lookup, Context.lookup, h.constant n s t hst]
    split
    · exact ⟨rfl, hst⟩
    · exact h.fetch _ s t hst
  | register r =>
    rw [eval, eval]
    exact h.fetch _
  | call f args ih =>
    rw [eval, eval]
    exact (evalList_related ih).bind fun vs => h.callValue f vs
  | unary op e ih =>
    rw [eval, eval]
    exact ih.bind fun v => Action.related_lift _
  | binary op l r ihl ihr =>
    rw [eval, eval]
    exact ihl.bind fun v => ihr.bind fun w => Action.related_lift _
  | ternary c t e ihc iht ihe =>
    rw [eval, eval]
    refine ihc.bind fun v => ?_
    split
    · exact iht
    · exact ihe

end Expr

/-- A statement does the same, and its request is the same. -/
theorem Statement.perform_related (h : ctx.Related R ctx') (st : Statement) :
    Action.Related R (st.perform ctx) (st.perform ctx') := by
  cases st with
  | call f args l =>
    exact (Expr.evalList_related fun e _ => e.eval_related h).bind fun vs =>
      (h.callFunction f vs).bind fun r => Action.related_pure _
  | assign target value l =>
    exact (value.eval_related h).bind fun v => (h.write target v).bind fun _ =>
      Action.related_pure _
  | ifElse c t e l =>
    exact (c.eval_related h).bind fun v => Action.related_pure _

/-! ## Handlers -/

namespace Handler

/-- The same result, the same handler, and related states. -/
def Same {ρ : Type} (R : σ → τ → Prop) (x : ρ × Handler × σ) (y : ρ × Handler × τ) : Prop :=
  x.1 = y.1 ∧ x.2.1 = y.2.1 ∧ R x.2.2 y.2.2

/-- **A handler** goes through the same statements, and stops where the other one stops. -/
theorem execute_related (script : Script) (hctx : ctx.Related R ctx') (h : Handler) {s : σ} {t : τ}
    (hst : R s t) : Same R (execute script ctx h s) (execute script ctx' h t) := by
  -- what a statement does is the same on both sides
  have step : ∀ {st : Statement} {p : Position} {s s' : σ} {t : τ} {r : Except Error Effect},
      R s t → st.perform ctx (ctx.observe p s) = (r, s') →
        ∃ t', st.perform ctx' (ctx'.observe p t) = (r, t') ∧ R s' t' := by
    intro st p s s' t r hst hp
    obtain ⟨hres, hst'⟩ := st.perform_related hctx _ _ (hctx.observe p s t hst)
    rw [hp] at hres hst'
    exact ⟨_, Prod.ext hres.symm rfl, hst'⟩
  fun_induction execute script ctx h s generalizing t with
  | case1 h s hs =>
    rw [execute_nil ctx' t hs]
    exact ⟨rfl, rfl, hst⟩
  | case2 h s p rest hs hp ih =>
    rw [execute_leave ctx' t hs hp]
    exact ih hst
  | case3 h s p rest hs st hp hb =>
    rw [execute_statement ctx' t hs hp, if_pos hb]
    exact ⟨rfl, rfl, hst⟩
  | case4 h s p rest hs st hp hb e s' hv =>
    obtain ⟨t', hv', hst'⟩ := step hst hv
    rw [execute_statement ctx' t hs hp, if_neg hb, hv']
    exact ⟨rfl, rfl, hst'⟩
  | case5 h s p rest hs st hp hb s' hv ih =>
    obtain ⟨t', hv', hst'⟩ := step hst hv
    rw [execute_statement ctx' t hs hp, if_neg hb, hv']
    exact ih hst'
  | case6 h s p rest hs st hp hb b s' hv ih =>
    obtain ⟨t', hv', hst'⟩ := step hst hv
    rw [execute_statement ctx' t hs hp, if_neg hb, hv']
    exact ih hst'
  | case7 h s p rest hs st hp hb ms s' hv =>
    obtain ⟨t', hv', hst'⟩ := step hst hv
    rw [execute_statement ctx' t hs hp, if_neg hb, hv']
    exact ⟨rfl, rfl, hst'⟩
  | case8 h s p rest hs st hp hb s' hv =>
    obtain ⟨t', hv', hst'⟩ := step hst hv
    rw [execute_statement ctx' t hs hp, if_neg hb, hv']
    exact ⟨rfl, rfl, hst'⟩

/-- A handler is started alike. -/
theorem run_related (script : Script) (hctx : ctx.Related R ctx') (h : Handler) {s : σ} {t : τ}
    (hst : R s t) : Same R (h.run script ctx s) (h.run script ctx' t) := by
  rw [run, run]
  split
  · exact ⟨rfl, rfl, hst⟩
  · exact execute_related script hctx _ hst

/-- A handler goes on alike. -/
theorem proceed_related (script : Script) (hctx : ctx.Related R ctx') (h : Handler) {s : σ} {t : τ}
    (hst : R s t) : Same R (h.proceed script ctx s) (h.proceed script ctx' t) := by
  rw [proceed, proceed]
  split
  · exact ⟨rfl, rfl, hst⟩
  · exact execute_related script hctx _ hst

/-- **A handler does the same at every cue.** -/
theorem obey_related (script : Script) (hctx : ctx.Related R ctx') (c : Cue) (h : Handler) {s : σ}
    {t : τ} (hst : R s t) : Same R (h.obey script ctx s c) (h.obey script ctx' t c) := by
  cases c with
  | run => exact run_related script hctx h hst
  | newFrame =>
    rw [obey, obey, newFrame, newFrame]
    split
    · exact run_related script hctx _ hst
    · split
      · exact execute_related script hctx _ hst
      · exact ⟨rfl, rfl, hst⟩
  | resume =>
    rw [obey, obey, resume, resume]
    split
    · exact execute_related script hctx _ hst
    · exact ⟨rfl, rfl, hst⟩

variable {choose : Action σ Nat} {choose' : Action τ Nat}

/-- **A turn** is related if the choice of a state is, too. -/
theorem settle_related (script : Script) (hctx : ctx.Related R ctx')
    (hchoose : Action.Related R choose choose') (current : Option Nat) (c : Cue) (h : Handler)
    {s : σ} {t : τ} (hst : R s t) :
    Same R (settle script ctx choose current c h s) (settle script ctx' choose' current c h t) := by
  -- the answer to a choice is the same on both sides
  have chosen : ∀ {s s' : σ} {t : τ} {r : Except Error Nat}, R s t → choose s = (r, s') →
      ∃ t', choose' t = (r, t') ∧ R s' t' := by
    intro s s' t r hst hc
    obtain ⟨hres, hst'⟩ := hchoose s t hst
    rw [hc] at hres hst'
    exact ⟨_, Prod.ext hres.symm rfl, hst'⟩
  rw [settle_eq, settle_eq]
  refine conclude_induct script ctx choose current
    (motive := fun x r => ∀ y, Same R x y → Same R r (conclude script ctx' choose' current y))
    ?failed ?settled ?waiting ?declined ?leaving ?staying (h.obey script ctx s c) _
    (obey_related script hctx c h hst)
  case failed =>
    rintro e h s ⟨_, _, t⟩ ⟨rfl, rfl, hst⟩
    exact ⟨rfl, rfl, hst⟩
  case settled =>
    rintro o h s ho ⟨_, _, t⟩ ⟨rfl, rfl, hst⟩
    rcases ho with rfl | rfl | rfl <;> exact ⟨rfl, rfl, hst⟩
  case waiting =>
    rintro ms h s ⟨_, _, t⟩ ⟨rfl, rfl, hst⟩
    exact ⟨rfl, rfl, hst⟩
  case declined =>
    rintro h s e s' hc ⟨_, _, t⟩ ⟨rfl, rfl, hst⟩
    obtain ⟨t', hc', hst'⟩ := chosen hst hc
    rw [conclude_reselect, hc']
    exact ⟨rfl, rfl, hst'⟩
  case leaving =>
    rintro h s i s' hc hne ⟨_, _, t⟩ ⟨rfl, rfl, hst⟩
    obtain ⟨t', hc', hst'⟩ := chosen hst hc
    rw [conclude_reselect, hc']
    simp only [if_neg hne]
    exact ⟨rfl, rfl, hst'⟩
  case staying =>
    rintro h s i s' r hc hi ih ⟨_, _, t⟩ ⟨rfl, rfl, hst⟩
    obtain ⟨t', hc', hst'⟩ := chosen hst hc
    rw [conclude_reselect, hc']
    simp only [if_pos hi]
    exact ih _ (proceed_related script hctx h hst')

end Handler

/-! ## Hosts -/

/-- All operations of the two hosts are related. -/
structure Host.Related (R : σ → τ → Prop) (host : Host σ) (host' : Host τ) : Prop where
  callFunction : ∀ f vs, Action.Related R (host.callFunction f vs) (host'.callFunction f vs)
  callValue : ∀ f vs, Action.Related R (host.callValue f vs) (host'.callValue f vs)
  read : ∀ slot s t, R s t → host.read slot s = host'.read slot t
  write : ∀ slot v, Action.Related R (host.write slot v) (host'.write slot v)
  observe : ∀ step s t, R s t → R (host.observe step s) (host'.observe step t)

/-- What a machine of the actor can reach at its host: the parameters, and of the saved values
    those under a key of the actor. -/
inductive Identity.Reaches (i : Identity) : Slot → Prop
  | parameter (key : String) : i.Reaches (.parameter key)
  | saved {name key : String} : i.savedKey name = .ok key → i.Reaches (.saved key)

/-- The statement as it is told to the host after `k` more switches. -/
def Step.later (k : Nat) (step : Step) : Step := { step with generation := step.generation + k }

/-- Everything that a machine of the actor can ask for is related, if the second host is asked by
    a machine that has gone through `k` switches more. -/
structure Host.RelatedFor (i : Identity) (k : Nat) (R : σ → τ → Prop) (host : Host σ)
    (host' : Host τ) : Prop where
  callFunction : ∀ f vs, Action.Related R (host.callFunction f vs) (host'.callFunction f vs)
  callValue : ∀ f vs, Action.Related R (host.callValue f vs) (host'.callValue f vs)
  read : ∀ slot, i.Reaches slot → ∀ s t, R s t → host.read slot s = host'.read slot t
  write : ∀ slot, i.Reaches slot → ∀ v, Action.Related R (host.write slot v) (host'.write slot v)
  observe : ∀ step s t, R s t → R (host.observe step s) (host'.observe (step.later k) t)

/-- The locals are the same, and the states of the hosts are related. -/
def SameLocals (R : σ → τ → Prop) (x : Locals × σ) (y : Locals × τ) : Prop :=
  x.1 = y.1 ∧ R x.2 y.2

variable {host : Host σ} {host' : Host τ} {script : Script} {i : Identity} {k : Nat}

/-- Hosts that are related for everything are related for one actor. -/
theorem Host.Related.relatedFor (h : host.Related R host') (i : Identity) :
    host.RelatedFor i 0 R host' where
  callFunction := h.callFunction
  callValue := h.callValue
  read slot _ := h.read slot
  write slot _ := h.write slot
  observe := h.observe

namespace Registers

/-- What is done on the hosts leaves the local variables equal. -/
theorem onHost_related {a : Action σ α} {b : Action τ α} (h : Action.Related R a b) :
    Action.Related (SameLocals R) (onHost a) (onHost b) := by
  rintro ⟨l, s⟩ ⟨l', t⟩ ⟨rfl, hst⟩
  obtain ⟨hres, hst'⟩ := h s t hst
  exact ⟨hres, rfl, hst'⟩

/-- Reading gives the same value, in whichever place the reference is. -/
theorem read_related (h : host.RelatedFor i k R host') (r : Reference) {x : Locals × σ}
    {y : Locals × τ} (hxy : SameLocals R x y) :
    read script i host r x = read script i host' r y := by
  obtain ⟨l, s⟩ := x
  obtain ⟨l', t⟩ := y
  obtain ⟨rfl, hst⟩ := hxy
  have hsaved : ∀ name, readSaved i host name s = readSaved i host' name t := by
    intro name
    rw [readSaved, readSaved]
    split
    · rename_i hkey
      exact h.read _ (.saved hkey) s t hst
    · rfl
  have hvar : ∀ name, readVariable script i host name (l, s) =
      readVariable script i host' name (l, t) := by
    intro name
    rw [readVariable, readVariable, hsaved]
  rw [read.eq_def, read.eq_def]
  split
  · rw [hvar]
  · exact h.read _ (.parameter _) s t hst
  · exact hvar _
  · exact hsaved _
  · rfl

/-- Writing does the same, and fails for the same reason. -/
theorem write_related (h : host.RelatedFor i k R host') (r : Reference) (v : Value) :
    Action.Related (SameLocals R) (write script i host r v) (write script i host' r v) := by
  have hsaved : ∀ name, Action.Related (SameLocals R) (writeSaved i host name v)
      (writeSaved i host' name v) := by
    intro name
    rw [writeSaved, writeSaved]
    exact Action.related_lift_bind fun key hkey => onHost_related (h.write _ (.saved hkey) v)
  have hvar : ∀ name, Action.Related (SameLocals R) (writeVariable script i host name v)
      (writeVariable script i host' name v) := by
    intro name
    rw [writeVariable, writeVariable]
    split
    · rintro ⟨l, s⟩ ⟨l', t⟩ ⟨rfl, hst⟩
      exact ⟨rfl, rfl, hst⟩
    · exact hsaved name
  rw [write.eq_def, write.eq_def]
  split
  · split
    · exact Action.related_fail _
    · split
      · exact Action.related_fail _
      · exact hvar _
  · exact onHost_related (h.write _ (.parameter _) v)
  · exact hvar _
  · exact hsaved _
  · exact Action.related_pure _

end Registers

/-- The registers of a machine are related along with the hosts behind them. -/
theorem registers_related (h : host.RelatedFor i k R host') (script : Script)
    {describe describe' : Position → Option Step}
    (hd : ∀ p, describe' p = (describe p).map (Step.later k)) :
    (registers script i host describe).Related (SameLocals R)
      (registers script i host' describe') where
  constant _ _ _ _ := rfl
  fetch r _ _ hxy := ⟨congrArg Except.ok (Registers.read_related h r hxy), hxy⟩
  callValue f vs := Registers.onHost_related (h.callValue f vs)
  callFunction f vs := Registers.onHost_related (h.callFunction f vs)
  write r v := Registers.write_related h r v
  observe p x y hxy := by
    simp only [registers, hd]
    cases describe p with
    | none => exact hxy
    | some step => exact ⟨hxy.1, h.observe step _ _ hxy.2⟩

namespace Machine

/-- The machine, if it had gone through `k` switches more. -/
def later (m : Machine) (k : Nat) : Machine := { m with generation := m.generation + k }

@[simp] theorem later_zero (m : Machine) : m.later 0 = m := rfl

/-- The first condition that holds is the same one. -/
theorem firstHolding_related (hctx : ctx.Related R ctx') (states : List State) (j : Nat) :
    Action.Related R (firstHolding ctx states j) (firstHolding ctx' states j) := by
  induction states generalizing j with
  | nil => exact Action.related_pure _
  | cons st rest ih =>
    rw [firstHolding, firstHolding]
    refine (st.condition.eval_related hctx).bind fun v => ?_
    split
    · exact Action.related_pure _
    · exact ih (j + 1)

/-- The state that is chosen is the same. -/
theorem choose_related (h : host.RelatedFor i k R host') (script : Script) :
    Action.Related (SameLocals R) (choose script i host) (choose script i host') := by
  rw [choose, choose]
  have hctx : (registers script i host).Related (SameLocals R) (registers script i host') :=
    registers_related h script fun _ => rfl
  refine (firstHolding_related hctx script.states 0).bind fun j => ?_
  split
  · exact Action.related_pure _
  · exact Action.related_fail _

/-- **A turn** ends alike with related hosts, however many switches there have been before. -/
theorem turn_related {m : Machine} (h : host.RelatedFor m.identity k R host') (c : Cue) (e : Event)
    (hd : Handler) {s : σ} {t : τ} (hst : R s t) :
    Handler.Same (SameLocals R) (m.turn host c e hd s) ((m.later k).turn host' c e hd t) :=
  Handler.settle_related m.script (registers_related h _ fun _ => rfl) (choose_related h _)
    m.current c hd ⟨rfl, hst⟩

/-- Seeding writes the same defaults, because the same entries are missing. -/
theorem seedSaved_related (h : host.RelatedFor i k R host') (vars : List Variable) :
    Action.Related R (seedSaved i host vars) (seedSaved i host' vars) := by
  induction vars with
  | nil => exact Action.related_pure _
  | cons v rest ih =>
    rw [seedSaved, seedSaved]
    split
    · split
      · refine Action.related_lift_bind fun key hkey => Action.Related.bind ?_ fun _ => ih
        intro s t hst
        simp only [h.read _ (.saved hkey) s t hst]
        split
        · exact h.write _ (.saved hkey) _ s t hst
        · exact ⟨rfl, hst⟩
      · exact ih
    · exact ih

end Machine

end ActorScript
