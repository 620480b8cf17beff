/-
  What actions leave behind, and how they fail.

  A context decides what its operations do to its state and with which errors they fail.  An
  expression, a statement and a handler reach the state through these operations only, and all
  errors of their own are about something else than a function that is not known.  So if the
  operations keep `P` and fail only with errors of which `E` holds, then so do they.  Of calls,
  this is asked only for those that stand in the expression or the script (`Context.Answers`,
  `Context.Serves`).
-/
import ActorScript.Machine

namespace ActorScript

variable {σ α β : Type} {P : σ → Prop} {E : Error → Prop}

/-! ## The calls of a script -/

/-- The function that a statement calls as a statement. -/
def Statement.function? : Statement → Option String
  | .call f _ _ => some f
  | .assign .. | .ifElse .. => none

/-- The functions that a statement calls in its expressions. -/
def Statement.valueCalls : Statement → List String
  | .call _ args _ => Expr.callsList args
  | .assign _ value _ => value.calls
  | .ifElse condition _ _ _ => condition.calls

namespace Script

/-- The functions that the script calls as statements. -/
def statementCalls (s : Script) : List String := s.blocks.flatten.filterMap (·.function?)

/-- The functions that the script calls in expressions. -/
def valueCalls (s : Script) : List String :=
  s.states.flatMap (·.condition.calls) ++ s.blocks.flatten.flatMap (·.valueCalls)

/-- A statement that can be executed stands in the script. -/
theorem mem_of_statement? {s : Script} {id index : Nat} {st : Statement}
    (h : s.statement? id index = some st) : st ∈ s.blocks.flatten := by
  rw [statement?, block] at h
  cases hb : s.blocks[id]? with
  | none =>
    rw [hb] at h
    cases h
  | some b =>
    rw [hb] at h
    exact List.mem_flatten.mpr ⟨b, List.mem_of_getElem? hb, List.mem_of_getElem? h⟩

end Script

/-! ## Actions -/

/-- `P` holds of what is left behind and, if the result is an error, `E` holds of the error. -/
def Ensured (P : σ → Prop) (E : Error → Prop) (r : Except Error α × σ) : Prop :=
  P r.2 ∧ ∀ e, r.1 = .error e → E e

/-- A result needs only the property of the state. -/
theorem Ensured.ok {x : α} {s : σ} (hs : P s) : Ensured P E ((.ok x : Except Error α), s) :=
  ⟨hs, fun _ h => nomatch h⟩

/-- An error has to be one of the errors as well. -/
theorem Ensured.error {e : Error} {s : σ} (hs : P s) (he : E e) :
    Ensured P E ((.error e : Except Error α), s) := by
  refine ⟨hs, fun e' h => ?_⟩
  cases h
  exact he

/-- Where `P` holds before the action, it holds after it, and if the action fails, `E` holds of the
    error. -/
def Action.Ensures (a : Action σ α) (P : σ → Prop) (E : Error → Prop) : Prop :=
  ∀ s, P s → Ensured P E (a s)

namespace Action

theorem ensures_pure (x : α) : (pure x : Action σ α).Ensures P E := fun _ hs => .ok hs

/-- What does not touch the state has only its errors to answer for. -/
theorem ensures_lift {r : Except Error α} (h : ∀ e, r = .error e → E e) :
    (lift r : Action σ α).Ensures P E := fun _ hs => ⟨hs, h⟩

theorem ensures_fail {e : Error} (h : E e) : (fail e : Action σ α).Ensures P E :=
  fun _ hs => .error hs h

/-- An update cannot fail. -/
theorem ensures_update {f : σ → σ} (h : ∀ s, P s → P (f s)) : (update f).Ensures P E :=
  fun s hs => .ok (h s hs)

/-- A look at the state can fail no more than an update. -/
theorem ensures_look (f : σ → α) : (look f).Ensures P E := fun _ hs => .ok hs

/-- **One action after another**: the second one begins in a state that the first has left, and is
    not begun behind an error. -/
theorem Ensures.bind {x : Action σ α} {f : α → Action σ β} (hx : x.Ensures P E)
    (hf : ∀ a, (f a).Ensures P E) : (x >>= f).Ensures P E := by
  intro s hs
  obtain ⟨hs', herr⟩ := hx s hs
  rw [bind_apply]
  rcases hxs : x s with ⟨err | a, s'⟩
  · rw [hxs] at hs' herr
    exact .error hs' (herr err rfl)
  · rw [hxs] at hs'
    exact hf a s' hs'

end Action

/-! ## Errors about functions -/

/-- The function that an error says is not known. -/
def Error.unknownFunction? : Error → Option String
  | .unknownFunction name => some name
  | _ => none

/-- The result is no error about a function that is not known. -/
def Knows (r : Except Error α) : Prop := ∀ e, r = .error e → e.unknownFunction? = none

/-- A result is no error. -/
theorem knows_ok (x : α) : Knows (.ok x) := fun _ h => nomatch h

/-- An error of another kind is no matter. -/
theorem knows_error {e : Error} (h : e.unknownFunction? = none) :
    Knows (.error e : Except Error α) := by
  intro e' he
  cases he
  exact h

/-- Of two computations in a row, either may fail. -/
theorem Knows.bind {r : Except Error α} {f : α → Except Error β} (hr : Knows r)
    (hf : ∀ x, Knows (f x)) : Knows (r >>= f) := by
  cases r with
  | error e => exact knows_error (hr e rfl)
  | ok x => exact hf x

theorem knows_integerResult (op : String) (n : Int) : Knows (integerResult op n) := by
  rw [integerResult]
  split
  · exact knows_ok _
  · exact knows_error rfl

/-- A unary operator fails on values only. -/
theorem UnaryOp.knows_apply (op : UnaryOp) (v : Value) : Knows (op.apply v) := by
  rw [apply.eq_def]
  split
  · exact knows_ok _
  · exact knows_integerResult _ _
  · exact knows_error rfl

namespace BinaryOp

/-- Arithmetic fails on values and on overflow. -/
theorem knows_onInts (op : BinaryOp) {f : Int → Int → Except Error Value}
    (hf : ∀ a b, Knows (f a b)) (v w : Value) : Knows (onInts op f v w) := by
  rw [onInts.eq_def]
  split
  · exact hf _ _
  · exact knows_error rfl

/-- **No operator** is at a loss for a function. -/
theorem knows_apply (op : BinaryOp) (v w : Value) : Knows (op.apply v w) := by
  have hint : ∀ (f : Int → Int → Int) (a b : Int), Knows (integerResult op.symbol (f a b)) :=
    fun f a b => knows_integerResult _ _
  have hcompare : ∀ (f : Int → Int → Bool) (a b : Int),
      Knows (.ok (Value.bool (f a b)) : Except Error Value) := fun f a b => knows_ok _
  cases op with
  | add =>
    rw [apply]
    split
    · exact knows_ok _
    · exact knows_onInts _ (hint (· + ·)) v w
  | subtract => exact knows_onInts _ (hint (· - ·)) v w
  | multiply => exact knows_onInts _ (hint (· * ·)) v w
  | divide =>
    rw [apply]
    refine knows_onInts _ (fun a b => ?_) v w
    split
    · exact knows_error rfl
    · exact knows_integerResult _ _
  | less => exact knows_onInts _ (hcompare fun a b => decide (a < b)) v w
  | lessEqual => exact knows_onInts _ (hcompare fun a b => decide (a ≤ b)) v w
  | greater => exact knows_onInts _ (hcompare fun a b => decide (a > b)) v w
  | greaterEqual => exact knows_onInts _ (hcompare fun a b => decide (a ≥ b)) v w
  | equal => exact knows_ok _
  | notEqual => exact knows_ok _
  | and => exact knows_ok _
  | or => exact knows_ok _

end BinaryOp

/-! ## Contexts -/

/-- The context answers evaluations well: reading does not destroy `P`, and neither do calls of
    these functions, which fail only with errors of which `E` holds. -/
structure Context.Answers (ctx : Context σ) (calls : String → Prop) (P : σ → Prop)
    (E : Error → Prop) : Prop where
  others : ∀ e, e.unknownFunction? = none → E e
  read : ∀ r s, P s → P (ctx.read r s).2
  callValue : ∀ f, calls f → ∀ vs, (ctx.callValue f vs).Ensures P E

/-- The context does well what the script can ask of it. -/
structure Context.Serves (ctx : Context σ) (script : Script) (P : σ → Prop) (E : Error → Prop) :
    Prop extends ctx.Answers (· ∈ script.valueCalls) P E where
  callFunction : ∀ f ∈ script.statementCalls, ∀ vs, (ctx.callFunction f vs).Ensures P E
  write : ∀ r v, (ctx.write r v).Ensures P E
  observe : ∀ p s, P s → P (ctx.observe p s)

variable {ctx : Context σ} {calls : String → Prop} {script : Script}

namespace Expr

/-- Arguments are evaluated from the left, up to the first error. -/
theorem evalList_ensures {es : List Expr} (hes : ∀ e ∈ es, (e.eval ctx).Ensures P E) :
    (evalList ctx es).Ensures P E := by
  induction es with
  | nil =>
    rw [evalList]
    exact Action.ensures_pure _
  | cons e es ih =>
    rw [evalList]
    refine (hes e List.mem_cons_self).bind fun v => ?_
    exact (ih fun a ha => hes a (List.mem_cons_of_mem _ ha)).bind fun vs => Action.ensures_pure _

/-- **An expression** asks the context for its calls, and for the symbols and registers it reads;
    only the calls can be unknown. -/
theorem eval_ensures {calls : String → Prop} (h : ctx.Answers calls P E) (e : Expr)
    (he : ∀ f ∈ e.calls, calls f) : (e.eval ctx).Ensures P E := by
  induction e using Expr.induct with
  | literal v =>
    rw [eval]
    exact Action.ensures_pure _
  | symbol n =>
    intro s hs
    rw [eval, Context.lookup]
    split
    · exact .ok hs
    · exact .ok (h.read _ s hs)
  | register r =>
    intro s hs
    rw [eval]
    exact .ok (h.read _ s hs)
  | call f args ih =>
    rw [Expr.calls] at he
    rw [eval]
    refine (evalList_ensures fun a ha => ih a ha fun g hg => ?_).bind fun vs =>
      h.callValue f (he f List.mem_cons_self) vs
    exact he g (List.mem_cons_of_mem _ (mem_callsList.mpr ⟨a, ha, hg⟩))
  | unary op e ih =>
    rw [eval]
    exact (ih he).bind fun v => Action.ensures_lift fun err herr =>
      h.others err (op.knows_apply v err herr)
  | binary op l r ihl ihr =>
    rw [Expr.calls] at he
    rw [eval]
    refine (ihl fun f hf => he f (List.mem_append_left _ hf)).bind fun v => ?_
    refine (ihr fun f hf => he f (List.mem_append_right _ hf)).bind fun w => ?_
    exact Action.ensures_lift fun err herr => h.others err (op.knows_apply v w err herr)
  | ternary c t e ihc iht ihe =>
    rw [Expr.calls] at he
    rw [eval]
    refine (ihc fun f hf => he f (List.mem_append_left _ hf)).bind fun v => ?_
    split
    · exact iht fun f hf => he f (List.mem_append_right _ (List.mem_append_left _ hf))
    · exact ihe fun f hf => he f (List.mem_append_right _ (List.mem_append_right _ hf))

end Expr

/-- What a statement does, it does by evaluating expressions, calling its function or writing. -/
theorem Statement.perform_ensures (h : ctx.Answers calls P E)
    (hw : ∀ r v, (ctx.write r v).Ensures P E) (st : Statement)
    (hfunction : ∀ f, st.function? = some f → ∀ vs, (ctx.callFunction f vs).Ensures P E)
    (hvalues : ∀ f ∈ st.valueCalls, calls f) : (st.perform ctx).Ensures P E := by
  cases st with
  | call f args l =>
    have hargs : (Expr.evalList ctx args).Ensures P E :=
      Expr.evalList_ensures fun a ha => a.eval_ensures h fun g hg =>
        hvalues g (Expr.mem_callsList.mpr ⟨a, ha, hg⟩)
    exact hargs.bind fun vs => (hfunction f rfl vs).bind fun r => Action.ensures_pure _
  | assign target value l =>
    exact (value.eval_ensures h hvalues).bind fun v => (hw target v).bind fun _ =>
      Action.ensures_pure _
  | ifElse c t e l =>
    exact (c.eval_ensures h hvalues).bind fun v => Action.ensures_pure _

/-- **A statement of the script** asks for nothing but what stands in the script. -/
theorem Context.Serves.perform (h : ctx.Serves script P E) {st : Statement}
    (hst : st ∈ script.blocks.flatten) : (st.perform ctx).Ensures P E :=
  st.perform_ensures h.toAnswers h.write
    (fun _ hf => h.callFunction _ (List.mem_filterMap.mpr ⟨st, hst, hf⟩))
    fun _ hf => List.mem_append_right _ (List.mem_flatMap.mpr ⟨st, hst, hf⟩)

/-- **A handler** executes statements of the script, one after another. -/
theorem Handler.execute_ensures (h : ctx.Serves script P E) (hd : Handler) (s : σ) (hs : P s) :
    Ensured (fun x => P x.2) E (execute script ctx hd s) := by
  have step : ∀ {st : Statement} {p : Position} {s s' : σ} {r : Except Error Effect},
      script.statement? p.block p.index = some st → P s →
        st.perform ctx (ctx.observe p s) = (r, s') → P s' ∧ ∀ e, r = .error e → E e := by
    intro st p s s' r hp hs hr
    have := h.perform (Script.mem_of_statement? hp) _ (h.observe p s hs)
    rwa [hr] at this
  fun_induction execute script ctx hd s with
  | case1 hd s hstack => exact .ok hs
  | case2 hd s p rest hstack hp ih => exact ih hs
  | case3 hd s p rest hstack st hp hb => exact .ok hs
  | case4 hd s p rest hstack st hp hb err s' hv =>
    obtain ⟨hs', herr⟩ := step hp hs hv
    exact .error hs' (herr err rfl)
  | case5 hd s p rest hstack st hp hb s' hv ih => exact ih (step hp hs hv).1
  | case6 hd s p rest hstack st hp hb b s' hv ih => exact ih (step hp hs hv).1
  | case7 hd s p rest hstack st hp hb ms s' hv => exact .ok (step hp hs hv).1
  | case8 hd s p rest hstack st hp hb s' hv => exact .ok (step hp hs hv).1

/-! ## The registers of a machine -/

variable {identity : Identity} {host : Host σ} {Q : Locals × σ → Prop}

namespace Registers

/-- What is done on the host leaves the registers as they are. -/
theorem onHost_ensures {a : Action σ α} (h : a.Ensures P E) :
    (onHost a).Ensures (fun x => P x.2) E := fun x hx => h x.2 hx

/-- Making the key of an entry fails without an actor, and that is no matter of functions. -/
theorem knows_savedKey (identity : Identity) (name : String) : Knows (identity.savedKey name) := by
  rw [Identity.savedKey]
  split
  · exact knows_ok _
  · exact knows_error rfl

/-- An assignment changes one of the locals, or it is the host that stores the value, or nothing
    happens at all. -/
theorem write_ensures (hothers : ∀ e, e.unknownFunction? = none → E e)
    (hhost : ∀ slot v, (onHost (host.write slot v)).Ensures Q E)
    (hlocal : ∀ name v x, script.isLocal name → Q x → Q (x.1.insert name v, x.2))
    (r : Reference) (v : Value) : (write script identity host r v).Ensures Q E := by
  have hsaved : ∀ name, (writeSaved identity host name v).Ensures Q E := by
    intro name
    rw [writeSaved]
    refine (Action.ensures_lift fun err herr => ?_).bind fun key => hhost (.saved key) v
    exact hothers err (knows_savedKey identity name err herr)
  have hvar : ∀ name, (writeVariable script identity host name v).Ensures Q E := by
    intro name
    rw [writeVariable]
    split
    · rename_i hl
      exact fun x hx => .ok (hlocal name v x hl hx)
    · exact hsaved name
  rw [write.eq_def]
  split
  · split
    · exact Action.ensures_fail (hothers _ rfl)
    · split
      · exact Action.ensures_fail (hothers _ rfl)
      · exact hvar _
  · exact hhost _ v
  · exact hvar _
  · exact hsaved _
  · exact Action.ensures_pure _

end Registers

namespace Machine

/-- A choice evaluates conditions up to the first that holds. -/
theorem firstHolding_ensures (h : ctx.Answers calls P E) {states : List State}
    (hstates : ∀ st ∈ states, ∀ f ∈ st.condition.calls, calls f) (i : Nat) :
    (firstHolding ctx states i).Ensures P E := by
  induction states generalizing i with
  | nil => exact Action.ensures_pure _
  | cons st rest ih =>
    rw [firstHolding]
    refine (st.condition.eval_ensures h (hstates st List.mem_cons_self)).bind fun v => ?_
    split
    · exact Action.ensures_pure _
    · exact ih (fun st' hst' => hstates st' (List.mem_cons_of_mem _ hst')) (i + 1)

/-- Choosing a state only evaluates conditions. -/
theorem choose_ensures (h : (registers script identity host).Answers (· ∈ script.valueCalls) Q E) :
    (choose script identity host).Ensures Q E := by
  rw [choose]
  have hstates : ∀ st ∈ script.states, ∀ f ∈ st.condition.calls, f ∈ script.valueCalls :=
    fun st hst f hf => List.mem_append_left _ (List.mem_flatMap.mpr ⟨st, hst, hf⟩)
  refine (firstHolding_ensures h hstates 0).bind fun i => ?_
  split
  · exact Action.ensures_pure _
  · exact Action.ensures_fail (h.others _ rfl)

end Machine

end ActorScript
