/-
  What running a script leaves as it is.

  A context decides what its operations do to its state.  If none of them destroys a property,
  no evaluation, no statement and no handler can: they reach the state through these operations
  only.  The one exception is worth naming, because so much hangs on it: an assignment is the
  only statement that writes, and it always comes to rest with a request for a new choice of
  state (`perform_keeps_of_ne_reselect`, `execute_keeps_of_ne_reselect`).  So a property that
  all operations but `write` keep survives every stretch of statements between two requests.
-/
import ActorScript.Proofs.Ensured

namespace ActorScript

variable {σ α β : Type} {P : σ → Prop}

/-! ## Actions -/

/-- `a` keeps `P`: where `P` holds before, it holds after, also when `a` fails. -/
def Action.Keeps (a : Action σ α) (P : σ → Prop) : Prop := ∀ s, P s → P (a s).2

namespace Action

theorem keeps_iff_ensures {a : Action σ α} : a.Keeps P ↔ a.Ensures P fun _ => True :=
  ⟨fun h s hs => ⟨h s hs, fun _ _ => trivial⟩, fun h s hs => (h s hs).1⟩

theorem keeps_pure (x : α) : (pure x : Action σ α).Keeps P := fun _ hs => hs

theorem keeps_lift (r : Except Error α) : (lift r : Action σ α).Keeps P := fun _ hs => hs

theorem Keeps.bind {x : Action σ α} {f : α → Action σ β} (hx : x.Keeps P)
    (hf : ∀ a, (f a).Keeps P) : (x >>= f).Keeps P := by
  simp only [keeps_iff_ensures] at hx hf ⊢
  exact hx.bind hf

end Action

/-! ## Contexts -/

/-- No operation of the context destroys `P`, but an assignment may. -/
structure Context.Keeps (ctx : Context σ) (P : σ → Prop) : Prop where
  read : ∀ r s, P s → P (ctx.read r s).2
  callValue : ∀ f vs, (ctx.callValue f vs).Keeps P
  callFunction : ∀ f vs, (ctx.callFunction f vs).Keeps P
  observe : ∀ p s, P s → P (ctx.observe p s)

variable {ctx : Context σ}

/-- Whatever is called, the context answers well if reads and value functions keep `P`. -/
theorem Context.answers (hread : ∀ r s, P s → P (ctx.read r s).2)
    (hvalue : ∀ f vs, (ctx.callValue f vs).Keeps P) (calls : String → Prop) :
    ctx.Answers calls P fun _ => True where
  others _ _ := trivial
  read := hread
  callValue f _ vs := Action.keeps_iff_ensures.mp (hvalue f vs)

theorem Context.Keeps.serves (h : ctx.Keeps P) (hw : ∀ r v, (ctx.write r v).Keeps P)
    (script : Script) : ctx.Serves script P fun _ => True where
  toAnswers := Context.answers h.read h.callValue _
  callFunction f _ vs := Action.keeps_iff_ensures.mp (h.callFunction f vs)
  write r v := Action.keeps_iff_ensures.mp (hw r v)
  observe := h.observe

theorem Context.Keeps.eval (h : ctx.Keeps P) (e : Expr) : (e.eval ctx).Keeps P :=
  Action.keeps_iff_ensures.mpr <|
    e.eval_ensures (Context.answers h.read h.callValue fun _ => True) fun _ _ => trivial

theorem Context.Keeps.evalList (h : ctx.Keeps P) (es : List Expr) :
    (Expr.evalList ctx es).Keeps P :=
  Action.keeps_iff_ensures.mpr <|
    Expr.evalList_ensures fun e _ => Action.keeps_iff_ensures.mp (h.eval e)

/-! ## Statements -/

namespace Statement

/-- What a statement destroys, one of the operations of its context destroys. -/
theorem perform_keeps_of (hread : ∀ r s, P s → P (ctx.read r s).2)
    (hvalue : ∀ f vs, (ctx.callValue f vs).Keeps P)
    (hfunction : ∀ f vs, (ctx.callFunction f vs).Keeps P)
    (hw : ∀ r v, (ctx.write r v).Keeps P) (st : Statement) : (st.perform ctx).Keeps P :=
  Action.keeps_iff_ensures.mpr <|
    st.perform_ensures (Context.answers hread hvalue fun _ => True)
      (fun r v => Action.keeps_iff_ensures.mp (hw r v))
      (fun f _ vs => Action.keeps_iff_ensures.mp (hfunction f vs)) fun _ _ => trivial

/-- A statement that succeeds and does not ask for a new choice of state is no assignment. -/
theorem perform_keeps_of_ne_reselect (h : ctx.Keeps P) {st : Statement} {s s' : σ} {eff : Effect}
    (hp : st.perform ctx s = (.ok eff, s')) (hne : eff ≠ .reselect) (hs : P s) : P s' := by
  cases st with
  | call f args l =>
    have hk : (perform ctx (.call f args l)).Keeps P :=
      (h.evalList args).bind fun vs => (h.callFunction f vs).bind fun r => Action.keeps_pure _
    have := hk s hs
    rwa [hp] at this
  | assign target value l =>
    rw [perform, Action.bind_apply] at hp
    split at hp
    · rw [Action.bind_apply] at hp
      split at hp
      · cases hp
        exact absurd rfl hne
      · cases hp
    · cases hp
  | ifElse c t e l =>
    have hk : (perform ctx (.ifElse c t e l)).Keeps P :=
      (h.eval c).bind fun v => Action.keeps_pure _
    have := hk s hs
    rwa [hp] at this

end Statement

/-! ## Handlers -/

namespace Handler

/-- A stretch of statements that ends neither in an error nor with a request has not written. -/
theorem execute_keeps_of_ne_reselect (script : Script) (h : ctx.Keeps P) (hd : Handler) (s : σ)
    {o : Outcome} (ho : (execute script ctx hd s).1 = .ok o) (hne : o ≠ .reselect) (hs : P s) :
    P (execute script ctx hd s).2.2 := by
  have step : ∀ {st : Statement} {p : Position} {s s' : σ} {eff : Effect},
      P s → st.perform ctx (ctx.observe p s) = (.ok eff, s') → eff ≠ .reselect → P s' :=
    fun hs hp he => Statement.perform_keeps_of_ne_reselect h hp he (h.observe _ _ hs)
  fun_induction execute script ctx hd s with
  | case1 => exact hs
  | case2 _ _ _ _ _ _ ih => exact ih ho hs
  | case3 => exact hs
  | case4 => simp at ho
  | case5 _ _ _ _ _ _ _ _ _ hp ih => exact ih ho (step hs hp (by simp))
  | case6 _ _ _ _ _ _ _ _ _ _ hp ih => exact ih ho (step hs hp (by simp))
  | case7 _ _ _ _ _ _ _ _ _ _ hp => exact step hs hp (by simp)
  | case8 =>
    cases ho
    exact absurd rfl hne

end Handler

/-! ## The registers of a machine -/

section Registers

variable {script : Script} {identity : Identity} {host : Host σ} {Q : Locals × σ → Prop}

/-- Choosing a state only evaluates conditions. -/
theorem choose_keeps (h : (registers script identity host).Keeps Q) :
    (Machine.choose script identity host).Keeps Q :=
  Action.keeps_iff_ensures.mpr <|
    Machine.choose_ensures (Context.answers h.read h.callValue _)

variable {L : Locals → Prop}

/-- Whatever is said of the locals alone, only an assignment destroys. -/
theorem registers_keeps_locals (script : Script) (identity : Identity) (host : Host σ)
    (describe : Position → Option Step) :
    (registers script identity host describe).Keeps fun x => L x.1 where
  read _ _ hl := hl
  callValue _ _ _ hl := hl
  callFunction _ _ _ hl := hl
  observe p s hl := by
    show L ((registers script identity host describe).observe p s).1
    simp only [registers]
    split
    · exact hl
    · exact hl

/-- An assignment destroys only what the host or a change of one of the locals destroys. -/
theorem write_keeps (hhost : ∀ slot v, (Registers.onHost (host.write slot v)).Keeps Q)
    (hlocal : ∀ name v x, script.isLocal name → Q x → Q (x.1.insert name v, x.2)) (r : Reference)
    (v : Value) : (Registers.write script identity host r v).Keeps Q :=
  Action.keeps_iff_ensures.mpr <|
    Registers.write_ensures (fun _ _ => trivial)
      (fun slot v => Action.keeps_iff_ensures.mp (hhost slot v)) hlocal r v

/-- An assignment changes the locals under the name of a variable that is not saved, or not at
    all. -/
theorem write_keeps_locals (hins : ∀ l x v, script.isLocal x → L l → L (l.insert x v))
    (r : Reference) (v : Value) :
    (Registers.write script identity host r v).Keeps fun x => L x.1 :=
  write_keeps (fun _ _ _ hl => hl) (fun name v x hlocal hl => hins x.1 name v hlocal hl) r v

end Registers

end ActorScript
