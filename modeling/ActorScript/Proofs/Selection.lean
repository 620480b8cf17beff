/-
  The choice of state is never out of date.

  Which state is the right one depends on the locals and on what the host answers, so it can only
  change where something is written.  An assignment is the only statement that writes, and it
  comes to rest with a request; a request is answered by choosing the state anew.  So as long as
  the host's functions do not change its answers behind the script's back (`Host.Steady`), at the
  end of every successful operation the machine is in the state that would be chosen
  (`upToDate_of_performAll`).

  The first part says that choosing a state only looks: of states that answer alike it gives the
  same result, and it leaves an alike one behind.
-/
import Mathlib
import ActorScript.Proofs.Operation
import ActorScript.Recording

namespace ActorScript

variable {σ α β : Type}

/-! ## Actions that only look -/

/-- `a` cannot tell states apart that are related by `R`, and leaves a related one behind. -/
def Action.Looks (a : Action σ α) (R : σ → σ → Prop) : Prop :=
  ∀ s t, R s t → (a s).1 = (a t).1 ∧ R s (a s).2

variable {R : σ → σ → Prop}

namespace Action

theorem looks_pure (hR : Equivalence R) (x : α) : (pure x : Action σ α).Looks R :=
  fun s _ _ => ⟨rfl, hR.refl s⟩

theorem looks_lift (hR : Equivalence R) (r : Except Error α) : (lift r : Action σ α).Looks R :=
  fun s _ _ => ⟨rfl, hR.refl s⟩

theorem looks_fail (hR : Equivalence R) (e : Error) : (fail e : Action σ α).Looks R :=
  fun s _ _ => ⟨rfl, hR.refl s⟩

theorem Looks.bind (hR : Equivalence R) {x : Action σ α} {f : α → Action σ β} (hx : x.Looks R)
    (hf : ∀ a, (f a).Looks R) : (x >>= f).Looks R := by
  intro s t hst
  obtain ⟨hres, hs⟩ := hx s t hst
  obtain ⟨-, ht⟩ := hx t s (hR.symm hst)
  rw [bind_apply, bind_apply]
  rcases hxs : x s with ⟨e | a, s'⟩
  · rcases hxt : x t with ⟨r, t'⟩
    rw [hxs, hxt] at hres
    rw [hxs] at hs
    simp only at hres hs
    subst hres
    exact ⟨rfl, hs⟩
  · rcases hxt : x t with ⟨r, t'⟩
    rw [hxs, hxt] at hres
    rw [hxs] at hs
    rw [hxt] at ht
    simp only at hres hs ht
    subst hres
    -- both go on from related states
    have hst' : R s' t' := hR.trans (hR.symm hs) (hR.trans hst ht)
    exact ⟨(hf a s' t' hst').1, hR.trans hs (hf a s' t' hst').2⟩

end Action

/-- Constants, reads and value functions of the context only look. -/
structure Context.Looks (ctx : Context σ) (R : σ → σ → Prop) : Prop where
  constant : ∀ name s t, R s t → ctx.constant name s = ctx.constant name t
  fetch : ∀ r, (ctx.fetch r).Looks R
  callValue : ∀ f vs, (ctx.callValue f vs).Looks R

variable {ctx : Context σ}

namespace Expr

theorem evalList_looks (hR : Equivalence R) {es : List Expr}
    (hes : ∀ e ∈ es, (e.eval ctx).Looks R) : (evalList ctx es).Looks R := by
  induction es with
  | nil =>
    rw [evalList]
    exact Action.looks_pure hR _
  | cons e es ih =>
    rw [evalList]
    refine (hes e List.mem_cons_self).bind hR fun v => ?_
    exact (ih fun a ha => hes a (List.mem_cons_of_mem _ ha)).bind hR fun vs =>
      Action.looks_pure hR _

/-- Evaluating an expression only looks if that is all its context does. -/
theorem eval_looks (hR : Equivalence R) (h : ctx.Looks R) (e : Expr) : (e.eval ctx).Looks R := by
  induction e using Expr.induct with
  | literal v =>
    rw [eval]
    exact Action.looks_pure hR _
  | symbol n =>
    intro s t hst
    have hconst := h.constant n s t hst
    rw [eval, Context.lookup, Context.lookup, hconst]
    split
    · exact ⟨rfl, hR.refl s⟩
    · exact h.fetch _ s t hst
  | register r =>
    rw [eval]
    exact h.fetch _
  | call f args ih =>
    rw [eval]
    exact (evalList_looks hR ih).bind hR fun vs => h.callValue f vs
  | unary op e ih =>
    rw [eval]
    exact ih.bind hR fun v => Action.looks_lift hR _
  | binary op l r ihl ihr =>
    rw [eval]
    exact ihl.bind hR fun v => ihr.bind hR fun w => Action.looks_lift hR _
  | ternary c t e ihc iht ihe =>
    rw [eval]
    refine ihc.bind hR fun v => ?_
    split
    · exact iht
    · exact ihe

end Expr

/-- The expression has a value, and it counts as true. -/
def Expr.Holds (e : Expr) (ctx : Context σ) (s : σ) : Prop :=
  ∃ v, (e.eval ctx s).1 = .ok v ∧ v.truthy = true

/-- The expression has a value, and it counts as false. -/
def Expr.Fails (e : Expr) (ctx : Context σ) (s : σ) : Prop :=
  ∃ v, (e.eval ctx s).1 = .ok v ∧ v.truthy = false

namespace Machine

theorem firstHolding_looks (hR : Equivalence R) (h : ctx.Looks R) (states : List State) (i : Nat) :
    (firstHolding ctx states i).Looks R := by
  induction states generalizing i with
  | nil => exact Action.looks_pure hR _
  | cons st rest ih =>
    rw [firstHolding]
    refine (st.condition.eval_looks hR h).bind hR fun v => ?_
    split
    · exact Action.looks_pure hR _
    · exact ih (i + 1)

/-- **What has been chosen**: the condition of the state holds and those of the states before it
    do not, all of them looked at in the same state. -/
theorem firstHolding_eq_some (hR : Equivalence R) (h : ctx.Looks R) {states : List State}
    {i k : Nat} {s : σ} (hi : (firstHolding ctx states i s).1 = .ok (some k)) :
    ∃ n, k = i + n ∧ (∃ st, states[n]? = some st ∧ st.condition.Holds ctx s) ∧
      ∀ j, j < n → ∃ st, states[j]? = some st ∧ st.condition.Fails ctx s := by
  induction states generalizing i s with
  | nil => cases hi
  | cons st rest ih =>
    have hlook := st.condition.eval_looks hR h s s (hR.refl s)
    rw [firstHolding, Action.bind_apply] at hi
    rcases hv : st.condition.eval ctx s with ⟨err | v, s'⟩
    · simp only [hv] at hi
      cases hi
    · simp only [hv] at hi
      rw [hv] at hlook
      by_cases htruthy : v.truthy = true
      · rw [if_pos htruthy] at hi
        cases hi
        exact ⟨0, rfl, ⟨st, rfl, v, by rw [hv], htruthy⟩, fun j hj => absurd hj (Nat.not_lt_zero j)⟩
      · rw [if_neg htruthy] at hi
        obtain ⟨n, rfl, ⟨st', hst', w, hw, hwt⟩, hbefore⟩ := ih hi
        -- the rest was looked at in a state that answers like the first one
        have hback : ∀ e : Expr, (e.eval ctx s').1 = (e.eval ctx s).1 := fun e =>
          (e.eval_looks hR h s' s (hR.symm hlook.2)).1
        refine ⟨n + 1, by omega, ⟨st', hst', w, by rw [← hback, hw], hwt⟩, fun j hj => ?_⟩
        cases j with
        | zero => exact ⟨st, rfl, v, by rw [hv], by simpa using htruthy⟩
        | succ j =>
          obtain ⟨st'', hst'', u, hu, hut⟩ := hbefore j (by omega)
          exact ⟨st'', hst'', u, by rw [← hback, hu], hut⟩

end Machine

/-! ## Hosts whose answers only change when something is written -/

namespace Host

/-- The host gives the same answers in both states: the same values in its slots, and the same
    results of value functions. -/
structure AnswersAlike (host : Host σ) (s t : σ) : Prop where
  read : ∀ slot, host.read slot s = host.read slot t
  callValue : ∀ f vs, (host.callValue f vs s).1 = (host.callValue f vs t).1

theorem answersAlike_equivalence (host : Host σ) : Equivalence host.AnswersAlike where
  refl _ := ⟨fun _ => rfl, fun _ _ => rfl⟩
  symm h := ⟨fun slot => (h.read slot).symm, fun f vs => (h.callValue f vs).symm⟩
  trans h₁ h₂ := ⟨fun slot => (h₁.read slot).trans (h₂.read slot),
    fun f vs => (h₁.callValue f vs).trans (h₂.callValue f vs)⟩

/-- Calling functions changes no answer of the host; only writing may. -/
structure Steady (host : Host σ) : Prop where
  callValue : ∀ f vs s, host.AnswersAlike s (host.callValue f vs s).2
  callFunction : ∀ f vs s, host.AnswersAlike s (host.callFunction f vs s).2
  observe : ∀ step s, host.AnswersAlike s (host.observe step s)

end Host

/-- The recording host is steady: a call only adds to its record. -/
theorem Recording.steady_recordingHost (refused : List String) :
    (recordingHost refused).Steady := by
  have hnote : ∀ (e : Entry) (s : Storage), (recordingHost refused).AnswersAlike s (s.note e) := by
    intro e s
    refine ⟨fun slot => ?_, fun f vs => rfl⟩
    cases slot <;> rfl
  exact ⟨fun f vs s => hnote _ s, fun f vs s => hnote _ s,
    fun step s => ((recordingHost refused).answersAlike_equivalence).refl s⟩

/-- The locals are the same and the host gives the same answers. -/
def Alike (host : Host σ) (x y : Locals × σ) : Prop := x.1 = y.1 ∧ host.AnswersAlike x.2 y.2

theorem alike_equivalence (host : Host σ) : Equivalence (Alike host) where
  refl x := ⟨rfl, host.answersAlike_equivalence.refl x.2⟩
  symm h := ⟨h.1.symm, host.answersAlike_equivalence.symm h.2⟩
  trans h₁ h₂ := ⟨h₁.1.trans h₂.1, host.answersAlike_equivalence.trans h₁.2 h₂.2⟩

variable {script : Script} {identity : Identity} {host : Host σ}

theorem Registers.read_alike {x y : Locals × σ} (h : Alike host x y) (r : Reference) :
    Registers.read script identity host r x = Registers.read script identity host r y := by
  have hsaved : ∀ name, readSaved identity host name x.2 = readSaved identity host name y.2 := by
    intro name
    rw [readSaved, readSaved]
    split
    · exact h.2.read _
    · rfl
  have hvar : ∀ name, readVariable script identity host name x =
      readVariable script identity host name y := by
    intro name
    rw [readVariable, readVariable, h.1, hsaved]
  rw [Registers.read.eq_def, Registers.read.eq_def]
  split
  · rw [hvar]
  · exact h.2.read _
  · exact hvar _
  · exact hsaved _
  · rfl

/-- With a steady host, the registers of a machine only look. -/
theorem registers_looks (script : Script) (identity : Identity) (hs : host.Steady)
    (describe : Position → Option Step) :
    (registers script identity host describe).Looks (Alike host) where
  constant _ _ _ _ := rfl
  fetch r x _ hxy :=
    ⟨congrArg Except.ok (Registers.read_alike hxy r), (alike_equivalence host).refl x⟩
  callValue f vs x _ hxy := ⟨hxy.2.callValue f vs, rfl, hs.callValue f vs x.2⟩

/-- With a steady host, no operation of the registers but an assignment changes an answer. -/
theorem registers_keeps_alike (script : Script) (identity : Identity) (hs : host.Steady)
    (describe : Position → Option Step) (x : Locals × σ) :
    (registers script identity host describe).Keeps (Alike host x) where
  read _ _ h := h
  callValue f vs s h := (alike_equivalence host).trans h ⟨rfl, hs.callValue f vs s.2⟩
  callFunction f vs s h := (alike_equivalence host).trans h ⟨rfl, hs.callFunction f vs s.2⟩
  observe p s h := by
    refine (alike_equivalence host).trans h ?_
    simp only [registers]
    split
    · exact ⟨rfl, hs.observe _ s.2⟩
    · exact (alike_equivalence host).refl s

namespace Machine

theorem choose_looks (script : Script) (identity : Identity) (hs : host.Steady) :
    (choose script identity host).Looks (Alike host) := by
  have hR := alike_equivalence host
  rw [choose]
  refine (firstHolding_looks hR (registers_looks _ _ hs _) script.states 0).bind hR fun i => ?_
  split
  · exact Action.looks_pure hR _
  · exact Action.looks_fail hR _

/-- **What has been chosen**: a state whose condition holds, while those of the states before it
    fail. -/
theorem choose_eq_ok (hs : host.Steady) {i : Nat} {x : Locals × σ}
    (hi : (choose script identity host x).1 = .ok i) :
    (∃ st, script.states[i]? = some st ∧
      st.condition.Holds (registers script identity host) x) ∧
    ∀ j, j < i → ∃ st, script.states[j]? = some st ∧
      st.condition.Fails (registers script identity host) x := by
  have hfirst : (firstHolding (registers script identity host) script.states 0 x).1 =
      .ok (some i) := by
    rw [choose, Action.bind_apply] at hi
    rcases hf : firstHolding (registers script identity host) script.states 0 x with
      ⟨err | _ | k, x'⟩
    · simp only [hf] at hi
      cases hi
    · simp only [hf] at hi
      cases hi
    · simp only [hf] at hi
      cases hi
      rfl
  obtain ⟨n, hn, hholds, hbefore⟩ :=
    firstHolding_eq_some (alike_equivalence host) (registers_looks _ _ hs _) hfirst
  obtain rfl : i = n := by omega
  exact ⟨hholds, hbefore⟩

/-! ## Turns -/

/-- The state with index `i` is the one that would be chosen. -/
def Chosen (script : Script) (identity : Identity) (host : Host σ) (i : Nat) (x : Locals × σ) :
    Prop := (choose script identity host x).1 = .ok i

variable {i : Nat}

theorem Chosen.of_alike (hs : host.Steady) {x y : Locals × σ} (hxy : Alike host x y)
    (hx : Chosen script identity host i x) : Chosen script identity host i y :=
  (choose_looks _ _ hs x y hxy).1.symm.trans hx

/-- The chosen state is still the one to choose after it has been chosen. -/
theorem chosen_of_choose (hs : host.Steady) {x x' : Locals × σ}
    (hc : choose script identity host x = (.ok i, x')) : Chosen script identity host i x' := by
  have hlook := choose_looks script identity hs x x ((alike_equivalence host).refl x)
  have hx : Chosen script identity host i x := congrArg Prod.fst hc
  rw [hc] at hlook
  exact hx.of_alike hs hlook.2

theorem keeps_chosen (hs : host.Steady) (describe : Position → Option Step) :
    (registers script identity host describe).Keeps (Chosen script identity host i) := by
  have hreg := registers_keeps_alike script identity hs describe
  have hrefl := (alike_equivalence host).refl
  exact ⟨fun r x hx => hx.of_alike hs ((hreg x).read r x (hrefl x)),
    fun f vs x hx => hx.of_alike hs ((hreg x).callValue f vs x (hrefl x)),
    fun f vs x hx => hx.of_alike hs ((hreg x).callFunction f vs x (hrefl x)),
    fun p x hx => hx.of_alike hs ((hreg x).observe p x (hrefl x))⟩

/-- If the machine is in a state, it is the one that would be chosen. -/
def UpToDate (host : Host σ) (m : Machine) (s : σ) : Prop :=
  ∀ i, m.current = some i → Chosen m.script m.identity host i (m.locals, s)

variable {m : Machine} {s : σ}

/-- **A turn keeps the choice up to date** if it succeeds and the machine stays where it is: the
    last assignment has been followed by a choice, and after it nothing was written. -/
theorem UpToDate.turn (hs : host.Steady) {c : Cue} {e : Event} {h h' : Handler} {rest : Rest}
    {l : Locals} {s' : σ} (hup : UpToDate host m s)
    (ht : m.turn host c e h s = (.ok rest, h', l, s')) (hstay : ∀ i, rest ≠ .switch i) :
    UpToDate host (m.record e h' l) s' := by
  intro i hi
  have hkeeps : (m.contextFor host e).Keeps (Chosen m.script m.identity host i) := keeps_chosen hs _
  have hchosen : ∀ x j x', choose m.script m.identity host x = (.ok j, x') →
      m.current = some j → Chosen m.script m.identity host i x' := by
    intro x j x' hc hj
    obtain rfl : i = j := Option.some.inj (hi.symm.trans hj)
    exact chosen_of_choose hs hc
  have hr : (Handler.settle m.script (m.contextFor host e) (choose m.script m.identity host)
      m.current c h (m.locals, s)).1 = .ok rest := congrArg Prod.fst ht
  have := Handler.settle_keeps_of_chosen m.script hkeeps hchosen c h (m.locals, s) (hup i hi) hr
    hstay
  rw [Machine.turn] at ht
  rwa [ht] at this

/-- **Cues and switches keep the choice up to date** if they succeed; a state that is entered has
    just been chosen. -/
theorem upToDate_enter_cue (hs : host.Steady) (n : Nat) :
    (∀ i m s, Chosen m.script m.identity host i (m.locals, s) →
      (enter host n i (m, s)).1 = .ok () →
      UpToDate host (enter host n i (m, s)).2.1 (enter host n i (m, s)).2.2) ∧
    ∀ c e m s, UpToDate host m s → (cue host (enter host n) c e (m, s)).1 = .ok () →
      UpToDate host (cue host (enter host n) c e (m, s)).2.1
        (cue host (enter host n) c e (m, s)).2.2 := by
  refine machine_induct host
    (fun n i m s r => Chosen m.script m.identity host i (m.locals, s) → r.1 = .ok () →
      UpToDate host r.2.1 r.2.2)
    (fun n c e m s r => UpToDate host m s → r.1 = .ok () → UpToDate host r.2.1 r.2.2)
    ?overflow ?dangling ?once ?twice ?absent ?failed ?settled ?waiting ?leaving n
  case overflow =>
    intro i m s hc hr
    cases hr
  case dangling =>
    intro n i m s hst hc hr
    -- only a state that exists can be chosen
    obtain ⟨⟨st, hsome, -⟩, -⟩ := choose_eq_ok hs hc
    rw [hst] at hsome
    cases hsome
  case once =>
    intro n i m s st r m' s' hst h₁ hone hloop hc hr
    refine hloop ?_ hr
    intro j hj
    cases hj
    exact hc
  case twice =>
    intro n i m s st m₁ s₁ r m' s' hst h₁ hg hloop h₂ hentered hc hr
    refine hentered (hloop ?_ rfl) hr
    intro j hj
    cases hj
    exact hc
  case absent =>
    intro n c e m s hn hup hr
    exact hup
  case failed =>
    intro n c e m s h err h' l s' hh ht hup hr
    cases hr
  case settled =>
    intro n c e m s h h' l s' hh ht hup hr
    exact hup.turn hs ht (by simp)
  case waiting =>
    intro n c e m s h ms h' l s' hh ht hup hr
    exact hup.turn hs ht (by simp)
  case leaving =>
    intro n c e m s h i h' l s' hh ht hent hup hr
    refine hent ?_ hr
    obtain ⟨-, y, hy⟩ := chosen_of_turn_switch host ht
    exact chosen_of_choose hs hy

/-! ## Operations -/

theorem UpToDate.cue (hs : host.Steady) {c : Cue} {e : Event} (hup : UpToDate host m s)
    {r : Machine × σ} (hr : Machine.cue host (switchTo host) c e (m, s) = (.ok (), r)) :
    UpToDate host r.1 r.2 := by
  rw [cue_switchTo] at hr
  have := (upToDate_enter_cue hs _).2 c e m s hup (congrArg Prod.fst hr)
  rwa [hr] at this

/-- If no handler fails, all of them leave the choice up to date. -/
theorem UpToDate.cueAll (hs : host.Steady) {c : Cue} {g : Nat} {es : List Event}
    {r : Machine × σ} (hup : UpToDate host m s)
    (hr : Machine.cueAll host c g es none (m, s) = (none, r)) : UpToDate host r.1 r.2 := by
  induction es generalizing m s with
  | nil =>
    cases hr
    exact hup
  | cons e es ih =>
    rw [Machine.cueAll] at hr
    split at hr
    · rcases hcue : Machine.cue host (switchTo host) c e (m, s) with ⟨err | ⟨⟨⟩⟩, m', s'⟩
      · simp only [hcue] at hr
        cases eq_none_of_cueAll host hr
      · simp only [hcue] at hr
        exact ih (hup.cue hs hcue) hr
    · cases hr
      exact hup

theorem UpToDate.newFrame (hs : host.Steady) {dt : UInt64} (hup : UpToDate host m s)
    {r : Machine × σ} (hr : Machine.newFrame host dt (m, s) = (.ok (), r)) :
    UpToDate host r.1 r.2 := by
  by_cases hact : m.isActive = true
  · rcases h₁ : Machine.cueAll host .newFrame m.generation m.handlers.events none
      ({ m with timers := [] }, s) with ⟨first, m₁, s₁⟩
    have hbare : UpToDate host { m with timers := [] } s := hup
    rw [newFrame_active host dt m s hact h₁] at hr
    split at hr
    · -- both rounds of cues have succeeded
      rcases h₂ : Machine.cueAll host .resume m.generation (m.fired dt) first
        ({ m₁ with timers := m.unfired dt ++ m₁.timers }, s₁) with ⟨_ | err, r'⟩
      · rw [h₂] at hr
        cases hr
        obtain rfl := eq_none_of_cueAll host h₂
        have hup₁ : UpToDate host m₁ s₁ := hbare.cueAll hs h₁
        have hup₂ : UpToDate host { m₁ with timers := m.unfired dt ++ m₁.timers } s₁ := hup₁
        exact hup₂.cueAll hs h₂
      · rw [h₂] at hr
        cases hr
    · cases first with
      | none =>
        cases hr
        exact hbare.cueAll hs h₁
      | some err => cases hr
  · rw [newFrame_inactive host dt m s hact] at hr
    cases hr
    exact hup

/-- A selection that succeeds brings the choice up to date. -/
theorem upToDate_select (hs : host.Steady) {r : Machine × σ}
    (hr : select host (m, s) = (.ok (), r)) : UpToDate host r.1 r.2 := by
  rw [select] at hr
  rcases hc : choose m.script m.identity host (m.locals, s) with ⟨err | i, l, s'⟩
  · simp only [hc] at hr
    cases hr
  · simp only [hc] at hr
    have hchosen := chosen_of_choose hs hc
    split at hr
    · rename_i hi
      cases hr
      intro j hj
      obtain rfl : i = j := Option.some.inj (hi.symm.trans hj)
      exact hchosen
    · have := (upToDate_enter_cue hs (m.options.maxDepth - m.switchDepth)).1 i
        { m with locals := l } s' hchosen
      have henter : enter host (m.options.maxDepth - m.switchDepth) i ({ m with locals := l }, s') =
          (.ok (), r) := hr
      rw [henter] at this
      exact this rfl

theorem UpToDate.trigger (hs : host.Steady) {e : Event} (hup : UpToDate host m s)
    {r : Machine × σ} (hr : Machine.trigger host e (m, s) = (.ok (), r)) :
    UpToDate host r.1 r.2 := by
  rw [Machine.trigger] at hr
  split at hr
  · exact hup.cue hs hr
  · cases hr
    exact hup

theorem upToDate_activate (hs : host.Steady) {r : Machine × σ}
    (hr : activate host (m, s) = (.ok (), r)) : UpToDate host r.1 r.2 := by
  rw [activate_eq] at hr
  split at hr
  · cases hr
  · split at hr
    · cases hr
    · rename_i hselect
      exact (upToDate_select hs hselect).trigger hs hr

/-- **Every operation that succeeds leaves the choice up to date.** -/
theorem UpToDate.perform (hs : host.Steady) (op : Operation) (hup : UpToDate host m s)
    {r : Machine × σ} (hr : op.perform host (m, s) = (.ok (), r)) : UpToDate host r.1 r.2 := by
  cases op with
  | activate => exact upToDate_activate hs hr
  | trigger e => exact hup.trigger hs hr
  | newFrame dt => exact hup.newFrame hs hr
  | select => exact upToDate_select hs hr
  | despawn =>
    cases hr
    exact nofun

theorem UpToDate.performAll (hs : host.Steady) {ops : List Operation} (hup : UpToDate host m s)
    {r : Machine × σ} (hr : Operation.performAll host ops (m, s) = (.ok (), r)) :
    UpToDate host r.1 r.2 := by
  induction ops generalizing m s with
  | nil =>
    cases hr
    exact hup
  | cons op ops ih =>
    rw [Operation.performAll, Action.bind_apply] at hr
    split at hr
    · rename_i hop
      exact ih (hup.perform hs op hop) hr
    · cases hr

/-- Choosing anew changes nothing while the choice is up to date. -/
theorem UpToDate.select_eq (hs : host.Steady) (hup : UpToDate host m s) {i : Nat}
    (hi : m.current = some i) : ∃ s', select host (m, s) = (.ok (), m, s') ∧
      host.AnswersAlike s s' := by
  have hlook := choose_looks m.script m.identity hs (m.locals, s) (m.locals, s)
    ((alike_equivalence host).refl _)
  have hchosen := hup i hi
  rw [Chosen] at hchosen
  rw [select]
  rcases hc : choose m.script m.identity host (m.locals, s) with ⟨r, l, s'⟩
  rw [hc] at hlook hchosen
  obtain ⟨hlocals, hanswers⟩ := hlook.2
  simp only at hchosen hlocals
  subst hchosen hlocals
  exact ⟨s', if_pos hi, hanswers⟩

/-- **The choice of state is never out of date**: after any run of operations that all succeed,
    an active machine is in a state whose condition holds, while those of the states before it
    fail, and choosing anew would change nothing. -/
theorem upToDate_of_performAll (hs : host.Steady) {options : MachineOptions} {m₀ : Machine}
    (h₀ : create script identity options = .ok m₀) {ops : List Operation} {s₀ : σ}
    (hr : Operation.performAll host ops (m₀, s₀) = (.ok (), m, s)) {i : Nat}
    (hi : m.current = some i) :
    (∃ st, script.states[i]? = some st ∧
      st.condition.Holds (registers script identity host) (m.locals, s)) ∧
    (∀ j, j < i → ∃ st, script.states[j]? = some st ∧
      st.condition.Fails (registers script identity host) (m.locals, s)) ∧
    ∃ s', select host (m, s) = (.ok (), m, s') ∧ host.AnswersAlike s s' := by
  have h0 : m₀.switchDepth = 0 := by
    rw [create_eq_ok h₀]
  have hrun := sameRun_performAll host ops s₀ h0
  rw [hr, create_eq_ok h₀] at hrun
  have hup₀ : UpToDate host m₀ s₀ := by
    rw [create_eq_ok h₀]
    exact nofun
  have hup : UpToDate host m s := hup₀.performAll hs hr
  have hchosen := hup i hi
  rw [hrun.script, hrun.identity] at hchosen
  obtain ⟨hholds, hfails⟩ := choose_eq_ok hs hchosen
  exact ⟨hholds, hfails, hup.select_eq hs hi⟩

/-- A door that opens when it is pressed, and then waits. -/
def door : Script where
  vars := [
    { name := "open", persisted := false, initial := some (.bool false), location := ⟨1, 1⟩ }]
  states := [
    { name := "Closed", condition := .unary .not (.symbol "open"), location := ⟨2, 1⟩,
      handlers := { actionPressed := some 0 } },
    { name := "Open", condition := .symbol "open", location := ⟨5, 1⟩,
      handlers := { loop := some 1 } }]
  blocks := [
    [.assign (.symbol "open") (.literal (.bool true)) ⟨3, 5⟩,
      .call "print" [.literal (.string "left behind")] ⟨3, 17⟩],
    [.call "wait" [.literal (.int 50)] ⟨6, 5⟩]]

/-- What pressing the door makes of it. -/
def pressed : Except Error Unit × Machine × Recording.Storage :=
  Operation.performAll (Recording.recordingHost []) [.activate, .trigger .actionPressed]
    ({ script := door, identity := ⟨"town", some "Bob"⟩, options := {}, locals := .initial door },
      { parameters := .empty, saved := .empty })

theorem upToDate_pressed : pressed.1 = .ok () ∧ pressed.2.1.current = some 1 ∧
    (∃ st, door.states[0]? = some st ∧ st.condition.Fails
      (registers door ⟨"town", some "Bob"⟩ (Recording.recordingHost []))
      (pressed.2.1.locals, pressed.2.2)) ∧
    ∃ s', select (Recording.recordingHost []) pressed.2 = (.ok (), pressed.2.1, s') := by
  have hok : pressed.1 = .ok () := by cbv
  have hcurrent : pressed.2.1.current = some 1 := by cbv
  have h₀ : create door ⟨"town", some "Bob"⟩ {} = .ok
      { script := door, identity := ⟨"town", some "Bob"⟩, options := {},
        locals := .initial door } := rfl
  have hr : pressed = (.ok (), pressed.2.1, pressed.2.2) := Prod.ext hok rfl
  obtain ⟨-, hfails, s', hselect, -⟩ :=
    upToDate_of_performAll (Recording.steady_recordingHost []) h₀ hr hcurrent
  exact ⟨hok, hcurrent, hfails 0 Nat.zero_lt_one, s', hselect⟩

end Machine

end ActorScript
