/-
  Handlers whose budget is spent, in the next frame.

  A handler whose budget is spent stands at the statement to come (`Handler.InShape.standing`) and
  waits for the next frame.  In the round of cues with which a frame begins it gets its turn as it
  is, since cues to other handlers do not touch it (`own_round`).  What it makes of the turn depends
  on one more flag: it goes on, unless it is to start again with the frame, which it cannot since it
  is running.  Then it executes nothing and the frame is lost to it (`first_of_waiting`,
  `steps_of_early`).

  Both at once is rare (`Punctual`): only the handler for `loop` ever is to start again, and only
  once it has stopped, as long as nobody triggers `loop` in between (`Call.Hastens`).  That is the
  invariant of everything else that can happen to a machine (`Punctual.next`).
-/
import ActorScript.Proofs.Shape
import ActorScript.Proofs.Resuming
import ActorScript.Proofs.Effort

namespace ActorScript

variable {σ : Type}

namespace Machine

variable {host : Host σ} {script : Script} {m : Machine} {e f : Event} {h h' : Handler} {s : σ}
  {g n : Nat} {c : Cue}

/-! ## The handlers of a machine are in shape -/

/-- All handlers are in shape, each for its event. -/
structure Shaped (script : Script) (m : Machine) : Prop where
  event : ∀ e h, m.handlers.get? e = some h → h.event = e
  handlers : ∀ e h, m.handlers.get? e = some h → h.InShape script
  script : m.script = script

/-- What holds of all handlers of a machine and of `h'` holds of all when `h'` has joined them. -/
theorem forall_insert {Q : Event → Handler → Prop} {hs : EventMap Handler}
    (hall : ∀ f h, hs.get? f = some h → Q f h) (hQ : Q e h') :
    ∀ f h, (hs.insert e h').get? f = some h → Q f h := by
  intro f h hget
  rw [EventMap.get?_insert] at hget
  split at hget
  · rename_i hfe
    cases hget
    exact hfe ▸ hQ
  · exact hall f h hget

/-- The handlers after a failure: at most one of them has been stopped. -/
theorem forall_abort {Q : Event → Handler → Prop}
    (hall : ∀ f h, m.handlers.get? f = some h → Q f h)
    (hreset : ∀ h, m.handlers.get? e = some h → Q e h.reset) (g : Nat) :
    ∀ f h, (m.abort e g).handlers.get? f = some h → Q f h := by
  rw [abort]
  split
  · cases hh : m.handlers.get? e with
    | none => exact hall
    | some h => exact forall_insert hall (hreset h hh)
  · exact hall

theorem forall_inside {Q : Event → Handler → Prop} {i : Nat} {st : State}
    (hfresh : ∀ f entry, Q f (Handler.fresh f entry m.options.budget)) :
    ∀ f h, (m.inside i st).handlers.get? f = some h → Q f h := by
  intro f h hget
  rw [get?_inside] at hget
  obtain ⟨entry, -, rfl⟩ := Option.map_eq_some_iff.mp hget
  exact hfresh f entry

theorem Shaped.inside (hm : Shaped script m) (i : Nat) (st : State) :
    Shaped script (m.inside i st) :=
  ⟨forall_inside fun _ _ => rfl,
    forall_inside fun f entry => Handler.inShape_fresh script f entry _, hm.script⟩

theorem Shaped.abort (hm : Shaped script m) (e : Event) (g : Nat) : Shaped script (m.abort e g) :=
  ⟨forall_abort hm.event (fun h hh => hm.event e h hh) g,
    forall_abort hm.handlers (fun h _ => Handler.inShape_reset script h) g,
    (sameRun_abort m e g).script.trans hm.script⟩

theorem lasts_shaped (host : Host σ) (script : Script) : Lasts host (Shaped script) where
  turn {c e m s h rest h' l s'} hm hh ht := by
    have hsame := sameHandler_turn host ht
    have hshape := (hm.handlers e h hh).settle (m.contextFor host e)
      (choose m.script m.identity host) m.current c (m.locals, s)
    rw [turn, hm.script] at ht
    rw [hm.script, ht] at hshape
    exact ⟨forall_insert hm.event (hsame.1.trans (hm.event e h hh)),
      forall_insert (Q := fun _ h => h.InShape script) hm.handlers hshape, hm.script⟩
  timers ts hm := ⟨hm.event, hm.handlers, hm.script⟩
  locals l hm := ⟨hm.event, hm.handlers, hm.script⟩
  inside hm _ := hm.inside _ _
  outside hm := ⟨hm.event, hm.handlers, hm.script⟩
  abort e g hm := hm.abort e g

/-- A machine without handlers. -/
theorem shaped_of_empty (hscript : m.script = script) (hempty : m.handlers = .empty) :
    Shaped script m := by
  exact ⟨by simp [hempty], by simp [hempty], hscript⟩

theorem Shaped.next (hm : Shaped script m) (c : Call) : Shaped script (m.next c) := by
  obtain ⟨host, s, op⟩ := c
  by_cases hop : op = .despawn
  · subst hop
    exact shaped_of_empty hm.script rfl
  · exact ((lasts_shaped host script).perform op s hm).2 hop

/-! ## A handler and the cues to others -/

/-- **A cue to another handler** leaves a handler as it is. -/
theorem get?_cueOnce_of_ne (host : Host σ) (c : Cue) (s : σ) (hfe : f ≠ e)
    (hg : (cueOnce host c g f (m, s)).1.generation = m.generation) :
    (cueOnce host c g f (m, s)).1.handlers.get? e = m.handlers.get? e := by
  have hcue : (cue host (switchTo host) c f (m, s)).2.1.handlers.get? e = m.handlers.get? e := by
    rw [generation_cueOnce, cue_switchTo] at hg
    rw [cue_switchTo]
    cases hf : m.handlers.get? f with
    | none => rw [cue_of_none host hf]
    | some h =>
      rcases ht : m.turn host c f h s with ⟨rest, h', l, s'⟩
      rw [cue_of_stay host hf ht hg, get?_stayed, if_neg hfe.symm]
  rw [cueOnce]
  rcases hr : cue host (switchTo host) c f (m, s) with ⟨err | ⟨⟨⟩⟩, m', s'⟩
  · rw [hr] at hcue
    refine Eq.trans ?_ hcue
    -- only the handler that has failed is stopped
    show (m'.abort f g).handlers.get? e = m'.handlers.get? e
    rw [abort]
    split
    · cases hf : m'.handlers.get? f with
      | none => rfl
      | some h =>
        show (m'.handlers.insert f h.reset).get? e = m'.handlers.get? e
        rw [EventMap.get?_insert, if_neg hfe.symm]
    · rfl
  · rw [hr] at hcue
    exact hcue

/-- **In a frame that leaves the machine in its state**, the first turn of a handler is the one in
    which it begins the frame as it was before; a second one needs a timer. -/
theorem own_frameTurns (host : Host σ) (dt : UInt64) (s : σ) (hact : m.isActive = true)
    (hh : m.handlers.get? e = some h)
    (hg : (newFrame host dt (m, s)).2.1.generation = m.generation) :
    ∃ n m' s' ts, own m.generation e (frameTurns host dt (m, s)) = ⟨n, .newFrame, e, m', s'⟩ :: ts ∧
      m.SameRun m' ∧ m'.handlers.get? e = some h ∧ (e ∉ m.fired dt → ts = []) := by
  rcases h₁ : cueAll host .newFrame m.generation m.handlers.events none
    ({ m with timers := [] }, s) with ⟨first, m₁, s₁⟩
  rw [newFrame_active host dt m s hact h₁] at hg
  have hsame : m₁.generation = m.generation := by
    split at hg
    · assumption
    · exact hg
  have hmem : e ∈ m.handlers.events := by
    rw [EventMap.mem_events, hh, Option.isSome_some]
  have hround := own_round (P := fun m' : Machine => m'.handlers.get? e = some h)
    (g := m.generation) host .newFrame (fun m' hm' => by rw [hm', Option.isSome_some])
    (fun m' f s hm' hfe hgen hstay =>
      (get?_cueOnce_of_ne host .newFrame s hfe (hstay.trans hgen.symm)).trans hm')
    m.handlers.events none s (m := { m with timers := [] }) hh hmem m.handlers.nodup_events rfl
  rw [h₁] at hround
  obtain ⟨n, m', s', hown, hrun, hh'⟩ := hround.resolve_right fun hleft => hleft.2 hsame
  have hts : frameTurns host dt (m, s) = roundTurns host .newFrame m.generation
      m.handlers.events ({ m with timers := [] }, s) ++
      roundTurns host .resume m.generation (m.fired dt) (m.midFrame m₁ dt, s₁) := by
    simp only [frameTurns, hact, if_true, h₁, if_pos hsame]
  rw [hts, own_append, hown]
  exact ⟨n, m', s', _, rfl, ⟨hrun.script, hrun.identity, hrun.options, hrun.switchDepth⟩, hh',
    own_round_of_not_mem host .resume (m.fired dt) _⟩

/-- A handler that does not wait for a timer has none that could run out. -/
theorem not_mem_fired (hs : Sound [] m) (hh : m.handlers.get? e = some h)
    (hsus : h.suspended = false) (dt : UInt64) : e ∉ m.fired dt := by
  intro hmem
  have hcount := hs.timers e
  have hpos := List.count_pos_iff.mpr ((fired_sublist m dt).subset hmem)
  rw [awaitsTimer, hh, List.nil_append] at hcount
  simp only [Option.any_some, hsus, Bool.false_eq_true, if_false] at hcount
  omega

/-- **What a handler executes in such a frame** begins with what it executes in that turn. -/
theorem stepsOf_newFrame (hs : Sound [] m) (host : Host σ) (dt : UInt64) (s : σ)
    (hh : m.handlers.get? e = some h)
    (hg : (newFrame host dt (m, s)).2.1.generation = m.generation) :
    ∃ n m' s' more, Call.stepsOf ⟨host, s, .newFrame dt⟩ m e =
        Turn.steps host ⟨n, .newFrame, e, m', s'⟩ ++ more ∧
      m'.script = m.script ∧ m'.handlers.get? e = some h ∧ (h.suspended = false → more = []) := by
  obtain ⟨n, m', s', ts, hown, hrun, hh', hrest⟩ :=
    own_frameTurns host dt s (hs.isActive hh) hh hg
  have hsteps : Call.stepsOf ⟨host, s, .newFrame dt⟩ m e =
      (own m.generation e (frameTurns host dt (m, s))).flatMap (Turn.steps host) :=
    Call.stepsOf_eq _ m e
  rw [hsteps, hown, List.flatMap_cons]
  refine ⟨n, m', s', _, rfl, hrun.script, hh', fun hsus => ?_⟩
  rw [hrest (not_mem_fired hs hh hsus dt), List.flatMap_nil]

/-! ## What the handler makes of its turn -/

/-- **A handler whose budget is spent goes on** where it stands. -/
theorem first_of_waiting (host : Host σ) (s : σ) (hh : m.handlers.get? e = some h)
    (hs : h.InShape m.script) (hwait : h.waitingForFrame = true) (hl : h.loopsNext = false)
    (hb : 0 < h.budget) :
    (Turn.steps host ⟨n, .newFrame, e, m, s⟩).head?.map (·.position) = h.position? := by
  have hw : h.woken m.script .newFrame =
      some { h with usedBudget := 0, waitingForFrame := false } := by
    simp only [Handler.woken, hl, hwait, Bool.false_eq_true, if_false, if_true]
  rw [head?_steps_of_woken hh hw hb]
  obtain ⟨p, st, hpos, hp⟩ := hs.standing (.inr hwait)
  obtain ⟨rest, hstack⟩ : ∃ rest, h.stack = p :: rest := List.head?_eq_some_iff.mp hpos
  show upcoming? m.script h.stack = _
  rw [hpos, hstack, upcoming?, hp, Option.isSome_some, if_pos rfl]

/-- **A handler that is to start again** cannot, as it is running, and does nothing. -/
theorem steps_of_early (host : Host σ) (s : σ) (hh : m.handlers.get? e = some h)
    (hr : h.running = true) (hl : h.loopsNext = true) :
    Turn.steps host ⟨n, .newFrame, e, m, s⟩ = [] := by
  refine steps_of_not_woken hh ?_
  simp only [Handler.woken, Handler.started, hl, hr, if_true, Bool.true_or]

end Machine

/-! ## When a handler is to start again -/

namespace Handler

variable {script : Script} {ctx : Context σ} {h h₁ : Handler} {s : σ} {c : Cue}

/-- A handler that is to start again with the next frame has stopped. -/
def Punctual (h : Handler) : Prop := h.loopsNext = true → h.running = false

theorem punctual_of_eq_false (hl : h.loopsNext = false) : h.Punctual := by
  intro hloops
  rw [hl] at hloops
  cases hloops

/-- **Executing** comes to an end before the handler is to start again. -/
theorem punctual_execute (script : Script) (ctx : Context σ) (h : Handler) (s : σ)
    (hl : h.loopsNext = false) : (execute script ctx h s).2.1.Punctual ∧
      ((execute script ctx h s).1 = .ok .reselect →
        (execute script ctx h s).2.1.loopsNext = false) := by
  fun_induction execute script ctx h s with
  | case1 h s hs => exact ⟨fun _ => rfl, by simp⟩
  | case2 h s p rest hs hp ih => exact ih hl
  | case3 h s p rest hs st hp hb => exact ⟨punctual_of_eq_false hl, by simp⟩
  | case4 h s p rest hs st hp hb e s' hv => exact ⟨punctual_of_eq_false rfl, by simp⟩
  | case5 h s p rest hs st hp hb s' hv ih => exact ih ((loopsNext_advance _).trans hl)
  | case6 h s p rest hs st hp hb b s' hv ih =>
    exact ih ((loopsNext_enter _ _).trans ((loopsNext_advance _).trans hl))
  | case7 h s p rest hs st hp hb ms s' hv => exact ⟨punctual_of_eq_false hl, by simp⟩
  | case8 h s p rest hs st hp hb s' hv =>
    have hsame : h.count.advance.loopsNext = false := (loopsNext_advance _).trans hl
    exact ⟨punctual_of_eq_false hsame, fun _ => hsame⟩

/-- A handler that is woken is not to start again any more, unless it was told to run. -/
theorem loopsNext_of_woken (hs : h.InShape script) (hp : h.Punctual)
    (hrun : c = .run → h.loopsNext = false) (hw : h.woken script c = some h₁) :
    h₁.loopsNext = false := by
  cases c with
  | run =>
    rw [woken, started] at hw
    split at hw
    · cases hw
    · cases hw
      exact hrun rfl
  | newFrame =>
    rw [woken] at hw
    split at hw
    · rw [started] at hw
      split at hw
      · cases hw
      · cases hw
        rfl
    · rename_i hl
      split at hw
      · cases hw
        exact Bool.not_eq_true _ ▸ hl
      · cases hw
  | resume =>
    rw [woken] at hw
    split at hw
    · rename_i hsus
      cases hw
      have hr : h.running = true := hs.resting (.inl hsus)
      rw [loopsNext_advance]
      by_contra hl
      rw [Bool.not_eq_false] at hl
      cases hr.symm.trans (hp hl)
    · cases hw

theorem Punctual.settle (hp : h.Punctual) (hs : h.InShape script)
    (hrun : c = .run → h.loopsNext = false) (ctx : Context σ) (choose : Action σ Nat)
    (current : Option Nat) (s : σ) : (settle script ctx choose current c h s).2.1.Punctual := by
  rw [settle_eq, obey_eq]
  cases hw : h.woken script c with
  | none =>
    cases c with
    | newFrame => exact punctual_of_eq_false rfl
    | run => exact hp
    | resume => exact hp
  | some h₁ =>
    obtain ⟨hpunctual, hrequest⟩ :=
      punctual_execute script ctx h₁ s (loopsNext_of_woken hs hp hrun hw)
    refine conclude_keeps (R := fun h => h.loopsNext = false) (fun h s hx hl => ?_) choose current
      (execute script ctx h₁ s) hpunctual hrequest
    rcases proceed_idle_or_execute script ctx h s with hgo | hgo
    · rw [hgo]
      exact ⟨hx, by simp⟩
    · rw [hgo]
      exact punctual_execute script ctx h s hl

end Handler

/-- **The call triggers `loop` while the handler is to start again** with the next frame anyway. -/
def Call.Hastens (c : Call) (m : Machine) : Prop :=
  c.operation = .trigger .loop ∧ ∃ h, m.handlers.get? .loop = some h ∧ h.loopsNext = true

namespace Machine

variable {host : Host σ} {script : Script} {m : Machine} {e f : Event} {h h' : Handler} {s : σ}
  {g n : Nat} {c : Cue}

/-- No handler that is running is to start again. -/
structure Punctual (script : Script) (m : Machine) : Prop where
  shaped : Shaped script m
  handlers : ∀ e h, m.handlers.get? e = some h → h.Punctual

theorem punctual_of_empty (hscript : m.script = script) (hempty : m.handlers = .empty) :
    Punctual script m :=
  ⟨shaped_of_empty hscript hempty, by simp [hempty]⟩

/-- The handler for the event is not to start again. -/
def Unhurried (m : Machine) (e : Event) : Prop :=
  ∀ h, m.handlers.get? e = some h → h.loopsNext = false

/-- Only for `loop` this says anything. -/
theorem Punctual.unhurried (hm : Punctual script m) (he : e ≠ .loop) : m.Unhurried e := by
  intro h hh
  by_contra hl
  rw [Bool.not_eq_false] at hl
  exact he ((hm.shaped.event e h hh).symm.trans ((hm.shaped.handlers e h hh).looping hl))

theorem unhurried_inside (m : Machine) (i : Nat) (st : State) (e : Event) :
    (m.inside i st).Unhurried e := fun h hh =>
  forall_inside (Q := fun _ h => h.loopsNext = false) (fun _ _ => rfl) e h hh

namespace Punctual

theorem record {rest : Except Error Rest} {l : Locals} {s' : σ} (hm : Punctual script m)
    (hu : c = .run → m.Unhurried e) (hh : m.handlers.get? e = some h)
    (ht : m.turn host c e h s = (rest, h', l, s')) : Punctual script (m.record e h' l) := by
  refine ⟨(lasts_shaped host script).turn hm.shaped hh ht, ?_⟩
  have hsettle := (hm.handlers e h hh).settle (hm.shaped.handlers e h hh)
    (fun hc => hu hc h hh) (m.contextFor host e) (choose m.script m.identity host) m.current
    (m.locals, s)
  rw [turn, hm.shaped.script] at ht
  rw [hm.shaped.script, ht] at hsettle
  exact forall_insert (Q := fun _ h => h.Punctual) hm.handlers hsettle

theorem inside (hm : Punctual script m) (i : Nat) (st : State) : Punctual script (m.inside i st) :=
  ⟨hm.shaped.inside i st, forall_inside fun _ _ => Handler.punctual_of_eq_false rfl⟩

theorem congr {m' : Machine} (hm : Punctual script m) (hscript : m'.script = m.script)
    (hhandlers : m'.handlers = m.handlers) : Punctual script m' := by
  obtain ⟨⟨hevent, hshape, hs⟩, hp⟩ := hm
  exact ⟨⟨hhandlers ▸ hevent, hhandlers ▸ hshape, hscript.trans hs⟩, hhandlers ▸ hp⟩

/-- **Cues and switches** keep to it, if a handler is told to run only if it is not to start
    again. -/
theorem enter_cue (host : Host σ) (script : Script) (n : Nat) :
    (∀ i m s, Punctual script m → Punctual script (enter host n i (m, s)).2.1) ∧
    ∀ c e m s, (c = .run → m.Unhurried e) → Punctual script m →
      Punctual script (cue host (enter host n) c e (m, s)).2.1 := by
  refine machine_induct host
    (fun n i m s r => Punctual script m → Punctual script r.2.1)
    (fun n c e m s r => (c = .run → m.Unhurried e) → Punctual script m → Punctual script r.2.1)
    ?overflow ?dangling ?once ?twice ?absent ?failed ?settled ?waiting ?leaving n
  case overflow =>
    intro i m s hm
    exact hm
  case dangling =>
    intro n i m s hst hm
    exact hm
  case once =>
    intro n i m s st r m' s' hst h₁ hone hloop hm
    exact (hloop (fun _ => unhurried_inside m i st .loop) (hm.inside i st)).congr rfl rfl
  case twice =>
    intro n i m s st m₁ s₁ r m' s' hst h₁ hg hloop h₂ hentered hm
    have hm₁ := hloop (fun _ => unhurried_inside m i st .loop) (hm.inside i st)
    exact (hentered (fun _ => hm₁.unhurried (by decide)) hm₁).congr rfl rfl
  case absent =>
    intro n c e m s hn hu hm
    exact hm
  case failed =>
    intro n c e m s h err h' l s' hh ht hu hm
    exact hm.record hu hh ht
  case settled =>
    intro n c e m s h h' l s' hh ht hu hm
    exact hm.record hu hh ht
  case waiting =>
    intro n c e m s h ms h' l s' hh ht hu hm
    exact (hm.record hu hh ht).congr rfl rfl
  case leaving =>
    intro n c e m s h i h' l s' hh ht hent hu hm
    exact hent (hm.record hu hh ht)

theorem abort (hm : Punctual script m) (e : Event) (g : Nat) : Punctual script (m.abort e g) :=
  ⟨hm.shaped.abort e g,
    forall_abort hm.handlers (fun _ _ => Handler.punctual_of_eq_false rfl) g⟩

theorem round (host : Host σ) (hc : c ≠ .run) (g : Nat) (es : List Event) (first : Option Error)
    (s : σ) (hm : Punctual script m) : Punctual script (cueAll host c g es first (m, s)).2.1 := by
  induction es generalizing first m s with
  | nil => exact hm
  | cons e es ih =>
    have hcue := (enter_cue host script (m.options.maxDepth - m.switchDepth)).2 c e m s
      (fun hrun => absurd hrun hc) hm
    rw [← cue_switchTo] at hcue
    rw [cueAll]
    split
    · split
      · rename_i heq
        rw [heq] at hcue
        exact ih _ _ (hcue.abort e g)
      · rename_i heq
        rw [heq] at hcue
        exact ih _ _ hcue
    · exact hm

theorem select (host : Host σ) (s : σ) (hm : Punctual script m) :
    Punctual script (select host (m, s)).2.1 := by
  rw [Machine.select]
  rcases choose m.script m.identity host (m.locals, s) with ⟨err | i, l, s'⟩
  · exact hm.congr rfl rfl
  · simp only
    split
    · exact hm.congr rfl rfl
    · exact (enter_cue host script _).1 i { m with locals := l } s' (hm.congr rfl rfl)

theorem trigger (host : Host σ) (e : Event) (s : σ) (hu : m.Unhurried e)
    (hm : Punctual script m) : Punctual script (trigger host e (m, s)).2.1 := by
  rw [Machine.trigger]
  split
  · rw [cue_switchTo]
    exact (enter_cue host script _).2 .run e m s (fun _ => hu) hm
  · exact hm

theorem activate (host : Host σ) (s : σ) (hm : Punctual script m) :
    Punctual script (activate host (m, s)).2.1 := by
  rw [activate_eq]
  rcases seedSaved m.identity host m.script.vars s with ⟨err | ⟨⟨⟩⟩, s₁⟩
  · exact hm
  · have hselect := hm.select host s₁
    simp only
    rcases hs : Machine.select host (m, s₁) with ⟨err | ⟨⟨⟩⟩, m₂, s₂⟩
    · rw [hs] at hselect
      exact hselect
    · rw [hs] at hselect
      exact hselect.trigger host .spawn s₂ (hselect.unhurried (by decide))

theorem newFrame (host : Host σ) (dt : UInt64) (s : σ) (hm : Punctual script m) :
    Punctual script (newFrame host dt (m, s)).2.1 := by
  by_cases hact : m.isActive = true
  · have hbare : Punctual script { m with timers := [] } := hm.congr rfl rfl
    have hbegin := hbare.round host (c := .newFrame) (by simp) m.generation m.handlers.events none s
    rcases h₁ : cueAll host .newFrame m.generation m.handlers.events none
      ({ m with timers := [] }, s) with ⟨first, m₁, s₁⟩
    rw [h₁] at hbegin
    rw [newFrame_active host dt m s hact h₁]
    split
    · have hmid : Punctual script (m.midFrame m₁ dt) := hbegin.congr rfl rfl
      exact hmid.round host (c := .resume) (by simp) m.generation (m.fired dt) first s₁
    · exact hbegin
  · rw [newFrame_inactive host dt m s hact]
    exact hm

/-- **Every call** keeps to it, unless it triggers `loop` too early. -/
theorem next (hm : Punctual script m) (c : Call) (hc : ¬ c.Hastens m) :
    Punctual script (m.next c) := by
  obtain ⟨host, s, op⟩ := c
  cases op with
  | activate => exact hm.activate host s
  | trigger e =>
    refine hm.trigger host e s fun h hh => ?_
    by_cases he : e = .loop
    · subst he
      by_contra hl
      exact hc ⟨rfl, h, hh, by simpa using hl⟩
    · exact hm.unhurried he h hh
  | newFrame dt => exact hm.newFrame host dt s
  | select => exact hm.select host s
  | despawn =>
    exact punctual_of_empty hm.shaped.script rfl

end Punctual

variable {identity : Identity} {options : MachineOptions}

theorem shaped_of_create (hm : create script identity options = .ok m) : Shaped script m := by
  rw [create_eq_ok hm]
  exact shaped_of_empty rfl rfl

/-- After any history no handler that is running is to start again, or else `loop` has been
    triggered too early. -/
theorem punctual_or_hastened (hm : create script identity options = .ok m) (cs : List Call) :
    Punctual script (m.after cs) ∨
      ∃ before f later, cs = before ++ f :: later ∧ f.Hastens (m.after before) := by
  induction cs using List.reverseRecOn with
  | nil =>
    rw [create_eq_ok hm]
    exact .inl (punctual_of_empty rfl rfl)
  | append_singleton cs f ih =>
    rcases ih with hp | ⟨before, f₀, later, rfl, hf₀⟩
    · by_cases hf : f.Hastens (m.after cs)
      · exact .inr ⟨cs, f, [], rfl, hf⟩
      · rw [after_concat]
        exact .inl (hp.next f hf)
    · exact .inr ⟨before, f₀, later ++ [f], by simp, hf₀⟩

/-- **The next frame of a handler whose budget is spent.**  After any history of calls, with
    whatever hosts, let a handler wait for the next frame, and let a frame leave the machine in its
    state.  The handler stands at a statement, and in this frame it executes that statement first,
    unless it is to start again as well.  Then it executes nothing in this frame; it is the handler
    for `loop`, and earlier `loop` has been triggered when it had finished and was only to start
    again with the next frame. -/
theorem waiting_goes_on (hm : create script identity options = .ok m) (hbudget : 1 ≤ options.budget)
    (cs : List Call) (c : Call) {dt : UInt64} (hframe : c.frame? = some dt)
    (hstay : ((m.after cs).next c).generation = (m.after cs).generation)
    (hh : (m.after cs).handlers.get? e = some h) (hwait : h.waitingForFrame = true) :
    ∃ p st, h.position? = some p ∧ script.statement? p.block p.index = some st ∧
      (h.loopsNext = false → (c.stepsOf (m.after cs) e).head?.map (·.position) = some p) ∧
      (h.loopsNext = true → c.stepsOf (m.after cs) e = [] ∧ e = .loop ∧
        ∃ before f later, cs = before ++ f :: later ∧ f.Hastens (m.after before)) := by
  have hshaped : Shaped script (m.after cs) :=
    after_induct (P := Shaped script) (fun _ c hm' => hm'.next c) (shaped_of_create hm) cs
  have hbudgeted : Budgeted options (m.after cs) := by
    refine after_induct (P := Budgeted options) (fun _ c hm' => hm'.next c) ?_ cs
    rw [create_eq_ok hm]
    exact ⟨rfl, by simp⟩
  have hb : 0 < h.budget := by
    rw [hbudgeted.handlers e h hh]
    exact hbudget
  have hshape := hshaped.handlers e h hh
  have hr : h.running = true := hshape.resting (.inr hwait)
  obtain ⟨p, st, hpos, hp⟩ := hshape.standing (.inr hwait)
  refine ⟨p, st, hpos, hp, ?_⟩
  obtain ⟨host, s, op⟩ := c
  obtain rfl : op = .newFrame dt := by
    cases op with
    | newFrame dt' =>
      cases hframe
      rfl
    | _ => cases hframe
  -- the frame gives the handler a turn as it is, and no other, since it has no timer
  obtain ⟨n, m', s', more, hsteps, hscript, hh', hmore⟩ :=
    stepsOf_newFrame (sound_after (sound_of_create hm).1 cs) host dt s hh hstay
  have hshape' : h.InShape m'.script := by
    rw [hscript, hshaped.script]
    exact hshape
  have hsus : h.suspended = false := by
    by_contra hsus
    exact hshape.oneReason ⟨by simpa using hsus, hwait⟩
  rw [hsteps, hmore hsus, List.append_nil, ← hpos]
  refine ⟨fun hl => first_of_waiting host s' hh' hshape' hwait hl hb,
    fun hl => ⟨steps_of_early host s' hh' hr hl, ?_, ?_⟩⟩
  · exact (hshaped.event e h hh).symm.trans (hshape.looping hl)
  · refine (punctual_or_hastened hm cs).resolve_left fun hpunctual => ?_
    cases hr.symm.trans (hpunctual.handlers e h hh hl)

/-- A script whose handler for `loop` prints twice. -/
def lap : Script where
  states := [
    { name := "S", condition := .literal (.bool true), handlers := { loop := some 0 },
      location := ⟨1, 1⟩ }]
  blocks := [
    [.call "print" [.literal (.int 1)] ⟨2, 3⟩, .call "print" [.literal (.int 2)] ⟨3, 3⟩]]

/-- The machine for it before anything is done with it. -/
def runner (budget : Nat) : Machine :=
  { script := lap, identity := ⟨"town", some "Bob"⟩, options := { budget }, locals := .initial lap }

/-- With a budget of one statement, every statement takes a frame. -/
theorem goes_on_lap : ∃ h p, ((runner 1).after [afresh .activate]).handlers.get? .loop = some h ∧
    h.waitingForFrame = true ∧ ((afresh (.newFrame 16)).stepsOf
      ((runner 1).after [afresh .activate]) .loop).head?.map (·.position) = some p := by
  have hm : create lap ⟨"town", some "Bob"⟩ { budget := 1 } = .ok (runner 1) := rfl
  have hflags : (((runner 1).after [afresh .activate]).handlers.get? .loop).map
      (fun h => (h.waitingForFrame, h.loopsNext)) = some (true, false) := by
    cbv
  obtain ⟨h, hh, hflags⟩ := Option.map_eq_some_iff.mp hflags
  obtain ⟨hwait, hl⟩ := Prod.mk.inj hflags
  obtain ⟨p, st, -, -, hgo, -⟩ := waiting_goes_on hm (by decide) [afresh .activate]
    (afresh (.newFrame 16)) rfl (by cbv) hh hwait
  exact ⟨h, p, hh, hwait, hgo hl⟩

/-- The handler is triggered once more after it has finished.  It has executed two statements in
    the activation, and the trigger lets it execute one more. -/
def lapped : Except Error Unit × Machine × Recording.Storage :=
  Operation.performAll (Recording.recordingHost []) [.activate, .trigger .loop]
    (runner 3, { parameters := .empty, saved := .empty })

/-- All three statements of its budget are spent, and it does nothing in the next frame. -/
theorem frame_lost_lap : create lap ⟨"town", some "Bob"⟩ { budget := 3 } = .ok (runner 3) ∧
    lapped.1 = .ok () ∧
    (lapped.2.1.handlers.get? .loop).map (·.waitingForFrame) = some true ∧
    (newFrame (Recording.recordingHost []) 16 lapped.2).1 = .ok () ∧
    (newFrame (Recording.recordingHost []) 16 lapped.2).2.1.generation = lapped.2.1.generation ∧
    Operation.steps (Recording.recordingHost []) (.newFrame 16) lapped.2 = [] :=
  ⟨rfl, by cbv, by cbv, by cbv, by cbv, by cbv⟩

end Machine

end ActorScript
