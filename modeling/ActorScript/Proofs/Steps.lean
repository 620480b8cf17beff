/-
  The statements that an operation executes.

  A host is told about every statement right before it is executed.  `Host.logged` does what
  another host does and keeps a list of all it was told, so `Operation.steps`, the list after an
  operation, is what the operation has executed.  Keeping the list disturbs nothing
  (`perform_logged`): result, machine and host come out the same.

  The list is that of the turns of the operation, one after the other (`steps_eq_flatMap_turns`),
  so nothing is executed outside them.  The statements of a turn are executed by its handler from
  where the cue has woken it to where it comes to rest (`executed_of_woken`): they are marked with
  the state and the event of the handler, the first one is the statement to come, and there are as
  many as the handler has counted.
-/
import ActorScript.Proofs.Recorder
import ActorScript.Proofs.Sequence

namespace ActorScript

variable {σ : Type}

/-- Takes down the statements that are executed. -/
def Recorder.steps : Recorder (List Step) where
  observe step log := log ++ [step]

/-- The host that does the same as `host` and keeps a list of the statements that are executed. -/
def Host.logged (host : Host σ) : Host (List Step × σ) := host.recording .steps

/-- **The statements an operation executes**, in their order. -/
def Operation.steps (host : Host σ) (op : Operation) (x : Machine × σ) : List Step :=
  (op.perform host.logged (x.1, [], x.2)).2.2.1

/-- The statements a call executes, in their order. -/
def Call.steps (c : Call) (m : Machine) : List Step := c.operation.steps c.host (m, c.state)

/-- Without its list, the host is the one it was made from. -/
theorem Host.logged_related (host : Host σ) : host.Related (fun s x => x.2 = s) host.logged :=
  host.recording_related .steps

/-- What is in the list before has no influence on what is added to it. -/
theorem Recorder.steps_related (log : List Step) :
    steps.Related (fun l l' => l = log ++ l') steps where
  callFunction _ _ _ _ _ h := h
  callValue _ _ _ _ _ h := h
  write _ _ _ _ _ h := h
  observe := by
    rintro step _ l rfl
    exact List.append_assoc log l [step]

theorem Host.logged_related_append (host : Host σ) (log : List Step) :
    host.logged.Related (fun x y => x.1 = log ++ y.1 ∧ x.2 = y.2) host.logged :=
  host.recording_related_recording (Recorder.steps_related log)

namespace Machine

variable (host : Host σ)

/-- The statements that are executed in a turn. -/
def Turn.steps (t : Turn σ) : List Step :=
  match t.machine.handlers.get? t.event with
  | none => []
  | some h => (t.machine.turn host.logged t.cue t.event h ([], t.state)).2.2.2.1

variable {host}

/-- **A turn, watched**: it ends the same, and its statements are behind those of before. -/
theorem turn_logged {n : Nat} {c : Cue} {e : Event} {m : Machine} {s s' : σ} {h h' : Handler}
    {rest : Except Error Rest} {l : Locals} (hh : m.handlers.get? e = some h)
    (ht : m.turn host c e h s = (rest, h', l, s')) (log : List Step) :
    m.turn host.logged c e h (log, s) =
      (rest, h', l, log ++ Turn.steps host ⟨n, c, e, m, s⟩, s') := by
  obtain ⟨hrest, hh', hl, hs⟩ := turn_related (m := m) (host.logged_related.relatedFor _) c e h
    (t := (log, s)) rfl
  obtain ⟨-, -, -, hlog, -⟩ := turn_related (m := m)
    ((host.logged_related_append log).relatedFor _) c e h (s := (log, s)) (t := ([], s))
    ⟨(List.append_nil log).symm, rfl⟩
  rw [later_zero] at hrest hh' hl hs hlog
  rw [ht] at hrest hh' hl hs
  simp only [Turn.steps, hh]
  exact Prod.ext hrest.symm (Prod.ext hh'.symm (Prod.ext hl.symm (Prod.ext hlog hs)))

/-- An outcome, with a list of statements kept by the host. -/
def withLog {α : Type} (log : List Step) (r : Except Error α × Machine × σ) :
    Except Error α × Machine × List Step × σ := (r.1, r.2.1, log, r.2.2)

/-- **Cues and switches, watched.** -/
theorem logged_enter_cue (host : Host σ) (n : Nat) :
    (∀ i m s log, enter host.logged n i (m, log, s) =
      withLog (log ++ (entryTurns host n i (m, s)).flatMap (Turn.steps host))
        (enter host n i (m, s))) ∧
    ∀ c e m s log, cue host.logged (enter host.logged n) c e (m, log, s) =
      withLog (log ++ (cueTurns host n c e (m, s)).flatMap (Turn.steps host))
        (cue host (enter host n) c e (m, s)) := by
  refine turns_induct host
    (fun n i m s r ts => ∀ log, enter host.logged n i (m, log, s) =
      withLog (log ++ ts.flatMap (Turn.steps host)) r)
    (fun n c e m s r ts => ∀ log, cue host.logged (enter host.logged n) c e (m, log, s) =
      withLog (log ++ ts.flatMap (Turn.steps host)) r)
    ?overflow ?dangling ?once ?twice ?absent ?failed ?settled ?waiting ?leaving n
  case overflow =>
    intro i m s log
    rw [List.flatMap_nil, List.append_nil]
    rfl
  case dangling =>
    intro n i m s hst log
    rw [List.flatMap_nil, List.append_nil]
    exact enter_dangling host.logged n i m (log, s) hst
  case once =>
    intro n i m s st r m' s' ts hst hone h₁ hloop log
    exact enter_once host.logged n i m (log, s) hst (hloop log) hone
  case twice =>
    intro n i m s st m₁ s₁ r m' s' ts₁ ts₂ hst hg h₁ hloop h₂ hentered log
    rw [List.flatMap_append, ← List.append_assoc]
    exact enter_twice host.logged n i m (log, s) hst (hloop log) hg (hentered _)
  case absent =>
    intro n c e m s hn log
    rw [List.flatMap_nil, List.append_nil]
    exact cue_of_none host.logged hn
  case failed =>
    intro n c e m s h err h' l s' hh ht log
    rw [cue_of_some host.logged hh, turn_logged (n := n) hh ht, List.flatMap_singleton]
    rfl
  case settled =>
    intro n c e m s h h' l s' hh ht log
    rw [cue_of_some host.logged hh, turn_logged (n := n) hh ht, List.flatMap_singleton]
    rfl
  case waiting =>
    intro n c e m s h ms h' l s' hh ht log
    rw [cue_of_some host.logged hh, turn_logged (n := n) hh ht, List.flatMap_singleton]
    rfl
  case leaving =>
    intro n c e m s h i h' l s' hh ht hent log
    rw [cue_of_some host.logged hh, turn_logged (n := n) hh ht, List.flatMap_cons,
      ← List.append_assoc]
    exact hent _

theorem logged_cue (host : Host σ) (c : Cue) (e : Event) (m : Machine) (s : σ) (log : List Step) :
    cue host.logged (switchTo host.logged) c e (m, log, s) =
      withLog (log ++ (cueTurns host (m.options.maxDepth - m.switchDepth) c e (m, s)).flatMap
        (Turn.steps host)) (cue host (switchTo host) c e (m, s)) := by
  rw [cue_switchTo, cue_switchTo]
  exact (logged_enter_cue host _).2 c e m s log

/-! ## Operations -/

theorem logged_cueAll (host : Host σ) (c : Cue) (g : Nat) (es : List Event) (first : Option Error)
    (m : Machine) (s : σ) (log : List Step) :
    cueAll host.logged c g es first (m, log, s) =
      ((cueAll host c g es first (m, s)).1, (cueAll host c g es first (m, s)).2.1,
        log ++ (roundTurns host c g es (m, s)).flatMap (Turn.steps host),
        (cueAll host c g es first (m, s)).2.2) := by
  induction es generalizing first m s log with
  | nil =>
    rw [roundTurns, List.flatMap_nil, List.append_nil]
    rfl
  | cons e es ih =>
    rw [cueAll, cueAll, roundTurns]
    by_cases hg : m.generation = g
    · rw [if_pos hg, if_pos hg, if_pos hg, logged_cue, List.flatMap_append, ← List.append_assoc,
        cueOnce]
      rcases cue host (switchTo host) c e (m, s) with ⟨err | ⟨⟨⟩⟩, m', s'⟩
      · exact ih (first.or (some err)) (m'.abort e g) s' _
      · exact ih first m' s' _
    · rw [if_neg hg, if_neg hg, if_neg hg, List.flatMap_nil, List.append_nil]

theorem choose_keeps_log (script : Script) (identity : Identity) (host : Host σ)
    (log : List Step) : (choose script identity host.logged).Keeps fun x => x.2.1 = log :=
  choose_keeps ⟨fun _ _ h => h, fun _ _ _ h => h, fun _ _ _ h => h, fun _ _ h => h⟩

/-- Choosing a state executes nothing. -/
theorem logged_choose (host : Host σ) (script : Script) (identity : Identity) (l : Locals)
    (s : σ) (log : List Step) :
    choose script identity host.logged (l, log, s) =
      ((choose script identity host (l, s)).1, (choose script identity host (l, s)).2.1, log,
        (choose script identity host (l, s)).2.2) := by
  obtain ⟨hres, hl, hs⟩ := choose_related (host.logged_related.relatedFor identity) script
    (l, s) (l, log, s) ⟨rfl, rfl⟩
  have hlog := choose_keeps_log script identity host log (l, log, s) rfl
  exact Prod.ext hres.symm (Prod.ext hl.symm (Prod.ext hlog hs))

/-- Storing saved defaults executes nothing. -/
theorem logged_seedSaved (host : Host σ) (identity : Identity) (vars : List Variable) (s : σ)
    (log : List Step) :
    seedSaved identity host.logged vars (log, s) =
      ((seedSaved identity host vars s).1, log, (seedSaved identity host vars s).2) := by
  have hkeeps : (seedSaved identity host.logged vars).Keeps fun x => x.1 = log := by
    induction vars with
    | nil => exact Action.keeps_pure _
    | cons v rest ih =>
      rw [seedSaved]
      split
      · split
        · refine (Action.keeps_lift _).bind fun key => Action.Keeps.bind ?_ fun _ => ih
          intro x hx
          simp only
          split
          · exact hx
          · exact hx
        · exact ih
      · exact ih
  obtain ⟨hres, hs⟩ := seedSaved_related (host.logged_related.relatedFor identity) vars s (log, s)
    rfl
  exact Prod.ext hres.symm (Prod.ext (hkeeps (log, s) rfl) hs)

theorem logged_select (host : Host σ) (m : Machine) (s : σ) (log : List Step) :
    select host.logged (m, log, s) =
      withLog (log ++ (selectTurns host (m, s)).flatMap (Turn.steps host))
        (select host (m, s)) := by
  simp only [select, selectTurns, logged_choose]
  rcases choose m.script m.identity host (m.locals, s) with ⟨err | i, l, s'⟩
  · rw [List.flatMap_nil, List.append_nil]
    rfl
  · simp only
    split
    · rw [List.flatMap_nil, List.append_nil]
      rfl
    · exact (logged_enter_cue host _).1 i { m with locals := l } s' log

theorem logged_trigger (host : Host σ) (e : Event) (m : Machine) (s : σ) (log : List Step) :
    trigger host.logged e (m, log, s) =
      withLog (log ++ (triggerTurns host e (m, s)).flatMap (Turn.steps host))
        (trigger host e (m, s)) := by
  rw [trigger, trigger, triggerTurns]
  split
  · exact logged_cue host .run e m s log
  · rw [List.flatMap_nil, List.append_nil]
    rfl

theorem logged_activate (host : Host σ) (m : Machine) (s : σ) (log : List Step) :
    activate host.logged (m, log, s) =
      withLog (log ++ (activateTurns host (m, s)).flatMap (Turn.steps host))
        (activate host (m, s)) := by
  rw [activate_eq, activate_eq, activateTurns, logged_seedSaved]
  rcases seedSaved m.identity host m.script.vars s with ⟨err | ⟨⟨⟩⟩, s₁⟩
  · rw [List.flatMap_nil, List.append_nil]
    rfl
  · simp only [logged_select, List.flatMap_append, ← List.append_assoc]
    rcases select host (m, s₁) with ⟨err | ⟨⟨⟩⟩, m₂, s₂⟩
    · rw [List.flatMap_nil, List.append_nil]
      rfl
    · exact logged_trigger host .spawn m₂ s₂ _

theorem logged_newFrame (host : Host σ) (dt : UInt64) (m : Machine) (s : σ) (log : List Step) :
    newFrame host.logged dt (m, log, s) =
      withLog (log ++ (frameTurns host dt (m, s)).flatMap (Turn.steps host))
        (newFrame host dt (m, s)) := by
  by_cases hact : m.isActive = true
  · have hround := logged_cueAll host .newFrame m.generation m.handlers.events none
      { m with timers := [] } s log
    rcases h₁ : cueAll host .newFrame m.generation m.handlers.events none
      ({ m with timers := [] }, s) with ⟨first, m₁, s₁⟩
    rw [h₁] at hround
    rw [newFrame_active host.logged dt m (log, s) hact hround, newFrame_active host dt m s hact h₁]
    simp only [frameTurns, hact, if_true, h₁, List.flatMap_append, ← List.append_assoc]
    split
    · simp only [logged_cueAll]
      rfl
    · rw [List.flatMap_nil, List.append_nil]
      rfl
  · rw [newFrame_inactive host.logged dt m (log, s) hact, newFrame_inactive host dt m s hact]
    simp only [frameTurns, hact, Bool.false_eq_true, if_false, List.flatMap_nil, List.append_nil]
    rfl

/-- **Watching an operation disturbs nothing**, and the statements it executes are those of its
    turns, in their order. -/
theorem perform_logged (host : Host σ) (op : Operation) (m : Machine) (s : σ) (log : List Step) :
    op.perform host.logged (m, log, s) =
      withLog (log ++ (op.turns host (m, s)).flatMap (Turn.steps host))
        (op.perform host (m, s)) := by
  cases op with
  | activate => exact logged_activate host m s log
  | trigger e => exact logged_trigger host e m s log
  | newFrame dt => exact logged_newFrame host dt m s log
  | select => exact logged_select host m s log
  | despawn =>
    rw [Operation.turns, List.flatMap_nil, List.append_nil]
    rfl

/-- **Nothing is executed outside the turns** of an operation. -/
theorem steps_eq_flatMap_turns (c : Call) (m : Machine) :
    c.steps m = (c.turns m).flatMap (Turn.steps c.host) := by
  rw [Call.steps, Operation.steps, perform_logged]
  rfl

/-! ## The statements of a turn -/

/-- The statement that is executed next from a stack: blocks that have come to their end are
    left. -/
def upcoming? (script : Script) : List Position → Option Position
  | [] => none
  | p :: rest =>
    if (script.statement? p.block p.index).isSome then some p else upcoming? script rest

/-- A handler has executed the statements `new` and has become `h'`: each of them for the event
    `e` in the state of the machine, and the first one was the statement to come. -/
structure Executed (m : Machine) (e : Event) (h : Handler) (new : List Step) (h' : Handler) :
    Prop where
  count : h.executed + new.length = h'.executed
  marks : ∀ step ∈ new, step.generation = m.generation ∧ step.state = m.current ∧ step.event = e
  first : ∀ step ∈ new.head?, upcoming? m.script h.stack = some step.position
  still : new = [] → upcoming? m.script h'.stack = upcoming? m.script h.stack

namespace Executed

variable {m : Machine} {e : Event} {h h₁ h' : Handler} {new new' : List Step}

/-- Without a statement the handler is where it was. -/
theorem none (hex : h'.executed = h.executed)
    (hstack : upcoming? m.script h'.stack = upcoming? m.script h.stack) :
    Executed m e h [] h' :=
  ⟨hex.symm, by simp, by simp, fun _ => hstack⟩

theorem one {p : Position} (hex : h'.executed = h.executed + 1)
    (hp : upcoming? m.script h.stack = some p) :
    Executed m e h [⟨m.generation, m.current, e, p⟩] h' :=
  ⟨hex.symm, by simp, by simp [hp], nofun⟩

theorem trans (a : Executed m e h new h₁) (b : Executed m e h₁ new' h') :
    Executed m e h (new ++ new') h' where
  count := by
    have := a.count
    have := b.count
    rw [List.length_append]
    omega
  marks step hstep := by
    rcases List.mem_append.mp hstep with hstep | hstep
    · exact a.marks step hstep
    · exact b.marks step hstep
  first := by
    cases new with
    | nil =>
      rw [← a.still rfl]
      exact b.first
    | cons step new => exact a.first
  still hnil := by
    obtain ⟨hnew, hnew'⟩ := List.append_eq_nil_iff.mp hnil
    exact (b.still hnew').trans (a.still hnew)

end Executed

section Log

variable (m : Machine) (e : Event)

/-- What the list holds, only taking note of a statement changes. -/
theorem perform_keeps_log (log : List Step) (st : Statement) :
    (st.perform (m.contextFor host.logged e)).Keeps fun x => x.2.1 = log := by
  have hwrite : ∀ r v, (Registers.write m.script m.identity host.logged r v).Keeps
      fun x => x.2.1 = log :=
    write_keeps (fun _ _ _ hx => hx) fun _ _ _ _ hx => hx
  exact Statement.perform_keeps_of (fun _ _ hx => hx) (fun _ _ _ hx => hx) (fun _ _ _ hx => hx)
    hwrite st

/-- **One statement is one entry** in the list. -/
theorem log_perform {st : Statement} {p : Position} {x x' : Locals × List Step × σ}
    {r : Except Error Effect} (hr : st.perform (m.contextFor host.logged e)
      ((m.contextFor host.logged e).observe p x) = (r, x')) :
    x'.2.1 = x.2.1 ++ [⟨m.generation, m.current, e, p⟩] := by
  have hkeeps : (st.perform (m.contextFor host.logged e)).Keeps
      fun y => y.2.1 = x.2.1 ++ [⟨m.generation, m.current, e, p⟩] := perform_keeps_log m e _ st
  have := hkeeps ((m.contextFor host.logged e).observe p x) rfl
  rwa [hr] at this

/-- A handler that has come to rest, and the list of statements behind those of `log`. -/
def Logs {ρ : Type} (h : Handler) (log : List Step) (r : ρ × Handler × Locals × List Step × σ) :
    Prop :=
  ∃ new, r.2.2.2.1 = log ++ new ∧ Executed m e h new r.2.1

variable {m e}

theorem Logs.after {ρ : Type} {h h₁ : Handler} {log new : List Step}
    {r : ρ × Handler × Locals × List Step × σ} (ha : Executed m e h new h₁)
    (hr : Logs m e h₁ (log ++ new) r) : Logs m e h log r := by
  obtain ⟨new', hlog, hb⟩ := hr
  exact ⟨new ++ new', hlog.trans (List.append_assoc _ _ _), ha.trans hb⟩

theorem log_execute (h : Handler) (x : Locals × List Step × σ) :
    Logs m e h x.2.1 (Handler.execute m.script (m.contextFor host.logged e) h x) := by
  -- where a statement is executed, it is the one to come
  have hcome : ∀ {h : Handler} {p : Position} {rest : List Position} {st : Statement},
      h.stack = p :: rest → m.script.statement? p.block p.index = some st →
        upcoming? m.script h.stack = some p := by
    intro h p rest st hs hp
    rw [hs, upcoming?, hp]
    rfl
  fun_induction Handler.execute m.script (m.contextFor host.logged e) h x with
  | case1 h x hs => exact ⟨[], (List.append_nil _).symm, .none rfl rfl⟩
  | case2 h x p rest hs hp ih =>
    have hleave : Executed m e h [] h.leave := by
      refine .none rfl ?_
      rw [Handler.leave, hs, List.tail_cons, upcoming?, hp]
      rfl
    exact Logs.after hleave ((List.append_nil x.2.1).symm ▸ ih)
  | case3 h x p rest hs st hp hb => exact ⟨[], (List.append_nil _).symm, .none rfl rfl⟩
  | case4 h x p rest hs st hp hb err x' hv =>
    exact ⟨_, log_perform m e hv, .one rfl (hcome hs hp)⟩
  | case5 h x p rest hs st hp hb x' hv ih =>
    rw [log_perform m e hv] at ih
    exact Logs.after (.one (by simp) (hcome hs hp)) ih
  | case6 h x p rest hs st hp hb b x' hv ih =>
    rw [log_perform m e hv] at ih
    exact Logs.after (.one (by simp) (hcome hs hp)) ih
  | case7 h x p rest hs st hp hb ms x' hv =>
    exact ⟨_, log_perform m e hv, .one rfl (hcome hs hp)⟩
  | case8 h x p rest hs st hp hb x' hv =>
    exact ⟨_, log_perform m e hv, .one (by simp) (hcome hs hp)⟩

/-- The answers to a handler's requests let it execute on from where it was. -/
theorem log_conclude (h : Handler) (log : List Step)
    (x : Except Error Outcome × Handler × Locals × List Step × σ) (hx : Logs m e h log x) :
    Logs m e h log (Handler.conclude m.script (m.contextFor host.logged e)
      (choose m.script m.identity host.logged) m.current x) := by
  -- a choice of a state leaves the list as it is
  have chosen : ∀ {y y' : Locals × List Step × σ} {r : Except Error Nat},
      choose m.script m.identity host.logged y = (r, y') → y'.2.1 = y.2.1 := by
    intro y y' r hc
    have := choose_keeps_log m.script m.identity host y.2.1 y rfl
    rwa [hc] at this
  revert hx
  refine Handler.conclude_induct m.script (m.contextFor host.logged e)
    (choose m.script m.identity host.logged) m.current
    (motive := fun x r => Logs m e h log x → Logs m e h log r)
    ?failed ?settled ?waiting ?declined ?leaving ?staying x
  case failed =>
    intro err h₂ y hx
    exact hx
  case settled =>
    intro o h₂ y ho hx
    exact hx
  case waiting =>
    intro ms h₂ y hx
    exact hx
  case declined =>
    intro h₂ y err y' hc hx
    obtain ⟨new, hnew, hex⟩ := hx
    exact ⟨new, (chosen hc).trans hnew, hex⟩
  case leaving =>
    intro h₂ y i y' hc hne hx
    obtain ⟨new, hnew, hex⟩ := hx
    exact ⟨new, (chosen hc).trans hnew, hex⟩
  case staying =>
    intro h₂ y i y' r hc hi ih hx
    obtain ⟨new, hnew, hex⟩ := hx
    have hnew' : y'.2.1 = log ++ new := (chosen hc).trans hnew
    refine ih ?_
    rcases Handler.proceed_idle_or_execute m.script (m.contextFor host.logged e) h₂ y' with hp | hp
    · rw [hp]
      exact ⟨new, hnew', hex⟩
    · rw [hp]
      exact Logs.after hex (hnew' ▸ log_execute h₂ y')

end Log

variable {m : Machine} {c : Cue} {e : Event} {h h₁ h' : Handler} {n : Nat} {s : σ}

/-- A cue that does not wake the handler makes it execute nothing. -/
theorem turn_of_not_woken (host : Host σ) (e : Event) (s : σ)
    (hw : h.woken m.script c = none) :
    m.turn host c e h s = (.ok .settled, h.idled c, m.locals, s) := by
  rw [turn, Handler.settle_eq, Handler.obey_eq, hw]
  rfl

theorem steps_of_not_woken (hh : m.handlers.get? e = some h) (hw : h.woken m.script c = none) :
    Turn.steps host ⟨n, c, e, m, s⟩ = [] := by
  simp only [Turn.steps, hh, turn_of_not_woken host.logged e _ hw]

/-- **The statements of a turn** are executed by the handler from where the cue has woken it to
    where it comes to rest. -/
theorem executed_of_woken {rest : Except Error Rest} {x : Locals × σ}
    (hh : m.handlers.get? e = some h) (hw : h.woken m.script c = some h₁)
    (ht : m.turn host c e h s = (rest, h', x)) :
    Executed m e h₁ (Turn.steps host ⟨n, c, e, m, s⟩) h' := by
  have hsame : (m.turn host.logged c e h ([], s)).2.1 = h' := by
    rw [turn_logged (n := n) hh ht]
  have hlog : Logs m e h₁ [] (m.turn host.logged c e h ([], s)) := by
    rw [turn, Handler.settle_eq, Handler.obey_eq, hw]
    exact log_conclude h₁ [] _ (log_execute h₁ (m.locals, [], s))
  obtain ⟨new, hnew, hex⟩ := hlog
  rw [List.nil_append] at hnew
  simp only [Turn.steps, hh]
  rw [hnew, ← hsame]
  exact hex

/-! ## Going on -/

theorem le_executed_execute (script : Script) (ctx : Context σ) (h : Handler) (s : σ) :
    h.executed ≤ (Handler.execute script ctx h s).2.1.executed := by
  fun_induction Handler.execute script ctx h s with
  | case1 h s hs => exact Nat.le_refl _
  | case2 h s p rest hs hp ih => exact ih
  | case3 h s p rest hs st hp hb => exact Nat.le_refl _
  | case4 h s p rest hs st hp hb err s' hv => exact Nat.le_succ _
  | case5 h s p rest hs st hp hb s' hv ih =>
    rw [Handler.executed_advance, Handler.executed_count] at ih
    exact Nat.le_of_succ_le ih
  | case6 h s p rest hs st hp hb b s' hv ih =>
    rw [Handler.executed_enter, Handler.executed_advance, Handler.executed_count] at ih
    exact Nat.le_of_succ_le ih
  | case7 h s p rest hs st hp hb ms s' hv => exact Nat.le_succ _
  | case8 h s p rest hs st hp hb s' hv =>
    rw [Handler.executed_advance]
    exact Nat.le_succ _

/-- A handler that has a statement to come executes it if the budget allows it. -/
theorem executed_lt_execute (script : Script) (ctx : Context σ) (h : Handler) (s : σ)
    (hu : upcoming? script h.stack ≠ none) (hb : h.usedBudget < h.budget) :
    h.executed < (Handler.execute script ctx h s).2.1.executed := by
  fun_induction Handler.execute script ctx h s with
  | case1 h s hs =>
    rw [hs] at hu
    exact absurd rfl hu
  | case2 h s p rest hs hp ih =>
    refine ih ?_ hb
    rw [hs, upcoming?, hp] at hu
    rw [Handler.leave, hs]
    exact hu
  | case3 h s p rest hs st hp hspent => exact absurd hb (Nat.not_lt_of_le hspent)
  | case4 h s p rest hs st hp _ err s' hv => exact Nat.lt_succ_self _
  | case5 h s p rest hs st hp _ s' hv =>
    have hle := le_executed_execute script ctx h.count.advance s'
    rwa [Handler.executed_advance, Handler.executed_count] at hle
  | case6 h s p rest hs st hp _ b s' hv =>
    have hle := le_executed_execute script ctx (h.count.advance.enter b) s'
    rwa [Handler.executed_enter, Handler.executed_advance, Handler.executed_count] at hle
  | case7 h s p rest hs st hp _ ms s' hv => exact Nat.lt_succ_self _
  | case8 h s p rest hs st hp _ s' hv =>
    rw [Handler.executed_advance]
    exact Nat.lt_succ_self _

theorem lt_executed_conclude (script : Script) (ctx : Context σ) (choose : Action σ Nat)
    (current : Option Nat) {k : Nat} (x : Except Error Outcome × Handler × σ)
    (hx : k < x.2.1.executed) :
    k < (Handler.conclude script ctx choose current x).2.1.executed := by
  refine Handler.conclude_keeps (P := fun h => k < h.executed) (R := fun _ => True)
    (fun h s hx _ => ⟨?_, fun _ => trivial⟩) choose current x hx fun _ => trivial
  rcases Handler.proceed_idle_or_execute script ctx h s with hp | hp
  · rwa [hp]
  · rw [hp]
    exact Nat.lt_of_lt_of_le hx (le_executed_execute script ctx h s)

/-- **A handler that has been woken goes on with the statement to come**, if its budget allows
    one. -/
theorem head?_steps_of_woken (hh : m.handlers.get? e = some h)
    (hw : h.woken m.script c = some h₁) (hb : h₁.usedBudget < h₁.budget) :
    (Turn.steps host ⟨n, c, e, m, s⟩).head?.map (·.position) = upcoming? m.script h₁.stack := by
  rcases ht : m.turn host c e h s with ⟨rest, h', x⟩
  have hex := executed_of_woken (n := n) hh hw ht
  cases hsteps : Turn.steps host ⟨n, c, e, m, s⟩ with
  | cons step new =>
    rw [hsteps] at hex
    exact (hex.first step rfl).symm
  | nil =>
    -- with a statement to come, it would have executed at least that one
    refine Decidable.byContradiction fun hne => ?_
    have hlt := lt_executed_conclude m.script (m.contextFor host e)
      (choose m.script m.identity host) m.current _
      (executed_lt_execute m.script (m.contextFor host e) h₁ (m.locals, s) (Ne.symm hne) hb)
    rw [turn, Handler.settle_eq, Handler.obey_eq, hw] at ht
    rw [ht] at hlt
    have hcount := hex.count
    rw [hsteps, List.length_nil, Nat.add_zero] at hcount
    exact absurd hcount (Nat.ne_of_lt hlt)

end Machine

end ActorScript
