/-
  What a script asks of its surroundings.

  A run of a script calls no function that does not stand in it: in an expression one of
  `Script.valueCalls`, and as a statement one of `Script.statementCalls`.  So it is enough that the
  host answers those calls well (`Host.Serves`).  If these keep `P` and fail only with errors of
  which `E` holds, then so does every operation (`perform_ensures`); all other errors of a run are
  about something else than a function that is not known.
-/
import ActorScript.Proofs.Operation

namespace ActorScript

variable {σ α : Type} {P : σ → Prop} {E : Error → Prop} {script : Script}

/-! ## The calls of a script -/

/-- A statement calls its own function, if it is a call, and those in its expressions. -/
theorem Statement.calls_eq (st : Statement) : st.calls = st.function?.toList ++ st.valueCalls := by
  cases st <;> rfl

/-- The functions that the script calls are those in the list of all its calls. -/
theorem Script.mem_calledFunctions {s : Script} {name : String} :
    (∃ l, (name, l) ∈ s.calledFunctions) ↔ name ∈ s.statementCalls ∨ name ∈ s.valueCalls := by
  simp only [calledFunctions, statementCalls, valueCalls, List.mem_append, List.mem_flatMap,
    List.mem_map, List.mem_filterMap, Prod.mk.injEq, Statement.calls_eq, Option.mem_toList]
  constructor
  · rintro ⟨l, ⟨st, hst, f, hf, rfl, rfl⟩ | ⟨st, hst, f, hf | hf, rfl, rfl⟩⟩
    · exact .inr (.inl ⟨st, hst, hf⟩)
    · exact .inl ⟨st, hst, hf⟩
    · exact .inr (.inr ⟨st, hst, hf⟩)
  · rintro (⟨st, hst, hf⟩ | ⟨st, hst, hf⟩ | ⟨st, hst, hf⟩)
    · exact ⟨st.location, .inr ⟨st, hst, name, .inl hf, rfl, rfl⟩⟩
    · exact ⟨st.location, .inl ⟨st, hst, name, hf, rfl, rfl⟩⟩
    · exact ⟨st.location, .inr ⟨st, hst, name, .inr hf, rfl, rfl⟩⟩

/-! ## Hosts -/

/-- The host does well what the script can ask of it. -/
structure Host.Serves (host : Host σ) (script : Script) (P : σ → Prop) (E : Error → Prop) :
    Prop where
  others : ∀ e, e.unknownFunction? = none → E e
  callValue : ∀ f ∈ script.valueCalls, ∀ vs, (host.callValue f vs).Ensures P E
  callFunction : ∀ f ∈ script.statementCalls, ∀ vs, (host.callFunction f vs).Ensures P E
  write : ∀ slot v, (host.write slot v).Ensures P E
  observe : ∀ step s, P s → P (host.observe step s)

variable {host : Host σ}

/-- The registers of a machine serve the script as well as the host does. -/
theorem registers_serves (h : host.Serves script P E) (identity : Identity)
    (describe : Position → Option Step) :
    (registers script identity host describe).Serves script (fun x => P x.2) E where
  others := h.others
  read _ _ hx := hx
  callValue f hf vs := Registers.onHost_ensures (h.callValue f hf vs)
  callFunction f hf vs := Registers.onHost_ensures (h.callFunction f hf vs)
  write := Registers.write_ensures h.others
    (fun slot v => Registers.onHost_ensures (h.write slot v)) fun _ _ _ _ hx => hx
  observe p x hx := by
    simp only [registers]
    split
    · exact h.observe _ _ hx
    · exact hx

namespace Machine

/-- A handler can ask only for what stands in the script, and so can the conditions that are
    evaluated behind it. -/
theorem turn_ensures {m : Machine} (h : host.Serves m.script P E) (c : Cue) (e : Event)
    (hd : Handler) (s : σ) (hs : P s) :
    Ensured (fun x => P x.2.2) E (m.turn host c e hd s) := by
  have hchoose := choose_ensures (registers_serves h m.identity _).toAnswers
  exact Handler.settle_ensures (registers_serves h _ _) hchoose m.current c hd (m.locals, s) hs

/-- **Cues and switches** ask for nothing but what stands in the script. -/
theorem enter_cue_ensures (h : host.Serves script P E) (n : Nat) :
    (∀ i m s, m.script = script → P s → Ensured (fun x => P x.2) E (enter host n i (m, s))) ∧
    ∀ c e m s, m.script = script → P s →
      Ensured (fun x => P x.2) E (cue host (enter host n) c e (m, s)) := by
  -- the machine of a nested cue is another one, but it runs the same script
  have turned : ∀ {c : Cue} {e : Event} {m : Machine} {s s' : σ} {hd h' : Handler} {l : Locals}
      {rest : Except Error Rest}, m.script = script → P s →
      m.turn host c e hd s = (rest, h', l, s') → P s' ∧ ∀ err, rest = .error err → E err := by
    intro c e m s s' hd h' l rest hm hs ht
    subst hm
    have := turn_ensures h c e hd s hs
    rwa [ht] at this
  refine machine_induct host
    (fun n i m s r => m.script = script → P s → Ensured (fun x => P x.2) E r)
    (fun n c e m s r => m.script = script → P s → Ensured (fun x => P x.2) E r)
    ?overflow ?dangling ?once ?twice ?absent ?failed ?settled ?waiting ?leaving n
  case overflow =>
    intro i m s hm hs
    exact .error hs (h.others _ rfl)
  case dangling =>
    intro n i m s hst hm hs
    exact .ok hs
  case once =>
    intro n i m s st r m' s' hst h₁ hone hloop hm hs
    exact hloop hm hs
  case twice =>
    intro n i m s st m₁ s₁ r m' s' hst h₁ hg hloop h₂ hentered hm hs
    have hrun := ((sameRun_enter_cue host n).2 .run .loop (m.inside i st) s).1.script
    rw [h₁] at hrun
    exact hentered (hrun.trans hm) (hloop hm hs).1
  case absent =>
    intro n c e m s hn hm hs
    exact .ok hs
  case failed =>
    intro n c e m s hd err h' l s' hh ht hm hs
    obtain ⟨hs', herr⟩ := turned hm hs ht
    exact .error hs' (herr err rfl)
  case settled =>
    intro n c e m s hd h' l s' hh ht hm hs
    exact .ok (turned hm hs ht).1
  case waiting =>
    intro n c e m s hd ms h' l s' hh ht hm hs
    exact .ok (turned hm hs ht).1
  case leaving =>
    intro n c e m s hd i h' l s' hh ht hent hm hs
    exact hent hm (turned hm hs ht).1

/-! ## Operations -/

variable {m : Machine}

/-- A cue of the machine itself, with the switches it leads to. -/
theorem cue_ensures (h : host.Serves m.script P E) (c : Cue) (e : Event) (s : σ) (hs : P s) :
    Ensured (fun x => P x.2) E (cue host (switchTo host) c e (m, s)) := by
  rw [cue_switchTo]
  exact (enter_cue_ensures h _).2 c e m s rfl hs

/-- **A round of cues** asks for nothing else, and the error it remembers is one of those that the
    host may give.  The script of the machine is an equation here because the machine changes from
    one cue to the next. -/
theorem cueAll_ensures (h : host.Serves script P E) (c : Cue) (g : Nat) (es : List Event)
    (first : Option Error) (m : Machine) (s : σ) (hm : m.script = script) (hs : P s)
    (hfirst : ∀ e, first = some e → E e) :
    P (cueAll host c g es first (m, s)).2.2 ∧
      ∀ e, (cueAll host c g es first (m, s)).1 = some e → E e := by
  induction es generalizing first m s with
  | nil => exact ⟨hs, hfirst⟩
  | cons f fs ih =>
    subst hm
    have hcue := cue_ensures h c f s hs
    have hrun := (sameRun_cue host c f m s).script
    rw [cueAll]
    split
    · rcases hr : cue host (switchTo host) c f (m, s) with ⟨err | ⟨⟨⟩⟩, m', s'⟩
      · rw [hr] at hcue hrun
        -- of several errors the first one is remembered
        refine ih _ _ s' ((sameRun_abort m' f g).script.trans hrun) hcue.1 fun e he => ?_
        cases first with
        | none => exact hcue.2 e (congrArg Except.error (Option.some.inj he))
        | some e₀ => exact hfirst e he
      · rw [hr] at hcue hrun
        exact ih first m' s' hrun hcue.1 hfirst
    · exact ⟨hs, hfirst⟩

/-- Choosing a state evaluates conditions of the script and may enter a state of it. -/
theorem select_ensures (h : host.Serves m.script P E) (s : σ) (hs : P s) :
    Ensured (fun x => P x.2) E (select host (m, s)) := by
  have hchoose := choose_ensures (registers_serves h m.identity _).toAnswers (m.locals, s) hs
  rw [select]
  rcases hc : choose m.script m.identity host (m.locals, s) with ⟨err | i, l, s'⟩
  · rw [hc] at hchoose
    exact .error hchoose.1 (hchoose.2 err rfl)
  · rw [hc] at hchoose
    simp only
    split
    · exact .ok hchoose.1
    · exact (enter_cue_ensures h _).1 i { m with locals := l } s' rfl hchoose.1

/-- A trigger is one cue. -/
theorem trigger_ensures (h : host.Serves m.script P E) (e : Event) (s : σ) (hs : P s) :
    Ensured (fun x => P x.2) E (trigger host e (m, s)) := by
  rw [trigger]
  split
  · exact cue_ensures h .run e s hs
  · exact .ok hs

/-- Seeding writes variables and reads the store, and calls no function at all. -/
theorem seedSaved_ensures (h : host.Serves script P E) (identity : Identity)
    (vars : List Variable) : (seedSaved identity host vars).Ensures P E := by
  induction vars with
  | nil => exact Action.ensures_pure _
  | cons v rest ih =>
    rw [seedSaved]
    split
    · split
      -- making the key may fail, and the default is written only if the entry is missing
      · refine Action.Ensures.bind (Action.ensures_lift fun err herr => ?_) fun key =>
          Action.Ensures.bind ?_ fun _ => ih
        · exact h.others err (Registers.knows_savedKey identity _ err herr)
        · intro s hs
          simp only
          split
          · exact h.write _ _ s hs
          · exact .ok hs
      · exact ih
    · exact ih

/-- An activation seeds, selects and cues `spawn`, each with the script it began with. -/
theorem activate_ensures (h : host.Serves m.script P E) (s : σ) (hs : P s) :
    Ensured (fun x => P x.2) E (activate host (m, s)) := by
  have hseed := seedSaved_ensures h m.identity m.script.vars s hs
  rw [activate_eq]
  rcases hr : seedSaved m.identity host m.script.vars s with ⟨err | ⟨⟨⟩⟩, s₁⟩
  · rw [hr] at hseed
    exact .error hseed.1 (hseed.2 err rfl)
  · rw [hr] at hseed
    have hselect := select_ensures h s₁ hseed.1
    have hrun := (sameRun_select host m s₁).script
    simp only
    rcases hr₂ : select host (m, s₁) with ⟨err | ⟨⟨⟩⟩, m₂, s₂⟩
    · rw [hr₂] at hselect
      exact hselect
    · rw [hr₂] at hselect hrun
      exact trigger_ensures (hrun.symm ▸ h) .spawn s₂ hselect.1

/-- **A frame** is two rounds of cues, and its result is the error that these remember. -/
theorem newFrame_ensures (h : host.Serves m.script P E) (dt : UInt64) (s : σ) (hs : P s) :
    Ensured (fun x => P x.2) E (newFrame host dt (m, s)) := by
  have hresult : ∀ {first : Option Error}, (∀ e, first = some e → E e) →
      ∀ e, result first = .error e → E e := by
    intro first hfirst e he
    cases first with
    | none => cases he
    | some e₀ =>
      cases he
      exact hfirst _ rfl
  by_cases hact : m.isActive = true
  · have hbegin := cueAll_ensures h .newFrame m.generation m.handlers.events none
      { m with timers := [] } s rfl hs fun _ he => nomatch he
    have hrun := (sameRun_cueAll host .newFrame m.generation m.handlers.events none
      { m with timers := [] } s).script
    rcases h₁ : cueAll host .newFrame m.generation m.handlers.events none
      ({ m with timers := [] }, s) with ⟨first, m₁, s₁⟩
    rw [h₁] at hbegin hrun
    rw [newFrame_active host dt m s hact h₁]
    split
    · obtain ⟨hs', hfirst⟩ := cueAll_ensures h .resume m.generation (m.fired dt) first
        { m₁ with timers := m.unfired dt ++ m₁.timers } s₁ hrun hbegin.1 hbegin.2
      exact ⟨hs', hresult hfirst⟩
    · exact ⟨hbegin.1, hresult hbegin.2⟩
  · rw [newFrame_inactive host dt m s hact]
    exact .ok hs

/-- **Every operation** asks for nothing but what stands in the script. -/
theorem perform_ensures (h : host.Serves m.script P E) (op : Operation) (s : σ) (hs : P s) :
    Ensured (fun x => P x.2) E (op.perform host (m, s)) := by
  cases op with
  | activate => exact activate_ensures h s hs
  | trigger e => exact trigger_ensures h e s hs
  | newFrame dt => exact newFrame_ensures h dt s hs
  | select => exact select_ensures h s hs
  | despawn => exact .ok hs

end Machine

end ActorScript
