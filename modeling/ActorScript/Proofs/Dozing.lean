/-
  A handler that waits for its timer, while others are at work.

  As long as the machine stays in its state, nothing but the resumption by its own timer moves a
  handler that waits: cues to other handlers do not touch it, its own cues to run and to begin a
  frame find it busy, and failures stop only the handler that has failed.  `Dozes` says where it
  stands and which timers it has; the lemmas below follow it through cues, rounds and operations,
  up to a frame in which its timer runs on (`Dozes.next`).
-/
import Mathlib
import ActorScript.Proofs.Entered

namespace ActorScript

variable {σ : Type}

namespace Handler

/-- `h'` stands where `h` stands.  It may have begun a new frame, but it has executed nothing. -/
def StandsAs (h h' : Handler) : Prop :=
  h' = { h with usedBudget := h'.usedBudget, loopsNext := h'.loopsNext }

variable {h h₁ h₂ : Handler}

theorem StandsAs.refl (h : Handler) : h.StandsAs h := rfl

theorem StandsAs.trans (a : h.StandsAs h₁) (b : h₁.StandsAs h₂) : h.StandsAs h₂ := by
  rw [StandsAs] at a b ⊢
  rw [b, a]

theorem standsAs_idled (h : Handler) (c : Cue) : h.StandsAs (h.idled c) := by
  cases c <;> rfl

/-- Idling once is as good as idling twice. -/
theorem idled_idled (h : Handler) (c : Cue) : (h.idled c).idled c = h.idled c := by
  cases c <;> rfl

end Handler

/-- The milliseconds of a frame; other calls take no time. -/
def Call.frame? (c : Call) : Option UInt64 :=
  match c.operation with
  | .newFrame dt => some dt
  | .activate | .trigger _ | .select | .despawn => none

/-! ## Turns of a cue -/

namespace Machine

variable {host : Host σ} {m : Machine} {e f : Event} {h : Handler} {ts : List Timer} {g : Nat}

/-- The first turn of a cue is that of the handler itself, and all others belong to states that
    are entered. -/
theorem cueTurns_eq_cons (host : Host σ) (n : Nat) (c : Cue) (s : σ)
    (hh : m.handlers.get? e = some h) :
    ∃ ts, cueTurns host n c e (m, s) = ⟨n, c, e, m, s⟩ :: ts ∧
      ∀ t ∈ ts, m.generation < t.machine.generation := by
  rw [cueTurns_of_some host hh]
  split
  · rename_i i h' l s' _
    refine ⟨_, rfl, fun t ht => ?_⟩
    -- the turns of the entered state
    have hleads := (leads_enter_cue host (Q := fun _ => True) (fun _ _ _ => trivial) n).1 i
      (m.record e h' l) s' (Nat.le_refl _)
    rcases hleads with ⟨hnil, -⟩ | hleads
    · rw [hnil] at ht
      cases ht
    · exact (hleads.bounds t ht).1
  · exact ⟨[], rfl, by simp⟩

/-! ## Handlers that doze -/

/-- The handler for an event is `h` and waits for its timer, and `ts` are its timers. -/
structure Dozes (e : Event) (h : Handler) (ts : List Timer) (m : Machine) : Prop where
  phase : h.phase? = some .timer
  handler : m.handlers.get? e = some h
  timers : m.timers.filter (·.event = e) = ts

namespace Dozes

/-- Only the handlers and the timers of the machine count. -/
theorem congr {m' : Machine} (hd : Dozes e h ts m) (hhandlers : m'.handlers = m.handlers)
    (htimers : m'.timers = m.timers) : Dozes e h ts m' := by
  obtain ⟨hphase, hhandler, hts⟩ := hd
  exact ⟨hphase, hhandlers ▸ hhandler, htimers ▸ hts⟩

theorem retimed (hd : Dozes e h ts m) (timers : List Timer) :
    Dozes e h (timers.filter (·.event = e)) { m with timers } :=
  ⟨hd.phase, hd.handler, rfl⟩

/-- The handler sleeps through every cue but the one to resume. -/
theorem not_woken {c : Cue} (hd : Dozes e h ts m) (hc : c ≠ .resume) :
    h.woken m.script c = none := by
  cases hw : h.woken m.script c with
  | none => rfl
  | some h₁ =>
    have hwakes := (Handler.phase_woken hd.phase hw).1
    cases c with
    | run => cases hwakes
    | newFrame => rcases hwakes with hp | hp <;> cases hp
    | resume => exact absurd rfl hc

/-- Its own cue makes it idle, and is a success. -/
theorem cue_own {n : Nat} {c : Cue} (hd : Dozes e h ts m) (host : Host σ) (s : σ)
    (hc : c ≠ .resume) :
    Machine.cue host (enter host n) c e (m, s) = (.ok (), m.record e (h.idled c) m.locals, s) ∧
      Turn.steps host ⟨n, c, e, m, s⟩ = [] := by
  have hw := hd.not_woken hc
  have ht := turn_of_not_woken host e s hw
  refine ⟨?_, steps_of_not_woken hd.handler hw⟩
  rw [cue_of_some host hd.handler, ht]

/-- A turn of another handler leaves it alone. -/
theorem stayed (hd : Dozes e h ts m) (hne : f ≠ e) (h' : Handler) (l : Locals)
    (rest : Except Error Rest) : Dozes e h ts (m.stayed f h' l rest) where
  phase := hd.phase
  handler := by
    rw [get?_stayed, if_neg hne.symm]
    exact hd.handler
  timers := by
    rw [← hd.timers]
    rcases rest with err | (_ | ms | i)
    · rfl
    · rfl
    · -- the new timer is one for another event
      show (m.timers ++ [(⟨f, ms, 0⟩ : Timer)]).filter (·.event = e) = _
      rw [List.filter_append, List.filter_cons_of_neg (by simpa using hne)]
      exact List.append_nil _
    · rfl

/-- What a handler that dozes becomes by a cue to the handler for `f`. -/
theorem idled (hd : Dozes e h ts m) (c : Cue) :
    Dozes e (h.idled c) ts (m.record e (h.idled c) m.locals) where
  phase := (Handler.phase?_idled h c).trans hd.phase
  handler := by
    rw [get?_record, if_pos rfl]
  timers := hd.timers

/-- **A cue** to another handler leaves it as it is, and one of its own that is not to resume lets
    it idle. -/
theorem cue (hd : Dozes e h ts m) (host : Host σ) (n : Nat) (c : Cue) (s : σ)
    (hne : f ≠ e ∨ c ≠ .resume)
    (hg : (Machine.cue host (enter host n) c f (m, s)).2.1.generation = m.generation) :
    Dozes e (if f = e then h.idled c else h) ts
      (Machine.cue host (enter host n) c f (m, s)).2.1 := by
  by_cases hfe : f = e
  · subst hfe
    rw [if_pos rfl, (hd.cue_own host s (hne.resolve_left fun hn => hn rfl)).1]
    exact hd.idled c
  · rw [if_neg hfe]
    cases hf : m.handlers.get? f with
    | none =>
      rw [cue_of_none host hf]
      exact hd
    | some hf₀ =>
      rcases ht : m.turn host c f hf₀ s with ⟨rest, h', l, s'⟩
      rw [cue_of_stay host hf ht hg]
      exact hd.stayed hfe h' l rest

/-- Another handler that has failed is stopped, and only its timers are removed. -/
theorem abort (hd : Dozes e h ts m) (hne : f ≠ e) (g : Nat) : Dozes e h ts (m.abort f g) := by
  rw [Machine.abort]
  split
  · refine ⟨hd.phase, ?_, ?_⟩
    · cases hf : m.handlers.get? f with
      | none => exact hd.handler
      | some hf₀ =>
        show (m.handlers.insert f hf₀.reset).get? e = some h
        rw [EventMap.get?_insert, if_neg hne.symm]
        exact hd.handler
    · rw [← hd.timers, List.filter_filter]
      refine List.filter_congr fun t _ => ?_
      by_cases hte : t.event = e
      · have htf : t.event ≠ f := fun htf => hne (htf.symm.trans hte)
        simp [hte, hne.symm]
      · simp [hte]
  · exact hd

/-- **A cue in a frame** that leaves the machine in its state. -/
theorem cueOnce (hd : Dozes e h ts m) (host : Host σ) (c : Cue) (s : σ)
    (hne : f ≠ e ∨ c ≠ .resume)
    (hg : (Machine.cueOnce host c g f (m, s)).1.generation = m.generation) :
    Dozes e (if f = e then h.idled c else h) ts (Machine.cueOnce host c g f (m, s)).1 := by
  rw [generation_cueOnce] at hg
  rw [Machine.cueOnce]
  have hdoze := hd.cue host (m.options.maxDepth - m.switchDepth) c s hne
  rw [← cue_switchTo] at hdoze
  by_cases hfe : f = e
  · subst hfe
    have hown := (hd.cue_own (n := m.options.maxDepth - m.switchDepth) host s
      (hne.resolve_left fun hn => hn rfl)).1
    rw [← cue_switchTo] at hown
    rw [hown] at hdoze ⊢
    exact hdoze rfl
  · rw [if_neg hfe] at hdoze ⊢
    have hdoze' := hdoze hg
    rcases hr : Machine.cue host (switchTo host) c f (m, s) with ⟨err | ⟨⟨⟩⟩, m', s'⟩
    · rw [hr] at hdoze'
      exact hdoze'.abort hfe g
    · rw [hr] at hdoze'
      exact hdoze'

/-- **A round of cues** that leaves the machine in its state. -/
theorem round (hd : Dozes e h ts m) (host : Host σ) (c : Cue) (es : List Event)
    (first : Option Error) (s : σ) (hne : e ∉ es ∨ c ≠ .resume) (hg : m.generation = g)
    (hend : (cueAll host c g es first (m, s)).2.1.generation = g) :
    Dozes e (if e ∈ es then h.idled c else h) ts (cueAll host c g es first (m, s)).2.1 := by
  induction es generalizing first m s h with
  | nil => exact hd
  | cons f fs ih =>
    obtain ⟨first', hcons⟩ := cueAll_cons host c f fs first s hg
    have honce := hd.cueOnce (f := f) (g := g) host c s
      (hne.imp_left fun hn hf => hn (hf ▸ List.mem_cons_self))
    rw [hcons] at hend ⊢
    rcases hx : Machine.cueOnce host c g f (m, s) with ⟨m', s'⟩
    rw [hx] at hend honce
    have hsame : m'.generation = g := by
      refine Decidable.byContradiction fun hleft => ?_
      rw [cueAll_of_left host c fs first' s' hleft] at hend
      exact hleft hend
    have hrest := ih (honce (hsame.trans hg.symm)) first' s'
      (hne.imp_left fun hn hf => hn (List.mem_cons_of_mem _ hf)) hsame hend
    by_cases hfe : f = e
    · subst hfe
      rw [if_pos rfl, Handler.idled_idled, ite_self] at hrest
      rwa [if_pos List.mem_cons_self]
    · have hmem : e ∈ f :: fs ↔ e ∈ fs := by
        rw [List.mem_cons]
        exact or_iff_right (Ne.symm hfe)
      rw [if_neg hfe] at hrest
      simpa only [hmem] using hrest

end Dozes

/-! ## Timers in a frame -/

/-- The timers of a handler that run on are those of its timers that do not run out. -/
theorem filter_unfired (m : Machine) (dt : UInt64) (e : Event) :
    (m.unfired dt).filter (·.event = e) =
      ((m.timers.filter (·.event = e)).map (·.advance dt)).filter (!·.hasFired) := by
  rw [unfired, List.filter_filter, List.filter_map, List.filter_map, List.filter_filter]
  congr 1
  refine List.filter_congr fun t _ => ?_
  exact Bool.and_comm _ _

theorem mem_fired_iff (m : Machine) (dt : UInt64) (e : Event) :
    e ∈ m.fired dt ↔ ∃ t ∈ m.timers.filter (·.event = e), (t.advance dt).hasFired = true := by
  rw [fired, List.mem_map]
  constructor
  · rintro ⟨t', ht', rfl⟩
    obtain ⟨hmem, hfired⟩ := List.mem_filter.mp ht'
    obtain ⟨t, ht, rfl⟩ := List.mem_map.mp hmem
    exact ⟨t, List.mem_filter.mpr ⟨ht, by simp [Timer.advance]⟩, hfired⟩
  · rintro ⟨t, ht, hfired⟩
    obtain ⟨hmem, hevent⟩ := List.mem_filter.mp ht
    refine ⟨t.advance dt, List.mem_filter.mpr ⟨List.mem_map_of_mem hmem, hfired⟩, ?_⟩
    exact of_decide_eq_true hevent

namespace Dozes

variable {τ : Timer}

/-- In the middle of a frame the handler has its timers that run on, and the new ones. -/
theorem midFrame {m₁ : Machine} (hd : Dozes e h ts m₁) (m : Machine) (dt : UInt64) :
    Dozes e h ((m.unfired dt).filter (·.event = e) ++ ts) (m.midFrame m₁ dt) where
  phase := hd.phase
  handler := hd.handler
  timers := by
    show (m.unfired dt ++ m₁.timers).filter (·.event = e) = _
    rw [List.filter_append, hd.timers]

/-! ## Operations -/

theorem select (hd : Dozes e h ts m) (host : Host σ) (s : σ)
    (hg : (Machine.select host (m, s)).2.1.generation = m.generation) :
    Dozes e h ts (Machine.select host (m, s)).2.1 := by
  rw [Machine.select] at hg ⊢
  rcases hc : choose m.script m.identity host (m.locals, s) with ⟨err | i, l, s'⟩
  · exact hd.congr rfl rfl
  · rw [hc] at hg
    simp only at hg ⊢
    split
    · exact hd.congr rfl rfl
    · rename_i hne
      rw [if_neg hne] at hg
      have hsame :
          (switchTo host i ({ m with locals := l }, s')).2 = ({ m with locals := l }, s') :=
        enter_of_stay host (m := { m with locals := l }) hg
      rw [hsame]
      exact hd.congr rfl rfl

theorem trigger (hd : Dozes e h ts m) (host : Host σ) (f : Event) (s : σ)
    (hg : (Machine.trigger host f (m, s)).2.1.generation = m.generation) :
    Dozes e h ts (Machine.trigger host f (m, s)).2.1 := by
  rw [Machine.trigger] at hg ⊢
  split
  · rename_i hact
    rw [if_pos hact, cue_switchTo] at hg
    rw [cue_switchTo]
    have hdoze := hd.cue host _ .run s (.inr (by simp)) hg
    rwa [Handler.idled, ite_self] at hdoze
  · exact hd

theorem activate (hd : Dozes e h ts m) (host : Host σ) (s : σ)
    (hg : (Machine.activate host (m, s)).2.1.generation = m.generation) :
    Dozes e h ts (Machine.activate host (m, s)).2.1 := by
  rw [activate_eq] at hg ⊢
  rcases hseed : seedSaved m.identity host m.script.vars s with ⟨err | ⟨⟨⟩⟩, s₁⟩
  · exact hd
  · rw [hseed] at hg
    have hselect := hd.select host s₁
    have hle := generation_le_select host m s₁
    simp only at hg ⊢
    rcases hr : Machine.select host (m, s₁) with ⟨err | ⟨⟨⟩⟩, m₂, s₂⟩
    · rw [hr] at hg hselect
      exact hselect hg
    · rw [hr] at hg hselect hle
      have hle₂ := generation_le_trigger host .spawn m₂ s₂
      have hg₂ : (Machine.trigger host .spawn (m₂, s₂)).2.1.generation = m.generation := hg
      have hle₁ : m.generation ≤ m₂.generation := hle
      have hsame : m₂.generation = m.generation := by omega
      exact (hselect hsame).trigger host .spawn s₂ (hg₂.trans hsame.symm)

/-- All handlers have begun a frame: the handler has idled, and its timer is laid aside. -/
theorem begun (hd : Dozes e h ts m) (host : Host σ) (s : σ) {first : Option Error} {m₁ : Machine}
    {s₁ : σ} (h₁ : cueAll host .newFrame m.generation m.handlers.events none
      ({ m with timers := [] }, s) = (first, m₁, s₁)) (hsame : m₁.generation = m.generation) :
    Dozes e (h.idled .newFrame) [] m₁ := by
  have hbegin := (hd.retimed []).round host .newFrame m.handlers.events none s (.inr nofun)
    (g := m.generation) rfl
  have hmem : e ∈ m.handlers.events := by
    rw [EventMap.mem_events, hd.handler, Option.isSome_some]
  rw [h₁, if_pos hmem] at hbegin
  exact hbegin hsame

/-- **A frame** in which the timer runs on. -/
theorem newFrame (hd : Dozes e h [τ] m) (host : Host σ) (dt : UInt64) (s : σ)
    (hact : m.isActive = true) (hrest : (τ.advance dt).hasFired = false)
    (hg : (Machine.newFrame host dt (m, s)).2.1.generation = m.generation) :
    Dozes e (h.idled .newFrame) [τ.advance dt] (Machine.newFrame host dt (m, s)).2.1 := by
  rcases h₁ : cueAll host .newFrame m.generation m.handlers.events none
    ({ m with timers := [] }, s) with ⟨first, m₁, s₁⟩
  rw [newFrame_active host dt m s hact h₁] at hg ⊢
  by_cases hsame : m₁.generation = m.generation
  · rw [if_pos hsame] at hg ⊢
    have htimers : (m.unfired dt).filter (·.event = e) = [τ.advance dt] := by
      rw [filter_unfired, hd.timers, List.map_singleton, List.filter_singleton, hrest]
      rfl
    have hmid := (hd.begun host s h₁ hsame).midFrame m dt
    rw [htimers, List.append_nil] at hmid
    have hnot : e ∉ m.fired dt := by
      rw [mem_fired_iff, hd.timers]
      simp [hrest]
    have hend := hmid.round host .resume (m.fired dt) first s₁ (.inl hnot) hsame hg
    rwa [if_neg hnot] at hend
  · rw [if_neg hsame] at hg
    exact absurd hg hsame

/-- **Every call** that leaves the machine in its state, and in which the timer does not run out. -/
theorem next {pending : List Event} (hd : Dozes e h [τ] m) (hs : Sound pending m) (c : Call)
    (hrest : ∀ dt, c.frame? = some dt → (τ.advance dt).hasFired = false)
    (hg : (m.next c).generation = m.generation) :
    ∃ h', h.StandsAs h' ∧ Dozes e h' [c.frame?.elim τ τ.advance] (m.next c) := by
  obtain ⟨host, s, op⟩ := c
  cases op with
  | activate => exact ⟨h, .refl h, hd.activate host s hg⟩
  | trigger f => exact ⟨h, .refl h, hd.trigger host f s hg⟩
  | newFrame dt =>
    exact ⟨h.idled .newFrame, h.standsAs_idled .newFrame,
      hd.newFrame host dt s (hs.isActive hd.handler) (hrest dt rfl) hg⟩
  | select => exact ⟨h, .refl h, hd.select host s hg⟩
  | despawn => exact absurd hg (Nat.succ_ne_self _)

end Dozes

end Machine

end ActorScript
