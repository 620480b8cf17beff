/-
  Turns of a machine's handlers, and the switches of state they lead to.

  A cue gives one handler a turn.  If the turn ends with another state to enter, the machine is
  emptied (`inside`) and the handlers for `loop` and `enterState` of that state get their turns,
  which may lead to the next switch.  So cueing a handler and entering a state call each other,
  and `machine_induct` is the induction over these calls, done once: what is left to show for a
  property is one case for each way in which a turn can end and in which a state is started.

  Two first consequences: no operation touches the script, and the generation tells whether the
  machine is still in the state it was in (`sameRun_enter_cue`).
-/
import ActorScript.Proofs.Phase

namespace ActorScript.Machine

variable {σ : Type}

/-! ## The parts of a cue -/

/-- The turn of the handler `h` for an event. -/
def turn (host : Host σ) (c : Cue) (event : Event) (h : Handler) (m : Machine) (s : σ) :
    Except Error Rest × Handler × Locals × σ :=
  h.settle m.script (m.contextFor host event) (choose m.script m.identity host) m.current c
    (m.locals, s)

/-- The machine after a turn of the handler for an event, of which `h` and `l` have come. -/
def record (m : Machine) (event : Event) (h : Handler) (l : Locals) : Machine :=
  { m with handlers := m.handlers.insert event h, locals := l }

/-- The machine with one more timer. -/
def arm (m : Machine) (event : Event) (ms : UInt64) : Machine :=
  { m with timers := m.timers ++ [⟨event, ms, 0⟩] }

/-- The machine in which the handlers of an entered state are started. -/
def inside (m : Machine) (i : Nat) (st : State) : Machine :=
  { m.install i st with switchDepth := m.switchDepth + 1 }

/-- The machine after a switch of state is over. -/
def outside (m : Machine) : Machine := { m with switchDepth := m.switchDepth - 1 }

@[simp] theorem generation_record (m : Machine) (e : Event) (h : Handler) (l : Locals) :
    (m.record e h l).generation = m.generation := rfl

theorem get?_record (m : Machine) (e f : Event) (h : Handler) (l : Locals) :
    (m.record e h l).handlers.get? f = if f = e then some h else m.handlers.get? f :=
  EventMap.get?_insert _ _ _ _

/-- In an entered state all handlers are new. -/
theorem get?_inside (m : Machine) (i : Nat) (st : State) (e : Event) :
    (m.inside i st).handlers.get? e = (st.handlers.get? e).map fun entry =>
      { event := e, entry, budget := m.options.budget } :=
  EventMap.get?_map _ _ _

variable (host : Host σ)

theorem cue_of_none {switch : Nat → Action (Machine × σ) Unit} {c : Cue} {e : Event} {m : Machine}
    {s : σ} (hn : m.handlers.get? e = none) : cue host switch c e (m, s) = (.ok (), m, s) := by
  rw [cue, hn]

/-- What a cue makes of the end of a turn. -/
theorem cue_of_some {switch : Nat → Action (Machine × σ) Unit} {c : Cue} {e : Event} {m : Machine}
    {s : σ} {h : Handler} (hh : m.handlers.get? e = some h) :
    cue host switch c e (m, s) = match m.turn host c e h s with
      | (.error err, h', l, s') => (.error err, m.record e h' l, s')
      | (.ok .settled, h', l, s') => (.ok (), m.record e h' l, s')
      | (.ok (.waiting ms), h', l, s') => (.ok (), (m.record e h' l).arm e ms, s')
      | (.ok (.switch i), h', l, s') => switch i (m.record e h' l, s') := by
  rcases ht : m.turn host c e h s with ⟨_ | (_ | _ | _), h', l, s'⟩
  all_goals
    rw [turn] at ht
    simp only [cue, hh, ht]
    rfl

/-- From outside all switches, a cue may lead to as many as the options and the switches under way
    allow. -/
theorem cue_switchTo (c : Cue) (e : Event) (m : Machine) (s : σ) :
    cue host (switchTo host) c e (m, s) =
      cue host (enter host (m.options.maxDepth - m.switchDepth)) c e (m, s) := by
  cases hh : m.handlers.get? e with
  | none => rw [cue_of_none host hh, cue_of_none host hh]
  | some h =>
    rw [cue_of_some host hh, cue_of_some host hh]
    rcases m.turn host c e h s with ⟨_ | (_ | _ | _), h', l, s'⟩ <;> rfl

theorem enter_dangling (n i : Nat) (m : Machine) (s : σ) (hst : m.script.states[i]? = none) :
    enter host (n + 1) i (m, s) = (.ok (), m, s) := by
  simp only [enter, hst]

/-- Nothing follows the handler for `loop` if it fails or leads to another state. -/
theorem enter_once (n i : Nat) (m : Machine) (s : σ) {st : State}
    (hst : m.script.states[i]? = some st) {r : Except Error Unit} {m' : Machine} {s' : σ}
    (h₁ : cue host (enter host n) .run .loop (m.inside i st, s) = (r, m', s'))
    (hone : r = .ok () → m'.generation ≠ (m.inside i st).generation) :
    enter host (n + 1) i (m, s) = (r, m'.outside, s') := by
  have hstart : startHandlers host (enter host n) (m.inside i st, s) = (r, m', s') := by
    simp only [startHandlers, h₁]
    cases r with
    | error err => rfl
    | ok u => exact if_neg (hone rfl)
  rw [inside] at hstart
  simp only [enter, hst, hstart]
  rfl

/-- If the handler for `loop` has left the machine in the state, that for `enterState` follows. -/
theorem enter_twice (n i : Nat) (m : Machine) (s : σ) {st : State}
    (hst : m.script.states[i]? = some st) {m₁ : Machine} {s₁ : σ}
    (h₁ : cue host (enter host n) .run .loop (m.inside i st, s) = (.ok (), m₁, s₁))
    (hg : m₁.generation = (m.inside i st).generation) {r : Except Error Unit} {m' : Machine}
    {s' : σ} (h₂ : cue host (enter host n) .run .enterState (m₁, s₁) = (r, m', s')) :
    enter host (n + 1) i (m, s) = (r, m'.outside, s') := by
  have hstart : startHandlers host (enter host n) (m.inside i st, s) = (r, m', s') := by
    simp only [startHandlers, h₁, if_pos hg]
    exact h₂
  rw [inside] at hstart
  simp only [enter, hst, hstart]
  rfl

/-! ## The induction -/

/-- **Induction over cues and switches.**  `cueing` is about giving a cue while `n` more switches
    are allowed, `entering` about entering a state. -/
theorem machine_induct
    (entering : Nat → Nat → Machine → σ → Except Error Unit × Machine × σ → Prop)
    (cueing : Nat → Cue → Event → Machine → σ → Except Error Unit × Machine × σ → Prop)
    (overflow : ∀ i m s, entering 0 i m s
      (.error (.stateSwitchOverflow m.identity.displayName m.options.maxDepth), m, s))
    (dangling : ∀ n i m s, m.script.states[i]? = none → entering (n + 1) i m s (.ok (), m, s))
    (once : ∀ n i m s st r m' s', m.script.states[i]? = some st →
      cue host (enter host n) .run .loop (m.inside i st, s) = (r, m', s') →
      (r = .ok () → m'.generation ≠ (m.inside i st).generation) →
      cueing n .run .loop (m.inside i st) s (r, m', s') →
      entering (n + 1) i m s (r, m'.outside, s'))
    (twice : ∀ n i m s st m₁ s₁ r m' s', m.script.states[i]? = some st →
      cue host (enter host n) .run .loop (m.inside i st, s) = (.ok (), m₁, s₁) →
      m₁.generation = (m.inside i st).generation →
      cueing n .run .loop (m.inside i st) s (.ok (), m₁, s₁) →
      cue host (enter host n) .run .enterState (m₁, s₁) = (r, m', s') →
      cueing n .run .enterState m₁ s₁ (r, m', s') →
      entering (n + 1) i m s (r, m'.outside, s'))
    (absent : ∀ n c e m s, m.handlers.get? e = none → cueing n c e m s (.ok (), m, s))
    (failed : ∀ n c e m s h err h' l s', m.handlers.get? e = some h →
      m.turn host c e h s = (.error err, h', l, s') →
      cueing n c e m s (.error err, m.record e h' l, s'))
    (settled : ∀ n c e m s h h' l s', m.handlers.get? e = some h →
      m.turn host c e h s = (.ok .settled, h', l, s') →
      cueing n c e m s (.ok (), m.record e h' l, s'))
    (waiting : ∀ n c e m s h ms h' l s', m.handlers.get? e = some h →
      m.turn host c e h s = (.ok (.waiting ms), h', l, s') →
      cueing n c e m s (.ok (), (m.record e h' l).arm e ms, s'))
    (leaving : ∀ n c e m s h i h' l s', m.handlers.get? e = some h →
      m.turn host c e h s = (.ok (.switch i), h', l, s') →
      entering n i (m.record e h' l) s' (enter host n i (m.record e h' l, s')) →
      cueing n c e m s (enter host n i (m.record e h' l, s'))) (n : Nat) :
    (∀ i m s, entering n i m s (enter host n i (m, s))) ∧
      ∀ c e m s, cueing n c e m s (cue host (enter host n) c e (m, s)) := by
  -- a cue enters a state with the same number of switches, so it follows entering
  have cues : ∀ n, (∀ i m s, entering n i m s (enter host n i (m, s))) →
      ∀ c e m s, cueing n c e m s (cue host (enter host n) c e (m, s)) := by
    intro n hn c e m s
    cases hh : m.handlers.get? e with
    | none =>
      rw [cue_of_none host hh]
      exact absent n c e m s hh
    | some h =>
      rw [cue_of_some host hh]
      rcases ht : m.turn host c e h s with ⟨err | (_ | ms | i), h', l, s'⟩
      · exact failed n c e m s h err h' l s' hh ht
      · exact settled n c e m s h h' l s' hh ht
      · exact waiting n c e m s h ms h' l s' hh ht
      · exact leaving n c e m s h i h' l s' hh ht (hn i _ s')
  induction n with
  | zero =>
    have hzero : ∀ i m s, entering 0 i m s (enter host 0 i (m, s)) := overflow
    exact ⟨hzero, cues 0 hzero⟩
  | succ n ih =>
    have hsucc : ∀ i m s, entering (n + 1) i m s (enter host (n + 1) i (m, s)) := by
      intro i m s
      cases hst : m.script.states[i]? with
      | none =>
        rw [enter_dangling host n i m s hst]
        exact dangling n i m s hst
      | some st =>
        rcases h₁ : cue host (enter host n) .run .loop (m.inside i st, s) with ⟨r₁, m₁, s₁⟩
        have hloop := ih.2 .run .loop (m.inside i st) s
        rw [h₁] at hloop
        by_cases hboth : r₁ = .ok () ∧ m₁.generation = (m.inside i st).generation
        · obtain ⟨rfl, hg⟩ := hboth
          rcases h₂ : cue host (enter host n) .run .enterState (m₁, s₁) with ⟨r₂, m₂, s₂⟩
          have hentered := ih.2 .run .enterState m₁ s₁
          rw [h₂] at hentered
          rw [enter_twice host n i m s hst h₁ hg h₂]
          exact twice n i m s st m₁ s₁ r₂ m₂ s₂ hst h₁ hg hloop h₂ hentered
        · have hone : r₁ = .ok () → m₁.generation ≠ (m.inside i st).generation :=
            fun hr hg => hboth ⟨hr, hg⟩
          rw [enter_once host n i m s hst h₁ hone]
          exact once n i m s st r₁ m₁ s₁ hst h₁ hone hloop
    exact ⟨hsucc, cues (n + 1) hsucc⟩

/-! ## Turns -/

/-- **A turn** of a handler in phase `p`: it idles, or it was woken and is now in a phase that fits
    the way it came to rest. -/
theorem turn_cases {c : Cue} {e : Event} {m : Machine} {h h' : Handler} {s : σ} {p : Phase}
    {rest : Except Error Rest} {x : Locals × σ} (hp : h.phase? = some p)
    (ht : m.turn host c e h s = (rest, h', x)) :
    h.SameHandler h' ∧
      (((c = .resume → p ≠ .timer) ∧ rest = .ok .settled ∧ h'.phase? = some p) ∨
        c.Wakes p ∧ ∃ q, h'.phase? = some q ∧ q.Fits rest) := by
  have := Handler.settle_cases m.script (m.contextFor host e) (choose m.script m.identity host)
    m.current c h (m.locals, s) hp
  rw [turn] at ht
  rwa [ht] at this

/-- The handler that comes out of a turn is the one that went into it. -/
theorem sameHandler_turn {c : Cue} {e : Event} {m : Machine} {h h' : Handler} {s : σ}
    {rest : Except Error Rest} {x : Locals × σ} (ht : m.turn host c e h s = (rest, h', x)) :
    h.SameHandler h' := by
  have := Handler.sameHandler_settle m.script (m.contextFor host e)
    (choose m.script m.identity host) m.current c h (m.locals, s)
  rw [turn] at ht
  rwa [ht] at this

/-- A turn keeps what the registers keep, whatever the host is told about statements. -/
theorem turn_keeps {Q : Locals × σ → Prop} {m : Machine}
    (hr : ∀ d, (registers m.script m.identity host d).Keeps Q)
    (hw : ∀ r v, (Registers.write m.script m.identity host r v).Keeps Q) {c : Cue} {e : Event}
    {h h' : Handler} {s : σ} {rest : Except Error Rest} {x : Locals × σ} (hs : Q (m.locals, s))
    (ht : m.turn host c e h s = (rest, h', x)) : Q x := by
  have hctx : (m.contextFor host e).Keeps Q := hr _
  have := Handler.settle_keeps m.script hctx hw (choose_keeps (hr _)) m.current c h (m.locals, s) hs
  rw [turn] at ht
  rwa [ht] at this

/-- A turn leads to a state only if that state has just been chosen and is not the current one. -/
theorem chosen_of_turn_switch {m : Machine} {c : Cue} {e : Event} {h h' : Handler} {i : Nat}
    {s : σ} {x : Locals × σ} (ht : m.turn host c e h s = (.ok (.switch i), h', x)) :
    m.current ≠ some i ∧ ∃ y, choose m.script m.identity host y = (.ok i, x) := by
  rw [turn] at ht
  have hr : (Handler.settle m.script (m.contextFor host e) (choose m.script m.identity host)
      m.current c h (m.locals, s)).1 = .ok (.switch i) := by
    rw [ht]
  have := Handler.chosen_of_settle_switch hr
  rwa [ht] at this

/-! ## What stays as it is -/

/-- `m'` runs the same script as `m`, for the same actor, and equally deep inside switches. -/
structure SameRun (m m' : Machine) : Prop where
  script : m'.script = m.script
  identity : m'.identity = m.identity
  options : m'.options = m.options
  switchDepth : m'.switchDepth = m.switchDepth

theorem SameRun.refl (m : Machine) : m.SameRun m := ⟨rfl, rfl, rfl, rfl⟩

theorem SameRun.trans {m₁ m₂ m₃ : Machine} (a : m₁.SameRun m₂) (b : m₂.SameRun m₃) :
    m₁.SameRun m₃ :=
  ⟨b.script.trans a.script, b.identity.trans a.identity, b.options.trans a.options,
    b.switchDepth.trans a.switchDepth⟩

theorem sameRun_record (m : Machine) (e : Event) (h : Handler) (l : Locals) :
    m.SameRun (m.record e h l) := ⟨rfl, rfl, rfl, rfl⟩

/-- Leaving a switch undoes what entering it did to the depth. -/
theorem SameRun.outside {m m' : Machine} {i : Nat} {st : State} (h : (m.inside i st).SameRun m') :
    m.SameRun m'.outside := by
  refine ⟨h.script, h.identity, h.options, ?_⟩
  show m'.switchDepth - 1 = m.switchDepth
  rw [h.switchDepth]
  rfl

/-- The script stays, and a state that is entered counts as a new generation. -/
theorem sameRun_enter_cue (n : Nat) :
    (∀ i m s, m.SameRun (enter host n i (m, s)).2.1 ∧
      (((n = 0 ∨ m.script.states[i]? = none) ∧ (enter host n i (m, s)).2.1 = m) ∨
        m.generation < (enter host n i (m, s)).2.1.generation)) ∧
    ∀ c e m s, m.SameRun (cue host (enter host n) c e (m, s)).2.1 ∧
      m.generation ≤ (cue host (enter host n) c e (m, s)).2.1.generation := by
  refine machine_induct host
    (fun n i m s r => m.SameRun r.2.1 ∧
      (((n = 0 ∨ m.script.states[i]? = none) ∧ r.2.1 = m) ∨ m.generation < r.2.1.generation))
    (fun n c e m s r => m.SameRun r.2.1 ∧ m.generation ≤ r.2.1.generation)
    ?overflow ?dangling ?once ?twice ?absent ?failed ?settled ?waiting ?leaving n
  case overflow =>
    intro i m s
    exact ⟨.refl m, .inl ⟨.inl rfl, rfl⟩⟩
  case dangling =>
    intro n i m s hst
    exact ⟨.refl m, .inl ⟨.inr hst, rfl⟩⟩
  case once =>
    intro n i m s st r m' s' hst h₁ hone hloop
    exact ⟨hloop.1.outside, .inr hloop.2⟩
  case twice =>
    intro n i m s st m₁ s₁ r m' s' hst h₁ hg hloop h₂ hentered
    exact ⟨(hloop.1.trans hentered.1).outside, .inr (Nat.le_trans hloop.2 hentered.2)⟩
  case absent =>
    intro n c e m s hn
    exact ⟨.refl m, Nat.le_refl _⟩
  case failed =>
    intro n c e m s h err h' l s' hh ht
    exact ⟨sameRun_record m e h' l, Nat.le_refl _⟩
  case settled =>
    intro n c e m s h h' l s' hh ht
    exact ⟨sameRun_record m e h' l, Nat.le_refl _⟩
  case waiting =>
    intro n c e m s h ms h' l s' hh ht
    exact ⟨⟨rfl, rfl, rfl, rfl⟩, Nat.le_refl _⟩
  case leaving =>
    intro n c e m s h i h' l s' hh ht hent
    refine ⟨(sameRun_record m e h' l).trans hent.1, ?_⟩
    rcases hent.2 with ⟨-, hsame⟩ | hlt
    · rw [hsame]
      exact Nat.le_refl _
    · exact Nat.le_of_lt hlt

/-- A state that exists is entered if a switch is allowed. -/
theorem generation_lt_enter (n : Nat) {i : Nat} {m : Machine} (s : σ) {st : State}
    (hst : m.script.states[i]? = some st) :
    m.generation < (enter host (n + 1) i (m, s)).2.1.generation := by
  rcases ((sameRun_enter_cue host (n + 1)).1 i m s).2 with ⟨hn | hnone, -⟩ | hlt
  · cases hn
  · rw [hst] at hnone
    cases hnone
  · exact hlt

/-! ## Cues that do not lead to another state -/

/-- Where no state has been entered, nothing has happened at all. -/
theorem enter_of_stay {n i : Nat} {m : Machine} {s : σ}
    (hg : (enter host n i (m, s)).2.1.generation = m.generation) :
    (enter host n i (m, s)).2 = (m, s) := by
  cases n with
  | zero => rfl
  | succ n =>
    cases hst : m.script.states[i]? with
    | none => rw [enter_dangling host n i m s hst]
    | some st => exact absurd hg (Nat.ne_of_gt (generation_lt_enter host n s hst))

/-- The machine after a turn that has not led to another state. -/
def stayed (m : Machine) (e : Event) (h' : Handler) (l : Locals) : Except Error Rest → Machine
  | .ok (.waiting ms) => (m.record e h' l).arm e ms
  | .error _ | .ok .settled | .ok (.switch _) => m.record e h' l

theorem get?_stayed (m : Machine) (e f : Event) (h : Handler) (l : Locals)
    (rest : Except Error Rest) :
    (m.stayed e h l rest).handlers.get? f = if f = e then some h else m.handlers.get? f := by
  rcases rest with err | (_ | ms | i)
  all_goals exact get?_record m e f h l

/-- **A cue that leaves the machine in its state** is a turn of one handler, and nothing else. -/
theorem cue_of_stay {n : Nat} {c : Cue} {e : Event} {m : Machine} {s s' : σ} {h h' : Handler}
    {rest : Except Error Rest} {l : Locals} (hh : m.handlers.get? e = some h)
    (ht : m.turn host c e h s = (rest, h', l, s'))
    (hg : (cue host (enter host n) c e (m, s)).2.1.generation = m.generation) :
    (cue host (enter host n) c e (m, s)).2 = (m.stayed e h' l rest, s') := by
  rw [cue_of_some host hh, ht] at hg ⊢
  rcases rest with err | (_ | ms | i)
  · rfl
  · rfl
  · rfl
  · exact enter_of_stay host (m := m.record e h' l) hg

/-! ## The chosen state exists -/

theorem firstHolding_lt {ctx : Context σ} {states : List State} {i k : Nat} {s : σ}
    (hk : (firstHolding ctx states i s).1 = .ok (some k)) : k < i + states.length := by
  induction states generalizing i s with
  | nil => cases hk
  | cons st rest ih =>
    rw [firstHolding, Action.bind_apply] at hk
    rw [List.length_cons]
    split at hk
    · split at hk
      · cases hk
        omega
      · have := ih hk
        omega
    · cases hk

/-- Whatever the host answers, only a state of the script can be chosen. -/
theorem exists_of_choose {script : Script} {identity : Identity} {i : Nat} {x y : Locals × σ}
    (hc : choose script identity host x = (.ok i, y)) : ∃ st, script.states[i]? = some st := by
  rw [choose, Action.bind_apply] at hc
  rcases hf : firstHolding (registers script identity host) script.states 0 x with
    ⟨err | _ | k, x'⟩
  · simp only [hf] at hc
    cases hc
  · simp only [hf] at hc
    cases hc
  · simp only [hf] at hc
    cases hc
    have hlt : i < 0 + script.states.length := firstHolding_lt (congrArg Prod.fst hf)
    rw [Nat.zero_add] at hlt
    exact ⟨script.states[i], List.getElem?_eq_getElem hlt⟩

end ActorScript.Machine
