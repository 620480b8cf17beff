/-
  The turns of an operation, one after the other.

  Everything an operation executes is executed in turns of handlers.  `Operation.turns` lists
  them in their order: a turn that ends with a state to enter is followed by the turns of that
  state (`entryTurns`), and in a frame the handlers are cued one after the other (`roundTurns`).

  The list follows the recursion of the operation itself, and `turns_induct` is the induction over
  both at once.
-/
import ActorScript.Proofs.Stuck

namespace ActorScript

variable {σ : Type}

namespace Machine

variable (host : Host σ)

/-- The turns that a turn leads to, with itself in front.  `entered` are the turns with which a
    state is entered. -/
def Turn.leadsTo (entered : Nat → Machine × σ → List (Turn σ)) (t : Turn σ) : List (Turn σ) :=
  match t.machine.handlers.get? t.event with
  | none => []
  | some h =>
    match t.machine.turn host t.cue t.event h t.state with
    | (.ok (.switch i), h', l, s') => t :: entered i (t.machine.record t.event h' l, s')
    | _ => [t]

/-- **The turns of entering a state** while some switches are allowed: that of the handler for
    `loop` and those it leads to and, if the machine is still in the state, that of the handler
    for `enterState` and those it leads to. -/
def entryTurns : Nat → Nat → Machine × σ → List (Turn σ)
  | 0, _, _ => []
  | n + 1, i, (m, s) =>
    match m.script.states[i]? with
    | none => []
    | some st =>
      Turn.leadsTo host (entryTurns n) ⟨n, .run, .loop, m.inside i st, s⟩ ++
        match cue host (enter host n) .run .loop (m.inside i st, s) with
        | (.error _, _) => []
        | (.ok (), m₁, s₁) =>
          if m₁.generation = (m.inside i st).generation then
            Turn.leadsTo host (entryTurns n) ⟨n, .run, .enterState, m₁, s₁⟩
          else []

/-- The turns of a cue while `n` more switches are allowed. -/
def cueTurns (n : Nat) (c : Cue) (e : Event) (x : Machine × σ) : List (Turn σ) :=
  Turn.leadsTo host (entryTurns host n) ⟨n, c, e, x.1, x.2⟩

/-- The turns of a frame that was begun in generation `g`, where the handlers for some events get
    their cues one after the other. -/
def roundTurns (c : Cue) (g : Nat) : List Event → Machine × σ → List (Turn σ)
  | [], _ => []
  | e :: es, x =>
    if x.1.generation = g then
      cueTurns host (x.1.options.maxDepth - x.1.switchDepth) c e x ++
        roundTurns c g es (cueOnce host c g e x)
    else []

/-- The turns of choosing the state. -/
def selectTurns (x : Machine × σ) : List (Turn σ) :=
  match choose x.1.script x.1.identity host (x.1.locals, x.2) with
  | (.error _, _) => []
  | (.ok i, l, s) =>
    if x.1.current = some i then []
    else entryTurns host (x.1.options.maxDepth - x.1.switchDepth) i ({ x.1 with locals := l }, s)

/-- The turns of a trigger. -/
def triggerTurns (e : Event) (x : Machine × σ) : List (Turn σ) :=
  if x.1.isActive then cueTurns host (x.1.options.maxDepth - x.1.switchDepth) .run e x else []

/-- The machine in the middle of a frame of `dt` milliseconds, when `m₁` has come of the cues to
    begin the frame: the timers that run on are back in front of the new ones. -/
def midFrame (m m₁ : Machine) (dt : UInt64) : Machine :=
  { m₁ with timers := m.unfired dt ++ m₁.timers }

/-- The turns of a frame of `dt` milliseconds: those that begin the frame and, if the machine is
    still in the state, those of the handlers whose timers have run out. -/
def frameTurns (dt : UInt64) (x : Machine × σ) : List (Turn σ) :=
  if x.1.isActive then
    let bare := ({ x.1 with timers := [] }, x.2)
    let (_, m₁, s₁) := cueAll host .newFrame x.1.generation x.1.handlers.events none bare
    roundTurns host .newFrame x.1.generation x.1.handlers.events bare ++
      if m₁.generation = x.1.generation then
        roundTurns host .resume x.1.generation (x.1.fired dt) (x.1.midFrame m₁ dt, s₁)
      else []
  else []

/-- The turns of an activation: those of choosing the state and, if that succeeds, those of the
    handler for `spawn`. -/
def activateTurns (x : Machine × σ) : List (Turn σ) :=
  match seedSaved x.1.identity host x.1.script.vars x.2 with
  | (.error _, _) => []
  | (.ok (), s₁) =>
    selectTurns host (x.1, s₁) ++
      match select host (x.1, s₁) with
      | (.error _, _) => []
      | (.ok (), y) => triggerTurns host .spawn y

end Machine

open Machine in
/-- **The turns of an operation**, in their order. -/
def Operation.turns (host : Host σ) : Operation → Machine × σ → List (Turn σ)
  | .activate, x => activateTurns host x
  | .trigger e, x => triggerTurns host e x
  | .newFrame dt, x => frameTurns host dt x
  | .select, x => selectTurns host x
  | .despawn, _ => []

/-- The turns of a call, in their order. -/
def Call.turns (c : Call) (m : Machine) : List (Machine.Turn c.σ) :=
  c.operation.turns c.host (m, c.state)

namespace Machine

variable (host : Host σ)

/-! ## The list and the operation -/

/-- A cue without a handler is no turn. -/
theorem cueTurns_of_none {n : Nat} {c : Cue} {e : Event} {m : Machine} {s : σ}
    (hn : m.handlers.get? e = none) : cueTurns host n c e (m, s) = [] := by
  simp only [cueTurns, Turn.leadsTo, hn]

/-- The turns of a cue to a handler that exists. -/
theorem cueTurns_of_some {n : Nat} {c : Cue} {e : Event} {m : Machine} {s : σ} {h : Handler}
    (hh : m.handlers.get? e = some h) :
    cueTurns host n c e (m, s) = match m.turn host c e h s with
      | (.ok (.switch i), h', l, s') => ⟨n, c, e, m, s⟩ :: entryTurns host n i (m.record e h' l, s')
      | _ => [⟨n, c, e, m, s⟩] := by
  simp only [cueTurns, Turn.leadsTo, hh]

/-- A turn that leads to no other state is the only one of its cue. -/
theorem cueTurns_of_stay {n : Nat} {c : Cue} {e : Event} {m : Machine} {s : σ} {h h' : Handler}
    {rest : Except Error Rest} {x : Locals × σ} (hh : m.handlers.get? e = some h)
    (ht : m.turn host c e h s = (rest, h', x)) (hstay : ∀ i, rest ≠ .ok (.switch i)) :
    cueTurns host n c e (m, s) = [⟨n, c, e, m, s⟩] := by
  rw [cueTurns_of_some host hh, ht]
  rcases rest with err | (_ | ms | i)
  · rfl
  · rfl
  · rfl
  · exact absurd rfl (hstay i)

/-- A state that does not exist is not entered. -/
theorem entryTurns_dangling {n i : Nat} {m : Machine} {s : σ} (hst : m.script.states[i]? = none) :
    entryTurns host (n + 1) i (m, s) = [] := by
  simp only [entryTurns, hst]

/-- If `loop` has led to another state, `enterState` is not cued. -/
theorem entryTurns_once {n i : Nat} {m : Machine} {s : σ} {st : State}
    (hst : m.script.states[i]? = some st) {r : Except Error Unit} {m' : Machine} {s' : σ}
    (h₁ : cue host (enter host n) .run .loop (m.inside i st, s) = (r, m', s'))
    (hone : r = .ok () → m'.generation ≠ (m.inside i st).generation) :
    entryTurns host (n + 1) i (m, s) = cueTurns host n .run .loop (m.inside i st, s) := by
  simp only [entryTurns, hst, h₁]
  cases r with
  | error err => exact List.append_nil _
  | ok u =>
    cases u
    simp only [if_neg (hone rfl)]
    exact List.append_nil _

/-- If `loop` has led to no other state, `enterState` is cued behind it. -/
theorem entryTurns_twice {n i : Nat} {m : Machine} {s : σ} {st : State}
    (hst : m.script.states[i]? = some st) {m₁ : Machine} {s₁ : σ}
    (h₁ : cue host (enter host n) .run .loop (m.inside i st, s) = (.ok (), m₁, s₁))
    (hg : m₁.generation = (m.inside i st).generation) :
    entryTurns host (n + 1) i (m, s) = cueTurns host n .run .loop (m.inside i st, s) ++
      cueTurns host n .run .enterState (m₁, s₁) := by
  simp only [entryTurns, hst, h₁, if_pos hg]
  rfl

/-- **Induction over cues and switches and their turns.**  `cueing` is about giving a cue while
    `n` more switches are allowed, `entering` about entering a state; both are about the outcome
    and about the list of turns. -/
theorem turns_induct
    (entering : Nat → Nat → Machine → σ → Except Error Unit × Machine × σ → List (Turn σ) → Prop)
    (cueing : Nat → Cue → Event → Machine → σ → Except Error Unit × Machine × σ →
      List (Turn σ) → Prop)
    (overflow : ∀ i m s, entering 0 i m s
      (.error (.stateSwitchOverflow m.identity.displayName m.options.maxDepth), m, s) [])
    (dangling : ∀ n i m s, m.script.states[i]? = none → entering (n + 1) i m s (.ok (), m, s) [])
    (once : ∀ n i m s st r m' s' ts, m.script.states[i]? = some st →
      (r = .ok () → m'.generation ≠ (m.inside i st).generation) →
      cue host (enter host n) .run .loop (m.inside i st, s) = (r, m', s') →
      cueing n .run .loop (m.inside i st) s (r, m', s') ts →
      entering (n + 1) i m s (r, m'.outside, s') ts)
    (twice : ∀ n i m s st m₁ s₁ r m' s' ts₁ ts₂, m.script.states[i]? = some st →
      m₁.generation = (m.inside i st).generation →
      cue host (enter host n) .run .loop (m.inside i st, s) = (.ok (), m₁, s₁) →
      cueing n .run .loop (m.inside i st) s (.ok (), m₁, s₁) ts₁ →
      cue host (enter host n) .run .enterState (m₁, s₁) = (r, m', s') →
      cueing n .run .enterState m₁ s₁ (r, m', s') ts₂ →
      entering (n + 1) i m s (r, m'.outside, s') (ts₁ ++ ts₂))
    (absent : ∀ n c e m s, m.handlers.get? e = none → cueing n c e m s (.ok (), m, s) [])
    (failed : ∀ n c e m s h err h' l s', m.handlers.get? e = some h →
      m.turn host c e h s = (.error err, h', l, s') →
      cueing n c e m s (.error err, m.record e h' l, s') [⟨n, c, e, m, s⟩])
    (settled : ∀ n c e m s h h' l s', m.handlers.get? e = some h →
      m.turn host c e h s = (.ok .settled, h', l, s') →
      cueing n c e m s (.ok (), m.record e h' l, s') [⟨n, c, e, m, s⟩])
    (waiting : ∀ n c e m s h ms h' l s', m.handlers.get? e = some h →
      m.turn host c e h s = (.ok (.waiting ms), h', l, s') →
      cueing n c e m s (.ok (), (m.record e h' l).arm e ms, s') [⟨n, c, e, m, s⟩])
    (leaving : ∀ n c e m s h i h' l s', m.handlers.get? e = some h →
      m.turn host c e h s = (.ok (.switch i), h', l, s') →
      entering n i (m.record e h' l) s' (enter host n i (m.record e h' l, s'))
        (entryTurns host n i (m.record e h' l, s')) →
      cueing n c e m s (enter host n i (m.record e h' l, s'))
        (⟨n, c, e, m, s⟩ :: entryTurns host n i (m.record e h' l, s'))) (n : Nat) :
    (∀ i m s, entering n i m s (enter host n i (m, s)) (entryTurns host n i (m, s))) ∧
      ∀ c e m s, cueing n c e m s (cue host (enter host n) c e (m, s))
        (cueTurns host n c e (m, s)) := by
  refine machine_induct host
    (fun n i m s r => entering n i m s r (entryTurns host n i (m, s)))
    (fun n c e m s r => cueing n c e m s r (cueTurns host n c e (m, s)))
    ?_ ?_ ?_ ?_ ?_ ?_ ?_ ?_ ?_ n
  · exact overflow
  · intro n i m s hst
    rw [entryTurns_dangling host hst]
    exact dangling n i m s hst
  · intro n i m s st r m' s' hst h₁ hone hloop
    rw [entryTurns_once host hst h₁ hone]
    exact once n i m s st r m' s' _ hst hone h₁ hloop
  · intro n i m s st m₁ s₁ r m' s' hst h₁ hg hloop h₂ hentered
    rw [entryTurns_twice host hst h₁ hg]
    exact twice n i m s st m₁ s₁ r m' s' _ _ hst hg h₁ hloop h₂ hentered
  · intro n c e m s hn
    rw [cueTurns_of_none host hn]
    exact absent n c e m s hn
  · intro n c e m s h err h' l s' hh ht
    rw [cueTurns_of_stay host hh ht (by simp)]
    exact failed n c e m s h err h' l s' hh ht
  · intro n c e m s h h' l s' hh ht
    rw [cueTurns_of_stay host hh ht (by simp)]
    exact settled n c e m s h h' l s' hh ht
  · intro n c e m s h ms h' l s' hh ht
    rw [cueTurns_of_stay host hh ht (by simp)]
    exact waiting n c e m s h ms h' l s' hh ht
  · intro n c e m s h i h' l s' hh ht hent
    rw [cueTurns_of_some host hh, ht]
    exact leaving n c e m s h i h' l s' hh ht hent

/-- Once the state has been left, there are no more turns in the frame. -/
theorem roundTurns_of_left {m : Machine} {g : Nat} (c : Cue) (es : List Event) (s : σ)
    (hg : m.generation ≠ g) : roundTurns host c g es (m, s) = [] := by
  cases es with
  | nil => rfl
  | cons e es => exact if_neg hg

/-! ## Single cues of a frame -/

/-- An error that is caught is no switch. -/
theorem generation_cueOnce (c : Cue) (g : Nat) (e : Event) (x : Machine × σ) :
    (cueOnce host c g e x).1.generation =
      (cue host (switchTo host) c e x).2.1.generation := by
  rw [cueOnce]
  rcases cue host (switchTo host) c e x with ⟨err | ⟨⟨⟩⟩, m', s'⟩
  · exact generation_abort m' e g
  · rfl

/-- A single cue is a round of its own. -/
theorem cueOnce_eq {m : Machine} {g : Nat} (c : Cue) (e : Event) (s : σ)
    (hg : m.generation = g) :
    cueOnce host c g e (m, s) = (cueAll host c g [e] none (m, s)).2 := by
  obtain ⟨first, hcons⟩ := cueAll_cons host c e [] none s hg
  rw [hcons]
  rfl

/-- One cue of a frame leaves the machine sound for those that are pending. -/
theorem sound_cueOnce {c : Cue} {e : Event} {pending : List Event} {m : Machine} {g : Nat} (s : σ)
    (hs : Sound (due c [e] ++ pending) m) (hg : m.generation = g) :
    GoesOn pending m (cueOnce host c g e (m, s)).1 := by
  rw [cueOnce_eq host c e s hg]
  exact sound_cueAll host c [e] none m s hg hs

/-- One cue of a frame runs the script it began with. -/
theorem sameRun_cueOnce {m : Machine} {g : Nat} (c : Cue) (e : Event) (s : σ)
    (hg : m.generation = g) : m.SameRun (cueOnce host c g e (m, s)).1 := by
  rw [cueOnce_eq host c e s hg]
  exact sameRun_cueAll host c g [e] none m s

/-! ## What holds at every turn -/

/-- Nothing that a machine goes through in an operation destroys `P`. -/
structure Lasts (P : Machine → Prop) : Prop where
  turn : ∀ {c e m s h rest h' l s'}, P m → m.handlers.get? e = some h →
    m.turn host c e h s = (rest, h', l, s') → P (m.record e h' l)
  timers : ∀ {m} ts, P m → P { m with timers := ts }
  locals : ∀ {m} l, P m → P { m with locals := l }
  inside : ∀ {m i st}, P m → m.script.states[i]? = some st → P (m.inside i st)
  outside : ∀ {m}, P m → P m.outside
  abort : ∀ {m} e g, P m → P (m.abort e g)

namespace Lasts

variable {host} {P : Machine → Prop} {m : Machine}

/-- **What lasts over turns** holds at every turn of a cue or a switch, and behind it. -/
theorem enter_cue (hP : Lasts host P) (n : Nat) :
    (∀ i m s, P m → (∀ t ∈ entryTurns host n i (m, s), P t.machine) ∧
      P (enter host n i (m, s)).2.1) ∧
    ∀ c e m s, P m → (∀ t ∈ cueTurns host n c e (m, s), P t.machine) ∧
      P (Machine.cue host (enter host n) c e (m, s)).2.1 := by
  refine turns_induct host
    (fun n i m s r ts => P m → (∀ t ∈ ts, P t.machine) ∧ P r.2.1)
    (fun n c e m s r ts => P m → (∀ t ∈ ts, P t.machine) ∧ P r.2.1)
    ?overflow ?dangling ?once ?twice ?absent ?failed ?settled ?waiting ?leaving n
  case overflow =>
    intro i m s hm
    exact ⟨by simp, hm⟩
  case dangling =>
    intro n i m s hst hm
    exact ⟨by simp, hm⟩
  case once =>
    intro n i m s st r m' s' ts hst hone h₁ hloop hm
    obtain ⟨hts, hm'⟩ := hloop (hP.inside hm hst)
    exact ⟨hts, hP.outside hm'⟩
  case twice =>
    intro n i m s st m₁ s₁ r m' s' ts₁ ts₂ hst hg h₁ hloop h₂ hentered hm
    obtain ⟨hts₁, hm₁⟩ := hloop (hP.inside hm hst)
    obtain ⟨hts₂, hm'⟩ := hentered hm₁
    refine ⟨fun t ht => ?_, hP.outside hm'⟩
    rcases List.mem_append.mp ht with ht | ht
    · exact hts₁ t ht
    · exact hts₂ t ht
  case absent =>
    intro n c e m s hn hm
    exact ⟨by simp, hm⟩
  case failed =>
    intro n c e m s h err h' l s' hh ht hm
    exact ⟨by simpa using hm, hP.turn hm hh ht⟩
  case settled =>
    intro n c e m s h h' l s' hh ht hm
    exact ⟨by simpa using hm, hP.turn hm hh ht⟩
  case waiting =>
    intro n c e m s h ms h' l s' hh ht hm
    exact ⟨by simpa using hm, hP.timers _ (hP.turn hm hh ht)⟩
  case leaving =>
    intro n c e m s h i h' l s' hh ht hent hm
    obtain ⟨hts, hm'⟩ := hent (hP.turn hm hh ht)
    refine ⟨fun t ht => ?_, hm'⟩
    rcases List.mem_cons.mp ht with rfl | ht
    · exact hm
    · exact hts t ht

/-- What lasts over turns holds behind one cue of a frame. -/
theorem cueOnce (hP : Lasts host P) (c : Cue) (g : Nat) (e : Event) (s : σ) (hm : P m) :
    P (cueOnce host c g e (m, s)).1 := by
  have hcue := ((hP.enter_cue (m.options.maxDepth - m.switchDepth)).2 c e m s hm).2
  rw [← cue_switchTo] at hcue
  rw [Machine.cueOnce]
  rcases hr : Machine.cue host (switchTo host) c e (m, s) with ⟨err | ⟨⟨⟩⟩, m', s'⟩
  · rw [hr] at hcue
    exact hP.abort e g hcue
  · rw [hr] at hcue
    exact hcue

/-- What lasts over turns holds at every turn of a round, and behind it. -/
theorem round (hP : Lasts host P) (c : Cue) (g : Nat) (es : List Event) (first : Option Error)
    (s : σ) (hm : P m) : (∀ t ∈ roundTurns host c g es (m, s), P t.machine) ∧
      P (cueAll host c g es first (m, s)).2.1 := by
  induction es generalizing first m s with
  | nil => exact ⟨by simp [roundTurns], hm⟩
  | cons e es ih =>
    by_cases hg : m.generation = g
    · obtain ⟨first', hcons⟩ := cueAll_cons host c e es first s hg
      obtain ⟨hts, hend⟩ := ih first' (Machine.cueOnce host c g e (m, s)).2 (hP.cueOnce c g e s hm)
      rw [hcons, roundTurns, if_pos hg]
      refine ⟨fun t ht => ?_, hend⟩
      rcases List.mem_append.mp ht with ht | ht
      · exact ((hP.enter_cue _).2 c e m s hm).1 t ht
      · exact hts t ht
    · rw [cueAll_of_left host c (e :: es) first s hg, roundTurns, if_neg hg]
      exact ⟨by simp, hm⟩

theorem select (hP : Lasts host P) (s : σ) (hm : P m) :
    (∀ t ∈ selectTurns host (m, s), P t.machine) ∧ P (select host (m, s)).2.1 := by
  rw [selectTurns, Machine.select]
  rcases choose m.script m.identity host (m.locals, s) with ⟨err | i, l, s'⟩
  · exact ⟨by simp, hP.locals l hm⟩
  · simp only
    split
    · exact ⟨by simp, hP.locals l hm⟩
    · exact (hP.enter_cue _).1 i { m with locals := l } s' (hP.locals l hm)

theorem trigger (hP : Lasts host P) (e : Event) (s : σ) (hm : P m) :
    (∀ t ∈ triggerTurns host e (m, s), P t.machine) ∧ P (trigger host e (m, s)).2.1 := by
  rw [triggerTurns, Machine.trigger]
  split
  · rw [cue_switchTo]
    exact (hP.enter_cue _).2 .run e m s hm
  · exact ⟨by simp, hm⟩

theorem activate (hP : Lasts host P) (s : σ) (hm : P m) :
    (∀ t ∈ activateTurns host (m, s), P t.machine) ∧ P (activate host (m, s)).2.1 := by
  rw [activateTurns, activate_eq]
  rcases seedSaved m.identity host m.script.vars s with ⟨err | ⟨⟨⟩⟩, s₁⟩
  · exact ⟨by simp, hm⟩
  · obtain ⟨hts, hm₂⟩ := hP.select s₁ hm
    simp only
    rcases hselect : Machine.select host (m, s₁) with ⟨err | ⟨⟨⟩⟩, m₂, s₂⟩
    · rw [hselect] at hm₂
      exact ⟨by simpa using hts, hm₂⟩
    · rw [hselect] at hm₂
      obtain ⟨hts', hm'⟩ := hP.trigger .spawn s₂ hm₂
      refine ⟨fun t ht => ?_, hm'⟩
      rcases List.mem_append.mp ht with ht | ht
      · exact hts t ht
      · exact hts' t ht

theorem newFrame (hP : Lasts host P) (dt : UInt64) (s : σ) (hm : P m) :
    (∀ t ∈ frameTurns host dt (m, s), P t.machine) ∧ P (newFrame host dt (m, s)).2.1 := by
  by_cases hact : m.isActive = true
  · obtain ⟨hts, hm₁⟩ := hP.round .newFrame m.generation m.handlers.events none s
      (hP.timers [] hm)
    rcases h₁ : cueAll host .newFrame m.generation m.handlers.events none
      ({ m with timers := [] }, s) with ⟨first, m₁, s₁⟩
    rw [h₁] at hm₁
    rw [newFrame_active host dt m s hact h₁]
    simp only [frameTurns, hact, if_true, h₁]
    split
    · obtain ⟨hts', hm'⟩ := hP.round .resume m.generation (m.fired dt) first s₁
        (hP.timers (m.unfired dt ++ m₁.timers) hm₁)
      refine ⟨fun t ht => ?_, hm'⟩
      rcases List.mem_append.mp ht with ht | ht
      · exact hts t ht
      · exact hts' t ht
    · exact ⟨by simpa using hts, hm₁⟩
  · rw [newFrame_inactive host dt m s hact]
    simp only [frameTurns, hact]
    exact ⟨by simp, hm⟩

/-- **What lasts** holds at every turn of an operation and, unless everything is forgotten, after
    the operation. -/
theorem perform (hP : Lasts host P) (op : Operation) (s : σ) (hm : P m) :
    (∀ t ∈ op.turns host (m, s), P t.machine) ∧
      (op ≠ .despawn → P (op.perform host (m, s)).2.1) := by
  cases op with
  | activate => exact ⟨(hP.activate s hm).1, fun _ => (hP.activate s hm).2⟩
  | trigger e => exact ⟨(hP.trigger e s hm).1, fun _ => (hP.trigger e s hm).2⟩
  | newFrame dt => exact ⟨(hP.newFrame dt s hm).1, fun _ => (hP.newFrame dt s hm).2⟩
  | select => exact ⟨(hP.select s hm).1, fun _ => (hP.select s hm).2⟩
  | despawn => exact ⟨by simp [Operation.turns], fun h => absurd rfl h⟩

end Lasts

end Machine

end ActorScript
