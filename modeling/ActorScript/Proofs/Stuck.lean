/-
  Handlers that are stuck.

  A handler that is running goes on with the next frame, or when its timer has run out.  If it
  does neither it is stuck (`Machine.Stuck`): no cue makes it execute, it can not be started anew,
  and that lasts until the state is left.

  A request that is refused leaves the handler in the middle of its work.  Only `newFrame` cleans
  up after that, and only for the handlers of the state in which the frame has begun: it stops
  them.  A handler that was started in any other way stays as it is, and is stuck.
  `never_stuck_iff` is the exact condition: throughout a history of calls no handler is stuck if
  and only if no call strands one (`Call.Strands`).
-/
import Mathlib
import ActorScript.Proofs.Refusal
import ActorScript.Proofs.Representation

namespace ActorScript

variable {σ : Type}

namespace Machine

/-- The handler for an event is running, but neither will the next frame let it go on nor is there
    a timer that will. -/
def Stuck (m : Machine) (e : Event) : Prop :=
  ∃ h, m.handlers.get? e = some h ∧ h.running = true ∧ h.waitingForFrame = false ∧
    ¬ (h.suspended = true ∧ ∃ t ∈ m.timers, t.event = e)

/-- A turn that does not come from another one. -/
def outermost (c : Cue) (e : Event) (x : Machine × σ) : Turn σ :=
  ⟨x.1.options.maxDepth - x.1.switchDepth, c, e, x.1, x.2⟩

/-! ## Cues in a frame -/

/-- Gives a cue to the handler for an event and stops it if that fails, unless another state has
    been entered since generation `g`. -/
def cueOnce (host : Host σ) (c : Cue) (g : Nat) (e : Event) (x : Machine × σ) : Machine × σ :=
  match cue host (switchTo host) c e x with
  | (.error _, m, s) => (m.abort e g, s)
  | (.ok (), m, s) => (m, s)

/-- A turn in a frame that was begun in generation `g`, where the handlers for some events get
    their cues one after the other. -/
inductive FrameTurn (host : Host σ) (c : Cue) (g : Nat) :
    List Event → Machine × σ → Turn σ → Prop
  | head {e : Event} {es : List Event} {x : Machine × σ} {t : Turn σ} (hg : x.1.generation = g)
      (hw : Turn.Within host (outermost c e x) t) : FrameTurn host c g (e :: es) x t
  | tail {e : Event} {es : List Event} {x : Machine × σ} {t : Turn σ} (hg : x.1.generation = g)
      (ht : FrameTurn host c g es (cueOnce host c g e x) t) : FrameTurn host c g (e :: es) x t

/-- A frame that was begun in generation `g` leads to a turn of the handler for an event whose
    request is refused, and this handler is one of another state. -/
def FrameStrands (host : Host σ) (c : Cue) (g : Nat) (es : List Event) (x : Machine × σ)
    (f : Event) : Prop :=
  ∃ t, FrameTurn host c g es x t ∧ t.Refused host ∧ t.event = f ∧ t.machine.generation ≠ g

variable {host : Host σ} {c : Cue} {e f : Event} {es : List Event} {m : Machine} {s : σ} {g : Nat}

theorem cueAll_cons (host : Host σ) (c : Cue) (e : Event) (es : List Event)
    (first : Option Error) (s : σ) (hg : m.generation = g) :
    ∃ first', cueAll host c g (e :: es) first (m, s) =
      cueAll host c g es first' (cueOnce host c g e (m, s)) := by
  rw [cueAll, if_pos hg, cueOnce]
  rcases cue host (switchTo host) c e (m, s) with ⟨err | ⟨⟨⟩⟩, m', s'⟩
  · exact ⟨first.or (some err), rfl⟩
  · exact ⟨first, rfl⟩

theorem Turn.generation_starts {n i : Nat} {t : Turn σ} (h : Starts host n i m s t) :
    t.machine.generation = m.generation + 1 ∧ ∃ st, m.script.states[i]? = some st := by
  cases h with
  | loop hst => exact ⟨rfl, _, hst⟩
  | enterState hst h₁ hg => exact ⟨hg, _, hst⟩

/-- The turns that a turn leads to are turns of handlers of other states. -/
theorem Turn.Within.eq_or_lt {t t' : Turn σ} (h : Turn.Within host t t') :
    t' = t ∨ t.machine.generation < t'.machine.generation := by
  induction h with
  | self t => exact .inl rfl
  | @inner t t₁ t' n i h l s hn hends hstarts hw ih =>
    have hlt : t.machine.generation < t₁.machine.generation := by
      rw [(Turn.generation_starts hstarts).1]
      exact Nat.lt_succ_self _
    rcases ih with rfl | hlt'
    · exact .inr hlt
    · exact .inr (Nat.lt_trans hlt hlt')

/-- If a turn leads to another one, the machine has left the state. -/
theorem generation_lt_of_within {n : Nat} {t : Turn σ} (h : Turn.Within host ⟨n, c, e, m, s⟩ t)
    (hne : t.machine.generation ≠ m.generation) :
    m.generation < (cue host (enter host n) c e (m, s)).2.1.generation := by
  cases h with
  | self => exact absurd rfl hne
  | @inner _ t₁ _ k i h l s' hn hends hstarts hw =>
    obtain ⟨h₀, hh, ht⟩ := hends
    obtain ⟨-, st, hst⟩ := Turn.generation_starts hstarts
    obtain rfl : n = k + 1 := hn
    have hh' : m.handlers.get? e = some h₀ := hh
    have ht' : m.turn host c e h₀ s = (.ok (.switch i), h, l, s') := ht
    rw [cue_of_some host hh', ht']
    exact generation_lt_enter (m := m.record e h l) host k s' hst

/-- A turn that is refused leaves the machine in the state. -/
theorem generation_of_refused {n : Nat} (hm : Phased m)
    (href : Turn.Refused host ⟨n, c, e, m, s⟩) :
    (cue host (enter host n) c e (m, s)).2.1.generation = m.generation := by
  cases href with
  | @declined h hh hd =>
    have hh' : m.handlers.get? e = some h := hh
    rcases ht : m.turn host c e h s with ⟨rest, h', l, s'⟩
    obtain ⟨⟨err, rfl⟩, -⟩ := (declined_turn_iff hm hh' ht).mp hd
    rw [cue_of_some host hh', ht]
    rfl
  | @overflow i h l s' h0 hends =>
    obtain ⟨h₀, hh, ht⟩ := hends
    obtain rfl : n = 0 := h0
    have hh' : m.handlers.get? e = some h₀ := hh
    have ht' : m.turn host c e h₀ s = (.ok (.switch i), h, l, s') := ht
    rw [cue_of_some host hh', ht']
    rfl

theorem accounts_cue (host : Host σ) (c : Cue) (e : Event) (s : σ) (hm : Phased m) :
    Accounts m (cue host (switchTo host) c e (m, s)).2.1 (cue host (switchTo host) c e (m, s)).1
      (Turn.Strands host (outermost c e (m, s)))
      ((cue host (switchTo host) c e (m, s)).2.1.generation = m.generation) := by
  rw [cue_switchTo]
  exact (accounts_enter_cue host _).2 c e m s hm

/-- A handler that is in the middle of its work does not fail when it gets a cue: it idles. -/
theorem not_midway_of_cue_error (hm : Phased m) {err : Error} {r : Machine × σ}
    (hr : cue host (switchTo host) c e (m, s) = (.error err, r)) : ¬ m.Midway e := by
  cases hh : m.handlers.get? e with
  | none =>
    rintro ⟨h, hh', -⟩
    rw [hh] at hh'
    cases hh'
  | some h =>
    rcases ht : m.turn host c e h s with ⟨rest, h', l, s'⟩
    obtain ⟨-, hnot, -, -⟩ := midway_turn hm hh ht
    rw [cue_of_some host hh, ht] at hr
    rcases rest with err' | (_ | ms | j)
    · exact hnot (.inl ⟨err', rfl⟩)
    · cases hr
    · cases hr
    · exact hnot (.inr ⟨j, rfl⟩)

theorem midway_abort (m : Machine) (e f : Event) :
    (m.abort e m.generation).Midway f ↔ f ≠ e ∧ m.Midway f := by
  have hget : (m.abort e m.generation).handlers.get? f =
      if f = e then (m.handlers.get? e).map Handler.reset else m.handlers.get? f := by
    rw [abort, if_pos rfl]
    cases hh : m.handlers.get? e with
    | none =>
      split
      · rename_i hf
        rw [hf]
        exact hh
      · rfl
    | some h => exact EventMap.get?_insert _ _ _ _
  rw [Midway, hget]
  by_cases hf : f = e
  · rw [if_pos hf]
    constructor
    · rintro ⟨h, hh, hp⟩
      obtain ⟨h₀, -, rfl⟩ := Option.map_eq_some_iff.mp hh
      cases hp
    · exact fun h => absurd hf h.1
  · rw [if_neg hf]
    exact ⟨fun h => ⟨hf, h⟩, fun h => h.2⟩

theorem Phased.abort (hm : Phased m) (e : Event) (g : Nat) : Phased (m.abort e g) := by
  rw [Machine.abort]
  split
  · cases hh : m.handlers.get? e with
    | none => exact hm
    | some h => exact hm.record (l := m.locals) (Handler.phase?_reset h)
  · exact hm

/-- While the state is the same, no turn has led to another one. -/
theorem eq_outermost_of_within (host : Host σ) (c : Cue) (e : Event) (m : Machine) (s : σ)
    (hg : (cue host (switchTo host) c e (m, s)).2.1.generation = m.generation) (t : Turn σ)
    (hw : Turn.Within host (outermost c e (m, s)) t) : t = outermost c e (m, s) := by
  rcases hw.eq_or_lt with rfl | hlt
  · rfl
  · have := generation_lt_of_within hw (Nat.ne_of_gt hlt)
    rw [← cue_switchTo, hg] at this
    exact absurd this (Nat.lt_irrefl _)

/-- Once the state has been left, the handlers in the middle of their work are those of other
    states whose requests were refused. -/
theorem midway_of_left (host : Host σ) (c : Cue) (e : Event) (s : σ) (hm : Phased m)
    (hlt : m.generation < (cue host (switchTo host) c e (m, s)).2.1.generation) (f : Event) :
    (cue host (switchTo host) c e (m, s)).2.1.Midway f ↔
      ∃ t, Turn.Within host (outermost c e (m, s)) t ∧ t.Refused host ∧ t.event = f ∧
        t.machine.generation ≠ m.generation := by
  rw [(accounts_cue host c e s hm).midway]
  constructor
  · rintro (⟨t, hw, href, hf⟩ | ⟨hg, -⟩)
    · refine ⟨t, hw, href, hf, ?_⟩
      rcases hw.eq_or_lt with rfl | hlt'
      · -- the outermost turn was not refused, or the machine would not have left the state
        have := generation_of_refused hm href
        rw [← cue_switchTo] at this
        exact absurd this (Nat.ne_of_gt hlt)
      · exact Nat.ne_of_gt hlt'
    · exact absurd hg (Nat.ne_of_gt hlt)
  · rintro ⟨t, hw, href, hf, -⟩
    exact .inl ⟨t, hw, href, hf⟩

/-- **One cue of a frame.**  Either the machine stays in the state and no handler has come to be in
    the middle of its work, or the state is left, and the handlers in the middle of their work are
    those of other states whose requests were refused. -/
theorem cueOnce_cases (host : Host σ) (c : Cue) (e : Event) (s : σ) (hm : Phased m) :
    Phased (cueOnce host c m.generation e (m, s)).1 ∧
      ((cueOnce host c m.generation e (m, s)).1.generation = m.generation ∧
          (∀ f, (cueOnce host c m.generation e (m, s)).1.Midway f ↔ m.Midway f) ∧
          (∀ t, Turn.Within host (outermost c e (m, s)) t → t.machine.generation = m.generation) ∨
        m.generation < (cueOnce host c m.generation e (m, s)).1.generation ∧
          ∀ f, (cueOnce host c m.generation e (m, s)).1.Midway f ↔
            ∃ t, Turn.Within host (outermost c e (m, s)) t ∧ t.Refused host ∧ t.event = f ∧
              t.machine.generation ≠ m.generation) := by
  have hacc := accounts_cue host c e s hm
  have hle : m.generation ≤ (cue host (switchTo host) c e (m, s)).2.1.generation := by
    rw [cue_switchTo]
    exact ((sameRun_enter_cue host _).2 c e m s).2
  have hown := eq_outermost_of_within host c e m s
  have hinner := midway_of_left host c e s hm
  rcases hr : cue host (switchTo host) c e (m, s) with ⟨err | ⟨⟨⟩⟩, m', s'⟩
  · rw [hr] at hacc hle hown hinner
    rw [cueOnce, hr]
    refine ⟨hacc.phased.abort e _, ?_⟩
    rcases Nat.eq_or_lt_of_le hle with hg | hlt
    · have hg' : m'.generation = m.generation := hg.symm
      refine .inl ⟨(generation_abort m' e _).trans hg', fun f => ?_, fun t hw => ?_⟩
      · -- the handler that has failed is stopped, and it was not in the middle of its work before
        show (m'.abort e m.generation).Midway f ↔ m.Midway f
        rw [← hg', midway_abort, hacc.midway]
        constructor
        · rintro ⟨hf, ⟨t, hw, -, hte⟩ | ⟨-, hmid⟩⟩
          · rw [hown hg' t hw] at hte
            exact absurd hte.symm hf
          · exact hmid
        · intro hmid
          refine ⟨?_, .inr ⟨hg', hmid⟩⟩
          rintro rfl
          exact not_midway_of_cue_error hm hr hmid
      · rw [hown hg' t hw]
        rfl
    · have hne : m'.generation ≠ m.generation := Nat.ne_of_gt hlt
      simp only [abort_of_left hne]
      exact .inr ⟨hlt, hinner hlt⟩
  · rw [hr] at hacc hle hown hinner
    rw [cueOnce, hr]
    refine ⟨hacc.phased, ?_⟩
    rcases Nat.eq_or_lt_of_le hle with hg | hlt
    · have hg' : m'.generation = m.generation := hg.symm
      refine .inl ⟨hg', fun f => ?_, fun t hw => ?_⟩
      · rw [hacc.midway]
        constructor
        · rintro (hf | ⟨-, hmid⟩)
          · obtain ⟨err, herr⟩ := hacc.error f hf
            cases herr
          · exact hmid
        · exact fun hmid => .inr ⟨hg', hmid⟩
      · rw [hown hg' t hw]
        rfl
    · exact .inr ⟨hlt, hinner hlt⟩

/-- **All cues of a frame**, with the same two cases as a single one. -/
theorem cueAll_cases (host : Host σ) (c : Cue) (es : List Event) (first : Option Error)
    (s : σ) (hm : Phased m) (hg : m.generation = g) :
    Phased (cueAll host c g es first (m, s)).2.1 ∧
      ((cueAll host c g es first (m, s)).2.1.generation = g ∧
          (∀ f, (cueAll host c g es first (m, s)).2.1.Midway f ↔ m.Midway f) ∧
          (∀ t, FrameTurn host c g es (m, s) t → t.machine.generation = g) ∨
        g < (cueAll host c g es first (m, s)).2.1.generation ∧
          ∀ f, (cueAll host c g es first (m, s)).2.1.Midway f ↔
            FrameStrands host c g es (m, s) f) := by
  induction es generalizing first m s with
  | nil =>
    refine ⟨hm, .inl ⟨hg, fun f => Iff.rfl, ?_⟩⟩
    intro t ht
    cases ht
  | cons e es ih =>
    obtain ⟨first', hcons⟩ := cueAll_cons host c e es first s hg
    rw [hcons]
    have honce := cueOnce_cases host c e s hm
    rw [hg] at honce
    rcases hx : cueOnce host c g e (m, s) with ⟨m', s'⟩
    rw [hx] at honce
    obtain ⟨hm', ⟨hg', hmid, hown⟩ | ⟨hlt, hmid⟩⟩ := honce
    · obtain ⟨hend, hcases⟩ := ih first' s' hm' hg'
      refine ⟨hend, ?_⟩
      rcases hcases with ⟨hstay, hmid', hown'⟩ | ⟨hlt, hmid'⟩
      · refine .inl ⟨hstay, fun f => (hmid' f).trans (hmid f), fun t ht => ?_⟩
        cases ht with
        | head _ hw => exact hown t hw
        | tail _ ht =>
          rw [hx] at ht
          exact hown' t ht
      · refine .inr ⟨hlt, fun f => (hmid' f).trans ?_⟩
        constructor
        · rintro ⟨t, ht, href, hf, hne⟩
          exact ⟨t, .tail hg (hx ▸ ht), href, hf, hne⟩
        · rintro ⟨t, ht, href, hf, hne⟩
          cases ht with
          | head _ hw => exact absurd (hown t hw) hne
          | tail _ ht =>
            rw [hx] at ht
            exact ⟨t, ht, href, hf, hne⟩
    · -- the state has been left, so this was the last cue
      have hne : m'.generation ≠ g := Nat.ne_of_gt hlt
      rw [cueAll_of_left host c es first' s' hne]
      refine ⟨hm', .inr ⟨hlt, fun f => (hmid f).trans ?_⟩⟩
      constructor
      · rintro ⟨t, hw, href, hf, hne⟩
        exact ⟨t, .head hg hw, href, hf, hne⟩
      · rintro ⟨t, ht, href, hf, hne⟩
        cases ht with
        | head _ hw => exact ⟨t, hw, href, hf, hne⟩
        | tail _ ht =>
          rw [hx] at ht
          cases ht with
          | head hg' _ => exact absurd hg' (Nat.ne_of_gt hlt)
          | tail hg' _ => exact absurd hg' (Nat.ne_of_gt hlt)

end Machine

/-! ## Operations -/

open Machine

/-- **An operation strands the handler for the event `f`**: the handler asks for a new choice of
    state, the request is refused, and nothing stops the handler. -/
inductive Operation.Strands (host : Host σ) (f : Event) : Operation → Machine → σ → Prop
  | trigger {e : Event} {m : Machine} {s : σ} (hact : m.isActive = true)
      (h : (outermost .run e (m, s)).Strands host f) : Strands host f (.trigger e) m s
  | select {m : Machine} {s s' : σ} {i : Nat} {l : Locals}
      (hc : choose m.script m.identity host (m.locals, s) = (.ok i, l, s'))
      (hne : m.current ≠ some i)
      (h : EntryStrands host (m.options.maxDepth - m.switchDepth) i { m with locals := l } s' f) :
      Strands host f .select m s
  | choosing {m : Machine} {s s₁ : σ}
      (hseed : seedSaved m.identity host m.script.vars s = (.ok (), s₁))
      (h : Strands host f .select m s₁) : Strands host f .activate m s
  | spawning {m m₂ : Machine} {s s₁ s₂ : σ}
      (hseed : seedSaved m.identity host m.script.vars s = (.ok (), s₁))
      (hselect : Machine.select host (m, s₁) = (.ok (), m₂, s₂))
      (h : Strands host f (.trigger .spawn) m₂ s₂) : Strands host f .activate m s
  | beginning {dt : UInt64} {m : Machine} {s : σ} (hact : m.isActive = true)
      (h : FrameStrands host .newFrame m.generation m.handlers.events ({ m with timers := [] }, s)
        f) : Strands host f (.newFrame dt) m s
  | resuming {dt : UInt64} {m m₁ : Machine} {s s₁ : σ} {first : Option Error}
      (hact : m.isActive = true)
      (h₁ : cueAll host .newFrame m.generation m.handlers.events none ({ m with timers := [] }, s) =
        (first, m₁, s₁))
      (hg : m₁.generation = m.generation)
      (h : FrameStrands host .resume m.generation (m.fired dt)
        ({ m₁ with timers := m.unfired dt ++ m₁.timers }, s₁) f) : Strands host f (.newFrame dt) m s

/-- A call strands the handler for the event `f`. -/
def Call.Strands (c : Call) (m : Machine) (f : Event) : Prop :=
  c.operation.Strands c.host f m c.state

namespace Machine

variable {host : Host σ} {f : Event} {m : Machine} {s : σ}

/-- What is said below of an operation: the handlers that are in the middle of their work
    afterwards are those it has stranded, and those that were before if the state is the same. -/
structure Leaves (host : Host σ) (op : Operation) (m : Machine) (s : σ) (m' : Machine) : Prop where
  phased : Phased m'
  midway : ∀ f, m'.Midway f ↔ op.Strands host f m s ∨ (m'.generation = m.generation ∧ m.Midway f)

/-- An operation that strands nothing and leaves the machine in its state. -/
theorem leaves_of_none {op : Operation} {m' : Machine} (hnone : ∀ f, ¬ op.Strands host f m s)
    (hhandlers : m'.handlers = m.handlers) (hg : m'.generation = m.generation) (hm : Phased m) :
    Leaves host op m s m' := by
  refine ⟨fun e h hh => hm e h (hhandlers ▸ hh), fun f => ?_⟩
  rw [Midway, hhandlers]
  exact ⟨fun h => .inr ⟨hg, h⟩, fun h => (h.resolve_left (hnone f)).2⟩

theorem leaves_trigger (host : Host σ) (e : Event) (s : σ) (hm : Phased m) :
    Leaves host (.trigger e) m s (trigger host e (m, s)).2.1 := by
  rw [trigger]
  split
  · rename_i hact
    have hacc := accounts_cue host .run e s hm
    refine ⟨hacc.phased, fun f => ?_⟩
    rw [hacc.midway]
    refine or_congr_left ⟨fun h => .trigger hact h, fun h => ?_⟩
    cases h with
    | trigger _ h => exact h
  · rename_i hact
    refine leaves_of_none (fun f h => ?_) rfl rfl hm
    cases h with
    | trigger hact' h => exact hact hact'

/-- A selection strands handlers only by entering the state it has chosen. -/
theorem strands_select_iff {r : Except Error Nat} {l : Locals} {s' : σ}
    (hc : choose m.script m.identity host (m.locals, s) = (r, l, s')) :
    Operation.Strands host f .select m s ↔ ∃ i, r = .ok i ∧ m.current ≠ some i ∧
      EntryStrands host (m.options.maxDepth - m.switchDepth) i { m with locals := l } s' f := by
  constructor
  · intro h
    cases h with
    | select hc' hne h =>
      cases hc.symm.trans hc'
      exact ⟨_, rfl, hne, h⟩
  · rintro ⟨i, rfl, hne, h⟩
    exact .select hc hne h

/-- A selection that strands a handler fails. -/
theorem leaves_select (host : Host σ) (s : σ) (hm : Phased m) :
    Leaves host .select m s (select host (m, s)).2.1 ∧
      ∀ f, Operation.Strands host f .select m s → ∃ err, (select host (m, s)).1 = .error err := by
  rw [select]
  rcases hc : choose m.script m.identity host (m.locals, s) with ⟨err | i, l, s'⟩
  · exact ⟨leaves_of_none (fun f h => by simpa using (strands_select_iff hc).mp h) rfl rfl hm,
      fun f _ => ⟨err, rfl⟩⟩
  · have hstrands : ∀ f, Operation.Strands host f .select m s ↔ m.current ≠ some i ∧
        EntryStrands host (m.options.maxDepth - m.switchDepth) i { m with locals := l } s' f := by
      intro f
      rw [strands_select_iff hc]
      simp
    simp only
    by_cases hi : m.current = some i
    · have hnone : ∀ f, ¬ Operation.Strands host f .select m s :=
        fun f h => ((hstrands f).mp h).1 hi
      rw [if_pos hi]
      exact ⟨leaves_of_none hnone rfl rfl hm, fun f h => absurd h (hnone f)⟩
    · rw [if_neg hi, switchTo]
      simp only
      generalize m.options.maxDepth - m.switchDepth = n at hstrands ⊢
      obtain ⟨st, hst⟩ := exists_of_choose host hc
      have hm' : Phased { m with locals := l } := hm
      have hacc := (accounts_enter_cue host n).1 i { m with locals := l } s' hm' ⟨st, hst⟩
      -- the machine is still in its state only if no switch was allowed
      have hstay : n = 0 ↔
          (enter host n i ({ m with locals := l }, s')).2.1.generation = m.generation := by
        cases n with
        | zero => exact ⟨fun _ => rfl, fun _ => rfl⟩
        | succ n =>
          have hlt := generation_lt_enter (m := { m with locals := l }) host n s' hst
          exact ⟨fun h => absurd h (Nat.succ_ne_zero n), fun h => absurd h (Nat.ne_of_gt hlt)⟩
      refine ⟨⟨hacc.phased, fun f => ?_⟩, fun f hf => hacc.error f ((hstrands f).mp hf).2⟩
      rw [hstrands, hacc.midway, hstay, and_iff_right hi]
      rfl

/-- An activation strands the handlers that the selection or the spawning strands. -/
theorem strands_activate_iff {s₁ : σ}
    (hseed : seedSaved m.identity host m.script.vars s = (.ok (), s₁)) :
    Operation.Strands host f .activate m s ↔ Operation.Strands host f .select m s₁ ∨
      ∃ m₂ s₂, select host (m, s₁) = (.ok (), m₂, s₂) ∧
        Operation.Strands host f (.trigger .spawn) m₂ s₂ := by
  constructor
  · intro h
    cases h with
    | choosing hseed' h =>
      cases hseed.symm.trans hseed'
      exact .inl h
    | spawning hseed' hselect h =>
      cases hseed.symm.trans hseed'
      exact .inr ⟨_, _, hselect, h⟩
  · rintro (h | ⟨m₂, s₂, hselect, h⟩)
    · exact .choosing hseed h
    · exact .spawning hseed hselect h

theorem leaves_activate (host : Host σ) (s : σ) (hm : Phased m) :
    Leaves host .activate m s (activate host (m, s)).2.1 := by
  rw [activate_eq]
  rcases hseed : seedSaved m.identity host m.script.vars s with ⟨err | ⟨⟨⟩⟩, s₁⟩
  · refine leaves_of_none (fun f h => ?_) rfl rfl hm
    cases h with
    | choosing hseed' h => cases hseed.symm.trans hseed'
    | spawning hseed' hselect h => cases hseed.symm.trans hseed'
  · obtain ⟨hchoice, herror⟩ := leaves_select host s₁ hm
    rcases hselect : select host (m, s₁) with ⟨err | ⟨⟨⟩⟩, m₂, s₂⟩
    · rw [hselect] at hchoice
      simp only [hselect]
      refine ⟨hchoice.phased, fun f => ?_⟩
      rw [strands_activate_iff hseed, hchoice.midway, hselect]
      simp
    · rw [hselect] at hchoice herror
      simp only [hselect]
      have hspawn := leaves_trigger (m := m₂) host .spawn s₂ hchoice.phased
      -- the selection has succeeded, so it has stranded nothing
      have hquiet : ∀ f, ¬ Operation.Strands host f .select m s₁ := by
        intro f h
        obtain ⟨err, herr⟩ := herror f h
        cases herr
      have hle₁ : m.generation ≤ m₂.generation := by
        have := generation_le_select host m s₁
        rwa [hselect] at this
      have hle₂ := generation_le_trigger host .spawn m₂ s₂
      have hstay : (trigger host .spawn (m₂, s₂)).2.1.generation = m.generation ↔
          (trigger host .spawn (m₂, s₂)).2.1.generation = m₂.generation ∧
            m₂.generation = m.generation := by
        omega
      refine ⟨hspawn.phased, fun f => ?_⟩
      rw [strands_activate_iff hseed, hspawn.midway, hchoice.midway, hselect, hstay]
      simp [hquiet, and_assoc]

/-- A frame strands the handlers that one of its two rounds of cues strands. -/
theorem strands_newFrame_iff {dt : UInt64} {first : Option Error} {m₁ : Machine} {s₁ : σ}
    (hact : m.isActive = true)
    (h₁ : cueAll host .newFrame m.generation m.handlers.events none ({ m with timers := [] }, s) =
      (first, m₁, s₁)) :
    Operation.Strands host f (.newFrame dt) m s ↔
      FrameStrands host .newFrame m.generation m.handlers.events ({ m with timers := [] }, s) f ∨
      m₁.generation = m.generation ∧ FrameStrands host .resume m.generation (m.fired dt)
        ({ m₁ with timers := m.unfired dt ++ m₁.timers }, s₁) f := by
  constructor
  · intro h
    cases h with
    | beginning _ h => exact .inl h
    | resuming _ h₁' hg h =>
      cases h₁.symm.trans h₁'
      exact .inr ⟨hg, h⟩
  · rintro (h | ⟨hg, h⟩)
    · exact .beginning hact h
    · exact .resuming hact h₁ hg h

/-- A round of cues that ends in the same state has stranded nothing. -/
theorem not_frameStrands {c : Cue} {g : Nat} {es : List Event} {x : Machine × σ}
    (hown : ∀ t, FrameTurn host c g es x t → t.machine.generation = g) :
    ¬ FrameStrands host c g es x f := by
  rintro ⟨t, ht, -, -, hne⟩
  exact hne (hown t ht)

theorem leaves_newFrame (host : Host σ) (dt : UInt64) (s : σ) (hm : Phased m) :
    Leaves host (.newFrame dt) m s (newFrame host dt (m, s)).2.1 := by
  by_cases hact : m.isActive = true
  · have hbare : Phased { m with timers := [] } := hm
    rcases h₁ : cueAll host .newFrame m.generation m.handlers.events none
      ({ m with timers := [] }, s) with ⟨first, m₁, s₁⟩
    have hfirst := cueAll_cases host .newFrame m.handlers.events none s hbare
      (g := m.generation) rfl
    rw [h₁] at hfirst
    rw [newFrame_active host dt m s hact h₁]
    obtain ⟨hm₁, ⟨hg, hmid, hown⟩ | ⟨hlt, hmid⟩⟩ := hfirst
    · have hg₁ : m₁.generation = m.generation := hg
      have hmid₂ : ∀ f, Midway { m₁ with timers := m.unfired dt ++ m₁.timers } f ↔ m.Midway f :=
        hmid
      have hm₂ : Phased { m₁ with timers := m.unfired dt ++ m₁.timers } := hm₁
      rw [if_pos hg₁]
      obtain ⟨hm₃, hcases⟩ := cueAll_cases host .resume (m.fired dt) first s₁ hm₂ hg₁
      refine ⟨hm₃, fun f => ?_⟩
      -- the first round has stranded nothing, so it is the second that counts
      rw [strands_newFrame_iff hact h₁, or_iff_right (not_frameStrands hown), and_iff_right hg₁,
        ← hmid₂]
      rcases hcases with ⟨hg₃, hmid₃, hown₃⟩ | ⟨hlt, hmid₃⟩
      · rw [or_iff_right (not_frameStrands hown₃)]
        exact (hmid₃ f).trans (and_iff_right hg₃).symm
      · refine (hmid₃ f).trans (or_iff_left ?_).symm
        exact fun h => Nat.ne_of_gt hlt h.1
    · have hne : m₁.generation ≠ m.generation := Nat.ne_of_gt hlt
      rw [if_neg hne]
      refine ⟨hm₁, fun f => ?_⟩
      rw [strands_newFrame_iff hact h₁]
      simpa only [hne, false_and, or_false] using hmid f
  · rw [newFrame_inactive host dt m s hact]
    refine leaves_of_none (fun f h => ?_) rfl rfl hm
    cases h with
    | beginning hact' _ => exact hact hact'
    | resuming hact' _ _ _ => exact hact hact'

/-- **Every operation** leaves exactly those handlers in the middle of their work that it has
    stranded, apart from those that were there before. -/
theorem leaves_perform (host : Host σ) (op : Operation) (s : σ) (hm : Phased m) :
    Leaves host op m s (op.perform host (m, s)).2.1 := by
  cases op with
  | activate => exact leaves_activate host s hm
  | trigger e => exact leaves_trigger host e s hm
  | newFrame dt => exact leaves_newFrame host dt s hm
  | select => exact (leaves_select host s hm).1
  | despawn =>
    have hempty : ∀ e h, m.despawn.handlers.get? e ≠ some h := by
      intro e h hh
      rw [despawn, EventMap.get?_empty] at hh
      cases hh
    refine ⟨fun e h hh => absurd hh (hempty e h), fun f => ⟨?_, ?_⟩⟩
    · rintro ⟨h, hh, -⟩
      exact absurd hh (hempty f h)
    · rintro (h | ⟨hg, -⟩)
      · cases h
      · exact absurd hg (Nat.succ_ne_self _)

/-! ## Stuck handlers -/

/-- Between two calls a handler is stuck if and only if it is in the middle of its work: one that
    is suspended has a timer. -/
theorem stuck_iff_midway {e : Event} (hs : Sound [] m) : m.Stuck e ↔ m.Midway e := by
  constructor
  · rintro ⟨h, hh, hr, hw, hnot⟩
    refine ⟨h, hh, Handler.phase?_midway_iff.mpr ⟨hr, hw, ?_⟩⟩
    cases hsus : h.suspended with
    | false => rfl
    | true =>
      have hcount := hs.timers e
      rw [awaitsTimer, hh, Option.any_some, hsus, if_pos rfl, List.nil_append] at hcount
      have hpos : 0 < (m.timers.map (·.event)).count e := by
        rw [hcount]
        exact Nat.one_pos
      obtain ⟨t, ht, hte⟩ := List.mem_map.mp (List.count_pos_iff.mp hpos)
      exact absurd ⟨hsus, t, ht, hte⟩ hnot
  · rintro ⟨h, hh, hp⟩
    obtain ⟨hr, hw, hsus⟩ := Handler.phase?_midway_iff.mp hp
    refine ⟨h, hh, hr, hw, ?_⟩
    rintro ⟨hsus', -⟩
    rw [hsus] at hsus'
    cases hsus'

/-- A handler is stuck after a call if the call has stranded it, or if it was stuck before and the
    state is still the same. -/
theorem stuck_next_iff {e : Event} (hs : Sound [] m) (c : Call) :
    (m.next c).Stuck e ↔
      c.Strands m e ∨ ((m.next c).generation = m.generation ∧ m.Stuck e) := by
  have hm : Phased m := fun e h hh => (hs.coherent e h hh).2
  rw [stuck_iff_midway (hs.next c), stuck_iff_midway hs]
  exact (leaves_perform c.host c.operation c.state hm).midway e

/-- **No handler is ever stuck** in a history of calls if and only if none of the calls strands a
    handler. -/
theorem never_stuck_iff {script : Script} {identity : Identity} {options : MachineOptions}
    (h : create script identity options = .ok m) (cs : List Call) :
    (∀ pre, pre <+: cs → ∀ e, ¬ (m.after pre).Stuck e) ↔
      ∀ pre c, pre ++ [c] <+: cs → ∀ e, ¬ c.Strands (m.after pre) e := by
  have hsound : ∀ pre, Sound [] (m.after pre) :=
    after_induct (P := fun m' => Sound [] m') (fun m' c hs => hs.next c) (sound_of_create h).1
  constructor
  · intro hnever pre c hpre e hstrands
    refine hnever (pre ++ [c]) hpre e ?_
    rw [after_concat, stuck_next_iff (hsound pre)]
    exact .inl hstrands
  · intro hnone pre
    -- from the front: a handler is not stuck before, so only the last call can have stranded it
    induction pre using List.reverseRecOn with
    | nil =>
      intro _ e
      rw [after, stuck_iff_midway (sound_of_create h).1]
      rintro ⟨hd, hh, -⟩
      rw [create_eq_ok h, EventMap.get?_empty] at hh
      cases hh
    | append_singleton pre c ih =>
      intro hpre e
      rw [after_concat, stuck_next_iff (hsound pre)]
      rintro (hstrands | ⟨-, hstuck⟩)
      · exact hnone pre c hpre e hstrands
      · exact ih ((List.prefix_append pre [c]).trans hpre) e hstuck

/-- A script whose only state ends with the first statement of its handler, and no other holds. -/
def lamp : Script where
  vars := [{ name := "n", persisted := false, initial := some (.int 0), location := ⟨1, 1⟩ }]
  states := [
    { name := "S", condition := .binary .equal (.symbol "n") (.literal (.int 0)),
      handlers := { actionPressed := some 0 }, location := ⟨1, 12⟩ }]
  blocks := [
    [.assign (.symbol "n") (.literal (.int 1)) ⟨1, 54⟩,
      .call "print" [.literal (.string "x")] ⟨1, 61⟩]]

/-- The lamp before anything is done with it. -/
def unlit : Machine :=
  { script := lamp, identity := ⟨"town", some "Bob"⟩, options := {}, locals := .initial lamp }

/-- Activating the lamp and pressing it. -/
def press : List Call :=
  [⟨Recording.recordingHost [], { parameters := .empty, saved := .empty }, .activate⟩,
    ⟨Recording.recordingHost [], { parameters := .empty, saved := .empty },
      .trigger .actionPressed⟩]

theorem flags_press : ((unlit.after press).handlers.get? .actionPressed).map
    (fun h => (h.running, h.waitingForFrame, h.suspended)) = some (true, false, false) := by
  cbv

/-- After the lamp has been pressed no state can be chosen, and its handler is stuck. -/
theorem stuck_press : create lamp ⟨"town", some "Bob"⟩ {} = .ok unlit ∧
    (unlit.after press).Stuck .actionPressed := by
  obtain ⟨h, hh, hflags⟩ := Option.map_eq_some_iff.mp flags_press
  simp only [Prod.mk.injEq] at hflags
  obtain ⟨hr, hw, hs⟩ := hflags
  exact ⟨rfl, h, hh, hr, hw, by simp [hs]⟩

theorem exists_strands_press : ∃ pre c e, pre ++ [c] <+: press ∧ c.Strands (unlit.after pre) e := by
  have h : create lamp ⟨"town", some "Bob"⟩ {} = .ok unlit := rfl
  refine Classical.byContradiction fun hnone => ?_
  have hnever := (never_stuck_iff h press).mpr fun pre c hpre e hstrands =>
    hnone ⟨pre, c, e, hpre, hstrands⟩
  obtain ⟨hd, hh, hflags⟩ := Option.map_eq_some_iff.mp flags_press
  simp only [Prod.mk.injEq] at hflags
  obtain ⟨hr, hw, hs⟩ := hflags
  exact hnever press (List.prefix_refl press) .actionPressed ⟨hd, hh, hr, hw, by simp [hs]⟩

end Machine

end ActorScript
