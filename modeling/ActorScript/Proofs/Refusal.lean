/-
  Refused requests, and what they do to a handler.

  A handler that asks for a new choice of state is in the middle of its work until it gets an
  answer.  There are two ways not to get one: the choice fails (`Handler.Declined`), or another
  state would have to be entered and no more switches are allowed.  In both cases the turn ends
  with an error and the handler is left as it is.

  A turn may lead to further turns, those of the handlers that start in an entered state, and so
  on; `Turn.Within` says which turns these are.  The result of this file is an exact account of
  the handlers that are in the middle of their work after a cue (`midway_cue_iff`): those whose
  requests were refused in one of the turns, and those that were there before, unless the state
  has been left.
-/
import ActorScript.Proofs.Turn

namespace ActorScript

variable {σ : Type}

/-! ## Requests that are declined -/

namespace Handler

/-- The handler has come to rest with a request for a new choice of state, and the choice fails,
    this time or after it has stayed the same and the handler has gone on. -/
inductive Declined (script : Script) (ctx : Context σ) (choose : Action σ Nat)
    (current : Option Nat) : Except Error Outcome × Handler × σ → Prop
  | now {h : Handler} {s s' : σ} {err : Error} (hc : choose s = (.error err, s')) :
      Declined script ctx choose current (.ok .reselect, h, s)
  | later {h : Handler} {s s' : σ} {i : Nat} (hc : choose s = (.ok i, s'))
      (hi : current = some i) (hd : Declined script ctx choose current (h.proceed script ctx s')) :
      Declined script ctx choose current (.ok .reselect, h, s)

variable {script : Script} {ctx : Context σ} {choose : Action σ Nat} {current : Option Nat}

/-- A handler that has come to rest after executing is left in the middle of its work by an error
    if and only if its request is declined; an error of a statement stops it. -/
theorem declined_iff (x : Except Error Outcome × Handler × σ)
    (hx : x.2.1.phase? = some (Phase.after x.1) ∧ x.1 ≠ .ok .idle) :
    Declined script ctx choose current x ↔
      (∃ err, (conclude script ctx choose current x).1 = .error err) ∧
        (conclude script ctx choose current x).2.1.phase? = some .midway := by
  revert hx
  refine conclude_induct script ctx choose current
    (motive := fun x r => (x.2.1.phase? = some (Phase.after x.1) ∧ x.1 ≠ .ok .idle) →
      (Declined script ctx choose current x ↔
        (∃ err, r.1 = .error err) ∧ r.2.1.phase? = some .midway)) ?_ ?_ ?_ ?_ ?_ ?_ x
  · intro e h s hx
    constructor
    · intro hd
      cases hd
    · rintro ⟨-, hm⟩
      have hstop : h.phase? = some .stopped := hx.1
      rw [hstop] at hm
      cases hm
  · intro o h s ho hx
    constructor
    · intro hd
      rcases ho with rfl | rfl | rfl <;> cases hd
    · rintro ⟨⟨err, herr⟩, -⟩
      cases herr
  · intro ms h s hx
    constructor
    · intro hd
      cases hd
    · rintro ⟨⟨err, herr⟩, -⟩
      cases herr
  · intro h s e s' hc hx
    exact ⟨fun _ => ⟨⟨e, rfl⟩, hx.1⟩, fun _ => .now hc⟩
  · intro h s i s' hc hne hx
    constructor
    · intro hd
      cases hd with
      | now hc' =>
        rw [hc] at hc'
        cases hc'
      | later hc' hi hd =>
        rw [hc] at hc'
        cases hc'
        exact absurd hi hne
    · rintro ⟨⟨err, herr⟩, -⟩
      cases herr
  · intro h s i s' r hc hi ih hx
    have hp := proceed_of_midway script ctx s' hx.1
    rw [← ih (hp ▸ phase_execute script ctx h s' hx.1)]
    constructor
    · intro hd
      cases hd with
      | now hc' =>
        rw [hc] at hc'
        cases hc'
      | later hc' hi' hd =>
        rw [hc] at hc'
        cases hc'
        exact hd
    · exact fun hd => .later hc hi hd

end Handler

namespace Machine

/-! ## Turns and the turns they lead to -/

/-- A turn of a handler: while how many switches are allowed it is given, with which cue, to the
    handler for which event, and the machine and the host at that moment. -/
structure Turn (σ : Type) where
  allowed : Nat
  cue : Cue
  event : Event
  machine : Machine
  state : σ

/-- The turns with which entering the state with index `i` begins, while `n` more switches are
    allowed: that of the handler for `loop`, and that of the handler for `enterState` if the first
    one has left the machine in the state. -/
inductive Starts (host : Host σ) (n i : Nat) (m : Machine) (s : σ) : Turn σ → Prop
  | loop {st : State} (hst : m.script.states[i]? = some st) :
      Starts host n i m s ⟨n, .run, .loop, m.inside i st, s⟩
  | enterState {st : State} {m₁ : Machine} {s₁ : σ} (hst : m.script.states[i]? = some st)
      (h₁ : Machine.cue host (enter host n) .run .loop (m.inside i st, s) = (.ok (), m₁, s₁))
      (hg : m₁.generation = (m.inside i st).generation) :
      Starts host n i m s ⟨n, .run, .enterState, m₁, s₁⟩

namespace Turn

/-- The turn ends with a result, the handler, the locals and the host as they are then. -/
def Ends (host : Host σ) (t : Turn σ) (r : Except Error Rest × Handler × Locals × σ) : Prop :=
  ∃ h, t.machine.handlers.get? t.event = some h ∧
    t.machine.turn host t.cue t.event h t.state = r

/-- `t'` is the turn `t`, or one of those it leads to. -/
inductive Within (host : Host σ) : Turn σ → Turn σ → Prop
  | self (t : Turn σ) : Within host t t
  | inner {t t₁ t' : Turn σ} {n i : Nat} {h : Handler} {l : Locals} {s : σ}
      (hn : t.allowed = n + 1) (hends : t.Ends host (.ok (.switch i), h, l, s))
      (hstarts : Starts host n i (t.machine.record t.event h l) s t₁)
      (hwithin : Within host t₁ t') : Within host t t'

/-- The request of the handler for a new choice of state is refused: the choice fails, or it is
    another state and no switch is allowed. -/
inductive Refused (host : Host σ) (t : Turn σ) : Prop
  | declined {h : Handler} (hh : t.machine.handlers.get? t.event = some h)
      (hd : Handler.Declined t.machine.script (t.machine.contextFor host t.event)
        (choose t.machine.script t.machine.identity host) t.machine.current
        (h.obey t.machine.script (t.machine.contextFor host t.event) (t.machine.locals, t.state)
          t.cue)) : Refused host t
  | overflow {i : Nat} {h : Handler} {l : Locals} {s : σ} (h0 : t.allowed = 0)
      (hends : t.Ends host (.ok (.switch i), h, l, s)) : Refused host t

/-- The turn, or one it leads to, is a turn of the handler for an event whose request is
    refused. -/
def Strands (host : Host σ) (t : Turn σ) (f : Event) : Prop :=
  ∃ t', Within host t t' ∧ t'.Refused host ∧ t'.event = f

end Turn

/-- Entering a state leads to a turn of the handler for an event whose request is refused. -/
def EntryStrands (host : Host σ) (n i : Nat) (m : Machine) (s : σ) (f : Event) : Prop :=
  ∃ k t, n = k + 1 ∧ Starts host k i m s t ∧ t.Strands host f

/-! ## Handlers in the middle of their work -/

/-- The handler for an event is in the middle of its work. -/
def Midway (m : Machine) (e : Event) : Prop :=
  ∃ h, m.handlers.get? e = some h ∧ h.phase? = some .midway

/-- Every handler is in a phase. -/
def Phased (m : Machine) : Prop := ∀ e h, m.handlers.get? e = some h → ∃ p, h.phase? = some p

variable {m : Machine} {e f : Event} {h : Handler} {l : Locals}

theorem midway_record : (m.record e h l).Midway f ↔
    if f = e then h.phase? = some .midway else m.Midway f := by
  rw [Midway, get?_record]
  by_cases hf : f = e
  · rw [if_pos hf, if_pos hf]
    constructor
    · rintro ⟨h', hh, hp⟩
      cases hh
      exact hp
    · exact fun hp => ⟨h, rfl, hp⟩
  · rw [if_neg hf, if_neg hf]
    rfl

theorem Phased.record (hm : Phased m) {p : Phase} (hp : h.phase? = some p) :
    Phased (m.record e h l) := by
  intro f h' hh
  rw [get?_record] at hh
  split at hh
  · cases hh
    exact ⟨p, hp⟩
  · exact hm f h' hh

/-- A fresh handler is stopped. -/
theorem phase_inside {i : Nat} {st : State}
    (hh : (m.inside i st).handlers.get? e = some h) : h.phase? = some .stopped := by
  rw [get?_inside] at hh
  obtain ⟨entry, -, rfl⟩ := Option.map_eq_some_iff.mp hh
  rfl

theorem phased_inside (m : Machine) (i : Nat) (st : State) : Phased (m.inside i st) :=
  fun _ _ hh => ⟨.stopped, phase_inside hh⟩

theorem not_midway_inside (m : Machine) (i : Nat) (st : State) (f : Event) :
    ¬ (m.inside i st).Midway f := by
  rintro ⟨h, hh, hm⟩
  rw [phase_inside hh] at hm
  cases hm

variable {host : Host σ} {n i : Nat} {c : Cue} {s s' : σ} {h' : Handler} {st : State}

/-- **Which turns leave their handler in the middle of its work** although it was not there: those
    that end with a state to enter, and those in which a request is declined. -/
theorem midway_turn (hm : Phased m) (hh : m.handlers.get? e = some h)
    {rest : Except Error Rest} (ht : m.turn host c e h s = (rest, h', l, s')) :
    (∃ p, h'.phase? = some p) ∧
      ((∃ err, rest = .error err) ∨ (∃ j, rest = .ok (.switch j)) → ¬ m.Midway e) ∧
      ((∃ j, rest = .ok (.switch j)) → h'.phase? = some .midway) ∧
      (rest = .ok .settled ∨ (∃ ms, rest = .ok (.waiting ms)) →
        (h'.phase? = some .midway ↔ m.Midway e)) := by
  obtain ⟨p, hp⟩ := hm e h hh
  have hmidway : m.Midway e ↔ p = .midway := by
    constructor
    · rintro ⟨h₂, hh₂, hp₂⟩
      rw [hh] at hh₂
      cases hh₂
      rw [hp] at hp₂
      exact Option.some.inj hp₂
    · rintro rfl
      exact ⟨h, hh, hp⟩
  rcases (turn_cases host hp ht).2 with ⟨-, rfl, hp'⟩ | ⟨hwakes, q, hq, hfits⟩
  · refine ⟨⟨p, hp'⟩, ?_, ?_, fun _ => ?_⟩
    · rintro (⟨err, herr⟩ | ⟨j, hj⟩)
      · cases herr
      · cases hj
    · rintro ⟨j, hj⟩
      cases hj
    · rw [hp', hmidway]
      exact ⟨Option.some.inj, congrArg some⟩
  · -- a handler in the middle of its work is not woken by any cue
    have hnot : p ≠ .midway := by
      rintro rfl
      cases c with
      | run => cases hwakes
      | newFrame => rcases hwakes with hw | hw <;> cases hw
      | resume => cases hwakes
    refine ⟨⟨q, hq⟩, fun _ hmid => hnot (hmidway.mp hmid), ?_, ?_⟩
    · rintro ⟨j, rfl⟩
      obtain rfl : q = .midway := hfits
      exact hq
    · intro hrest
      have hqne : q ≠ .midway := by
        rintro rfl
        rcases hrest with rfl | ⟨ms, rfl⟩
        · rcases hfits with hq' | hq' <;> cases hq'
        · cases hfits
      constructor
      · intro hq'
        rw [hq] at hq'
        exact absurd (Option.some.inj hq') hqne
      · exact fun hmid => absurd (hmidway.mp hmid) hnot

/-- **A declined request** shows in how the turn ends. -/
theorem declined_turn_iff (hm : Phased m) (hh : m.handlers.get? e = some h)
    {rest : Except Error Rest} (ht : m.turn host c e h s = (rest, h', l, s')) :
    Handler.Declined m.script (m.contextFor host e) (choose m.script m.identity host) m.current
        (h.obey m.script (m.contextFor host e) (m.locals, s) c) ↔
      (∃ err, rest = .error err) ∧ h'.phase? = some .midway := by
  obtain ⟨p, hp⟩ := hm e h hh
  rw [turn, Handler.settle_eq] at ht
  rcases Handler.obey_cases m.script (m.contextFor host e) c h (m.locals, s) hp with
    ⟨-, hidle, -⟩ | ⟨-, h₁, hm₁, -, ho⟩
  · -- a handler that idles does not ask for anything
    rcases hr : h.obey m.script (m.contextFor host e) (m.locals, s) c with ⟨o, h₂, x⟩
    rw [hr] at ht hidle
    obtain rfl : o = .ok .idle := hidle
    cases ht
    constructor
    · intro hd
      cases hd
    · rintro ⟨⟨err, herr⟩, -⟩
      cases herr
  · have hx := Handler.phase_execute m.script (m.contextFor host e) h₁ (m.locals, s) hm₁
    rw [← ho] at hx
    rw [Handler.declined_iff _ hx, ht]

/-! ## What a cue leaves behind -/

theorem not_strands_of_absent (hn : m.handlers.get? e = none) :
    ¬ Turn.Strands host ⟨n, c, e, m, s⟩ f := by
  have hends : ∀ r, ¬ Turn.Ends host ⟨n, c, e, m, s⟩ r := by
    rintro r ⟨h, hh, -⟩
    have hh' : m.handlers.get? e = some h := hh
    rw [hn] at hh'
    cases hh'
  rintro ⟨t, hwithin, href, -⟩
  cases hwithin with
  | self =>
    cases href with
    | declined hh hd =>
      have hh' : m.handlers.get? e = some _ := hh
      rw [hn] at hh'
      cases hh'
    | overflow h0 hends' => exact hends _ hends'
  | inner hk hends' hstarts hw => exact hends _ hends'

/-- A turn that does not end with a state to enter leads to no other. -/
theorem strands_iff_of_stay (hm : Phased m) (hh : m.handlers.get? e = some h)
    {rest : Except Error Rest} (ht : m.turn host c e h s = (rest, h', l, s'))
    (hstay : ∀ j, rest ≠ .ok (.switch j)) :
    Turn.Strands host ⟨n, c, e, m, s⟩ f ↔
      ((∃ err, rest = .error err) ∧ h'.phase? = some .midway) ∧ f = e := by
  -- no state is entered, so the turn leads to itself alone
  have hends : ∀ j h₂ l₂ s₂, ¬ Turn.Ends host ⟨n, c, e, m, s⟩ (.ok (.switch j), h₂, l₂, s₂) := by
    rintro j h₂ l₂ s₂ ⟨h₃, hh₃, ht₃⟩
    cases hh.symm.trans hh₃
    cases ht.symm.trans ht₃
    exact hstay j rfl
  rw [← declined_turn_iff hm hh ht]
  constructor
  · rintro ⟨t, hwithin, href, hf⟩
    cases hwithin with
    | self =>
      cases href with
      | declined hh₂ hd =>
        cases hh.symm.trans hh₂
        exact ⟨hd, hf.symm⟩
      | overflow h0 hends' => exact absurd hends' (hends _ _ _ _)
    | inner hk hends' hstarts hw => exact absurd hends' (hends _ _ _ _)
  · rintro ⟨hd, hf⟩
    exact ⟨_, .self _, .declined hh hd, hf.symm⟩

/-- A turn that ends with a state to enter is refused itself or leads to those of that state. -/
theorem strands_iff_of_switch (hm : Phased m) (hh : m.handlers.get? e = some h)
    (ht : m.turn host c e h s = (.ok (.switch i), h', l, s')) :
    Turn.Strands host ⟨n, c, e, m, s⟩ f ↔
      (n = 0 ∧ f = e) ∨ EntryStrands host n i (m.record e h' l) s' f := by
  constructor
  · rintro ⟨t, hwithin, href, hf⟩
    cases hwithin with
    | self =>
      cases href with
      | declined hh₂ hd =>
        cases hh.symm.trans hh₂
        obtain ⟨⟨err, herr⟩, -⟩ := (declined_turn_iff hm hh ht).mp hd
        cases herr
      | overflow h0 hends => exact .inl ⟨h0, hf.symm⟩
    | inner hk hends hstarts hw =>
      obtain ⟨h₂, hh₂, ht₂⟩ := hends
      cases hh.symm.trans hh₂
      cases ht.symm.trans ht₂
      exact .inr ⟨_, _, hk, hstarts, t, hw, href, hf⟩
  · have hends : Turn.Ends host ⟨n, c, e, m, s⟩ (.ok (.switch i), h', l, s') := ⟨h, hh, ht⟩
    rintro (⟨h0, hf⟩ | ⟨k, t₁, hk, hstarts, t, hw, href, hf⟩)
    · exact ⟨_, .self _, .overflow h0 hends, hf.symm⟩
    · exact ⟨t, .inner hk hends hstarts hw, href, hf⟩

theorem not_entryStrands_zero : ¬ EntryStrands host 0 i m s f := by
  rintro ⟨k, t, hk, -⟩
  cases hk

/-- Entering a state leads to the turn of `loop`, and to that of `enterState` if the first one has
    left the machine in the state. -/
theorem entryStrands_iff (hst : m.script.states[i]? = some st) :
    EntryStrands host (n + 1) i m s f ↔
      Turn.Strands host ⟨n, .run, .loop, m.inside i st, s⟩ f ∨
      ∃ m₁ s₁, Machine.cue host (enter host n) .run .loop (m.inside i st, s) = (.ok (), m₁, s₁) ∧
        m₁.generation = (m.inside i st).generation ∧
        Turn.Strands host ⟨n, .run, .enterState, m₁, s₁⟩ f := by
  constructor
  · rintro ⟨k, t, hk, hstarts, hs⟩
    obtain rfl : n = k := Nat.succ.inj hk
    cases hstarts with
    | loop hst' =>
      cases hst.symm.trans hst'
      exact .inl hs
    | enterState hst' h₁ hg =>
      cases hst.symm.trans hst'
      exact .inr ⟨_, _, h₁, hg, hs⟩
  · rintro (hs | ⟨m₁, s₁, h₁, hg, hs⟩)
    · exact ⟨n, _, rfl, .loop hst, hs⟩
    · exact ⟨n, _, rfl, .enterState hst h₁ hg, hs⟩

theorem entryStrands_once {r : Except Error Unit} {m' : Machine}
    (hst : m.script.states[i]? = some st)
    (h₁ : Machine.cue host (enter host n) .run .loop (m.inside i st, s) = (r, m', s'))
    (hone : r = .ok () → m'.generation ≠ (m.inside i st).generation) :
    EntryStrands host (n + 1) i m s f ↔
      Turn.Strands host ⟨n, .run, .loop, m.inside i st, s⟩ f := by
  rw [entryStrands_iff hst]
  refine or_iff_left ?_
  rintro ⟨m₁, s₁, h₁', hg, -⟩
  cases h₁.symm.trans h₁'
  exact hone rfl hg

theorem entryStrands_twice {m₁ : Machine} (hst : m.script.states[i]? = some st)
    (h₁ : Machine.cue host (enter host n) .run .loop (m.inside i st, s) = (.ok (), m₁, s'))
    (hg : m₁.generation = (m.inside i st).generation)
    (hnone : ¬ Turn.Strands host ⟨n, .run, .loop, m.inside i st, s⟩ f) :
    EntryStrands host (n + 1) i m s f ↔ Turn.Strands host ⟨n, .run, .enterState, m₁, s'⟩ f := by
  rw [entryStrands_iff hst]
  constructor
  · rintro (hf | ⟨m₂, s₂, h₁', -, hf⟩)
    · exact absurd hf hnone
    · cases h₁.symm.trans h₁'
      exact hf
  · exact fun hf => .inr ⟨m₁, s', h₁, hg, hf⟩

/-- What is said below of a machine `m'` that has come from `m`, with a result `r`, where `strands`
    are the events of the refused turns on the way: they are the handlers that are in the middle of
    their work, with those that were there before as long as the machine has `stayed` in the
    state. -/
structure Accounts (m m' : Machine) (r : Except Error Unit) (strands : Event → Prop)
    (stayed : Prop) : Prop where
  phased : Phased m'
  midway : ∀ f, m'.Midway f ↔ strands f ∨ (stayed ∧ m.Midway f)
  error : ∀ f, strands f → ∃ err, r = .error err

/-- A turn that does not end with a state to enter. -/
theorem accounts_of_stay (hm : Phased m) (hh : m.handlers.get? e = some h)
    {rest : Except Error Rest} (ht : m.turn host c e h s = (rest, h', l, s'))
    (hstay : ∀ j, rest ≠ .ok (.switch j)) {r : Except Error Unit}
    (hr : ∀ err, rest = .error err → r = .error err) :
    Accounts m (m.record e h' l) r (Turn.Strands host ⟨n, c, e, m, s⟩)
      ((m.record e h' l).generation = m.generation) := by
  obtain ⟨⟨p, hp⟩, hnot, -, hsame⟩ := midway_turn hm hh ht
  have hstrands : ∀ f, Turn.Strands host ⟨n, c, e, m, s⟩ f ↔
      ((∃ err, rest = .error err) ∧ h'.phase? = some .midway) ∧ f = e :=
    fun f => strands_iff_of_stay hm hh ht hstay
  refine ⟨hm.record hp, fun f => ?_, fun f hf => ?_⟩
  · rw [midway_record, hstrands]
    by_cases hf : f = e
    · subst hf
      rw [if_pos rfl]
      rcases rest with err | (_ | ms | j)
      · have hnot' := hnot (.inl ⟨err, rfl⟩)
        simp [hnot']
      · simpa using hsame (.inl rfl)
      · simpa using hsame (.inr ⟨ms, rfl⟩)
      · exact absurd rfl (hstay j)
    · rw [if_neg hf]
      simp [hf]
  · obtain ⟨⟨⟨err, herr⟩, -⟩, -⟩ := (hstrands f).mp hf
    exact ⟨err, hr err herr⟩

/-- A turn that ends with a state to enter, after that has been tried. -/
theorem accounts_of_switch (hm : Phased m) (hh : m.handlers.get? e = some h)
    (ht : m.turn host c e h s = (.ok (.switch i), h', l, s'))
    (hacc : Accounts (m.record e h' l) (enter host n i (m.record e h' l, s')).2.1
      (enter host n i (m.record e h' l, s')).1 (EntryStrands host n i (m.record e h' l) s')
      (n = 0)) :
    Accounts m (enter host n i (m.record e h' l, s')).2.1 (enter host n i (m.record e h' l, s')).1
      (Turn.Strands host ⟨n, c, e, m, s⟩)
      ((enter host n i (m.record e h' l, s')).2.1.generation = m.generation) := by
  obtain ⟨-, -, hmid, -⟩ := midway_turn hm hh ht
  have hmidway : h'.phase? = some .midway := hmid ⟨i, rfl⟩
  have hstrands : ∀ f, Turn.Strands host ⟨n, c, e, m, s⟩ f ↔
      (n = 0 ∧ f = e) ∨ EntryStrands host n i (m.record e h' l) s' f :=
    fun f => strands_iff_of_switch hm hh ht
  cases n with
  | zero =>
    -- no switch is allowed, so the handler is left as it is
    refine ⟨hacc.phased, fun f => ?_, fun f hf => ⟨_, rfl⟩⟩
    rw [hstrands, hacc.midway, midway_record]
    have hg : (enter host 0 i (m.record e h' l, s')).2.1.generation = m.generation := rfl
    by_cases hf : f = e
    · simp [hf, hmidway]
    · simp [hf, hg, not_entryStrands_zero]
  | succ n =>
    -- the state is left, and with it all handlers of it
    obtain ⟨-, y, hy⟩ := chosen_of_turn_switch host ht
    obtain ⟨st, hst⟩ := exists_of_choose host hy
    have hlt := generation_lt_enter (m := m.record e h' l) host n s' hst
    rw [generation_record] at hlt
    have hne := Nat.ne_of_gt hlt
    refine ⟨hacc.phased, fun f => ?_, fun f hf => ?_⟩
    · rw [hstrands, hacc.midway]
      simp [hne]
    · rcases (hstrands f).mp hf with ⟨hn, -⟩ | hf
      · cases hn
      · exact hacc.error f hf

/-- **Cues and switches** leave exactly those handlers in the middle of their work whose requests
    they have refused, apart from those that were there before. -/
theorem accounts_enter_cue (host : Host σ) (n : Nat) :
    (∀ i m s, Phased m → (∃ st, m.script.states[i]? = some st) →
      Accounts m (enter host n i (m, s)).2.1 (enter host n i (m, s)).1
        (EntryStrands host n i m s) (n = 0)) ∧
    ∀ c e m s, Phased m →
      Accounts m (cue host (enter host n) c e (m, s)).2.1 (cue host (enter host n) c e (m, s)).1
        (Turn.Strands host ⟨n, c, e, m, s⟩)
        ((cue host (enter host n) c e (m, s)).2.1.generation = m.generation) := by
  refine machine_induct host
    (fun n i m s r => Phased m → (∃ st, m.script.states[i]? = some st) →
      Accounts m r.2.1 r.1 (EntryStrands host n i m s) (n = 0))
    (fun n c e m s r => Phased m →
      Accounts m r.2.1 r.1 (Turn.Strands host ⟨n, c, e, m, s⟩) (r.2.1.generation = m.generation))
    ?overflow ?dangling ?once ?twice ?absent ?failed ?settled ?waiting ?leaving n
  case overflow =>
    intro i m s hm hex
    refine ⟨hm, fun f => ?_, fun f hf => absurd hf not_entryStrands_zero⟩
    simp [not_entryStrands_zero]
  case dangling =>
    intro n i m s hnone hm hex
    obtain ⟨st, hst⟩ := hex
    rw [hnone] at hst
    cases hst
  case once =>
    -- the handlers are all new, so none was in the middle of its work before
    intro n i m s st r m' s' hst h₁ hone hloop hm hex
    have hacc := hloop (phased_inside m i st)
    refine ⟨hacc.phased, fun f => ?_, fun f hf =>
      hacc.error f ((entryStrands_once hst h₁ hone).mp hf)⟩
    rw [entryStrands_once hst h₁ hone]
    refine (hacc.midway f).trans ?_
    simp [not_midway_inside]
  case twice =>
    intro n i m s st m₁ s₁ r m' s' hst h₁ hg hloop h₂ hentered hm hex
    have hacc₁ := hloop (phased_inside m i st)
    have hacc₂ := hentered hacc₁.phased
    -- the first handler has not failed, so nothing was refused
    have hnone : ∀ f, ¬ Turn.Strands host ⟨n, .run, .loop, m.inside i st, s⟩ f := by
      intro f hf
      obtain ⟨err, herr⟩ := hacc₁.error f hf
      cases herr
    have hquiet : ∀ f, ¬ m₁.Midway f := by
      intro f hf
      rcases (hacc₁.midway f).mp hf with hf | ⟨-, hf⟩
      · exact hnone f hf
      · exact not_midway_inside m i st f hf
    refine ⟨hacc₂.phased, fun f => ?_, fun f hf =>
      hacc₂.error f ((entryStrands_twice hst h₁ hg (hnone f)).mp hf)⟩
    rw [entryStrands_twice hst h₁ hg (hnone f)]
    refine (hacc₂.midway f).trans ?_
    simp [hquiet]
  case absent =>
    intro n c e m s hn hm
    refine ⟨hm, fun f => ?_, fun f hf => absurd hf (not_strands_of_absent hn)⟩
    simp [not_strands_of_absent hn]
  case failed =>
    intro n c e m s h err h' l s' hh ht hm
    refine accounts_of_stay hm hh ht (by simp) fun err' herr => ?_
    cases herr
    rfl
  case settled =>
    intro n c e m s h h' l s' hh ht hm
    exact accounts_of_stay hm hh ht (by simp) (by simp)
  case waiting =>
    intro n c e m s h ms h' l s' hh ht hm
    have hacc : Accounts m (m.record e h' l) (.ok ()) (Turn.Strands host ⟨n, c, e, m, s⟩)
        ((m.record e h' l).generation = m.generation) :=
      accounts_of_stay hm hh ht (by simp) (by simp)
    exact ⟨hacc.phased, hacc.midway, hacc.error⟩
  case leaving =>
    intro n c e m s h i h' l s' hh ht hent hm
    obtain ⟨⟨p, hp⟩, -, -, -⟩ := midway_turn hm hh ht
    obtain ⟨-, y, hy⟩ := chosen_of_turn_switch host ht
    exact accounts_of_switch hm hh ht (hent (hm.record hp) (exists_of_choose host hy))

end Machine

end ActorScript
