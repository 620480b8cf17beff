/-
  The representation invariant of machines.

  Between two calls a machine is in order (`Machine.InOrder`): without a state it has neither
  handlers nor timers; in a state it has exactly the handlers of that state; every handler that
  waits for a timer has one, and no other does; no switch is under way; and the locals are those
  that the script declares.

  While a frame is under way the fourth part fails: the timers lie aside, and handlers whose timer
  has run out have not been resumed yet.  `Sound pending` is the invariant for these moments.  It
  counts a timer that lies aside, as `pending`, together with those the machine has.  A cue to
  resume takes one event out of `pending`, every other cue leaves it alone (`sound_cue`), and a
  switch of state makes it empty, since nothing waits in the entered state yet.
-/
import ActorScript.Proofs.Operation
import ActorScript.Recording

namespace ActorScript

/-! ## The locals -/

namespace Dict

variable {α : Type}

theorem mem_keys_insert {d : Dict α} {k k' : String} {v : α} :
    k' ∈ (d.insert k v).keys ↔ k' = k ∨ k' ∈ d.keys := by
  rw [mem_keys, mem_keys, get?_insert]
  split
  · rename_i h
    simp [h]
  · rename_i h
    constructor
    · exact Or.inr
    · rintro (rfl | hk)
      · exact absurd rfl h
      · exact hk

theorem mem_keys_insertAll {d : Dict α} {l : List (String × α)} {k : String} :
    k ∈ (d.insertAll l).keys ↔ k ∈ d.keys ∨ k ∈ l.map (·.1) := by
  induction l generalizing d with
  | nil => simp [insertAll]
  | cons p l ih =>
    have := ih (d := d.insert p.1 p.2)
    rw [insertAll, List.foldl_cons, ← insertAll, this, mem_keys_insert]
    simp only [List.map_cons, List.mem_cons]
    constructor
    · rintro ((rfl | h) | h)
      · exact .inr (.inl rfl)
      · exact .inl h
      · exact .inr (.inr h)
    · rintro (h | rfl | h)
      · exact .inl (.inr h)
      · exact .inl (.inl rfl)
      · exact .inr h

theorem mem_keys_ofList {l : List (String × α)} {k : String} :
    k ∈ (ofList l).keys ↔ k ∈ l.map (·.1) := by
  have hempty : k ∉ (empty : Dict α).keys := by
    rw [mem_keys]
    simp
  rw [ofList, mem_keys_insertAll]
  exact or_iff_right hempty

end Dict

/-- The names of the variables that are not saved. -/
def Script.localNames (s : Script) : List String := (s.vars.filter (!·.persisted)).map (·.name)

theorem Script.mem_localNames_of_isLocal {s : Script} {name : String} (h : s.isLocal name) :
    name ∈ s.localNames := by
  obtain ⟨v, hv, hp⟩ := (Option.any_eq_true _ _).mp h
  have hname : v.name = name := by simpa using List.find?_some hv
  exact List.mem_map.mpr ⟨v, List.mem_filter.mpr ⟨List.mem_of_find?_eq_some hv, hp⟩, hname⟩

theorem Locals.mem_keys_initial {s : Script} {name : String} :
    name ∈ (Locals.initial s).keys ↔ name ∈ s.localNames := by
  rw [Locals.initial, Dict.mem_keys_ofList, List.map_map]
  rfl

namespace Machine

/-- The locals are those that the script declares. -/
def LocalsOf (script : Script) (l : Locals) : Prop :=
  ∀ name, name ∈ l.keys ↔ name ∈ script.localNames

theorem localsOf_insert {script : Script} (l : Locals) (name : String) (v : Value)
    (hlocal : script.isLocal name) (h : LocalsOf script l) : LocalsOf script (l.insert name v) := by
  intro k
  rw [Dict.mem_keys_insert, h k]
  constructor
  · rintro (rfl | hk)
    · exact Script.mem_localNames_of_isLocal hlocal
    · exact hk
  · exact Or.inr

/-! ## The invariant -/

/-- Whether the handler for an event waits for its timer. -/
def awaitsTimer (m : Machine) (e : Event) : Bool := (m.handlers.get? e).any (·.suspended)

/-- **The representation invariant** between two calls. -/
structure InOrder (m : Machine) : Prop where
  inactive : m.current = none → m.handlers = .empty ∧ m.timers = []
  handlers : ∀ i, m.current = some i → ∃ st, m.script.states[i]? = some st ∧
    ∀ e, (m.handlers.get? e).map (·.entry) = st.handlers.get? e
  timers : ∀ e, m.timers.countP (·.event = e) = if m.awaitsTimer e then 1 else 0
  switchDepth : m.switchDepth = 0
  locals : ∀ name, name ∈ m.locals.keys ↔ name ∈ m.script.localNames

/-- The invariant while an operation is under way and timers for the events in `pending` lie
    aside. -/
structure Sound (pending : List Event) (m : Machine) : Prop where
  inactive : m.current = none → m.handlers = .empty
  handlers : ∀ i, m.current = some i → ∃ st, m.script.states[i]? = some st ∧
    ∀ e, (m.handlers.get? e).map (·.entry) = st.handlers.get? e
  coherent : ∀ e h, m.handlers.get? e = some h → h.event = e ∧ ∃ p, h.phase? = some p
  timers : ∀ e, (pending ++ m.timers.map (·.event)).count e = if m.awaitsTimer e then 1 else 0
  locals : LocalsOf m.script m.locals

namespace Sound

variable {pending : List Event} {m : Machine}

theorem outside (h : Sound pending m) : Sound pending m.outside :=
  ⟨h.inactive, h.handlers, h.coherent, h.timers, h.locals⟩

/-- A fresh handler waits for nothing, so an entered state starts without timers. -/
theorem inside (h : Sound pending m) {i : Nat} {st : State} (hst : m.script.states[i]? = some st) :
    Sound [] (m.inside i st) where
  inactive := nofun
  handlers j hj := by
    cases hj
    refine ⟨st, hst, fun e => ?_⟩
    rw [get?_inside]
    cases st.handlers.get? e <;> rfl
  coherent e hd hhd := by
    rw [get?_inside] at hhd
    obtain ⟨entry, -, rfl⟩ := Option.map_eq_some_iff.mp hhd
    exact ⟨rfl, .stopped, rfl⟩
  timers e := by
    have hnone : (m.inside i st).awaitsTimer e = false := by
      rw [awaitsTimer, get?_inside]
      cases st.handlers.get? e <;> rfl
    rw [hnone]
    rfl
  locals := h.locals

/-- The invariant after a turn of the handler `h`, which has become `h'`, if the timers of its
    event are in order. -/
theorem turned {e : Event} {h h' : Handler} {l : Locals} {before : List Event}
    {timers : List Timer} (hs : Sound before m) (hh : m.handlers.get? e = some h)
    (hsame : h.SameHandler h') (hphase : ∃ p, h'.phase? = some p) (hl : LocalsOf m.script l)
    (hothers : ∀ f, f ≠ e → (pending ++ timers.map (·.event)).count f =
      (before ++ m.timers.map (·.event)).count f)
    (hown : (pending ++ timers.map (·.event)).count e = if h'.suspended then 1 else 0) :
    Sound pending { m with handlers := m.handlers.insert e h', locals := l, timers } where
  inactive hnone := by
    rw [hs.inactive hnone, EventMap.get?_empty] at hh
    cases hh
  handlers i hi := by
    obtain ⟨st, hst, hentry⟩ := hs.handlers i hi
    refine ⟨st, hst, fun f => ?_⟩
    rw [← hentry f]
    show ((m.handlers.insert e h').get? f).map _ = _
    rw [EventMap.get?_insert]
    split
    · rename_i hf
      rw [hf, hh]
      exact congrArg some hsame.2.1
    · rfl
  coherent f hd hhd := by
    have hget : (m.handlers.insert e h').get? f = some hd := hhd
    rw [EventMap.get?_insert] at hget
    split at hget
    · rename_i hf
      cases hget
      exact ⟨(hsame.1.trans (hs.coherent e h hh).1).trans hf.symm, hphase⟩
    · exact hs.coherent f hd hget
  timers f := by
    show _ = if ((m.handlers.insert e h').get? f).any (·.suspended) then 1 else 0
    rw [EventMap.get?_insert]
    by_cases hf : f = e
    · subst hf
      rw [if_pos rfl]
      exact hown
    · rw [if_neg hf]
      exact (hothers f hf).trans (hs.timers f)
  locals := hl

end Sound

/-! ## Turns and switches keep the invariant -/

/-- The events whose pending timers are used up by cues to their handlers. -/
def due : Cue → List Event → List Event
  | .resume, es => es
  | .run, _ | .newFrame, _ => []

theorem due_cons (c : Cue) (e : Event) (es : List Event) :
    due c (e :: es) = due c [e] ++ due c es := by
  cases c <;> rfl

theorem due_nil (c : Cue) : due c [] = [] := by
  cases c <;> rfl

theorem count_due_of_ne {c : Cue} {e f : Event} (h : f ≠ e) : (due c [e]).count f = 0 := by
  cases c with
  | run => rfl
  | newFrame => rfl
  | resume => exact List.count_eq_zero.mpr (by simpa [due] using h)

variable {σ : Type} {host : Host σ} {pending : List Event} {m : Machine} {c : Cue} {e : Event}

/-- All timers of a handler, those a cue uses up and the others, tell its phase. -/
theorem Sound.count_own {h : Handler} {p : Phase} (hs : Sound (due c [e] ++ pending) m)
    (hh : m.handlers.get? e = some h) (hp : h.phase? = some p) :
    (due c [e]).count e + (pending ++ m.timers.map (·.event)).count e =
      if p = .timer then 1 else 0 := by
  have ht := hs.timers e
  have hawaits : m.awaitsTimer e = true ↔ p = .timer := by
    rw [awaitsTimer, hh]
    exact Handler.suspended_iff hp
  rw [List.append_assoc, List.count_append] at ht
  rw [ht]
  by_cases hpt : p = .timer
  · rw [if_pos hpt, if_pos (hawaits.mpr hpt)]
  · rw [if_neg hpt, if_neg fun ha => hpt (hawaits.mp ha)]

/-- A machine that has a handler is in a state. -/
theorem Sound.isActive {h : Handler} (hs : Sound pending m) (hh : m.handlers.get? e = some h) :
    m.isActive = true := by
  cases hc : m.current with
  | none =>
    rw [hs.inactive hc, EventMap.get?_empty] at hh
    cases hh
  | some i => rw [Machine.isActive, hc, Option.isSome_some]

/-- A handler that a cue wakes has no timer but the one the cue uses up. -/
theorem Sound.count_of_wakes {h : Handler} {p : Phase} (hs : Sound (due c [e] ++ pending) m)
    (hh : m.handlers.get? e = some h) (hp : h.phase? = some p) (hw : c.Wakes p) :
    (pending ++ m.timers.map (·.event)).count e = 0 := by
  have hown := hs.count_own hh hp
  cases c with
  | run =>
    cases hw
    rw [if_neg (by simp)] at hown
    omega
  | newFrame =>
    rcases hw with rfl | rfl
    · rw [if_neg (by simp)] at hown
      omega
    · rw [if_neg (by simp)] at hown
      omega
  | resume =>
    cases hw
    have hdue : (due .resume [e]).count e = 1 := by simp [due]
    rw [if_pos rfl, hdue] at hown
    omega

/-- A handler that idles has the timers its phase calls for. -/
theorem Sound.count_of_idle {h : Handler} {p : Phase} (hs : Sound (due c [e] ++ pending) m)
    (hh : m.handlers.get? e = some h) (hp : h.phase? = some p) (hi : c = .resume → p ≠ .timer) :
    (pending ++ m.timers.map (·.event)).count e = if p = .timer then 1 else 0 := by
  have hown := hs.count_own hh hp
  cases c with
  | run => rwa [show (due .run [e]).count e = 0 from rfl, Nat.zero_add] at hown
  | newFrame => rwa [show (due .newFrame [e]).count e = 0 from rfl, Nat.zero_add] at hown
  | resume =>
    have hdue : (due .resume [e]).count e = 1 := by simp [due]
    rw [if_neg (hi rfl), hdue] at hown
    omega

/-- **A turn keeps the invariant**: whether the handler has come to wait for a timer decides if one
    has to be armed, and after a failure or a request nothing is pending for it. -/
theorem Sound.turn {h h' : Handler} {rest : Except Error Rest} {l : Locals} {s s' : σ}
    (hs : Sound (due c [e] ++ pending) m) (hh : m.handlers.get? e = some h)
    (ht : m.turn host c e h s = (rest, h', l, s')) :
    ((∀ ms, rest ≠ .ok (.waiting ms)) → Sound pending (m.record e h' l)) ∧
      (∀ ms, rest = .ok (.waiting ms) → Sound pending ((m.record e h' l).arm e ms)) ∧
      (((∃ err, rest = .error err) ∨ ∃ i, rest = .ok (.switch i)) → e ∉ pending) := by
  obtain ⟨-, p, hp⟩ := hs.coherent e h hh
  have hl : LocalsOf m.script l :=
    turn_keeps host (Q := fun x => LocalsOf m.script x.1)
      (fun d => registers_keeps_locals _ _ _ d)
      (fun r v => write_keeps_locals localsOf_insert r v) hs.locals ht
  obtain ⟨hsame, hend⟩ := turn_cases host hp ht
  have hothers : ∀ f, f ≠ e → (pending ++ m.timers.map (·.event)).count f =
      (due c [e] ++ pending ++ m.timers.map (·.event)).count f := by
    intro f hf
    rw [List.append_assoc, List.count_append, List.count_append, List.count_append,
      count_due_of_ne hf, Nat.zero_add]
  rcases hend with ⟨hidle, rfl, hp'⟩ | ⟨hwakes, q, hq, hfits⟩
  · -- the handler idles: its timer, if it has one, is where it was
    have hown : (pending ++ m.timers.map (·.event)).count e = if h'.suspended then 1 else 0 := by
      rw [hs.count_of_idle hh hp hidle]
      by_cases hpt : p = .timer
      · rw [if_pos hpt, if_pos ((Handler.suspended_iff hp').mpr hpt)]
      · rw [if_neg hpt, if_neg fun hsus => hpt ((Handler.suspended_iff hp').mp hsus)]
    refine ⟨fun _ => hs.turned hh hsame ⟨p, hp'⟩ hl hothers hown, nofun, ?_⟩
    rintro (⟨err, herr⟩ | ⟨i, hi⟩)
    · cases herr
    · cases hi
  · -- the handler was woken: no timer of its is left, and a new one is armed if it waits
    have hnone := hs.count_of_wakes hh hp hwakes
    have hnotin : e ∉ pending := by
      intro hmem
      have := List.count_pos_iff.mpr (List.mem_append_left (m.timers.map (·.event)) hmem)
      omega
    have hquiet : q ≠ .timer → Sound pending (m.record e h' l) := by
      intro hqt
      refine hs.turned hh hsame ⟨q, hq⟩ hl hothers ?_
      rw [hnone, if_neg fun hsus => hqt ((Handler.suspended_iff hq).mp hsus)]
    refine ⟨fun hne => hquiet ?_, fun ms hms => ?_, fun _ => hnotin⟩
    · rintro rfl
      rcases rest with err | (_ | ms | i)
      · rcases hfits with hq | hq <;> cases hq
      · rcases hfits with hq | hq <;> cases hq
      · exact hne ms rfl
      · cases hfits
    · subst hms
      obtain rfl : q = .timer := hfits
      have harmed : ∀ f, (pending ++ (m.timers ++ [(⟨e, ms, 0⟩ : Timer)]).map (·.event)).count f =
          (pending ++ m.timers.map (·.event)).count f + [e].count f := by
        intro f
        rw [List.map_append, ← List.append_assoc, List.count_append]
        rfl
      refine hs.turned hh hsame ⟨.timer, hq⟩ hl (fun f hf => ?_) ?_
      · have hne : [e].count f = 0 := List.count_eq_zero.mpr (by simpa using hf)
        exact (harmed f).trans (by rw [hne, Nat.add_zero, hothers f hf])
      · rw [if_pos ((Handler.suspended_iff hq).mpr rfl)]
        exact (harmed e).trans (by rw [hnone, List.count_singleton_self])

/-- The machine goes on from `m`: it is still in the same state and `pending` still lie aside, or it
    has entered another one, in which nothing does. -/
def GoesOn (pending : List Event) (m m' : Machine) : Prop :=
  (m'.generation = m.generation ∧ Sound pending m') ∨ (m.generation < m'.generation ∧ Sound [] m')

theorem GoesOn.of_same {m m' : Machine} (hg : m'.generation = m.generation)
    (hs : Sound pending m') : GoesOn pending m m' := .inl ⟨hg, hs⟩

/-- Once no timer lies aside, it makes no difference whether the state was left. -/
theorem GoesOn.sound {m m' : Machine} (h : GoesOn [] m m') : Sound [] m' := by
  rcases h with ⟨-, hs⟩ | ⟨-, hs⟩
  · exact hs
  · exact hs

/-- Whatever happens in an entered state happens after a switch. -/
theorem GoesOn.outside {m m' : Machine} {i : Nat} {st : State} (h : GoesOn [] (m.inside i st) m') :
    GoesOn pending m m'.outside := by
  have hlt : m.generation < (m.inside i st).generation := Nat.lt_succ_self _
  rcases h with ⟨hg, hs⟩ | ⟨hg, hs⟩
  · exact .inr ⟨hg ▸ hlt, hs.outside⟩
  · exact .inr ⟨Nat.lt_trans hlt hg, hs.outside⟩

/-- **Cues and switches keep the invariant.**  After a failed cue that has not led to another state
    no timer of the handler lies aside. -/
theorem sound_enter_cue (host : Host σ) (n : Nat) :
    (∀ i m s pending, Sound pending m → GoesOn pending m (enter host n i (m, s)).2.1) ∧
    ∀ c e m s pending, Sound (due c [e] ++ pending) m →
      GoesOn pending m (cue host (enter host n) c e (m, s)).2.1 ∧
        ((∃ err, (cue host (enter host n) c e (m, s)).1 = .error err) →
          (cue host (enter host n) c e (m, s)).2.1.generation = m.generation → e ∉ pending) := by
  refine machine_induct host
    (fun n i m s r => ∀ pending, Sound pending m → GoesOn pending m r.2.1)
    (fun n c e m s r => ∀ pending, Sound (due c [e] ++ pending) m → GoesOn pending m r.2.1 ∧
      ((∃ err, r.1 = .error err) → r.2.1.generation = m.generation → e ∉ pending))
    ?overflow ?dangling ?once ?twice ?absent ?failed ?settled ?waiting ?leaving n
  case overflow =>
    intro i m s pending hs
    exact .of_same rfl hs
  case dangling =>
    intro n i m s hst pending hs
    exact .of_same rfl hs
  case once =>
    intro n i m s st r m' s' hst h₁ hone hloop pending hs
    exact (hloop [] (hs.inside hst)).1.outside
  case twice =>
    intro n i m s st m₁ s₁ r m' s' hst h₁ hg hloop h₂ hentered pending hs
    -- the first handler has left the machine in the state, so the second starts from order
    have hs₁ : Sound [] m₁ := (hloop [] (hs.inside hst)).1.sound
    have hend : GoesOn [] (m.inside i st) m' := by
      have := (hentered [] hs₁).1
      rw [GoesOn] at this ⊢
      rwa [← hg]
    exact hend.outside
  case absent =>
    intro n c e m s hn pending hs
    refine ⟨.of_same rfl ?_, fun ⟨err, herr⟩ => nomatch herr⟩
    cases c with
    | run => exact hs
    | newFrame => exact hs
    | resume =>
      -- a timer without a handler would contradict the invariant
      have ht := hs.timers e
      rw [awaitsTimer, hn] at ht
      have hmem : e ∈ due .resume [e] ++ pending ++ m.timers.map (·.event) := by simp [due]
      exact absurd ht (Nat.ne_of_gt (List.count_pos_iff.mpr hmem))
  case failed =>
    intro n c e m s h err h' l s' hh ht pending hs
    obtain ⟨hrecord, -, hnone⟩ := hs.turn hh ht
    exact ⟨.of_same rfl (hrecord (by simp)), fun _ _ => hnone (.inl ⟨err, rfl⟩)⟩
  case settled =>
    intro n c e m s h h' l s' hh ht pending hs
    obtain ⟨hrecord, -, -⟩ := hs.turn hh ht
    exact ⟨.of_same rfl (hrecord (by simp)), fun ⟨err, herr⟩ => nomatch herr⟩
  case waiting =>
    intro n c e m s h ms h' l s' hh ht pending hs
    obtain ⟨-, harm, -⟩ := hs.turn hh ht
    exact ⟨.of_same rfl (harm ms rfl), fun ⟨err, herr⟩ => nomatch herr⟩
  case leaving =>
    intro n c e m s h i h' l s' hh ht hent pending hs
    obtain ⟨hrecord, -, hnone⟩ := hs.turn hh ht
    exact ⟨hent pending (hrecord (by simp)), fun _ _ => hnone (.inr ⟨i, rfl⟩)⟩

/-! ## Frames -/

/-- Stopping a handler of which no timer lies aside. -/
theorem Sound.abort {e : Event} (hs : Sound pending m) (g : Nat) (he : e ∉ pending) :
    Sound pending (m.abort e g) := by
  rw [Machine.abort]
  split
  · cases hh : m.handlers.get? e with
    | none =>
      -- there is neither a handler nor a timer to stop
      have hnone : ∀ t ∈ m.timers, t.event ≠ e := by
        intro t ht hte
        have hcount := hs.timers e
        rw [awaitsTimer, hh] at hcount
        have hmem : e ∈ pending ++ m.timers.map (·.event) :=
          List.mem_append_right _ (List.mem_map.mpr ⟨t, ht, hte⟩)
        exact absurd hcount (Nat.ne_of_gt (List.count_pos_iff.mpr hmem))
      have hfilter : m.timers.filter (·.event ≠ e) = m.timers :=
        List.filter_eq_self.mpr fun t ht => by simpa using hnone t ht
      rw [hfilter]
      exact hs
    | some h =>
      have hcount : ∀ f, ((m.timers.filter (·.event ≠ e)).map (·.event)).count f =
          if f = e then 0 else (m.timers.map (·.event)).count f := by
        intro f
        induction m.timers with
        | nil => simp
        | cons t ts ih =>
          rw [List.filter_cons]
          by_cases hte : t.event = e
          · rw [if_neg (by simpa using hte), ih, List.map_cons, List.count_cons]
            by_cases hf : f = e
            · rw [if_pos hf, if_pos hf]
            · have hne : ¬ t.event = f := fun h => hf (h.symm.trans hte)
              simp [hf, hne]
          · rw [if_pos (by simpa using hte), List.map_cons, List.count_cons, ih, List.map_cons,
              List.count_cons]
            by_cases hf : f = e
            · subst hf
              simp [hte]
            · simp [hf]
      refine hs.turned hh ⟨rfl, rfl, rfl⟩ ⟨.stopped, Handler.phase?_reset h⟩ hs.locals
        (fun f hf => ?_) ?_
      · rw [List.count_append, hcount, if_neg hf, List.count_append]
      · rw [List.count_append, hcount, if_pos rfl, List.count_eq_zero.mpr he]
        rfl
  · exact hs

theorem abort_of_left {e : Event} {g : Nat} (hg : m.generation ≠ g) : m.abort e g = m := if_neg hg

/-- **Cueing several handlers keeps the invariant**, and uses up the timers that are due. -/
theorem sound_cueAll (host : Host σ) (c : Cue) {g : Nat} (es : List Event) (first : Option Error)
    (m : Machine) (s : σ) (hg : m.generation = g) (hs : Sound (due c es ++ pending) m) :
    GoesOn pending m (cueAll host c g es first (m, s)).2.1 := by
  induction es generalizing first m s with
  | nil =>
    rw [due_nil] at hs
    exact .of_same rfl hs
  | cons e es ih =>
    rw [due_cons, List.append_assoc] at hs
    have hcue := (sound_enter_cue host (m.options.maxDepth - m.switchDepth)).2 c e m s _ hs
    rw [← cue_switchTo] at hcue
    rw [cueAll, if_pos hg]
    -- as long as the state stays the same, the rest of the handlers start from order
    have hstays : ∀ first m' s', m'.generation = m.generation → Sound (due c es ++ pending) m' →
        GoesOn pending m (cueAll host c g es first (m', s')).2.1 := by
      intro first m' s' hsame hs'
      have := ih first m' s' (hsame.trans hg) hs'
      rw [GoesOn] at this ⊢
      rwa [hsame] at this
    have hleft : ∀ first m' s', m.generation < m'.generation → Sound [] m' →
        GoesOn pending m (cueAll host c g es first (m', s')).2.1 := by
      intro first m' s' hlt hs'
      rw [cueAll_of_left host c es first s' (by omega)]
      exact .inr ⟨hlt, hs'⟩
    rcases hr : cue host (switchTo host) c e (m, s) with ⟨err | ⟨⟨⟩⟩, m', s'⟩
    · rw [hr] at hcue
      obtain ⟨⟨hsame, hs'⟩ | ⟨hlt, hs'⟩, hnone⟩ := hcue
      · exact hstays _ _ s' ((generation_abort m' e _).trans hsame)
          (hs'.abort g (hnone ⟨err, rfl⟩ hsame))
      · have hne : m'.generation ≠ g := fun h => Nat.ne_of_gt hlt (h.trans hg.symm)
        simp only [abort_of_left hne]
        exact hleft _ m' s' hlt hs'
    · rw [hr] at hcue
      obtain ⟨⟨hsame, hs'⟩ | ⟨hlt, hs'⟩, -⟩ := hcue
      · exact hstays _ m' s' hsame hs'
      · exact hleft _ m' s' hlt hs'

/-- Timers may be moved and set aside as long as none is lost and none comes up. -/
theorem Sound.retimed {after : List Event} {timers : List Timer} (hs : Sound pending m)
    (hcount : ∀ e, (after ++ timers.map (·.event)).count e =
      (pending ++ m.timers.map (·.event)).count e) : Sound after { m with timers } :=
  ⟨hs.inactive, hs.handlers, hs.coherent, fun e => (hcount e).trans (hs.timers e), hs.locals⟩

/-- In a frame every timer runs out or runs on. -/
theorem count_fired_add_unfired (m : Machine) (dt : UInt64) (e : Event) :
    (m.fired dt).count e + ((m.unfired dt).map (·.event)).count e =
      (m.timers.map (·.event)).count e := by
  rw [fired, unfired]
  induction m.timers with
  | nil => rfl
  | cons t ts ih =>
    have hevent : (t.advance dt).event = t.event := rfl
    rw [List.map_cons, List.filter_cons, List.filter_cons, List.map_cons, List.count_cons]
    cases (t.advance dt).hasFired with
    | true =>
      simp only [if_true, Bool.not_true, Bool.false_eq_true, if_false]
      rw [List.map_cons, List.count_cons, hevent]
      omega
    | false =>
      simp only [if_true, Bool.not_false, Bool.false_eq_true, if_false]
      rw [List.map_cons, List.count_cons, hevent]
      omega

/-- When a frame begins, all timers are laid aside. -/
theorem Sound.bare (hs : Sound [] m) :
    Sound (m.timers.map (·.event)) { m with timers := [] } :=
  hs.retimed fun e => by simp

/-- When all handlers have begun the frame, the timers that run on are put back, and those that
    have fired are due. -/
theorem Sound.midFrame {m₁ : Machine} (hs : Sound (m.timers.map (·.event)) m₁) (dt : UInt64) :
    Sound (due .resume (m.fired dt) ++ []) { m₁ with timers := m.unfired dt ++ m₁.timers } := by
  refine hs.retimed fun e => ?_
  have := count_fired_add_unfired m dt e
  simp only [due, List.append_nil, List.map_append, List.count_append]
  omega

/-- **One frame keeps the invariant.**  All timers lie aside while the handlers begin the frame;
    if the machine is still in the same state, those that have fired are used up one by one. -/
theorem Sound.newFrame (hs : Sound [] m) (host : Host σ) (dt : UInt64) (s : σ) :
    Sound [] (newFrame host dt (m, s)).2.1 := by
  by_cases hact : m.isActive = true
  · have hframe := sound_cueAll host .newFrame m.handlers.events none { m with timers := [] } s
      rfl hs.bare
    rcases h₁ : cueAll host .newFrame m.generation m.handlers.events none
      ({ m with timers := [] }, s) with ⟨first, m₁, s₁⟩
    rw [h₁] at hframe
    rw [newFrame_active host dt m s hact h₁]
    rcases hframe with ⟨hg, hs₁⟩ | ⟨hlt, hs₁⟩
    · rw [if_pos hg]
      have hend := sound_cueAll host .resume (m.fired dt) first
        { m₁ with timers := m.unfired dt ++ m₁.timers } s₁ hg (hs₁.midFrame dt)
      exact hend.sound
    · rw [if_neg (Nat.ne_of_gt hlt)]
      exact hs₁
  · rw [newFrame_inactive host dt m s hact]
    exact hs

/-- Every timer that fires is one of the machine's, and no handler has two. -/
theorem fired_sublist (m : Machine) (dt : UInt64) :
    (m.fired dt).Sublist (m.timers.map (·.event)) := by
  have hevents : (m.timers.map (·.advance dt)).map (·.event) = m.timers.map (·.event) := by
    rw [List.map_map]
    rfl
  rw [fired, ← hevents]
  exact List.filter_sublist.map _

theorem Sound.nodup_fired (hs : Sound [] m) (dt : UInt64) : (m.fired dt).Nodup := by
  refine (fired_sublist m dt).nodup (List.nodup_iff_count.mpr fun e => ?_)
  have hcount := hs.timers e
  rw [List.nil_append] at hcount
  rw [hcount]
  split <;> omega

/-! ## The other operations -/

/-- Giving a cue from outside while no timer lies aside. -/
theorem Sound.cue (hs : Sound [] m) (host : Host σ) (c : Cue) (hc : due c [e] = []) (s : σ) :
    Sound [] (cue host (switchTo host) c e (m, s)).2.1 := by
  rw [cue_switchTo]
  have hdue : Sound (due c [e] ++ []) m := by
    rw [hc]
    exact hs
  exact ((sound_enter_cue host _).2 c e m s [] hdue).1.sound

/-- Choosing a state changes nothing but, perhaps, the values of the locals. -/
theorem Sound.choose (hs : Sound pending m) {s s' : σ} {r : Except Error Nat} {l : Locals}
    (hc : choose m.script m.identity host (m.locals, s) = (r, l, s')) :
    Sound pending { m with locals := l } := by
  have hlocals : LocalsOf m.script (Machine.choose m.script m.identity host (m.locals, s)).2.1 :=
    choose_keeps (Q := fun x => LocalsOf m.script x.1) (registers_keeps_locals _ _ _ _)
      (m.locals, s) hs.locals
  rw [hc] at hlocals
  exact ⟨hs.inactive, hs.handlers, hs.coherent, hs.timers, hlocals⟩

theorem Sound.select (hs : Sound [] m) (host : Host σ) (s : σ) :
    Sound [] (select host (m, s)).2.1 := by
  rw [Machine.select]
  rcases hc : Machine.choose m.script m.identity host (m.locals, s) with ⟨err | i, l, s'⟩
  · exact hs.choose hc
  · simp only
    split
    · exact hs.choose hc
    · exact ((sound_enter_cue host _).1 i { m with locals := l } s' [] (hs.choose hc)).sound

theorem Sound.trigger (hs : Sound [] m) (host : Host σ) (e : Event) (s : σ) :
    Sound [] (trigger host e (m, s)).2.1 := by
  rw [Machine.trigger]
  split
  · exact hs.cue host .run rfl s
  · exact hs

theorem Sound.activate (hs : Sound [] m) (host : Host σ) (s : σ) :
    Sound [] (activate host (m, s)).2.1 := by
  rw [activate_eq]
  rcases seedSaved m.identity host m.script.vars s with ⟨err | ⟨⟨⟩⟩, s₁⟩
  · exact hs
  · have hselect := hs.select host s₁
    rcases h : Machine.select host (m, s₁) with ⟨err | ⟨⟨⟩⟩, m₂, s₂⟩
    · simp only [h]
      rw [h] at hselect
      exact hselect
    · simp only [h]
      rw [h] at hselect
      exact hselect.trigger host .spawn s₂

/-- A machine without handlers and timers. -/
theorem sound_bare (hcurrent : m.current = none) (hhandlers : m.handlers = .empty)
    (htimers : m.timers = []) (hlocals : m.locals = .initial m.script) : Sound [] m where
  inactive _ := hhandlers
  handlers i hi := by
    rw [hcurrent] at hi
    cases hi
  coherent e h hh := by
    rw [hhandlers, EventMap.get?_empty] at hh
    cases hh
  timers e := by
    rw [awaitsTimer, hhandlers, EventMap.get?_empty, htimers]
    rfl
  locals name := by
    rw [hlocals]
    exact Locals.mem_keys_initial

/-- **Every operation keeps the invariant**, whether it succeeds or fails. -/
theorem Sound.next (hs : Sound [] m) (c : Call) : Sound [] (m.next c) := by
  obtain ⟨host, s, op⟩ := c
  cases op with
  | activate => exact hs.activate host s
  | trigger e => exact hs.trigger host e s
  | newFrame dt => exact hs.newFrame host dt s
  | select => exact hs.select host s
  | despawn => exact sound_bare rfl rfl rfl rfl

/-- Between two calls no timer lies aside and no switch is under way. -/
theorem Sound.inOrder (hs : Sound [] m) (hdepth : m.switchDepth = 0) : m.InOrder where
  inactive hnone := by
    have hempty := hs.inactive hnone
    refine ⟨hempty, ?_⟩
    have hcount : ∀ e, (m.timers.map (·.event)).count e = 0 := by
      intro e
      have := hs.timers e
      rw [awaitsTimer, hempty, EventMap.get?_empty] at this
      exact this
    exact List.map_eq_nil_iff.mp (List.eq_nil_iff_forall_not_mem.mpr fun e =>
      List.count_eq_zero.mp (hcount e))
  handlers := hs.handlers
  timers e := by
    rw [← hs.timers e, List.nil_append, List.count_eq_countP, List.countP_map]
    rfl
  switchDepth := hdepth
  locals := hs.locals

theorem sound_of_create {script : Script} {identity : Identity} {options : MachineOptions}
    (h : create script identity options = .ok m) : Sound [] m ∧ m.switchDepth = 0 := by
  rw [create_eq_ok h]
  exact ⟨sound_bare rfl rfl rfl rfl, rfl⟩

/-- **Every machine is in order at all times**: after any history of calls, with whatever hosts,
    and whether they succeed or fail. -/
theorem inOrder_after {script : Script} {identity : Identity} {options : MachineOptions}
    (h : create script identity options = .ok m) (cs : List Call) :
    (m.after cs).script = script ∧ (m.after cs).InOrder := by
  obtain ⟨hs, h0⟩ := sound_of_create h
  have hrun := sameRun_after h0 cs
  refine ⟨?_, ?_⟩
  · rw [hrun.script, create_eq_ok h]
  · refine Sound.inOrder ?_ (hrun.switchDepth.trans h0)
    exact after_induct (P := fun m' => Sound [] m') (fun m' c hs' => hs'.next c) hs cs

/-- A script whose handler for `spawn` waits, and whose handler for `loop` refers to itself and to
    a block that does not exist. -/
def restless : Script where
  states := [
    { name := "S", condition := .literal (.bool true), location := ⟨1, 1⟩,
      handlers := { spawn := some 0, loop := some 1 } }]
  blocks := [
    [.call "wait" [.literal (.int 50)] ⟨2, 3⟩],
    [.ifElse (.literal (.bool true)) 1 (some 7) ⟨3, 3⟩]]

theorem inOrder_restless : ∃ m, create restless ⟨"town", some "Bob"⟩ {} = .ok m ∧
    (m.after [⟨Recording.recordingHost [], { parameters := .empty, saved := .empty }, .activate⟩,
      ⟨Recording.recordingHost [], { parameters := .empty, saved := .empty }, .newFrame 16⟩]).InOrder := by
  have h : create restless ⟨"town", some "Bob"⟩ {} = .ok
      { script := restless, identity := ⟨"town", some "Bob"⟩, options := {},
        locals := .initial restless } := rfl
  exact ⟨_, h, (inOrder_after h _).2⟩

end Machine

end ActorScript
