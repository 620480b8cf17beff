/-
  The phases of a handler.

  Three flags say what a handler is doing, and only four of their eight combinations occur
  (`Phase`): it is stopped, it waits for the next frame, it waits for its timer, or it is in the
  middle of its work.  The last one is not meant to last.  A handler is there while it executes
  statements and while its request for a new choice of state is being answered, and nowhere else.

  Everything a handler does is one of two things (`obey_cases`, `proceed_of_midway`): it idles and
  stays in its phase, or it executes from the middle of its work and comes to rest in the phase
  that belongs to the outcome (`phase_execute`).  `turn_cases` puts this together for a whole
  turn, in which all requests are answered as well.
-/
import ActorScript.Proofs.Kept

namespace ActorScript

/-- What a handler is doing. -/
inductive Phase
  /-- Nothing; it can be started. -/
  | stopped
  /-- It goes on with the next frame. -/
  | nextFrame
  /-- It goes on when its timer has run out. -/
  | timer
  /-- It is executing, or it has asked for a new choice of state. -/
  | midway
deriving DecidableEq, Repr

/-- The phase of a handler that has come to rest with a result. -/
def Phase.after : Except Error Outcome → Phase
  | .ok .outOfBudget => .nextFrame
  | .ok (.waiting _) => .timer
  | .ok .reselect => .midway
  | .ok .idle | .ok .finished | .error _ => .stopped

/-- The phases in which a cue makes a handler execute. -/
def Cue.Wakes : Cue → Phase → Prop
  | .run, p => p = .stopped
  | .newFrame, p => p = .stopped ∨ p = .nextFrame
  | .resume, p => p = .timer

/-- The phases in which a handler can be when it has come to rest. -/
def Phase.Fits (p : Phase) : Except Error Rest → Prop
  | .error _ => p = .stopped ∨ p = .midway
  | .ok .settled => p = .stopped ∨ p = .nextFrame
  | .ok (.waiting _) => p = .timer
  | .ok (.switch _) => p = .midway

namespace Handler

variable {σ : Type} {script : Script} {ctx : Context σ} {h h' : Handler} {s s' : σ}

/-- The phase that the flags of a handler stand for, if they fit together. -/
def phase? (h : Handler) : Option Phase :=
  match h.running, h.waitingForFrame, h.suspended with
  | false, false, false => some .stopped
  | true, true, false => some .nextFrame
  | true, false, true => some .timer
  | true, false, false => some .midway
  | _, _, _ => none

/-- The flags of a stopped handler. -/
theorem phase?_stopped_iff : h.phase? = some .stopped ↔
    h.running = false ∧ h.waitingForFrame = false ∧ h.suspended = false := by
  unfold phase?
  split <;> simp_all

/-- The flags of a handler that waits for a frame. -/
theorem phase?_nextFrame_iff : h.phase? = some .nextFrame ↔
    h.running = true ∧ h.waitingForFrame = true ∧ h.suspended = false := by
  unfold phase?
  split <;> simp_all

/-- The flags of a handler that waits for a timer. -/
theorem phase?_timer_iff : h.phase? = some .timer ↔
    h.running = true ∧ h.waitingForFrame = false ∧ h.suspended = true := by
  unfold phase?
  split <;> simp_all

/-- The flags of a handler that is in the midst of its statements. -/
theorem phase?_midway_iff : h.phase? = some .midway ↔
    h.running = true ∧ h.waitingForFrame = false ∧ h.suspended = false := by
  unfold phase?
  split <;> simp_all

/-- A handler that has a phase runs unless it has stopped. -/
theorem running_iff {p : Phase} (hp : h.phase? = some p) : h.running = true ↔ p ≠ .stopped := by
  revert hp
  unfold phase?
  split <;> simp_all <;> rintro rfl <;> simp

theorem waitingForFrame_iff {p : Phase} (hp : h.phase? = some p) :
    h.waitingForFrame = true ↔ p = .nextFrame := by
  revert hp
  unfold phase?
  split <;> simp_all <;> rintro rfl <;> simp

theorem suspended_iff {p : Phase} (hp : h.phase? = some p) :
    h.suspended = true ↔ p = .timer := by
  revert hp
  unfold phase?
  split <;> simp_all <;> rintro rfl <;> simp

/-- Moving along the stack changes no flag. -/
@[simp] theorem phase?_advance (h : Handler) : h.advance.phase? = h.phase? := by
  unfold advance
  split <;> rfl

@[simp] theorem phase?_enter (h : Handler) (b : Option BlockId) :
    (h.enter b).phase? = h.phase? := by
  cases b <;> rfl

@[simp] theorem phase?_leave (h : Handler) : h.leave.phase? = h.phase? := rfl

@[simp] theorem phase?_count (h : Handler) : h.count.phase? = h.phase? := rfl

@[simp] theorem phase?_reset (h : Handler) : h.reset.phase? = some .stopped := rfl

/-! ## Moving along the stack -/

/-- The position on top goes on by one statement. -/
theorem stack_advance {p : Position} {rest : List Position} (hs : h.stack = p :: rest) :
    h.advance.stack = { p with index := p.index + 1 } :: rest := by
  rw [advance]
  split
  · rename_i hnil
    rw [hs] at hnil
    cases hnil
  · rename_i hcons
    cases hs.symm.trans hcons
    rfl

/-- Moving past a statement is a matter of the stack alone. -/
theorem stack_advance_congr (hs : h'.stack = h.stack) :
    h'.advance.stack = h.advance.stack := by
  cases hstack : h.stack with
  | nil =>
    rw [advance, advance]
    simp only [hs, hstack]
  | cons p rest => rw [stack_advance hstack, stack_advance (hs.trans hstack)]

/-- Moving is not counted. -/
@[simp] theorem executed_advance (h : Handler) : h.advance.executed = h.executed := by
  unfold advance
  split <;> rfl

@[simp] theorem executed_enter (h : Handler) (b : Option BlockId) :
    (h.enter b).executed = h.executed := by
  cases b <;> rfl

@[simp] theorem executed_count (h : Handler) : h.count.executed = h.executed + 1 := rfl

/-- Moving asks for no other round. -/
@[simp] theorem loopsNext_advance (h : Handler) : h.advance.loopsNext = h.loopsNext := by
  unfold advance
  split <;> rfl

@[simp] theorem loopsNext_enter (h : Handler) (b : Option BlockId) :
    (h.enter b).loopsNext = h.loopsNext := by
  cases b <;> rfl

/-! ## What identifies a handler -/

/-- `h'` is the handler `h` later on: for the same event, with the same block and budget. -/
def SameHandler (h h' : Handler) : Prop :=
  h'.event = h.event ∧ h'.entry = h.entry ∧ h'.budget = h.budget

/-- Any number of steps leave it the same handler. -/
theorem SameHandler.trans {h₁ h₂ h₃ : Handler} (a : h₁.SameHandler h₂) (b : h₂.SameHandler h₃) :
    h₁.SameHandler h₃ :=
  ⟨b.1.trans a.1, b.2.1.trans a.2.1, b.2.2.trans a.2.2⟩

theorem sameHandler_advance (h : Handler) : h.SameHandler h.advance := by
  unfold advance
  split <;> exact ⟨rfl, rfl, rfl⟩

theorem sameHandler_enter (h : Handler) (b : Option BlockId) : h.SameHandler (h.enter b) := by
  cases b <;> exact ⟨rfl, rfl, rfl⟩

theorem sameHandler_count (h : Handler) : h.SameHandler h.count := ⟨rfl, rfl, rfl⟩

/-- **Executing statements** changes where the handler is, and not which one it is. -/
theorem sameHandler_execute (script : Script) (ctx : Context σ) (h : Handler) (s : σ) :
    h.SameHandler (execute script ctx h s).2.1 := by
  fun_induction execute script ctx h s with
  | case1 => exact ⟨rfl, rfl, rfl⟩
  | case2 h _ _ _ _ _ ih => exact ih
  | case3 => exact ⟨rfl, rfl, rfl⟩
  | case4 => exact ⟨rfl, rfl, rfl⟩
  | case5 h _ _ _ _ _ _ _ _ _ ih =>
    exact ((sameHandler_count h).trans (sameHandler_advance _)).trans ih
  | case6 h _ _ _ _ _ _ _ b _ _ ih =>
    exact (((sameHandler_count h).trans (sameHandler_advance _)).trans
      (sameHandler_enter _ b)).trans ih
  | case7 => exact ⟨rfl, rfl, rfl⟩
  | case8 h => exact (sameHandler_count h).trans (sameHandler_advance _)

/-! ## Executing -/

variable {p : Position} {rest : List Position} {st : Statement}

/-- With nothing left on its stack a handler has finished. -/
theorem execute_nil (ctx : Context σ) (s : σ) (hs : h.stack = []) :
    execute script ctx h s = (.ok .finished, h.finish, s) := by
  rw [execute]
  split
  · rfl
  · rename_i hs'
    cases hs.symm.trans hs'

/-- Behind the last statement of a block it goes on with the block around it. -/
theorem execute_leave (ctx : Context σ) (s : σ) (hs : h.stack = p :: rest)
    (hp : script.statement? p.block p.index = none) :
    execute script ctx h s = execute script ctx h.leave s := by
  rw [execute]
  split
  · rename_i hs'
    cases hs.symm.trans hs'
  · rename_i hs'
    cases hs.symm.trans hs'
    simp only [hp]

/-- **One statement** is executed if the budget allows it. -/
theorem execute_statement (ctx : Context σ) (s : σ) (hs : h.stack = p :: rest)
    (hp : script.statement? p.block p.index = some st) :
    execute script ctx h s =
      if h.budget ≤ h.usedBudget then (.ok .outOfBudget, { h with waitingForFrame := true }, s)
      else
        match st.perform ctx (ctx.observe p s) with
        | (.error e, s') => (.error e, h.count.reset, s')
        | (.ok .next, s') => execute script ctx h.count.advance s'
        | (.ok (.enter b), s') => execute script ctx (h.count.advance.enter b) s'
        | (.ok (.wait ms), s') => (.ok (.waiting ms), { h.count with suspended := true }, s')
        | (.ok .reselect, s') => (.ok .reselect, h.count.advance, s') := by
  rw [execute]
  split
  · rename_i hs'
    cases hs.symm.trans hs'
  · rename_i hs'
    cases hs.symm.trans hs'
    rcases hv : st.perform ctx (ctx.observe p s) with ⟨_ | (_ | _ | _ | _), _⟩ <;>
      simp only [hp, hv]

/-- **Executing** from the middle of the work leads to the phase that belongs to the outcome. -/
theorem phase_execute (script : Script) (ctx : Context σ) (h : Handler) (s : σ)
    (hm : h.phase? = some .midway) :
    (execute script ctx h s).2.1.phase? = some (Phase.after (execute script ctx h s).1) ∧
      (execute script ctx h s).1 ≠ .ok .idle := by
  fun_induction execute script ctx h s with
  | case1 h s hs =>
    obtain ⟨-, hw, ht⟩ := phase?_midway_iff.mp hm
    exact ⟨phase?_stopped_iff.mpr ⟨rfl, hw, ht⟩, by simp⟩
  | case2 h s p rest hs hp ih => exact ih hm
  | case3 h s p rest hs st hp hb =>
    obtain ⟨hr, -, ht⟩ := phase?_midway_iff.mp hm
    exact ⟨phase?_nextFrame_iff.mpr ⟨hr, rfl, ht⟩, by simp⟩
  | case4 h s p rest hs st hp hb e s' hv => exact ⟨rfl, by simp⟩
  | case5 h s p rest hs st hp hb s' hv ih => exact ih (by simpa using hm)
  | case6 h s p rest hs st hp hb b s' hv ih => exact ih (by simpa using hm)
  | case7 h s p rest hs st hp hb s' ms hv =>
    obtain ⟨hr, hw, -⟩ := phase?_midway_iff.mp hm
    exact ⟨phase?_timer_iff.mpr ⟨hr, hw, rfl⟩, by simp⟩
  | case8 h s p rest hs st hp hb s' hv => exact ⟨by simpa [Phase.after] using hm, by simp⟩

/-- In the middle of the work, proceeding is executing. -/
theorem proceed_of_midway (script : Script) (ctx : Context σ) (s : σ)
    (hm : h.phase? = some .midway) : proceed script ctx h s = execute script ctx h s := by
  obtain ⟨hr, hw, ht⟩ := phase?_midway_iff.mp hm
  rw [proceed, hr, hw, ht]
  rfl

/-! ## Obeying a cue -/

/-- The handler as it begins with its first statement, if it can be started. -/
def started (script : Script) (h : Handler) : Option Handler :=
  if h.running || (script.block h.entry).isEmpty then none
  else some { h with running := true, stack := ⟨h.entry, 0⟩ :: h.stack }

/-- The handler as it begins to execute when it gets a cue, if the cue wakes it. -/
def woken (script : Script) (h : Handler) : Cue → Option Handler
  | .run => h.started script
  | .newFrame =>
    if h.loopsNext then { h with usedBudget := 0, loopsNext := false }.started script
    else if h.waitingForFrame then some { h with usedBudget := 0, waitingForFrame := false }
    else none
  | .resume => if h.suspended then some { h with suspended := false }.advance else none

/-- What a cue that does not wake the handler makes of it. -/
def idled (h : Handler) : Cue → Handler
  | .newFrame => { h with usedBudget := 0, loopsNext := false }
  | .run | .resume => h

/-- To run is to start and to execute. -/
theorem run_eq (script : Script) (ctx : Context σ) (h : Handler) (s : σ) :
    h.run script ctx s = match h.started script with
      | some h₁ => execute script ctx h₁ s
      | none => (.ok .idle, h, s) := by
  rw [run, started]
  split <;> rfl

/-- **Obeying a cue** is executing, or nothing at all. -/
theorem obey_eq (script : Script) (ctx : Context σ) (c : Cue) (h : Handler) (s : σ) :
    h.obey script ctx s c = match h.woken script c with
      | some h₁ => execute script ctx h₁ s
      | none => (.ok .idle, h.idled c, s) := by
  cases c with
  | run => exact run_eq script ctx h s
  | newFrame =>
    rw [obey, newFrame, woken]
    by_cases hl : h.loopsNext = true
    · simp only [hl, if_true]
      exact run_eq script ctx { h with usedBudget := 0, loopsNext := false } s
    · rw [Bool.not_eq_true] at hl
      simp only [hl, Bool.false_eq_true, if_false]
      split
      · rfl
      · rw [idled, ← hl]
  | resume =>
    rw [obey, resume, woken]
    split <;> rfl

/-- The handler does nothing: its phase stays, and so does the state. -/
def Idles (h : Handler) (s : σ) (r : Except Error Outcome × Handler × σ) : Prop :=
  r.1 = .ok .idle ∧ r.2.1.phase? = h.phase? ∧ h.SameHandler r.2.1 ∧ r.2.2 = s

/-- The handler executes, after it has been put in the middle of its work. -/
def Executes (script : Script) (ctx : Context σ) (h : Handler) (s : σ)
    (r : Except Error Outcome × Handler × σ) : Prop :=
  ∃ h₁ : Handler, h₁.phase? = some .midway ∧ h.SameHandler h₁ ∧ r = execute script ctx h₁ s

/-- A handler that is started is the same one. -/
theorem sameHandler_started {h₁ : Handler} (hs : h.started script = some h₁) :
    h.SameHandler h₁ := by
  rw [started] at hs
  split at hs
  · cases hs
  · cases hs
    exact ⟨rfl, rfl, rfl⟩

/-- A handler that is woken is the same one. -/
theorem sameHandler_woken {c : Cue} {h₁ : Handler} (hw : h.woken script c = some h₁) :
    h.SameHandler h₁ := by
  cases c with
  | run => exact sameHandler_started hw
  | newFrame =>
    rw [woken] at hw
    split at hw
    · exact sameHandler_started (h := { h with usedBudget := 0, loopsNext := false }) hw
    · split at hw
      · cases hw
        exact ⟨rfl, rfl, rfl⟩
      · cases hw
  | resume =>
    rw [woken] at hw
    split at hw
    · cases hw
      have hsame : h.SameHandler { h with suspended := false } := ⟨rfl, rfl, rfl⟩
      exact hsame.trans (sameHandler_advance _)
    · cases hw

/-- Only a stopped handler can be started, and it is then in the midst of its statements. -/
theorem phase_started {h₁ : Handler} {p : Phase} (hp : h.phase? = some p)
    (hs : h.started script = some h₁) : p = .stopped ∧ h₁.phase? = some .midway := by
  rw [started] at hs
  split at hs
  · cases hs
  · rename_i hidle
    cases hs
    have hr : h.running ≠ true := fun hr => hidle (by rw [hr]; rfl)
    have hstop : p = .stopped := Decidable.byContradiction fun hne => hr ((running_iff hp).mpr hne)
    subst hstop
    obtain ⟨-, hw, ht⟩ := phase?_stopped_iff.mp hp
    exact ⟨rfl, phase?_midway_iff.mpr ⟨rfl, hw, ht⟩⟩

/-- **A handler that is woken** was in a phase in which the cue wakes it, and it begins in the
    middle of its work. -/
theorem phase_woken {c : Cue} {h₁ : Handler} {p : Phase} (hp : h.phase? = some p)
    (hw : h.woken script c = some h₁) : c.Wakes p ∧ h₁.phase? = some .midway := by
  cases c with
  | run => exact phase_started hp hw
  | newFrame =>
    rw [woken] at hw
    split at hw
    · -- the handler starts again
      obtain ⟨hstop, hm⟩ :=
        phase_started (h := { h with usedBudget := 0, loopsNext := false }) (p := p) hp hw
      exact ⟨.inl hstop, hm⟩
    · split at hw
      · rename_i hwait
        cases hw
        obtain rfl : p = .nextFrame := (waitingForFrame_iff hp).mp hwait
        obtain ⟨hr, -, ht⟩ := phase?_nextFrame_iff.mp hp
        exact ⟨.inr rfl, phase?_midway_iff.mpr ⟨hr, rfl, ht⟩⟩
      · cases hw
  | resume =>
    rw [woken] at hw
    split at hw
    · rename_i ht
      cases hw
      obtain rfl : p = .timer := (suspended_iff hp).mp ht
      obtain ⟨hr, hwait, -⟩ := phase?_timer_iff.mp hp
      refine ⟨rfl, ?_⟩
      rw [phase?_advance]
      exact phase?_midway_iff.mpr ⟨hr, hwait, rfl⟩
    · cases hw

/-- A handler whose timer has run out is woken. -/
theorem ne_timer_of_not_woken {c : Cue} {p : Phase} (hp : h.phase? = some p)
    (hw : h.woken script c = none) (hc : c = .resume) : p ≠ .timer := by
  subst hc
  rintro rfl
  have ht : h.suspended = true := (suspended_iff hp).mpr rfl
  rw [woken, if_pos ht] at hw
  cases hw

/-- A cue that does nothing leaves the phase as it is. -/
@[simp] theorem phase?_idled (h : Handler) (c : Cue) : (h.idled c).phase? = h.phase? := by
  cases c <;> rfl

theorem sameHandler_idled (h : Handler) (c : Cue) : h.SameHandler (h.idled c) := by
  cases c <;> exact ⟨rfl, rfl, rfl⟩

/-- **Obeying a cue** is idling, or executing if the cue wakes the handler.  A handler whose timer
    has run out does not idle. -/
theorem obey_cases (script : Script) (ctx : Context σ) (c : Cue) (h : Handler) (s : σ) {p : Phase}
    (hp : h.phase? = some p) :
    ((c = .resume → p ≠ .timer) ∧ h.Idles s (h.obey script ctx s c)) ∨
      c.Wakes p ∧ h.Executes script ctx s (h.obey script ctx s c) := by
  rw [obey_eq]
  cases hw : h.woken script c with
  | none =>
    exact .inl ⟨ne_timer_of_not_woken hp hw, rfl, phase?_idled h c, sameHandler_idled h c, rfl⟩
  | some h₁ =>
    obtain ⟨hwakes, hm⟩ := phase_woken hp hw
    exact .inr ⟨hwakes, h₁, hm, sameHandler_woken hw, rfl⟩

/-- **No cue** makes another handler of it. -/
theorem sameHandler_obey (script : Script) (ctx : Context σ) (h : Handler) (s : σ) (c : Cue) :
    h.SameHandler (h.obey script ctx s c).2.1 := by
  rw [obey_eq]
  cases hw : h.woken script c with
  | none => exact sameHandler_idled h c
  | some h₁ => exact (sameHandler_woken hw).trans (sameHandler_execute script ctx h₁ s)

/-- Whatever its flags are, a handler that obeys a cue leaves the state alone or executes. -/
theorem obey_idle_or_execute (script : Script) (ctx : Context σ) (c : Cue) (h : Handler) (s : σ) :
    (∃ h', h.obey script ctx s c = (.ok .idle, h', s)) ∨
      ∃ h₁, h.obey script ctx s c = execute script ctx h₁ s := by
  rw [obey_eq]
  cases h.woken script c with
  | none => exact .inl ⟨_, rfl⟩
  | some h₁ => exact .inr ⟨h₁, rfl⟩

/-- To go on is to do nothing or to execute. -/
theorem proceed_idle_or_execute (script : Script) (ctx : Context σ) (h : Handler) (s : σ) :
    h.proceed script ctx s = (.ok .idle, h, s) ∨
      h.proceed script ctx s = execute script ctx h s := by
  rw [proceed]
  split
  · exact .inl rfl
  · exact .inr rfl

theorem sameHandler_proceed (script : Script) (ctx : Context σ) (h : Handler) (s : σ) :
    h.SameHandler (h.proceed script ctx s).2.1 := by
  rcases proceed_idle_or_execute script ctx h s with hp | hp
  · rw [hp]
    exact ⟨rfl, rfl, rfl⟩
  · rw [hp]
    exact sameHandler_execute script ctx h s

/-! ## Answering requests

  A turn of a handler is its answer to a cue, and whatever follows from the requests for a new
  choice of state that it makes on the way.  `conclude` is the part behind the first step. -/

/-- What becomes of the handler once it has come to rest with an outcome. -/
def conclude (script : Script) (ctx : Context σ) (choose : Action σ Nat) (current : Option Nat) :
    Except Error Outcome × Handler × σ → Except Error Rest × Handler × σ
  | (.error e, h, s) => (.error e, h, s)
  | (.ok .reselect, h, s) => answer script ctx choose current h s
  | (.ok (.waiting ms), h, s) => (.ok (.waiting ms), h, s)
  | (.ok .idle, h, s) | (.ok .finished, h, s) | (.ok .outOfBudget, h, s) => (.ok .settled, h, s)

variable {choose : Action σ Nat} {current : Option Nat}

/-- A turn is what the handler does and what is concluded from it. -/
theorem settle_eq (c : Cue) (h : Handler) (s : σ) :
    settle script ctx choose current c h s =
      conclude script ctx choose current (h.obey script ctx s c) := by
  rw [settle]
  rcases h.obey script ctx s c with ⟨_ | (_ | _ | _ | _ | _), h', s'⟩ <;> rfl

/-- **An answer** to a request: the choice fails, leads to another state, or lets the handler
    proceed. -/
theorem conclude_reselect (h : Handler) (s : σ) :
    conclude script ctx choose current (.ok .reselect, h, s) =
      match choose s with
      | (.error e, s') => (.error e, h, s')
      | (.ok i, s') =>
        if current = some i then conclude script ctx choose current (h.proceed script ctx s')
        else (.ok (.switch i), h, s') := by
  rw [conclude, answer]
  rcases choose s with ⟨e | i, s'⟩
  · rfl
  · simp only
    split
    · split <;> rename_i hp <;> rw [hp]
      · rfl
      · rfl
      · rfl
      · rename_i o h' s'' hr hw
        rcases o with _ | _ | _ | ms | _
        · rfl
        · rfl
        · rfl
        · exact absurd rfl (hw ms)
        · exact absurd rfl hr
    · rfl

/-- **Induction over the requests of a turn**: every request is declined, leads to another state,
    or lets the handler go on. -/
theorem conclude_induct (script : Script) (ctx : Context σ) (choose : Action σ Nat)
    (current : Option Nat)
    {motive : Except Error Outcome × Handler × σ → Except Error Rest × Handler × σ → Prop}
    (failed : ∀ e h s, motive (.error e, h, s) (.error e, h, s))
    (settled : ∀ o h s, o = .idle ∨ o = .finished ∨ o = .outOfBudget →
      motive (.ok o, h, s) (.ok .settled, h, s))
    (waiting : ∀ ms h s, motive (.ok (.waiting ms), h, s) (.ok (.waiting ms), h, s))
    (declined : ∀ h s e s', choose s = (.error e, s') →
      motive (.ok .reselect, h, s) (.error e, h, s'))
    (leaving : ∀ h s i s', choose s = (.ok i, s') → current ≠ some i →
      motive (.ok .reselect, h, s) (.ok (.switch i), h, s'))
    (staying : ∀ h s i s' r, choose s = (.ok i, s') → current = some i →
      motive (h.proceed script ctx s') r → motive (.ok .reselect, h, s) r)
    (x : Except Error Outcome × Handler × σ) :
    motive x (conclude script ctx choose current x) := by
  -- the rounds of one request after the other follow the recursion of `answer`
  have request : ∀ h s, motive (.ok .reselect, h, s) (answer script ctx choose current h s) := by
    intro h s
    fun_induction answer script ctx choose current h s with
    | case1 h s e s' hc => exact declined h s e s' hc
    | case2 h s i s' hc hi e h' s'' hp => exact staying h s i s' _ hc hi (hp ▸ failed e h' s'')
    | case3 h s i s' hc hi h' s'' hp ih => exact staying h s i s' _ hc hi (hp ▸ ih)
    | case4 h s i s' hc hi ms h' s'' hp => exact staying h s i s' _ hc hi (hp ▸ waiting ms h' s'')
    | case5 h s i s' hc hi o h' s'' hr hw hp =>
      refine staying h s i s' _ hc hi (hp ▸ settled o h' s'' ?_)
      cases o with
      | idle => exact .inl rfl
      | finished => exact .inr (.inl rfl)
      | outOfBudget => exact .inr (.inr rfl)
      | waiting ms => exact absurd rfl (hw ms)
      | reselect => exact absurd rfl hr
    | case6 h s i s' hc hi => exact leaving h s i s' hc hi
  rcases x with ⟨e | (_ | _ | _ | ms | _), h, s⟩
  · exact failed e h s
  · exact settled .idle h s (.inl rfl)
  · exact settled .finished h s (.inr (.inl rfl))
  · exact settled .outOfBudget h s (.inr (.inr rfl))
  · exact waiting ms h s
  · exact request h s

/-- **What the requests of a turn keep of a handler**: something that holds of it whenever it has
    come to rest, and something more when it then asks for a new choice of state. -/
theorem conclude_keeps {script : Script} {ctx : Context σ} {P R : Handler → Prop}
    (hproceed : ∀ h s, P h → R h → P (h.proceed script ctx s).2.1 ∧
      ((h.proceed script ctx s).1 = .ok .reselect → R (h.proceed script ctx s).2.1))
    (choose : Action σ Nat) (current : Option Nat) (x : Except Error Outcome × Handler × σ)
    (hx : P x.2.1) (hr : x.1 = .ok .reselect → R x.2.1) :
    P (conclude script ctx choose current x).2.1 := by
  revert hx hr
  refine conclude_induct script ctx choose current
    (motive := fun x r => P x.2.1 → (x.1 = .ok .reselect → R x.2.1) → P r.2.1)
    ?failed ?settled ?waiting ?declined ?leaving ?staying x
  case failed =>
    intro e h s hx hr
    exact hx
  case settled =>
    intro o h s ho hx hr
    exact hx
  case waiting =>
    intro ms h s hx hr
    exact hx
  case declined =>
    intro h s e s' hc hx hr
    exact hx
  case leaving =>
    intro h s i s' hc hne hx hr
    exact hx
  case staying =>
    intro h s i s' r hc hi ih hx hr
    obtain ⟨hx', hr'⟩ := hproceed h s' hx (hr rfl)
    exact ih hx' hr'

/-! ## Turns -/

theorem sameHandler_conclude (script : Script) (ctx : Context σ) (choose : Action σ Nat)
    (current : Option Nat) (x : Except Error Outcome × Handler × σ) (hx : h.SameHandler x.2.1) :
    h.SameHandler (conclude script ctx choose current x).2.1 := by
  refine conclude_keeps (R := fun _ => True) (fun h₂ s hx _ => ?_) choose current x hx
    fun _ => trivial
  exact ⟨hx.trans (sameHandler_proceed script ctx h₂ s), fun _ => trivial⟩

/-- A handler that has come to rest after executing comes out of its requests in a phase that fits
    the way it has come to rest. -/
theorem phase_conclude (script : Script) (ctx : Context σ) (choose : Action σ Nat)
    (current : Option Nat) (x : Except Error Outcome × Handler × σ)
    (hx : x.2.1.phase? = some (Phase.after x.1) ∧ x.1 ≠ .ok .idle) :
    ∃ q, (conclude script ctx choose current x).2.1.phase? = some q ∧
      q.Fits (conclude script ctx choose current x).1 := by
  revert hx
  refine conclude_induct script ctx choose current
    (motive := fun x r => (x.2.1.phase? = some (Phase.after x.1) ∧ x.1 ≠ .ok .idle) →
      ∃ q, r.2.1.phase? = some q ∧ q.Fits r.1)
    ?failed ?settled ?waiting ?declined ?leaving ?staying x
  case failed =>
    intro e h s hx
    exact ⟨.stopped, hx.1, .inl rfl⟩
  case settled =>
    intro o h s ho hx
    rcases ho with rfl | rfl | rfl
    · exact absurd rfl hx.2
    · exact ⟨.stopped, hx.1, .inl rfl⟩
    · exact ⟨.nextFrame, hx.1, .inr rfl⟩
  case waiting =>
    intro ms h s hx
    exact ⟨.timer, hx.1, rfl⟩
  case declined =>
    intro h s e s' hc hx
    exact ⟨.midway, hx.1, .inr rfl⟩
  case leaving =>
    intro h s i s' hc hne hx
    exact ⟨.midway, hx.1, rfl⟩
  case staying =>
    intro h s i s' r hc hi ih hx
    have hp := proceed_of_midway script ctx s' hx.1
    exact ih (hp ▸ phase_execute script ctx h s' hx.1)

/-- A whole turn leaves it the same handler. -/
theorem sameHandler_settle (script : Script) (ctx : Context σ) (choose : Action σ Nat)
    (current : Option Nat) (c : Cue) (h : Handler) (s : σ) :
    h.SameHandler (settle script ctx choose current c h s).2.1 := by
  rw [settle_eq]
  exact sameHandler_conclude script ctx choose current _ (sameHandler_obey script ctx h s c)

/-- **A turn** of a handler in phase `p`: it idles, or it was woken and is now in a phase that fits
    the way it came to rest. -/
theorem settle_cases (script : Script) (ctx : Context σ) (choose : Action σ Nat)
    (current : Option Nat) (c : Cue) (h : Handler) (s : σ) {p : Phase} (hp : h.phase? = some p) :
    h.SameHandler (settle script ctx choose current c h s).2.1 ∧
      (((c = .resume → p ≠ .timer) ∧ (settle script ctx choose current c h s).1 = .ok .settled ∧
          (settle script ctx choose current c h s).2.1.phase? = some p) ∨
        c.Wakes p ∧ ∃ q, (settle script ctx choose current c h s).2.1.phase? = some q ∧
          q.Fits (settle script ctx choose current c h s).1) := by
  refine ⟨sameHandler_settle script ctx choose current c h s, ?_⟩
  rw [settle_eq, obey_eq]
  cases hw : h.woken script c with
  | none =>
    -- idle: nothing is left to conclude
    exact .inl ⟨ne_timer_of_not_woken hp hw, rfl, (phase?_idled h c).trans hp⟩
  | some h₁ =>
    obtain ⟨hwakes, hm⟩ := phase_woken hp hw
    exact .inr ⟨hwakes, phase_conclude script ctx choose current (execute script ctx h₁ s)
      (phase_execute script ctx h₁ s hm)⟩

/-- A turn leads to a state only if that state has just been chosen and is not the current one. -/
theorem chosen_of_settle_switch {c : Cue} {i : Nat}
    (hr : (settle script ctx choose current c h s).1 = .ok (.switch i)) :
    current ≠ some i ∧
      ∃ s₀, choose s₀ = (.ok i, (settle script ctx choose current c h s).2.2) := by
  rw [settle_eq] at hr ⊢
  revert hr
  refine conclude_induct script ctx choose current
    (motive := fun _ r => r.1 = .ok (.switch i) →
      current ≠ some i ∧ ∃ s₀, choose s₀ = (.ok i, r.2.2))
    ?failed ?settled ?waiting ?declined ?leaving ?staying (h.obey script ctx s c)
  case failed =>
    intro e h s hr
    cases hr
  case settled =>
    intro o h s ho hr
    cases hr
  case waiting =>
    intro ms h s hr
    cases hr
  case declined =>
    intro h s e s' hc hr
    cases hr
  case leaving =>
    intro h s j s' hc hne hr
    cases hr
    exact ⟨hne, s, hc⟩
  case staying =>
    intro h s j s' r hc hi ih
    exact ih

variable {P : σ → Prop} {E : Error → Prop} {script : Script}

/-- **A turn** asks for nothing but what stands in the script and the choice of a state. -/
theorem settle_ensures (h : ctx.Serves script P E) (hch : choose.Ensures P E)
    (current : Option Nat) (c : Cue) (hd : Handler) (s : σ) (hs : P s) :
    Ensured (fun x => P x.2) E (settle script ctx choose current c hd s) := by
  have hobey : Ensured (fun x => P x.2) E (hd.obey script ctx s c) := by
    rcases obey_idle_or_execute script ctx c hd s with ⟨h', ho⟩ | ⟨h₁, ho⟩
    · rw [ho]
      exact .ok hs
    · rw [ho]
      exact execute_ensures h h₁ s hs
  rw [settle_eq]
  revert hobey
  refine conclude_induct script ctx choose current
    (motive := fun x r => Ensured (fun y => P y.2) E x → Ensured (fun y => P y.2) E r)
    ?failed ?settled ?waiting ?declined ?leaving ?staying (hd.obey script ctx s c)
  case failed =>
    intro e h s hx
    exact .error hx.1 (hx.2 e rfl)
  case settled =>
    intro o h s ho hx
    exact .ok hx.1
  case waiting =>
    intro ms h s hx
    exact .ok hx.1
  case declined =>
    intro h s e s' hc hx
    have hchoose := hch s hx.1
    rw [hc] at hchoose
    exact .error hchoose.1 (hchoose.2 e rfl)
  case leaving =>
    intro h s i s' hc hne hx
    have hchoose := hch s hx.1
    rw [hc] at hchoose
    exact .ok hchoose.1
  case staying =>
    intro h₂ s i s' r hc hi ih hx
    have hchoose := hch s hx.1
    rw [hc] at hchoose
    rcases proceed_idle_or_execute script ctx h₂ s' with hp | hp
    · exact ih (hp ▸ .ok hchoose.1)
    · exact ih (hp ▸ execute_ensures h h₂ s' hchoose.1)

/-- A turn keeps what all operations of the context and the choice of a state keep. -/
theorem settle_keeps (script : Script) (hctx : ctx.Keeps P) (hw : ∀ r v, (ctx.write r v).Keeps P)
    (hch : choose.Keeps P) (current : Option Nat) (c : Cue) (h : Handler) (s : σ) (hs : P s) :
    P (settle script ctx choose current c h s).2.2 :=
  (settle_ensures (hctx.serves hw script) (Action.keeps_iff_ensures.mp hch) current c h s hs).1

/-- What holds whenever the current state has just been chosen, and only an assignment destroys,
    holds when a turn ends without an error in the current state. -/
theorem settle_keeps_of_chosen (script : Script) (hctx : ctx.Keeps P)
    (hch : ∀ s i s', choose s = (.ok i, s') → current = some i → P s') (c : Cue) (h : Handler)
    (s : σ) (hs : P s) {rest : Rest} (hr : (settle script ctx choose current c h s).1 = .ok rest)
    (hstay : ∀ i, rest ≠ .switch i) : P (settle script ctx choose current c h s).2.2 := by
  have hobey : ∀ o, (h.obey script ctx s c).1 = .ok o → o ≠ .reselect →
      P (h.obey script ctx s c).2.2 := by
    intro o ho hne
    rcases obey_idle_or_execute script ctx c h s with ⟨h', hx⟩ | ⟨h₁, hx⟩
    · rw [hx]
      exact hs
    · rw [hx] at ho ⊢
      exact execute_keeps_of_ne_reselect script hctx h₁ s ho hne hs
  rw [settle_eq] at hr ⊢
  revert hobey hr
  refine conclude_induct script ctx choose current
    (motive := fun x r => r.1 = .ok rest → (∀ o, x.1 = .ok o → o ≠ .reselect → P x.2.2) → P r.2.2)
    ?failed ?settled ?waiting ?declined ?leaving ?staying (h.obey script ctx s c)
  case failed =>
    intro e h s hr hx
    cases hr
  case settled =>
    intro o h s ho hr hx
    refine hx o rfl ?_
    rcases ho with rfl | rfl | rfl <;> simp
  case waiting =>
    intro ms h s hr hx
    exact hx _ rfl (by simp)
  case declined =>
    intro h s e s' hc hr hx
    cases hr
  case leaving =>
    intro h s i s' hc hne hr hx
    cases hr
    exact absurd rfl (hstay i)
  case staying =>
    intro h s i s' r hc hi ih hr hx
    have hs' := hch s i s' hc hi
    refine ih hr fun o ho hne => ?_
    rcases proceed_idle_or_execute script ctx h s' with hp | hp
    · rw [hp]
      exact hs'
    · rw [hp] at ho ⊢
      exact execute_keeps_of_ne_reselect script hctx h s' ho hne hs'

end Handler

end ActorScript
