/-
  Handlers: one event handler of one state, run a frame at a time.

  A handler keeps its place as a stack of positions, the innermost block first; every position
  names the statement to come.  In one frame it executes at most `budget` statements.  It comes to
  rest when its stack is empty, when the budget is spent, at a call that waits for a timer, or
  after a statement that asks for the state to be chosen anew; `Outcome` says which.  An error
  stops it for good: the stack is dropped, the effects of the statements stay.

  `execute` terminates whatever blocks the script has, also those that contain themselves: every
  statement uses up some of the frame's budget, and between statements the stack gets shorter.
-/
import ActorScript.Statement

namespace ActorScript

/-- Why a handler came to rest. -/
inductive Outcome
  /-- There was nothing to do. -/
  | idle
  /-- The last statement has been executed. -/
  | finished
  /-- The budget of the frame is spent. -/
  | outOfBudget
  /-- A call waits for a timer of this many milliseconds. -/
  | waiting (milliseconds : UInt64)
  /-- The state has to be chosen anew before the handler may go on. -/
  | reselect
deriving DecidableEq, Repr, Inhabited

/-- An event handler that is at rest. -/
structure Handler where
  event : Event
  /-- The block of the handler itself. -/
  entry : BlockId
  /-- How many statements may be executed in one frame. -/
  budget : Nat
  /-- The statements to come, the innermost block first. -/
  stack : List Position := []
  running : Bool := false
  /-- Statements executed in the current frame. -/
  usedBudget : Nat := 0
  waitingForFrame : Bool := false
  /-- Whether a call waits for its timer. -/
  suspended : Bool := false
  /-- Whether the handler starts again with the next frame. -/
  loopsNext : Bool := false
  /-- Statements executed since the handler was made. -/
  executed : Nat := 0
deriving DecidableEq, Repr, Inhabited

namespace Handler

variable {σ : Type}

/-- The statement to come, if the handler is inside a block. -/
def position? (h : Handler) : Option Position := h.stack.head?

/-- Moves past the statement to come. -/
def advance (h : Handler) : Handler :=
  match h.stack with
  | [] => h
  | p :: rest => { h with stack := { p with index := p.index + 1 } :: rest }

/-- Goes into a block, if there is one. -/
def enter (h : Handler) : Option BlockId → Handler
  | none => h
  | some b => { h with stack := ⟨b, 0⟩ :: h.stack }

/-- Leaves the innermost block. -/
def leave (h : Handler) : Handler := { h with stack := h.stack.tail }

/-- Counts a statement. -/
def count (h : Handler) : Handler :=
  { h with usedBudget := h.usedBudget + 1, executed := h.executed + 1 }

/-- Forgets the stack and everything that is pending; only the total of executed statements
    stays. -/
def reset (h : Handler) : Handler :=
  { h with stack := [], running := false, usedBudget := 0, waitingForFrame := false,
           suspended := false, loopsNext := false }

/-- Stops after the last statement.  The handler of the loop event starts again with the next
    frame. -/
def finish (h : Handler) : Handler :=
  { h with running := false, loopsNext := h.loopsNext || h.event = .loop }

@[simp] theorem budget_advance (h : Handler) : h.advance.budget = h.budget := by
  unfold advance; split <;> rfl

@[simp] theorem usedBudget_advance (h : Handler) : h.advance.usedBudget = h.usedBudget := by
  unfold advance; split <;> rfl

@[simp] theorem budget_enter (h : Handler) (b : Option BlockId) :
    (h.enter b).budget = h.budget := by
  cases b <;> rfl

@[simp] theorem usedBudget_enter (h : Handler) (b : Option BlockId) :
    (h.enter b).usedBudget = h.usedBudget := by
  cases b <;> rfl

@[simp] theorem budget_count (h : Handler) : h.count.budget = h.budget := rfl

@[simp] theorem usedBudget_count (h : Handler) : h.count.usedBudget = h.usedBudget + 1 := rfl

/-- Executes statements until the handler comes to rest. -/
def execute (script : Script) (ctx : Context σ) (h : Handler) (s : σ) :
    Except Error Outcome × Handler × σ :=
  match _hs : h.stack with
  | [] => (.ok .finished, h.finish, s)
  | p :: _ =>
    match script.statement? p.block p.index with
    | none => execute script ctx h.leave s
    | some statement =>
      if h.budget ≤ h.usedBudget then (.ok .outOfBudget, { h with waitingForFrame := true }, s)
      else
        match statement.perform ctx (ctx.observe p s) with
        | (.error e, s') => (.error e, h.count.reset, s')
        | (.ok .next, s') => execute script ctx h.count.advance s'
        | (.ok (.enter b), s') => execute script ctx (h.count.advance.enter b) s'
        | (.ok (.wait ms), s') => (.ok (.waiting ms), { h.count with suspended := true }, s')
        | (.ok .reselect, s') => (.ok .reselect, h.count.advance, s')
termination_by (h.budget - h.usedBudget, h.stack.length)
decreasing_by
  · exact Prod.Lex.right _ (by simp [leave, _hs])
  · exact Prod.Lex.left _ _ (by simp; omega)
  · exact Prod.Lex.left _ _ (by simp; omega)

/-- Starts the handler with its first statement.  A handler that is running already, or that has
    no statements, stays as it is. -/
def run (script : Script) (ctx : Context σ) (h : Handler) (s : σ) :
    Except Error Outcome × Handler × σ :=
  if h.running || (script.block h.entry).isEmpty then (.ok .idle, h, s)
  else execute script ctx { h with running := true, stack := ⟨h.entry, 0⟩ :: h.stack } s

/-- Begins a new frame: the budget is available again.  A loop handler that had finished starts
    again, and a handler that had spent its budget goes on. -/
def newFrame (script : Script) (ctx : Context σ) (h : Handler) (s : σ) :
    Except Error Outcome × Handler × σ :=
  let h := { h with usedBudget := 0 }
  if h.loopsNext then run script ctx { h with loopsNext := false } s
  else if h.waitingForFrame then execute script ctx { h with waitingForFrame := false } s
  else (.ok .idle, h, s)

/-- Goes on after the call that waited for a timer. -/
def resume (script : Script) (ctx : Context σ) (h : Handler) (s : σ) :
    Except Error Outcome × Handler × σ :=
  if h.suspended then execute script ctx { h with suspended := false }.advance s
  else (.ok .idle, h, s)

/-- Goes on after the state has been chosen anew and has stayed the same. -/
def proceed (script : Script) (ctx : Context σ) (h : Handler) (s : σ) :
    Except Error Outcome × Handler × σ :=
  if !h.running || h.suspended || h.waitingForFrame then (.ok .idle, h, s)
  else execute script ctx h s

/-! ## A request for a new choice of state costs a statement

  Whoever answers such requests and lets the handler proceed needs this to come to an end. -/

theorem budget_execute (script : Script) (ctx : Context σ) (h : Handler) (s : σ) :
    (execute script ctx h s).2.1.budget = h.budget := by
  fun_induction execute script ctx h s with
  | case1 => rfl
  | case2 h s p rest hs hp ih => simpa [leave] using ih
  | case3 => rfl
  | case4 => rfl
  | case5 h s p rest hs st hp hb s' hv ih => simpa using ih
  | case6 h s p rest hs st hp hb s' b hv ih => simpa using ih
  | case7 => rfl
  | case8 => simp

theorem usedBudget_lt_of_execute_reselect (script : Script) (ctx : Context σ) (h : Handler) (s : σ)
    (hr : (execute script ctx h s).1 = .ok .reselect) :
    h.usedBudget < (execute script ctx h s).2.1.usedBudget ∧
      (execute script ctx h s).2.1.usedBudget ≤ h.budget := by
  fun_induction execute script ctx h s with
  | case1 => simp at hr
  | case2 h s p rest hs hp ih => simpa [leave] using ih hr
  | case3 => simp at hr
  | case4 => simp at hr
  | case5 h s p rest hs st hp hb s' hv ih =>
    have := ih hr
    simp only [usedBudget_advance, budget_advance, usedBudget_count, budget_count] at this
    omega
  | case6 h s p rest hs st hp hb s' b hv ih =>
    have := ih hr
    simp only [usedBudget_advance, usedBudget_enter, budget_advance, budget_enter, usedBudget_count,
      budget_count] at this
    omega
  | case7 => simp at hr
  | case8 h s p rest hs st hp hb s' hv => simp; omega

theorem remaining_lt_of_proceed_reselect {script : Script} {ctx : Context σ} {h h' : Handler}
    {s s' : σ} (hr : proceed script ctx h s = (.ok .reselect, h', s')) :
    h'.budget - h'.usedBudget < h.budget - h.usedBudget := by
  unfold proceed at hr
  split at hr
  · simp at hr
  · have hb := budget_execute script ctx h s
    have hu := usedBudget_lt_of_execute_reselect script ctx h s (by rw [hr])
    rw [hr] at hb hu
    simp only at hb hu
    omega

end Handler

end ActorScript
