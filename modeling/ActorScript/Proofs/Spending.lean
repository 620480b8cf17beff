/-
  What a handler spends in a frame.

  A handler that is waiting, idle or finished has used some of its budget, and until the next frame
  there is no more than the rest: however often it is started, resumed and allowed to proceed, it
  stays within `Handler.reach`.  Giving up is the exception.  A handler that fails is reset, and so
  is the count of what it has used; if it is started again in the same frame, the whole budget is
  there once more (`spends_touched`).  So a frame costs one budget, and one more for every time
  the handler gives up before its last call (`executed_frame_le`), and no smaller bound holds
  (`exists_executed_eq`).
-/
import ActorScript.Proofs.Effort
import ActorScript.Proofs.Shape

namespace ActorScript.Handler

variable {σ : Type} {script : Script} {h h₁ : Handler}

/-! ## Giving up -/

/-- Whether a new frame begins. -/
def Touch.startsFrame : Touch → Bool
  | .newFrame .. => true
  | .run .. | .resume .. | .proceed .. | .reset => false

/-- Whether the handler drops what it was doing: it fails, or it is reset. -/
def givesUp (script : Script) (h : Handler) : Touch → Bool
  | .run ctx s => !(h.run script ctx s).1.isOk
  | .newFrame ctx s => !(h.newFrame script ctx s).1.isOk
  | .resume ctx s => !(h.resume script ctx s).1.isOk
  | .proceed ctx s => !(h.proceed script ctx s).1.isOk
  | .reset => true

/-- How often the handler gives up in a sequence of touches. -/
def giveUps (script : Script) : Handler → List Touch → Nat
  | _, [] => 0
  | h, t :: rest => (if h.givesUp script t then 1 else 0) + giveUps script (h.touched script t) rest

/-! ## One touch -/

/-- The handler has come from `h` to `h'` within the budget of `h`, and has the whole budget again
    only if it has given up. -/
structure Spends (h : Handler) (gaveUp : Bool) (h' : Handler) : Prop where
  executed : h'.executed ≤ h.reach
  reach : h'.reach ≤ h.reach + if gaveUp then h.budget else 0

/-- A handler can reach one budget more than it has executed. -/
theorem reach_le (h : Handler) : h.reach ≤ h.executed + h.budget := by
  rw [reach]
  omega

/-- Doing nothing spends nothing. -/
theorem spends_nothing (h : Handler) : h.Spends false h :=
  ⟨Nat.le_add_right _ _, Nat.le_refl _⟩

/-- A handler that is woken has no more within reach than before. -/
theorem Spends.of_reach_eq {gaveUp : Bool} {h' : Handler} (hs : h₁.Spends gaveUp h')
    (hr : h₁.reach = h.reach) (hb : h₁.budget = h.budget) : h.Spends gaveUp h' :=
  ⟨hr ▸ hs.executed, hr ▸ hb ▸ hs.reach⟩

/-- **Executing statements** spends what is left of the budget; a failure gives all of it back. -/
theorem spends_execute (script : Script) (ctx : Context σ) (h : Handler) (s : σ) :
    h.Spends (!(execute script ctx h s).1.isOk) (execute script ctx h s).2.1 := by
  obtain ⟨hex, hok⟩ := executed_execute_le script ctx h s
  refine ⟨hex, ?_⟩
  cases hr : (execute script ctx h s).1 with
  | ok o => exact hok ⟨o, hr⟩
  | error e =>
    -- a new budget, on top of what has been executed
    have hle := reach_le (execute script ctx h s).2.1
    rw [budget_execute] at hle
    exact Nat.le_trans hle (Nat.add_le_add_right hex _)

/-- A start spends nothing. -/
theorem reach_started (hs : h.started script = some h₁) : h₁.reach = h.reach := by
  rw [started] at hs
  split at hs
  · cases hs
  · cases hs
    rfl

/-- To run is to start and to execute. -/
theorem spends_run (script : Script) (ctx : Context σ) (h : Handler) (s : σ) :
    h.Spends (!(h.run script ctx s).1.isOk) (h.run script ctx s).2.1 := by
  rw [run_eq]
  split
  · rename_i h₁ hs
    exact (spends_execute script ctx h₁ s).of_reach_eq (reach_started hs)
      (sameHandler_started hs).2.2
  · exact spends_nothing h

/-- A frame begins with the whole budget. -/
theorem spends_newFrame (script : Script) (ctx : Context σ) (h : Handler) (s : σ) :
    Spends { h with usedBudget := 0 } (!(h.newFrame script ctx s).1.isOk)
      (h.newFrame script ctx s).2.1 := by
  rw [newFrame]
  split
  · exact (spends_run script ctx _ s).of_reach_eq rfl rfl
  · split
    · exact (spends_execute script ctx _ s).of_reach_eq rfl rfl
    · exact spends_nothing _

/-- A timer wakes a handler with what it has left. -/
theorem spends_resume (script : Script) (ctx : Context σ) (h : Handler) (s : σ) :
    h.Spends (!(h.resume script ctx s).1.isOk) (h.resume script ctx s).2.1 := by
  rw [resume]
  split
  · refine (spends_execute script ctx _ s).of_reach_eq ?_ (by simp)
    rw [reach, reach, executed_advance, budget_advance, usedBudget_advance]
  · exact spends_nothing h

/-- A handler that goes on has what it has left too. -/
theorem spends_proceed (script : Script) (ctx : Context σ) (h : Handler) (s : σ) :
    h.Spends (!(h.proceed script ctx s).1.isOk) (h.proceed script ctx s).2.1 := by
  rcases proceed_idle_or_execute script ctx h s with hp | hp
  · exact hp ▸ spends_nothing h
  · exact hp ▸ spends_execute script ctx h s

/-- The handler as a touch finds it: a new frame gives the budget back. -/
def readied (h : Handler) : Touch → Handler
  | .newFrame .. => { h with usedBudget := 0 }
  | .run .. | .resume .. | .proceed .. | .reset => h

theorem readied_of_not_startsFrame {t : Touch} (ht : t.startsFrame = false) :
    h.readied t = h := by
  cases t with
  | newFrame => cases ht
  | _ => rfl

@[simp] theorem executed_readied (h : Handler) (t : Touch) :
    (h.readied t).executed = h.executed := by
  cases t <;> rfl

@[simp] theorem budget_readied (h : Handler) (t : Touch) : (h.readied t).budget = h.budget := by
  cases t <;> rfl

/-- **One touch** stays within reach, and brings a whole budget back only if the handler gives
    up. -/
theorem spends_touched (script : Script) (h : Handler) (t : Touch) :
    (h.readied t).Spends (h.givesUp script t) (h.touched script t) := by
  cases t with
  | run ctx s => exact spends_run script ctx h s
  | newFrame ctx s => exact spends_newFrame script ctx h s
  | resume ctx s => exact spends_resume script ctx h s
  | proceed ctx s => exact spends_proceed script ctx h s
  | reset =>
    exact ⟨Nat.le_add_right _ _, Nat.add_le_add_right (Nat.le_add_right h.executed _) h.budget⟩

/-! ## A frame -/

/-- The budget itself never changes. -/
theorem budget_touched (script : Script) (h : Handler) (t : Touch) :
    (h.touched script t).budget = h.budget :=
  (sameHandler_touched script h t).2.2

/-- One touch more at the front: the rest starts from what that touch leaves within reach. -/
theorem executed_cons_le (script : Script) (h : Handler) (t : Touch) (rest : List Touch)
    (hrest : (rest.foldl (touched script) (h.touched script t)).executed ≤
      (h.touched script t).reach + (h.touched script t).giveUps script rest.dropLast * h.budget) :
    ((t :: rest).foldl (touched script) h).executed ≤
      (h.readied t).reach + h.giveUps script (t :: rest).dropLast * h.budget := by
  obtain ⟨hex, hreach⟩ := spends_touched script h t
  rw [budget_readied] at hreach
  cases rest with
  | nil => exact Nat.le_trans hex (Nat.le_add_right _ _)
  | cons u rest =>
    rw [List.dropLast_cons_cons, giveUps, Nat.add_mul, ite_mul, Nat.one_mul, Nat.zero_mul,
      List.foldl_cons]
    omega

/-- **As long as no frame begins**, the handler executes what is within reach, and a budget for
    every time it gives up before its last call. -/
theorem executed_foldl_le (script : Script) (h : Handler) (calls : List Touch)
    (hframe : ∀ t ∈ calls, t.startsFrame = false) :
    (calls.foldl (touched script) h).executed ≤
      h.reach + h.giveUps script calls.dropLast * h.budget := by
  induction calls generalizing h with
  | nil => exact Nat.le_add_right_of_le (Nat.le_add_right _ _)
  | cons t rest ih =>
    obtain ⟨ht, hrest⟩ := List.forall_mem_cons.mp hframe
    have hih := ih (h.touched script t) hrest
    rw [budget_touched] at hih
    have hle := executed_cons_le script h t rest hih
    rwa [readied_of_not_startsFrame ht] at hle

/-- **What a frame costs.**  For every script, handler and budget, and every sequence of calls of
    which at most the first begins a frame, each with a context and a state of its own: the handler
    executes one budget at most if it gives up with the last call or not at all, and otherwise one
    more for every time it gives up before. -/
theorem executed_frame_le (script : Script) (h : Handler) (calls : List Touch)
    (hframe : ∀ t ∈ calls.tail, t.startsFrame = false) :
    (h.giveUps script calls.dropLast = 0 →
      (calls.foldl (touched script) h).executed ≤ h.executed + h.budget) ∧
    (calls.foldl (touched script) h).executed ≤
      h.executed + (h.giveUps script calls.dropLast + 1) * h.budget := by
  have hle : (calls.foldl (touched script) h).executed ≤
      h.executed + (h.giveUps script calls.dropLast + 1) * h.budget := by
    rw [Nat.add_mul, Nat.one_mul]
    cases calls with
    | nil => exact Nat.le_add_right _ _
    | cons t rest =>
      have hrest := executed_foldl_le script (h.touched script t) rest hframe
      rw [budget_touched] at hrest
      have hle := executed_cons_le script h t rest hrest
      have hready := (h.readied t).reach_le
      rw [executed_readied, budget_readied] at hready
      omega
  refine ⟨fun hnone => ?_, hle⟩
  rwa [hnone, Nat.zero_add, Nat.one_mul] at hle

/-- The start of a handler, in surroundings without names. -/
def start : Touch := .run (Recording.flatContext .empty) { symbols := .empty }

/-- The text of a script whose handler fails with its second statement. -/
def stumble : String := "state S(true) { event actionPressed() { print(1); print(1 / 0); } }"

theorem executed_frame_le_stumble : ∃ script, Script.parse stumble = .ok script ∧
    (∀ t ∈ [start, start].tail, t.startsFrame = false) ∧
    (fresh .actionPressed 0 2).giveUps script [start] = 1 ∧
    ([start, start].foldl (touched script) (fresh .actionPressed 0 2)).executed ≤
      0 + (1 + 1) * 2 := by
  have hframe : ∀ t ∈ [start, start].tail, t.startsFrame = false := by
    intro t ht
    rw [List.mem_singleton.mp ht]
    rfl
  obtain ⟨script, hparse, hgive⟩ : ∃ script, Script.parse stumble = .ok script ∧
      (fresh .actionPressed 0 2).giveUps script [start] = 1 := ⟨_, by cbv, by cbv⟩
  have hle := (executed_frame_le script (fresh .actionPressed 0 2) [start, start] hframe).2
  rw [show [start, start].dropLast = [start] from rfl, hgive] at hle
  exact ⟨script, hparse, hframe, hgive, hle⟩

/-- A handler that is started twice in its first frame, with a budget of two statements, executes
    four: the count of what it has used does not survive its failure. -/
theorem over_budget_stumble : ∃ script, Script.parse stumble = .ok script ∧
    (script.states.head?.bind fun st => st.handlers.get? .actionPressed) = some 0 ∧
    (∀ t ∈ [start, start], t.startsFrame = false) ∧
    ¬ ([start, start].foldl (touched script) (fresh .actionPressed 0 2)).executed ≤
        (fresh .actionPressed 0 2).executed + (fresh .actionPressed 0 2).budget := by
  refine ⟨_, by cbv, by cbv, fun t ht => ?_, by cbv⟩
  obtain rfl | rfl := List.mem_pair.mp ht <;> rfl

/-! ## The bound is reached -/

/-- A statement that divides by zero. -/
def divideByZero : Statement :=
  .call "print" [.binary .divide (.literal (.int 1)) (.literal (.int 0))] default

/-- A script whose only block prints `n` times and then divides by zero. -/
def stumbling (n : Nat) : Script where
  blocks := [List.replicate n (.call "print" [] default) ++ [divideByZero]]

/-- The handler of `stumbling n`, with the budget to get to its last statement, at rest after having
    executed `k` statements. -/
def stumbler (n k : Nat) : Handler :=
  { fresh .spawn 0 (n + 1) with executed := k }

theorem statement?_stumbling_print {n i : Nat} (hi : i < n) :
    (stumbling n).statement? 0 i = some (.call "print" [] default) := by
  simp [Script.statement?, Script.block, stumbling, List.getElem?_append, hi]

theorem statement?_stumbling_last (n : Nat) :
    (stumbling n).statement? 0 n = some divideByZero := by
  simp [Script.statement?, Script.block, stumbling]

/-- Each time the handler gets from statement `n - left` to the end of its budget. -/
theorem execute_stumbling (n left k : Nat) (hleft : left ≤ n) (s : Recording.Flat) :
    ∃ e s', execute (stumbling n) (Recording.flatContext .empty)
      { stumbler n k with stack := [⟨0, n - left⟩], running := true, usedBudget := n - left } s =
        (.error e, stumbler n (k + left + 1), s') := by
  induction left generalizing k s with
  | zero =>
    rw [execute_statement _ _ rfl (statement?_stumbling_last n), if_neg]
    · exact ⟨_, _, rfl⟩
    · simp [stumbler, fresh]
  | succ left ih =>
    have hlt : n - (left + 1) < n := by omega
    rw [execute_statement _ _ rfl (statement?_stumbling_print hlt), if_neg]
    · obtain ⟨e, s', hexec⟩ := ih (k + 1) (by omega) (s.note (.call "print" []))
      refine ⟨e, s', ?_⟩
      have hnext : n - (left + 1) + 1 = n - left := by omega
      rw [show k + (left + 1) + 1 = k + 1 + left + 1 by omega, ← hexec, ← hnext]
      rfl
    · simp only [stumbler, fresh]
      omega

/-- **One run** executes all of its statements, fails at the last and has its whole budget again. -/
theorem run_stumbling (n k : Nat) : ∃ e s',
    (stumbler n k).run (stumbling n) (Recording.flatContext .empty) { symbols := .empty } =
      (.error e, stumbler n (k + (n + 1)), s') := by
  obtain ⟨e, s', hexec⟩ := execute_stumbling n n k (Nat.le_refl n) { symbols := .empty }
  refine ⟨e, s', ?_⟩
  rw [Nat.sub_self] at hexec
  have hstart : (stumbler n k).started (stumbling n) =
      some { stumbler n k with stack := [⟨0, 0⟩], running := true, usedBudget := 0 } := by
    simp [started, stumbler, fresh, Script.block, stumbling]
  rw [run_eq, hstart]
  exact hexec

/-- **Each further run** of it does the same. -/
theorem foldl_stumbling (n times k : Nat) :
    (stumbler n k).giveUps (stumbling n) (List.replicate times start) = times ∧
      (List.replicate times start).foldl (touched (stumbling n)) (stumbler n k) =
        stumbler n (k + times * (n + 1)) := by
  induction times generalizing k with
  | zero => exact ⟨rfl, by simp⟩
  | succ times ih =>
    obtain ⟨e, s', hrun⟩ := run_stumbling n k
    have htouch : (stumbler n k).touched (stumbling n) start = stumbler n (k + (n + 1)) := by
      rw [start, touched, hrun]
    have hgive : (stumbler n k).givesUp (stumbling n) start = true := by
      rw [start, givesUp, hrun]
      rfl
    obtain ⟨hcount, hfold⟩ := ih (k + (n + 1))
    rw [List.replicate_succ, giveUps, hgive, List.foldl_cons, htouch, hcount, hfold]
    refine ⟨by simp; omega, ?_⟩
    rw [Nat.succ_mul]
    congr 1
    omega

/-- **No smaller bound holds.**  For every budget and every number, some handler gives up that often
    in a frame before its last call, and executes as many budgets and one more. -/
theorem exists_executed_eq (n times : Nat) :
    ∃ (script : Script) (h : Handler) (calls : List Touch), h.budget = n + 1 ∧
      (∀ t ∈ calls, t.startsFrame = false) ∧ h.giveUps script calls.dropLast = times ∧
      (calls.foldl (touched script) h).executed = h.executed + (times + 1) * h.budget := by
  refine ⟨stumbling n, stumbler n 0, List.replicate (times + 1) start, rfl, fun t ht => ?_, ?_, ?_⟩
  · rw [List.eq_of_mem_replicate ht]
    rfl
  · rw [List.dropLast_replicate]
    exact (foldl_stumbling n times 0).1
  · rw [(foldl_stumbling n (times + 1) 0).2]
    rfl

end ActorScript.Handler
