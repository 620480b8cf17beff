/-
  The shape of a handler, whatever is done to it and in whatever order.

  The fields of a handler depend on each other (`Handler.InShape`): it is running exactly if it has
  something on its stack, it rests for one reason at most, it keeps to its budget, and its stack is
  a way through the script, from the block of the handler down through branches of `if` statements
  (`Script.Path`).  Nothing is asked of the script, whose blocks may refer to nothing or to
  themselves, and nothing of the contexts, which may fail at any statement.

  A handler is touched from outside in five ways (`Handler.Touch`), and all but the reset come down
  to the same loop.  The loop is entered in the middle of the work (`Handler.Poised`), where the
  stack may be empty and no reason to rest is known yet; `Poised.inShape_execute` follows it to the
  end.  The run lemma is then the induction over the touches (`Handler.inShape_after`).
-/
import ActorScript.Proofs.Slicing

namespace ActorScript

/-! ## Ways through a script -/

namespace Script

/-- The block of `upper` is a branch of the `if` that `lower` has just left behind. -/
def Branches (script : Script) (upper lower : Position) : Prop :=
  ∃ i condition thenBlock elseBlock location, lower.index = i + 1 ∧
    script.statement? lower.block i = some (.ifElse condition thenBlock elseBlock location) ∧
    (upper.block = thenBlock ∨ elseBlock = some upper.block)

/-- The positions, the innermost first, lead from the block `entry` into one branch after the
    other. -/
structure Path (script : Script) (entry : BlockId) (stack : List Position) : Prop where
  bottom : ∀ p ∈ stack.getLast?, p.block = entry
  branches : stack.IsChain script.Branches

variable {script : Script} {entry : BlockId} {p q : Position} {stack : List Position}

theorem path_nil (script : Script) (entry : BlockId) : script.Path entry [] :=
  ⟨by simp, .nil⟩

theorem path_singleton (script : Script) (entry : BlockId) (i : Nat) :
    script.Path entry [⟨entry, i⟩] :=
  ⟨by simp, .singleton _⟩

/-- Leaving the innermost block. -/
theorem Path.tail (h : script.Path entry (p :: stack)) : script.Path entry stack where
  bottom q hq := by
    cases stack with
    | nil => simp at hq
    | cons r rest => exact h.bottom q (by simpa [List.getLast?_cons_cons] using hq)
  branches := h.branches.tail

/-- Moving along in the innermost block. -/
theorem Path.move (h : script.Path entry (p :: stack)) (hq : q.block = p.block) :
    script.Path entry (q :: stack) := by
  cases stack with
  | nil =>
    refine ⟨fun r hr => ?_, .singleton q⟩
    obtain rfl : q = r := by simpa using hr
    rw [hq]
    exact h.bottom p (by simp)
  | cons r rest =>
    obtain ⟨hpr, hrest⟩ := List.isChain_cons_cons.mp h.branches
    refine ⟨fun s hs => h.bottom s (by simpa [List.getLast?_cons_cons] using hs), ?_⟩
    rw [Branches, ← hq] at hpr
    exact List.isChain_cons_cons.mpr ⟨hpr, hrest⟩

/-- Going into a branch. -/
theorem Path.enter (h : script.Path entry (p :: stack)) (hqp : script.Branches q p) :
    script.Path entry (q :: p :: stack) where
  bottom r hr := h.bottom r (by simpa [List.getLast?_cons_cons] using hr)
  branches := List.isChain_cons_cons.mpr ⟨hqp, h.branches⟩

end Script

/-- **Only an `if` leads into a block**, and the block is one of its branches. -/
theorem Statement.ifElse_of_perform_enter {σ : Type} {ctx : Context σ} {st : Statement} {s s' : σ}
    {b : BlockId} (h : st.perform ctx s = (.ok (.enter (some b)), s')) :
    ∃ condition thenBlock elseBlock location,
      st = .ifElse condition thenBlock elseBlock location ∧
        (b = thenBlock ∨ elseBlock = some b) := by
  cases st with
  | call f args l =>
    rw [perform, ← bind_assoc] at h
    obtain ⟨e, he, -⟩ | ⟨reply, hreply, -⟩ := Action.of_map_eq h
    · cases he
    · cases reply <;> cases hreply
  | assign target value l =>
    rw [perform, ← bind_assoc] at h
    obtain ⟨e, he, -⟩ | ⟨u, hu, -⟩ := Action.of_map_eq h
    · cases he
    · cases hu
  | ifElse condition t e l =>
    rw [perform] at h
    obtain ⟨err, herr, -⟩ | ⟨v, hv, -⟩ := Action.of_map_eq h
    · cases herr
    · refine ⟨condition, t, e, l, rfl, ?_⟩
      have hb : some b = if v.truthy then some t else e := Effect.enter.inj (Except.ok.inj hv)
      split at hb
      · exact .inl (Option.some.inj hb)
      · exact .inr hb.symm

namespace Handler

/-! ## The invariant -/

/-- What the fields of a handler at rest say about each other. -/
structure InShape (script : Script) (h : Handler) : Prop where
  running : h.running = true ↔ h.stack ≠ []
  resting : h.suspended = true ∨ h.waitingForFrame = true → h.running = true
  oneReason : ¬ (h.suspended = true ∧ h.waitingForFrame = true)
  used : h.usedBudget ≤ h.budget
  path : script.Path h.entry h.stack
  looping : h.loopsNext = true → h.event = .loop
  /-- A handler that waits stands at a statement: the one that is to come, or the call it has
      stopped at. -/
  standing : h.suspended = true ∨ h.waitingForFrame = true →
    ∃ p st, h.position? = some p ∧ script.statement? p.block p.index = some st

/-- A handler in the middle of its work. -/
structure Poised (script : Script) (h : Handler) : Prop where
  phase : h.phase? = some .midway
  used : h.usedBudget ≤ h.budget
  path : script.Path h.entry h.stack
  looping : h.loopsNext = true → h.event = .loop

variable {σ : Type} {script : Script} {h h' : Handler} {p : Position} {rest : List Position}

theorem InShape.exists_phase (hs : h.InShape script) : ∃ p, h.phase? = some p := by
  have hr := hs.resting
  have ho := hs.oneReason
  unfold phase?
  split <;> simp_all

/-- Without a reason to rest, a handler is stopped or in the middle of its work. -/
theorem inShape_of_idle (hr : h.running = true ↔ h.stack ≠ []) (hsus : h.suspended = false)
    (hwait : h.waitingForFrame = false) (hu : h.usedBudget ≤ h.budget)
    (hpath : script.Path h.entry h.stack) (hloop : h.loopsNext = true → h.event = .loop) :
    h.InShape script where
  running := hr
  resting hrest := by simp [hsus, hwait] at hrest
  oneReason hboth := by simp [hsus] at hboth
  used := hu
  path := hpath
  looping := hloop
  standing hrest := by simp [hsus, hwait] at hrest

theorem inShape_fresh (script : Script) (event : Event) (entry : BlockId) (budget : Nat) :
    (fresh event entry budget).InShape script :=
  inShape_of_idle (by simp [fresh]) rfl rfl (Nat.zero_le _) (script.path_nil entry) nofun

theorem inShape_reset (script : Script) (h : Handler) : h.reset.InShape script :=
  inShape_of_idle (by simp [reset]) rfl rfl (Nat.zero_le _) (script.path_nil h.entry) nofun

/-! ## In the middle of the work -/

@[simp] theorem entry_advance (h : Handler) : h.advance.entry = h.entry :=
  (sameHandler_advance h).2.1

/-- Behind a statement that has been counted. -/
theorem Poised.step (hm : h.Poised script) (hs : h.stack = p :: rest)
    (hb : h.usedBudget < h.budget) : h.count.advance.Poised script where
  phase := by simpa using hm.phase
  used := by simpa using hb
  path := by
    have hstack : h.count.advance.stack = _ := stack_advance hs
    rw [entry_advance, hstack]
    exact (hs ▸ hm.path).move rfl
  looping hloops := by
    rw [loopsNext_advance] at hloops
    exact (sameHandler_advance h.count).1.trans (hm.looping hloops)

theorem Poised.inShape_execute (hm : h.Poised script) (ctx : Context σ) (s : σ) :
    (execute script ctx h s).2.1.InShape script := by
  fun_induction execute script ctx h s with
  | case1 h s hs =>
    obtain ⟨-, hwait, hsus⟩ := phase?_midway_iff.mp hm.phase
    refine inShape_of_idle (by simp [finish, hs]) hsus hwait hm.used hm.path fun hloops => ?_
    -- it was to start again before, or it is now
    rcases Bool.or_eq_true_iff.mp hloops with hloops | hevent
    · exact hm.looping hloops
    · exact of_decide_eq_true hevent
  | case2 h s p rest hs hp ih =>
    exact ih ⟨hm.phase, hm.used, by rw [leave, hs]; exact (hs ▸ hm.path).tail, hm.looping⟩
  | case3 h s p rest hs st hp hb =>
    obtain ⟨hr, -, hsus⟩ := phase?_midway_iff.mp hm.phase
    exact
      { running := by simp [hr, hs]
        resting := fun _ => hr
        oneReason := by simp [hsus]
        used := hm.used
        path := hm.path
        looping := hm.looping
        standing := fun _ => ⟨p, st, by simp [position?, hs], hp⟩ }
  | case4 h s p rest hs st hp hb e s' hv => exact inShape_reset script _
  | case5 h s p rest hs st hp hb s' hv ih => exact ih (hm.step hs (Nat.lt_of_not_le hb))
  | case6 h s p rest hs st hp hb b s' hv ih =>
    have hnext := hm.step hs (Nat.lt_of_not_le hb)
    cases b with
    | none => exact ih hnext
    | some b =>
      obtain ⟨condition, t, e, l, rfl, hbranch⟩ := Statement.ifElse_of_perform_enter hv
      have hstack : h.count.advance.stack = _ := stack_advance hs
      refine ih ⟨by simpa using hnext.phase, by simpa using hnext.used, ?_, hnext.looping⟩
      have hpath := hnext.path
      rw [enter, hstack] at *
      exact hpath.enter ⟨p.index, condition, t, e, l, rfl, hp, hbranch⟩
  | case7 h s p rest hs st hp hb s' ms hv =>
    obtain ⟨hr, hwait, -⟩ := phase?_midway_iff.mp hm.phase
    exact
      { running := by simp [count, hr, hs]
        resting := fun _ => hr
        oneReason := by simp [count, hwait]
        used := Nat.lt_of_not_le hb
        path := hm.path
        looping := hm.looping
        standing := fun _ => ⟨p, st, by simp [position?, count, hs], hp⟩ }
  | case8 h s p rest hs st hp hb s' hv =>
    have hnext := hm.step hs (Nat.lt_of_not_le hb)
    obtain ⟨hr, hwait, hsus⟩ := phase?_midway_iff.mp hnext.phase
    have hstack : h.count.advance.stack = _ := stack_advance hs
    exact inShape_of_idle (by rw [hr, hstack]; simp) hsus hwait hnext.used hnext.path hnext.looping

/-! ## Touching a handler -/

theorem InShape.stack_of_stopped (hs : h.InShape script) (hr : h.running = false) :
    h.stack = [] := by
  by_contra hne
  rw [hs.running.mpr hne] at hr
  cases hr

/-- **Starting a handler** puts its first statement on the empty stack. -/
theorem InShape.poised_started (hs : h.InShape script) (hst : h.started script = some h') :
    h'.Poised script := by
  obtain ⟨q, hq⟩ := hs.exists_phase
  obtain ⟨rfl, hm⟩ := phase_started hq hst
  have hnil := hs.stack_of_stopped (phase?_stopped_iff.mp hq).1
  rw [started] at hst
  split at hst
  · cases hst
  · cases hst
    refine ⟨hm, hs.used, ?_, hs.looping⟩
    rw [hnil]
    exact script.path_singleton h.entry 0

/-- A new frame gives the budget back. -/
theorem InShape.idled (hs : h.InShape script) (c : Cue) : (h.idled c).InShape script := by
  cases c with
  | newFrame =>
    exact ⟨hs.running, hs.resting, hs.oneReason, Nat.zero_le _, hs.path, nofun, hs.standing⟩
  | run => exact hs
  | resume => exact hs

/-- **A handler that is woken** is in the middle of its work. -/
theorem InShape.poised_woken (hs : h.InShape script) {c : Cue} (hw : h.woken script c = some h') :
    h'.Poised script := by
  cases c with
  | run => exact hs.poised_started hw
  | newFrame =>
    obtain ⟨q, hq⟩ := hs.exists_phase
    have hm := (phase_woken hq hw).2
    rw [woken] at hw
    split at hw
    · exact (hs.idled .newFrame).poised_started hw
    · split at hw
      · cases hw
        exact ⟨hm, Nat.zero_le _, hs.path, hs.looping⟩
      · cases hw
  | resume =>
    obtain ⟨q, hq⟩ := hs.exists_phase
    have hm := (phase_woken hq hw).2
    rw [woken] at hw
    split at hw
    · rename_i hsus
      cases hw
      obtain ⟨p, st, hpos, hp⟩ := hs.standing (.inl hsus)
      -- the call that has waited is left behind
      obtain ⟨rest, hstack⟩ : ∃ rest, h.stack = p :: rest := by
        rw [position?, List.head?_eq_some_iff] at hpos
        exact hpos
      have hadv : ({ h with suspended := false } : Handler).advance.stack = _ :=
        stack_advance hstack
      refine ⟨hm, by simpa using hs.used, ?_, fun hloops => ?_⟩
      · rw [entry_advance, hadv]
        exact (hstack ▸ hs.path).move rfl
      · rw [loopsNext_advance] at hloops
        exact (sameHandler_advance _).1.trans (hs.looping hloops)
    · cases hw

theorem InShape.obey (hs : h.InShape script) (ctx : Context σ) (s : σ) (c : Cue) :
    (h.obey script ctx s c).2.1.InShape script := by
  rw [obey_eq]
  cases hw : h.woken script c with
  | none => exact hs.idled c
  | some h₁ => exact (hs.poised_woken hw).inShape_execute ctx s

theorem InShape.proceed (hs : h.InShape script) (ctx : Context σ) (s : σ) :
    (h.proceed script ctx s).2.1.InShape script := by
  rw [Handler.proceed]
  split
  · exact hs
  · rename_i hgo
    simp only [Bool.or_eq_true, Bool.not_eq_true', not_or, Bool.not_eq_true,
      Bool.not_eq_false] at hgo
    obtain ⟨⟨hr, hsus⟩, hwait⟩ := hgo
    exact Poised.inShape_execute
      ⟨phase?_midway_iff.mpr ⟨hr, hwait, hsus⟩, hs.used, hs.path, hs.looping⟩ ctx s

/-- Something that is done to a handler from outside; the context and its state may be others each
    time. -/
inductive Touch : Type 1
  | run {σ : Type} (ctx : Context σ) (s : σ)
  | newFrame {σ : Type} (ctx : Context σ) (s : σ)
  | resume {σ : Type} (ctx : Context σ) (s : σ)
  | proceed {σ : Type} (ctx : Context σ) (s : σ)
  | reset

/-- The handler afterwards, whether there has been an error or not. -/
def touched (script : Script) (h : Handler) : Touch → Handler
  | .run ctx s => (h.run script ctx s).2.1
  | .newFrame ctx s => (h.newFrame script ctx s).2.1
  | .resume ctx s => (h.resume script ctx s).2.1
  | .proceed ctx s => (h.proceed script ctx s).2.1
  | .reset => h.reset

theorem sameHandler_touched (script : Script) (h : Handler) (t : Touch) :
    h.SameHandler (h.touched script t) := by
  cases t with
  | run ctx s => exact sameHandler_obey script ctx h s .run
  | newFrame ctx s => exact sameHandler_obey script ctx h s .newFrame
  | resume ctx s => exact sameHandler_obey script ctx h s .resume
  | proceed ctx s => exact sameHandler_proceed script ctx h s
  | reset => exact ⟨rfl, rfl, rfl⟩

/-- **Whatever is done to a handler** leaves it in shape. -/
theorem InShape.touched (hs : h.InShape script) (t : Touch) :
    (h.touched script t).InShape script := by
  cases t with
  | run ctx s => exact hs.obey ctx s .run
  | newFrame ctx s => exact hs.obey ctx s .newFrame
  | resume ctx s => exact hs.obey ctx s .resume
  | proceed ctx s => exact hs.proceed ctx s
  | reset => exact inShape_reset script h

/-- A turn is an answer to a cue, and proceeding as often as a request is declined. -/
theorem InShape.settle (hs : h.InShape script) (ctx : Context σ) (choose : Action σ Nat)
    (current : Option Nat) (c : Cue) (s : σ) :
    (settle script ctx choose current c h s).2.1.InShape script := by
  rw [settle_eq]
  exact conclude_keeps (R := fun _ => True) (fun h s hs _ => ⟨hs.proceed ctx s, fun _ => trivial⟩)
    choose current _ (hs.obey ctx s c) fun _ => trivial

/-- **The invariant of a handler.**  For every script and budget, after any touches, each with a
    context and a state of its own and each successful or not, a handler is the one that was made,
    and in shape. -/
theorem inShape_after (script : Script) (event : Event) (entry : BlockId) (budget : Nat)
    (touches : List Touch) :
    (fresh event entry budget).SameHandler
        (touches.foldl (touched script) (fresh event entry budget)) ∧
      (touches.foldl (touched script) (fresh event entry budget)).InShape script := by
  -- on the touches, from any handler that is in shape
  suffices run : ∀ h : Handler, h.InShape script →
      h.SameHandler (touches.foldl (touched script) h) ∧
        (touches.foldl (touched script) h).InShape script from
    run _ (inShape_fresh script event entry budget)
  induction touches with
  | nil => exact fun h hs => ⟨⟨rfl, rfl, rfl⟩, hs⟩
  | cons t rest ih =>
    intro h hs
    obtain ⟨hsame, hshape⟩ := ih (h.touched script t) (hs.touched t)
    exact ⟨(sameHandler_touched script h t).trans hsame, hshape⟩

end Handler

end ActorScript
