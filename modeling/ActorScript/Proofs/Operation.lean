/-
  What can be done with a machine.

  A machine is driven from outside by five operations.  A `Call` is one of them together with the
  host it is given and the state that host is in; nothing ties the hosts of different calls to
  each other, so `Machine.after` covers every history a machine can have, with failed operations
  and with whatever happens to the host in between.  Where the host is one and the same and only
  the machine changes it, `Operation.performAll` is the history.
-/
import ActorScript.Proofs.Turn

namespace ActorScript

/-- An operation on a machine. -/
inductive Operation
  | activate
  | trigger (event : Event)
  | newFrame (dt : UInt64)
  | select
  | despawn
deriving DecidableEq, Repr

namespace Operation

variable {σ : Type}

/-- Carries out an operation. -/
def perform (host : Host σ) : Operation → Action (Machine × σ) Unit
  | .activate => Machine.activate host
  | .trigger event => Machine.trigger host event
  | .newFrame dt => Machine.newFrame host dt
  | .select => Machine.select host
  | .despawn => .update fun (m, s) => (m.despawn, s)

/-- Carries out operations one after the other, up to the first that fails. -/
def performAll (host : Host σ) : List Operation → Action (Machine × σ) Unit
  | [] => pure ()
  | op :: ops => do
    op.perform host
    performAll host ops

end Operation

/-- An operation, and the host with which it is carried out. -/
structure Call where
  {σ : Type}
  host : Host σ
  state : σ
  operation : Operation

namespace Machine

/-- What a machine is made from, if it can be made. -/
theorem create_eq_ok {script : Script} {identity : Identity} {options : MachineOptions}
    {m : Machine} (h : create script identity options = .ok m) :
    m = { script, identity, options, locals := .initial script } := by
  rw [create] at h
  split at h
  · cases h
  · cases h
    rfl

/-- The machine after a call, whether it succeeds or fails. -/
def next (m : Machine) (c : Call) : Machine := (c.operation.perform c.host (m, c.state)).2.1

/-- The machine after a history of calls. -/
def after (m : Machine) : List Call → Machine
  | [] => m
  | c :: cs => (m.next c).after cs

/-- The calls of two histories in a row. -/
theorem after_append (m : Machine) (cs ds : List Call) :
    m.after (cs ++ ds) = (m.after cs).after ds := by
  induction cs generalizing m with
  | nil => rfl
  | cons c cs ih => exact ih (m.next c)

/-- One call more. -/
theorem after_concat (m : Machine) (cs : List Call) (c : Call) :
    m.after (cs ++ [c]) = (m.after cs).next c := after_append m cs [c]

/-- What every call keeps holds after every history. -/
theorem after_induct {P : Machine → Prop} (step : ∀ m c, P m → P (m.next c)) {m : Machine}
    (hm : P m) (cs : List Call) : P (m.after cs) := by
  induction cs generalizing m with
  | nil => exact hm
  | cons c cs ih => exact ih (step m c hm)

variable {σ : Type} (host : Host σ)

/-! ## Cues to several handlers -/

/-- Once the state has been left, no further handler is cued. -/
theorem cueAll_of_left (c : Cue) {g : Nat} (es : List Event) (first : Option Error) {m : Machine}
    (s : σ) (hg : m.generation ≠ g) : cueAll host c g es first (m, s) = (first, m, s) := by
  cases es with
  | nil => rfl
  | cons e es => rw [cueAll, if_neg hg]

/-- The first failure is not forgotten. -/
theorem eq_none_of_cueAll {c : Cue} {g : Nat} {es : List Event} {first : Option Error}
    {x r : Machine × σ} (h : cueAll host c g es first x = (none, r)) : first = none := by
  induction es generalizing first x with
  | nil =>
    cases h
    rfl
  | cons e es ih =>
    rw [cueAll] at h
    split at h
    · split at h
      · have := ih h
        cases first <;> cases this
      · exact ih h
    · cases h
      rfl

/-- An abort is not a switch. -/
@[simp] theorem generation_abort (m : Machine) (e : Event) (g : Nat) :
    (m.abort e g).generation = m.generation := by
  rw [abort]
  split <;> rfl

/-- An abort stops a handler and leaves the script and the identity. -/
theorem sameRun_abort (m : Machine) (e : Event) (g : Nat) : m.SameRun (m.abort e g) := by
  rw [abort]
  split
  · exact ⟨rfl, rfl, rfl, rfl⟩
  · exact .refl m

/-- A cue runs the script it began with, with all the switches that it leads to. -/
theorem sameRun_cue (c : Cue) (e : Event) (m : Machine) (s : σ) :
    m.SameRun (cue host (switchTo host) c e (m, s)).2.1 := by
  rw [cue_switchTo]
  exact ((sameRun_enter_cue host _).2 c e m s).1

/-- A round of cues runs the script it began with. -/
theorem sameRun_cueAll (c : Cue) (g : Nat) (es : List Event) (first : Option Error) (m : Machine)
    (s : σ) : m.SameRun (cueAll host c g es first (m, s)).2.1 := by
  induction es generalizing first m s with
  | nil => exact .refl m
  | cons e es ih =>
    have hcue := sameRun_cue host c e m s
    rw [cueAll]
    split
    · split
      · rename_i heq
        rw [heq] at hcue
        exact (hcue.trans (sameRun_abort _ e g)).trans (ih _ _ _)
      · rename_i heq
        rw [heq] at hcue
        exact hcue.trans (ih _ _ _)
    · exact .refl m

/-! ## Operations and their parts -/

/-- The events whose timers run out in a frame of `dt` milliseconds. -/
def fired (m : Machine) (dt : UInt64) : List Event :=
  ((m.timers.map (·.advance dt)).filter (·.hasFired)).map (·.event)

/-- The timers that run on after a frame of `dt` milliseconds. -/
def unfired (m : Machine) (dt : UInt64) : List Timer :=
  (m.timers.map (·.advance dt)).filter (!·.hasFired)

/-- No frame begins for a machine that is in no state. -/
theorem newFrame_inactive (dt : UInt64) (m : Machine) (s : σ) (hact : ¬ m.isActive = true) :
    newFrame host dt (m, s) = (.ok (), m, s) := by
  rw [newFrame]
  simp only [hact, Bool.false_eq_true, if_false]

/-- **One frame**, part by part: all handlers are cued without the timers, and then those whose
    timers have run out. -/
theorem newFrame_active (dt : UInt64) (m : Machine) (s : σ) {first : Option Error} {m₁ : Machine}
    {s₁ : σ} (hact : m.isActive = true)
    (h₁ : cueAll host .newFrame m.generation m.handlers.events none ({ m with timers := [] }, s) =
      (first, m₁, s₁)) :
    newFrame host dt (m, s) =
      if m₁.generation = m.generation then
        (cueAll host .resume m.generation (m.fired dt) first
          ({ m₁ with timers := m.unfired dt ++ m₁.timers }, s₁)).map result id
      else (result first, m₁, s₁) := by
  rw [newFrame]
  simp only [hact, if_true, h₁]
  rfl

/-- A frame runs the script it began with. -/
theorem sameRun_newFrame (dt : UInt64) (m : Machine) (s : σ) :
    m.SameRun (newFrame host dt (m, s)).2.1 := by
  by_cases hact : m.isActive = true
  · rcases h₁ : cueAll host .newFrame m.generation m.handlers.events none
      ({ m with timers := [] }, s) with ⟨first, m₁, s₁⟩
    have hframe : m.SameRun m₁ := by
      have hstart : m.SameRun { m with timers := [] } := ⟨rfl, rfl, rfl, rfl⟩
      have := sameRun_cueAll host .newFrame m.generation m.handlers.events none
        { m with timers := [] } s
      rw [h₁] at this
      exact hstart.trans this
    rw [newFrame_active host dt m s hact h₁]
    split
    · have htimers : ∀ ts, m₁.SameRun { m₁ with timers := ts } := fun ts => ⟨rfl, rfl, rfl, rfl⟩
      exact (hframe.trans (htimers _)).trans (sameRun_cueAll host _ _ _ _ _ _)
    · exact hframe
  · rw [newFrame_inactive host dt m s hact]
    exact .refl m

/-- A choice of state runs the script it began with. -/
theorem sameRun_select (m : Machine) (s : σ) : m.SameRun (select host (m, s)).2.1 := by
  rw [select]
  have hlocals : ∀ l, m.SameRun { m with locals := l } := fun l => ⟨rfl, rfl, rfl, rfl⟩
  rcases choose m.script m.identity host (m.locals, s) with ⟨err | i, l, s'⟩
  · exact hlocals l
  · simp only
    split
    · exact hlocals l
    · exact (hlocals l).trans ((sameRun_enter_cue host _).1 i _ s').1

/-- A trigger runs the script it began with. -/
theorem sameRun_trigger (e : Event) (m : Machine) (s : σ) :
    m.SameRun (trigger host e (m, s)).2.1 := by
  rw [trigger]
  split
  · exact sameRun_cue host .run e m s
  · exact .refl m

/-- **An activation** seeds the saved variables, selects a state and cues `spawn`, up to the first
    error. -/
theorem activate_eq (m : Machine) (s : σ) : activate host (m, s) =
    match seedSaved m.identity host m.script.vars s with
    | (.error err, s₁) => (.error err, m, s₁)
    | (.ok (), s₁) => match select host (m, s₁) with
      | (.error err, m₂, s₂) => (.error err, m₂, s₂)
      | (.ok (), m₂, s₂) => trigger host .spawn (m₂, s₂) := by
  rcases hseed : seedSaved m.identity host m.script.vars s with ⟨err | ⟨⟨⟩⟩, s₁⟩
  · simp only [activate, bind, Action.andThen, hseed]
  · rcases hselect : select host (m, s₁) with ⟨err | ⟨⟨⟩⟩, m₂, s₂⟩
    · simp only [activate, bind, Action.andThen, hseed, hselect]
    · simp only [activate, bind, Action.andThen, hseed, hselect]

/-- An activation runs one script throughout. -/
theorem sameRun_activate (m : Machine) (s : σ) : m.SameRun (activate host (m, s)).2.1 := by
  rw [activate_eq]
  rcases seedSaved m.identity host m.script.vars s with ⟨err | ⟨⟨⟩⟩, s₁⟩
  · exact .refl m
  · have hselect := sameRun_select host m s₁
    rcases hs : select host (m, s₁) with ⟨err | ⟨⟨⟩⟩, m₂, s₂⟩
    · simp only [hs]
      rw [hs] at hselect
      exact hselect
    · simp only [hs]
      rw [hs] at hselect
      exact hselect.trans (sameRun_trigger host .spawn m₂ s₂)

/-! ## The generation never falls -/

/-- Selecting a state counts up, or leaves the count where it is. -/
theorem generation_le_select (m : Machine) (s : σ) :
    m.generation ≤ (select host (m, s)).2.1.generation := by
  rw [select]
  rcases choose m.script m.identity host (m.locals, s) with ⟨err | i, l, s'⟩
  · exact Nat.le_refl _
  · simp only
    split
    · exact Nat.le_refl _
    · rcases ((sameRun_enter_cue host _).1 i { m with locals := l } s').2 with ⟨-, heq⟩ | hlt
      · exact Nat.le_of_eq (congrArg generation heq).symm
      · exact Nat.le_of_lt hlt

/-- A trigger counts up, or leaves the count where it is. -/
theorem generation_le_trigger (e : Event) (m : Machine) (s : σ) :
    m.generation ≤ (trigger host e (m, s)).2.1.generation := by
  rw [trigger]
  split
  · rw [cue_switchTo]
    exact ((sameRun_enter_cue host _).2 .run e m s).2
  · exact Nat.le_refl _

/-- Outside all switches, no operation changes what the machine runs. -/
theorem sameRun_next (m : Machine) (c : Call) (h0 : m.switchDepth = 0) : m.SameRun (m.next c) := by
  obtain ⟨host, s, op⟩ := c
  cases op with
  | activate => exact sameRun_activate host m s
  | trigger e => exact sameRun_trigger host e m s
  | newFrame dt => exact sameRun_newFrame host dt m s
  | select => exact sameRun_select host m s
  | despawn => exact ⟨rfl, rfl, rfl, h0.symm⟩

/-- No operation touches the script. -/
theorem script_next (m : Machine) (c : Call) : (m.next c).script = m.script := by
  obtain ⟨host, s, op⟩ := c
  cases op with
  | activate => exact (sameRun_activate host m s).script
  | trigger e => exact (sameRun_trigger host e m s).script
  | newFrame dt => exact (sameRun_newFrame host dt m s).script
  | select => exact (sameRun_select host m s).script
  | despawn => rfl

/-- Nor does it change whom the machine belongs to. -/
theorem identity_next (m : Machine) (c : Call) : (m.next c).identity = m.identity := by
  obtain ⟨host, s, op⟩ := c
  cases op with
  | activate => exact (sameRun_activate host m s).identity
  | trigger e => exact (sameRun_trigger host e m s).identity
  | newFrame dt => exact (sameRun_newFrame host dt m s).identity
  | select => exact (sameRun_select host m s).identity
  | despawn => rfl

/-- **A machine runs one script**, whatever happens to it. -/
theorem sameRun_after {m : Machine} (h0 : m.switchDepth = 0) (cs : List Call) :
    m.SameRun (m.after cs) := by
  refine after_induct (P := fun m' => m.SameRun m') (fun m' c h => ?_) (.refl m) cs
  exact h.trans (sameRun_next m' c (h.switchDepth.trans h0))

theorem sameRun_performAll (ops : List Operation) {m : Machine} (s : σ) (h0 : m.switchDepth = 0) :
    m.SameRun (Operation.performAll host ops (m, s)).2.1 := by
  induction ops generalizing m s with
  | nil => exact .refl m
  | cons op ops ih =>
    have hop := sameRun_next m ⟨host, s, op⟩ h0
    rw [next] at hop
    rw [Operation.performAll, Action.bind_apply]
    rcases hr : op.perform host (m, s) with ⟨err | ⟨⟨⟩⟩, m', s'⟩
    · rw [hr] at hop
      exact hop
    · rw [hr] at hop
      exact hop.trans (ih s' (hop.switchDepth.trans h0))

end Machine

end ActorScript
