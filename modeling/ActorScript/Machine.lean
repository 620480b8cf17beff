/-
  Machines: the running script of one actor.

  A machine is in one state of its script, the first one whose condition holds, and has a handler
  for every event of that state.  A handler comes to rest in one of four ways (`Rest`): it needs
  nothing, it waits for a timer, it has found that another state has to be entered, or it has
  failed.  As long as the choice of state stays the same, a handler that asks for it just goes on
  (`settle`); that ends because every request costs it a statement of its budget.

  Entering a state replaces all handlers and starts those of `loop` and `enterState`, which may
  lead to the next switch.  Such switches nest, and `options.maxDepth` bounds how deep; `enter`
  recurses on the number of switches that are still allowed.

  Handlers of different states are told apart by `generation`, which counts the switches: after
  an operation of a handler, the machine is in the same state as before if and only if the
  generation is the same.
-/
import ActorScript.Handler
import ActorScript.Timer
import ActorScript.Machine.Registers

namespace ActorScript

/-- The limits a machine runs under. -/
structure MachineOptions where
  /-- Statements that a handler may execute in one frame. -/
  budget : Nat := 100
  /-- How deep switches of state may nest. -/
  maxDepth : Nat := 32
deriving DecidableEq, Repr, Inhabited

/-- What a handler is told to do. -/
inductive Cue
  | run
  | newFrame
  | resume
deriving DecidableEq, Repr, Inhabited

/-- How a handler came to rest, once all requests for a new choice of state are answered. -/
inductive Rest
  /-- It needs nothing but another frame, or nothing at all. -/
  | settled
  /-- It waits for a timer of this many milliseconds. -/
  | waiting (milliseconds : UInt64)
  /-- The state with this index has to be entered. -/
  | switch (state : Nat)
deriving DecidableEq, Repr, Inhabited

namespace Handler

variable {σ : Type}

/-- Does what the handler is told. -/
def obey (script : Script) (ctx : Context σ) (h : Handler) (s : σ) :
    Cue → Except Error Outcome × Handler × σ
  | .run => h.run script ctx s
  | .newFrame => h.newFrame script ctx s
  | .resume => h.resume script ctx s

/-- Answers a handler's requests for a new choice of state, which `choose` makes, for as long as
    the choice is the current state. -/
def answer (script : Script) (ctx : Context σ) (choose : Action σ Nat) (current : Option Nat)
    (h : Handler) (s : σ) : Except Error Rest × Handler × σ :=
  match choose s with
  | (.error e, s') => (.error e, h, s')
  | (.ok i, s') =>
    if current = some i then
      match _hp : h.proceed script ctx s' with
      | (.error e, h', s'') => (.error e, h', s'')
      | (.ok .reselect, h', s'') => answer script ctx choose current h' s''
      | (.ok (.waiting ms), h', s'') => (.ok (.waiting ms), h', s'')
      | (.ok _, h', s'') => (.ok .settled, h', s'')
    else (.ok (.switch i), h, s')
termination_by h.budget - h.usedBudget
decreasing_by exact remaining_lt_of_proceed_reselect _hp

/-- Does what the handler is told and answers its requests. -/
def settle (script : Script) (ctx : Context σ) (choose : Action σ Nat) (current : Option Nat)
    (cue : Cue) (h : Handler) (s : σ) : Except Error Rest × Handler × σ :=
  match h.obey script ctx s cue with
  | (.error e, h', s') => (.error e, h', s')
  | (.ok .reselect, h', s') => answer script ctx choose current h' s'
  | (.ok (.waiting ms), h', s') => (.ok (.waiting ms), h', s')
  | (.ok _, h', s') => (.ok .settled, h', s')

end Handler

/-- The running script of one actor. -/
structure Machine where
  script : Script
  identity : Identity
  options : MachineOptions
  locals : Locals
  /-- The index of the current state; without one the machine is not active. -/
  current : Option Nat := none
  handlers : EventMap Handler := .empty
  timers : List Timer := []
  /-- How often a state was entered or all were left. -/
  generation : Nat := 0
  /-- How many switches of state are under way. -/
  switchDepth : Nat := 0
deriving DecidableEq, Repr

namespace Machine

variable {σ : Type}

/-- A machine that has not been activated.  An actor without a name must not have saved
    variables. -/
def create (script : Script) (identity : Identity) (options : MachineOptions) :
    Except Error Machine :=
  match identity.actorName, script.vars.find? (·.persisted) with
  | none, some v => .error (.missingActorName v.name)
  | _, _ => .ok { script, identity, options, locals := .initial script }

/-- The current state. -/
def state? (m : Machine) : Option State := m.current.bind fun i => m.script.states[i]?

/-- Whether the machine is in a state. -/
def isActive (m : Machine) : Bool := m.current.isSome

/-! ## Choosing the state -/

/-- The index of the first of some states whose condition holds, counting from `i`. -/
def firstHolding (ctx : Context σ) : List State → Nat → Action σ (Option Nat)
  | [], _ => pure none
  | st :: rest, i => do
    let v ← st.condition.eval ctx
    if v.truthy then return some i else firstHolding ctx rest (i + 1)

/-- Chooses the state to be in: the first one whose condition holds. -/
def choose (script : Script) (identity : Identity) (host : Host σ) :
    Action (Locals × σ) Nat := do
  match ← firstHolding (registers script identity host) script.states 0 with
  | some i => return i
  | none => .fail (.noActiveState identity.displayName)

/-! ## One handler at work -/

/-- The context of the handler for an event in the current state. -/
def contextFor (m : Machine) (host : Host σ) (event : Event) : Context (Locals × σ) :=
  registers m.script m.identity host fun position =>
    some { generation := m.generation, state := m.current, event, position }

/-- Gives a cue to the handler for an event, if there is one, and does what follows from the way
    it comes to rest: arms a timer, or has `switch` enter another state. -/
def cue (host : Host σ) (switch : Nat → Action (Machine × σ) Unit) (c : Cue) (event : Event) :
    Action (Machine × σ) Unit := fun (m, s) =>
  match m.handlers.get? event with
  | none => (.ok (), m, s)
  | some h =>
    let (rest, h, locals, s) := h.settle m.script (m.contextFor host event)
      (choose m.script m.identity host) m.current c (m.locals, s)
    let m := { m with handlers := m.handlers.insert event h, locals }
    match rest with
    | .error e => (.error e, m, s)
    | .ok .settled => (.ok (), m, s)
    | .ok (.waiting ms) => (.ok (), { m with timers := m.timers ++ [⟨event, ms, 0⟩] }, s)
    | .ok (.switch i) => switch i (m, s)

/-! ## Entering states -/

/-- The machine at the moment of entering a state: nothing of the old one is left. -/
def install (m : Machine) (i : Nat) (st : State) : Machine :=
  { m with
    current := some i
    handlers := st.handlers.map fun event entry => { event, entry, budget := m.options.budget }
    timers := []
    generation := m.generation + 1 }

/-- Starts the handlers that run on entering a state, the second one only if the first has not
    led to another state. -/
def startHandlers (host : Host σ) (switch : Nat → Action (Machine × σ) Unit) :
    Action (Machine × σ) Unit := fun (m, s) =>
  match cue host switch .run .loop (m, s) with
  | (.error e, m', s') => (.error e, m', s')
  | (.ok (), m', s') =>
    if m'.generation = m.generation then cue host switch .run .enterState (m', s')
    else (.ok (), m', s')

/-- Enters the state with index `i` if at least one more switch is allowed. -/
def enter (host : Host σ) : Nat → Nat → Action (Machine × σ) Unit
  | 0, _ => fun (m, s) =>
    (.error (.stateSwitchOverflow m.identity.displayName m.options.maxDepth), m, s)
  | allowed + 1, i => fun (m, s) =>
    match m.script.states[i]? with
    | none => (.ok (), m, s)
    | some st =>
      let inside := { m.install i st with switchDepth := m.switchDepth + 1 }
      let (r, m', s') := startHandlers host (enter host allowed) (inside, s)
      (r, { m' with switchDepth := m'.switchDepth - 1 }, s')

/-- Enters a state from outside all switches. -/
def switchTo (host : Host σ) (i : Nat) : Action (Machine × σ) Unit := fun (m, s) =>
  enter host (m.options.maxDepth - m.switchDepth) i (m, s)

/-! ## Operations -/

/-- Chooses the state and enters it if it is not the current one. -/
def select (host : Host σ) : Action (Machine × σ) Unit := fun (m, s) =>
  match choose m.script m.identity host (m.locals, s) with
  | (.error e, locals, s) => (.error e, { m with locals }, s)
  | (.ok i, locals, s) =>
    if m.current = some i then (.ok (), { m with locals }, s)
    else switchTo host i ({ m with locals }, s)

/-- Starts the handler for an event, if the machine is active and has one. -/
def trigger (host : Host σ) (event : Event) : Action (Machine × σ) Unit := fun (m, s) =>
  if m.isActive then cue host (switchTo host) .run event (m, s) else (.ok (), m, s)

/-- Stores the defaults of saved variables under whose keys nothing is stored. -/
def seedSaved (identity : Identity) (host : Host σ) : List Variable → Action σ Unit
  | [] => pure ()
  | v :: rest => do
    if v.persisted then
      if let some d := v.initial then
        let key ← .lift (identity.savedKey v.name)
        fun s => if (host.read (.saved key) s).isAbsent then host.write (.saved key) d s
          else (.ok (), s)
    seedSaved identity host rest

/-- Activates the machine: stores saved defaults, chooses the state and lets the actor spawn. -/
def activate (host : Host σ) : Action (Machine × σ) Unit := do
  fun (m, s) =>
    let (r, s) := seedSaved m.identity host m.script.vars s
    (r, m, s)
  select host
  trigger host .spawn

/-- Stops the handler for an event after a failure, unless another state has been entered since
    generation `g`. -/
def abort (m : Machine) (event : Event) (g : Nat) : Machine :=
  if m.generation = g then
    { m with
      handlers := (m.handlers.get? event).elim m.handlers fun h => m.handlers.insert event h.reset
      timers := m.timers.filter (·.event ≠ event) }
  else m

/-- Gives a cue to the handlers for some events, one after the other, for as long as the machine
    stays in the state of generation `g`.  A handler that fails is stopped and the others still
    get their turn; of the errors the first is kept. -/
def cueAll (host : Host σ) (c : Cue) (g : Nat) :
    List Event → Option Error → Machine × σ → Option Error × Machine × σ
  | [], first, (m, s) => (first, m, s)
  | event :: rest, first, (m, s) =>
    if m.generation = g then
      match cue host (switchTo host) c event (m, s) with
      | (.error e, m', s') => cueAll host c g rest (first.or (some e)) (m'.abort event g, s')
      | (.ok (), m', s') => cueAll host c g rest first (m', s')
    else (first, m, s)

/-- The result of an operation that goes on after errors. -/
def result : Option Error → Except Error Unit
  | some e => .error e
  | none => .ok ()

/-- **One frame** of `dt` milliseconds: every handler begins a new frame, and then the timers
    that were running before count `dt` and those that fire let their handlers resume.  Once
    another state has been entered, nothing more is done in this frame. -/
def newFrame (host : Host σ) (dt : UInt64) : Action (Machine × σ) Unit := fun (m, s) =>
  if m.isActive then
    let (first, m', s') :=
      cueAll host .newFrame m.generation m.handlers.events none ({ m with timers := [] }, s)
    if m'.generation = m.generation then
      let timers := m.timers.map (·.advance dt)
      let fired := (timers.filter (·.hasFired)).map (·.event)
      let m' := { m' with timers := timers.filter (!·.hasFired) ++ m'.timers }
      let (first, m', s') := cueAll host .resume m.generation fired first (m', s')
      (result first, m', s')
    else (result first, m', s')
  else (.ok (), m, s)

/-- Leaves all states and forgets everything but the script: the machine is as if it had just
    been made. -/
def despawn (m : Machine) : Machine :=
  { m with
    locals := .initial m.script
    current := none
    handlers := .empty
    timers := []
    generation := m.generation + 1
    switchDepth := 0 }

end Machine

end ActorScript
