/-
  The functions that a host is asked for.

  `Host.heard` does what another host does and keeps a list of the names of the functions that are
  called, in expressions and as statements, so `Operation.asked`, the list after an operation, is
  what the operation has asked the host for.  Keeping the list disturbs nothing
  (`Machine.perform_recording`).

  Every name in it stands at a place of the script, and so in the list of all calls
  (`calledFunctions_covers`): the places are followed by `CallSites` through the script, and the
  runs by `Asked` through the machine.
-/
import Mathlib
import ActorScript.Proofs.CallSites
import ActorScript.Proofs.Counterpart

namespace ActorScript

variable {σ : Type}

/-- Takes down the names of the functions that are called. -/
def Recorder.calls : Recorder (List String) where
  callFunction f _ _ log := log ++ [f]
  callValue f _ _ log := log ++ [f]

/-- The host that does the same as `host` and keeps a list of the functions that are called. -/
def Host.heard (host : Host σ) : Host (List String × σ) := host.recording .calls

/-- **The functions an operation calls**, in the order of the calls. -/
def Operation.asked (host : Host σ) (op : Operation) (x : Machine × σ) : List String :=
  (op.perform host.heard (x.1, [], x.2)).2.2.1

/-- The functions a call of a machine calls at its host, in the order of the calls. -/
def Call.asked (c : Call) (m : Machine) : List String := c.operation.asked c.host (m, c.state)

/-- All the names in the list are of functions that the script calls. -/
theorem Host.heard_serves (host : Host σ) (script : Script) :
    host.heard.Serves script
      (fun x => ∀ name ∈ x.1, name ∈ script.statementCalls ∨ name ∈ script.valueCalls)
      fun _ => True := by
  have heard : ∀ {log : List String} {f : String},
      (∀ name ∈ log, name ∈ script.statementCalls ∨ name ∈ script.valueCalls) →
      (f ∈ script.statementCalls ∨ f ∈ script.valueCalls) →
      ∀ name ∈ log ++ [f], name ∈ script.statementCalls ∨ name ∈ script.valueCalls := by
    intro log f hlog hf name hname
    rcases List.mem_append.mp hname with hname | hname
    · exact hlog name hname
    · exact List.mem_singleton.mp hname ▸ hf
  exact {
    others := fun _ _ => trivial
    callValue := fun f hf vs x hx => ⟨heard hx (.inr hf), fun _ _ => trivial⟩
    callFunction := fun f hf vs x hx => ⟨heard hx (.inl hf), fun _ _ => trivial⟩
    write := fun slot v x hx => ⟨hx, fun _ _ => trivial⟩
    observe := fun step x hx => hx }

/-- One call of a machine asks for functions of its script only. -/
theorem Call.mem_calledFunctions_of_asked {c : Call} {m : Machine} {name : String}
    (h : name ∈ c.asked m) : ∃ l, (name, l) ∈ m.script.calledFunctions := by
  have hserves := c.host.heard_serves m.script
  have hasked := (Machine.perform_ensures hserves c.operation ([], c.state) (by simp)).1
  exact Script.mem_calledFunctions.mpr (hasked name h)

theorem Machine.script_after (m : Machine) (cs : List Call) : (m.after cs).script = m.script :=
  after_induct (P := fun m' => m'.script = m.script) (fun m' c h => (script_next m' c).trans h) rfl
    cs

/-- **The list of calls covers every run.**  It has each call in a condition or a statement of the
    script once, with the location of the state or statement; and whatever has been done with a
    machine of the script, and with whatever hosts, it calls nothing that is not in the list. -/
theorem Script.calledFunctions_covers (s : Script) :
    Lists s.called? s.calledFunctions ∧
    ∀ m : Machine, m.script = s → ∀ (cs : List Call) (c : Call), ∀ name ∈ c.asked (m.after cs),
      ∃ l, (name, l) ∈ s.calledFunctions := by
  refine ⟨s.lists_calledFunctions, fun m hm cs c name hname => ?_⟩
  obtain ⟨l, hl⟩ := c.mem_calledFunctions_of_asked hname
  rw [Machine.script_after, hm] at hl
  exact ⟨l, hl⟩

/-- A host whose functions all succeed; in expressions they say whether they got an argument. -/
def Host.willing : Host Unit where
  callFunction _ _ _ := (.ok .proceed, ())
  callValue _ vs _ := (.ok (.bool (!vs.isEmpty)), ())
  read _ _ := .absent
  write _ _ _ := (.ok (), ())

/-- A door with a password.  Its functions are called in a condition, as arguments of each other
    and in both branches of a choice. -/
def guardedDoor : Script where
  states := [
    { name := "Shut", condition := .call "guarded" [.call "hour" []],
      handlers := { actionPressed := some 0 }, location := ⟨1, 1⟩ }]
  blocks := [
    [.ifElse (.call "known" [.call "spoken" []]) 1 (some 2) ⟨2, 3⟩],
    [.call "open" [.call "name" []] ⟨3, 5⟩],
    [.call "refuse" [] ⟨4, 10⟩]]

/-- The machine of the door before anything is done with it. -/
def doorMachine : Machine :=
  { script := guardedDoor, identity := ⟨"town", some "Door"⟩, options := {},
    locals := .initial guardedDoor }

/-- The door is put on the map. -/
def appear : Call := ⟨Host.willing, (), .activate⟩

/-- Somebody is at the door. -/
def knock : Call := ⟨Host.willing, (), .trigger .actionPressed⟩

theorem calledFunctions_covers_guardedDoor :
    knock.asked (doorMachine.after [appear]) = ["spoken", "known", "name", "open"] ∧
      ∃ l, ("name", l) ∈ guardedDoor.calledFunctions := by
  have hasked : knock.asked (doorMachine.after [appear]) = ["spoken", "known", "name", "open"] := by
    cbv
  obtain ⟨-, hruns⟩ := Script.calledFunctions_covers guardedDoor
  have hname : "name" ∈ knock.asked (doorMachine.after [appear]) := by
    rw [hasked]
    decide
  exact ⟨hasked, hruns doorMachine rfl [appear] knock "name" hname⟩

end ActorScript
