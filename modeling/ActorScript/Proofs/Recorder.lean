/-
  Hosts that keep a record.

  What is asked of a host during a run can be taken down beside its state: the statements that are
  executed, the functions that are called, the values that are saved.  A `Recorder` says how the
  record goes on after each request and its answer, and `Host.recording` does what another host does
  and keeps such a record.

  Whatever is taken down, nobody can tell (`Host.recording_related`).  And what is taken down
  depends on what was asked, but on the record before only as the recorder makes it so
  (`Host.recording_related_recording`).
-/
import ActorScript.Proofs.Related

namespace ActorScript

variable {σ ρ ρ' α : Type}

/-- The action, with a record beside its state, which goes on with the answer. -/
def Action.noting (a : Action σ α) (note : Except Error α → ρ → ρ) : Action (ρ × σ) α := fun x =>
  ((a x.2).1, note (a x.2).1 x.1, (a x.2).2)

/-- How a record goes on after each thing that a host was asked for.  What is not mentioned is not
    taken down. -/
structure Recorder (ρ : Type) where
  callFunction : String → List Value → Except Error Reply → ρ → ρ := fun _ _ _ record => record
  callValue : String → List Value → Except Error Value → ρ → ρ := fun _ _ _ record => record
  write : Slot → Value → Except Error Unit → ρ → ρ := fun _ _ _ record => record
  observe : Step → ρ → ρ := fun _ record => record

/-- The host that does the same as `host` and keeps a record. -/
def Host.recording (host : Host σ) (r : Recorder ρ) : Host (ρ × σ) where
  callFunction f vs := (host.callFunction f vs).noting (r.callFunction f vs)
  callValue f vs := (host.callValue f vs).noting (r.callValue f vs)
  read slot x := host.read slot x.2
  write slot v := (host.write slot v).noting (r.write slot v)
  observe step x := (r.observe step x.1, host.observe step x.2)

theorem Action.related_noting (a : Action σ α) (note : Except Error α → ρ → ρ) :
    Related (fun s x => x.2 = s) a (a.noting note) := by
  rintro s x rfl
  exact ⟨rfl, rfl⟩

/-- **Keeping a record disturbs nothing**: without it, the host is the one it was made from. -/
theorem Host.recording_related (host : Host σ) (r : Recorder ρ) :
    host.Related (fun s x => x.2 = s) (host.recording r) where
  callFunction _ _ := Action.related_noting _ _
  callValue _ _ := Action.related_noting _ _
  read slot := by
    rintro s x rfl
    rfl
  write _ _ := Action.related_noting _ _
  observe step := by
    rintro s x rfl
    rfl

/-- Two recorders that lead from related records to related records. -/
structure Recorder.Related (R : ρ → ρ' → Prop) (r : Recorder ρ) (r' : Recorder ρ') : Prop where
  callFunction : ∀ f vs answer a b, R a b → R (r.callFunction f vs answer a)
    (r'.callFunction f vs answer b)
  callValue : ∀ f vs answer a b, R a b → R (r.callValue f vs answer a) (r'.callValue f vs answer b)
  write : ∀ slot v answer a b, R a b → R (r.write slot v answer a) (r'.write slot v answer b)
  observe : ∀ step a b, R a b → R (r.observe step a) (r'.observe step b)

theorem Action.noting_related_noting {R : ρ → ρ' → Prop} {note : Except Error α → ρ → ρ}
    {note' : Except Error α → ρ' → ρ'} (a : Action σ α)
    (h : ∀ answer l l', R l l' → R (note answer l) (note' answer l')) :
    Related (fun x y => R x.1 y.1 ∧ x.2 = y.2) (a.noting note) (a.noting note') := by
  rintro ⟨l, s⟩ ⟨l', s'⟩ ⟨hl, rfl⟩
  exact ⟨rfl, h _ l l' hl, rfl⟩

/-- **Two records of the same run** stay related. -/
theorem Host.recording_related_recording {R : ρ → ρ' → Prop} {r : Recorder ρ} {r' : Recorder ρ'}
    (h : r.Related R r') (host : Host σ) :
    (host.recording r).Related (fun x y => R x.1 y.1 ∧ x.2 = y.2) (host.recording r') where
  callFunction f vs := Action.noting_related_noting _ (h.callFunction f vs)
  callValue f vs := Action.noting_related_noting _ (h.callValue f vs)
  read slot := by
    rintro ⟨l, s⟩ ⟨l', s'⟩ ⟨-, rfl⟩
    rfl
  write slot v := Action.noting_related_noting _ (h.write slot v)
  observe step := by
    rintro ⟨l, s⟩ ⟨l', s'⟩ ⟨hl, rfl⟩
    exact ⟨h.observe step l l' hl, rfl⟩

end ActorScript
