/-
  Steps that may fail half-way.

  An `Action` works on a state.  Whether it succeeds or fails, it gives back the state it has
  reached: what a script did before an error stays done.  So the state after an action is always
  `(a s).2`, and a property that every step keeps holds after failures as well.
-/
import ActorScript.Error

namespace ActorScript

/-- A step on a state `σ` with a result or an error; in both cases there is a state afterwards. -/
def Action (σ α : Type) : Type := σ → Except Error α × σ

namespace Action

variable {σ α β : Type}

/-- Does nothing and succeeds. -/
def succeed (a : α) : Action σ α := fun s => (.ok a, s)

/-- Does nothing and fails. -/
def fail (e : Error) : Action σ α := fun s => (.error e, s)

/-- A result or error that does not depend on the state. -/
def lift (r : Except Error α) : Action σ α := fun s => (r, s)

/-- Changes the state. -/
def update (f : σ → σ) : Action σ Unit := fun s => (.ok (), f s)

/-- Looks at the state. -/
def look (f : σ → α) : Action σ α := fun s => (.ok (f s), s)

/-- Does `x` and, if that succeeds, what `f` makes of its result. -/
def andThen (x : Action σ α) (f : α → Action σ β) : Action σ β := fun s =>
  match x s with
  | (.ok a, s') => f a s'
  | (.error e, s') => (.error e, s')

instance : Monad (Action σ) where
  pure := succeed
  bind := andThen

@[simp] theorem pure_apply (a : α) (s : σ) : (pure a : Action σ α) s = (.ok a, s) := rfl

@[simp] theorem fail_apply (e : Error) (s : σ) : (fail e : Action σ α) s = (.error e, s) := rfl

@[simp] theorem lift_apply (r : Except Error α) (s : σ) : lift r s = (r, s) := rfl

/-- The second action begins where the first one ends, and only behind a result. -/
theorem bind_apply (x : Action σ α) (f : α → Action σ β) (s : σ) :
    (x >>= f) s = match x s with
      | (.ok a, s') => f a s'
      | (.error e, s') => (.error e, s') := rfl

/-- Behind a result the second action goes on. -/
theorem bind_apply_ok {x : Action σ α} {s s' : σ} {a : α} (h : x s = (.ok a, s'))
    (f : α → Action σ β) : (x >>= f) s = f a s' := by
  rw [bind_apply, h]

/-- Behind an error it is not begun, and the state is the one that the first has left. -/
theorem bind_apply_error {x : Action σ α} {s s' : σ} {e : Error} (h : x s = (.error e, s'))
    (f : α → Action σ β) : (x >>= f) s = (.error e, s') := by
  rw [bind_apply, h]

instance : LawfulMonad (Action σ) := LawfulMonad.mk' _
  (fun x => by
    funext s
    show (match x s with
      | (.ok a, s') => (Except.ok a, s')
      | (.error e, s') => (Except.error e, s')) = x s
    split <;> simp_all)
  (fun _ _ => rfl)
  (fun x f g => by
    funext s
    simp only [bind_apply]
    rcases x s with ⟨_ | _, _⟩ <;> rfl)

end Action

end ActorScript
