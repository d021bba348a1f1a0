import RecordMapper.Error

/-! Operations that change a state and may fail.

What an operation changed before it failed stays changed: the result of a failing run is
the error together with the state reached. -/
namespace RecordMapper

/-- An operation on states of type `σ`. -/
abbrev Attempt (σ α : Type) : Type := ExceptT Error (StateM σ) α

namespace Attempt

variable {σ τ α : Type}

/-- The outcome of an operation, and the state after it. -/
def runOn (a : Attempt σ α) (s : σ) : Except Error α × σ := StateT.run (ExceptT.run a) s

/-- An operation given by what it does to a state. -/
def ofRun (f : σ → Except Error α × σ) : Attempt σ α := ExceptT.mk f

/-- An operation that only fails or succeeds. -/
def ofExcept (r : Except Error α) : Attempt σ α := ofRun fun s => (r, s)

/-- An operation that cannot fail. -/
def change (f : σ → α × σ) : Attempt σ α := ofRun fun s => (.ok (f s).1, (f s).2)

/-- An operation on a part of a larger state. -/
def within (part : τ → σ) (replace : σ → τ → τ) (a : Attempt σ α) : Attempt τ α :=
  ofRun fun t =>
    let r := a.runOn (part t)
    (r.1, replace r.2 t)

/-! ### Runs -/

@[simp] theorem runOn_pure (a : α) (s : σ) : (pure a : Attempt σ α).runOn s = (.ok a, s) := rfl

@[simp] theorem runOn_throw (e : Error) (s : σ) :
    (throw e : Attempt σ α).runOn s = (.error e, s) := rfl

@[simp] theorem runOn_ofRun (f : σ → Except Error α × σ) (s : σ) : (ofRun f).runOn s = f s := rfl

@[simp] theorem runOn_ofExcept (r : Except Error α) (s : σ) : (ofExcept r).runOn s = (r, s) := rfl

@[simp] theorem runOn_get (s : σ) : (get : Attempt σ σ).runOn s = (.ok s, s) := rfl

@[simp] theorem runOn_modify (f : σ → σ) (s : σ) :
    (modify f : Attempt σ Unit).runOn s = (.ok (), f s) := rfl

/-- One operation after another: an error ends the run where it arises. -/
theorem runOn_bind {β : Type} (a : Attempt σ α) (f : α → Attempt σ β) (s : σ) :
    (a >>= f).runOn s =
      match a.runOn s with
      | (.ok r, t) => (f r).runOn t
      | (.error e, t) => (.error e, t) := by
  unfold runOn
  rw [ExceptT.run_bind, StateT.run_bind]
  rcases StateT.run (ExceptT.run a) s with ⟨r | e, t⟩ <;> rfl

/-- Applying a function to the result does not change the state reached. -/
theorem runOn_map {β : Type} (f : α → β) (a : Attempt σ α) (s : σ) :
    (f <$> a : Attempt σ β).runOn s = ((a.runOn s).1.map f, (a.runOn s).2) := by
  rw [map_eq_pure_bind, runOn_bind]
  rcases a.runOn s with ⟨r | e, t⟩ <;> rfl

@[simp] theorem runOn_within (part : τ → σ) (replace : σ → τ → τ) (a : Attempt σ α) (t : τ) :
    (within part replace a).runOn t =
      ((a.runOn (part t)).1, replace (a.runOn (part t)).2 t) := rfl

/-! ### Lists -/

/-- Runs an operation for every element of a list in turn. -/
def forEach {β : Type} (xs : List β) (f : β → Attempt σ Unit) : Attempt σ Unit :=
  match xs with
  | [] => pure ()
  | x :: rest => do
    f x
    forEach rest f

/-- Runs an operation for every element of a list in turn and collects the results. -/
def collect {β : Type} (xs : List β) (f : β → Attempt σ α) : Attempt σ (List α) :=
  match xs with
  | [] => pure []
  | x :: rest => do
    let a ← f x
    let more ← collect rest f
    return a :: more

end Attempt

end RecordMapper
