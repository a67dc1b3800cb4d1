/-
Actions: computations over a state that may fail.

A failing action keeps the state that it reached, so what happened before the
failure stays visible.  `Action.within` names the step that an error arose in,
and `Action.on` runs an action on one part of a larger state.
-/

import HostNet.Error

namespace HostNet

/-- An action over states `σ` with answers `α`. -/
abbrev Action (σ α : Type) := EStateM Error σ α

namespace Action

variable {σ τ α : Type}

/-- An answer or an error that does not depend on the state. -/
def ofExcept : Except Error α → Action σ α
  | .ok a => pure a
  | .error e => throw e

/-- Puts the errors of an action into the context of a step. -/
def within (step : String) (x : Action σ α) : Action σ α := fun s =>
  match x s with
  | .ok a s => .ok a s
  | .error e s => .error (.context step e) s

/-- Runs an action on one part of the state. -/
def on (part : σ → τ) (replace : τ → σ → σ) (x : Action τ α) : Action σ α := fun s =>
  match x (part s) with
  | .ok a t => .ok a (replace t s)
  | .error e t => .error e (replace t s)

/-- Runs an action that cannot fail: its answer is what the given action comes to. -/
def attempt (x : Action σ α) : Action σ (Except Error α) := fun s =>
  match x s with
  | .ok a s => .ok (.ok a) s
  | .error e s => .ok (.error e) s

/-- Runs an action whose failure for an absent thing is the answer that there is none. -/
def ifFound (x : Action σ α) : Action σ (Option α) := fun s =>
  match x s with
  | .ok a s => .ok (some a) s
  | .error e s => if e.isNotFound then .ok none s else .error e s

/-- Changes the state that a failing action leaves behind. -/
def afterError (f : σ → σ) (x : Action σ α) : Action σ α := fun s =>
  match x s with
  | .ok a s => .ok a s
  | .error e s => .error e (f s)

/-- The outcome of an action, and the state it ends in. -/
def outcome (x : Action σ α) (s : σ) : Except Error α × σ :=
  match x s with
  | .ok a s => (.ok a, s)
  | .error e s => (.error e, s)

/-! ## What each way to build an action comes to -/

@[simp] theorem outcome_pure (a : α) (s : σ) : (pure a : Action σ α).outcome s = (.ok a, s) := rfl

@[simp] theorem outcome_throw (e : Error) (s : σ) :
    (throw e : Action σ α).outcome s = (.error e, s) := rfl

@[simp] theorem outcome_modify (f : σ → σ) (s : σ) :
    (modify f : Action σ Unit).outcome s = (.ok (), f s) := rfl

@[simp] theorem outcome_ofExcept (r : Except Error α) (s : σ) :
    (ofExcept r : Action σ α).outcome s = (r, s) := by
  cases r <;> rfl

/-- The second of two actions runs in the state that the first one ends in, unless that fails. -/
theorem outcome_bind {β : Type} (x : Action σ α) (f : α → Action σ β) (s : σ) :
    (x >>= f).outcome s =
      match x.outcome s with
      | (.ok a, t) => (f a).outcome t
      | (.error e, t) => (.error e, t) := by
  unfold outcome
  simp only [bind, EStateM.bind]
  cases h : x s <;> rfl

/-- The search for a thing fails as its lookup does, unless that finds nothing. -/
theorem outcome_ifFound (x : Action σ α) (s : σ) :
    (ifFound x).outcome s =
      (match (x.outcome s).1 with
        | .ok a => .ok (some a)
        | .error e => if e.isNotFound then .ok none else .error e, (x.outcome s).2) := by
  unfold outcome ifFound
  cases h : x s with
  | ok a t => rfl
  | error e t => by_cases he : e.isNotFound = true <;> simp [he]

end Action

end HostNet
