/-
Triples about actions.

`Triple P x Q E` speaks of every run of `x` from a state with `P`: one that succeeds answers with an
`a` and ends in a state with `Q a`, and one that fails ends, with its error, in a state with `E`.
With `E` always true this is what holds after a success; with `E` always false it says that the
action succeeds.  There is one rule for each way to build an action, so that the triple of a program
follows its text.
-/

import HostNet.Action

namespace HostNet.Action

variable {σ τ α β : Type} {P P' : σ → Prop} {E E' : Error → σ → Prop}

/-- What a run from a state with `P` comes to: `Q` after a success, `E` after a failure. -/
def Triple (P : σ → Prop) (x : Action σ α) (Q : α → σ → Prop) (E : Error → σ → Prop) : Prop :=
  ∀ s, P s → match x s with
    | .ok a t => Q a t
    | .error e t => E e t

/-! ## Using a triple -/

/-- A triple tells what an answer is good for. -/
theorem Triple.of_ok {x : Action σ α} {Q : α → σ → Prop} (h : Triple P x Q E) {s t : σ} {a : α}
    (hs : P s) (hx : x s = .ok a t) : Q a t := by
  have hrun := h s hs
  rw [hx] at hrun
  exact hrun

/-- A triple tells what an error is good for. -/
theorem Triple.of_error {x : Action σ α} {Q : α → σ → Prop} (h : Triple P x Q E) {s t : σ}
    {e : Error} (hs : P s) (hx : x s = .error e t) : E e t := by
  have hrun := h s hs
  rw [hx] at hrun
  exact hrun

/-- An action that cannot fail comes to an answer. -/
theorem Triple.total {x : Action σ α} {Q : α → σ → Prop} (h : Triple P x Q fun _ _ => False) {s : σ}
    (hs : P s) : ∃ a t, x s = .ok a t ∧ Q a t := by
  have hrun := h s hs
  cases hx : x s with
  | ok a t =>
    rw [hx] at hrun
    exact ⟨a, t, rfl, hrun⟩
  | error e t =>
    rw [hx] at hrun
    exact hrun.elim

/-- A failure may be looked at by running the action. -/
theorem exists_error {x : Action σ α} {s : σ} {p : Error → σ → Bool}
    (h : (match x s with | .ok .. => false | .error e t => p e t) = true) :
    ∃ e t, x s = .error e t ∧ p e t = true := by
  cases hx : x s with
  | ok a t =>
    rw [hx] at h
    cases h
  | error e t =>
    rw [hx] at h
    exact ⟨e, t, rfl, h⟩

/-- So may a success. -/
theorem exists_ok {x : Action σ α} {s : σ} {p : α → σ → Bool}
    (h : (match x s with | .ok a t => p a t | .error .. => false) = true) :
    ∃ a t, x s = .ok a t ∧ p a t = true := by
  cases hx : x s with
  | ok a t =>
    rw [hx] at h
    exact ⟨a, t, rfl, h⟩
  | error e t =>
    rw [hx] at h
    cases h

theorem outcome_eq_ok_iff {x : Action σ α} {s t : σ} {a : α} :
    x.outcome s = (.ok a, t) ↔ x s = .ok a t := by
  unfold outcome
  cases x s <;> simp

theorem outcome_eq_error_iff {x : Action σ α} {s t : σ} {e : Error} :
    x.outcome s = (.error e, t) ↔ x s = .error e t := by
  unfold outcome
  cases x s <;> simp

theorem eq_ok_of_outcome {x : Action σ α} {s : σ} (h : (x.outcome s).1.isOk = true) :
    ∃ a, x s = .ok a (x.outcome s).2 := by
  unfold outcome at *
  cases hx : x s with
  | ok a t => exact ⟨a, rfl⟩
  | error e t =>
    rw [hx] at h
    cases h

/-- What every run comes to, whether it succeeds or fails, is known of the state after it. -/
theorem Triple.outcome {x : Action σ α} {R : σ → Prop} (h : Triple P x (fun _ => R) fun _ => R)
    {s : σ} (hs : P s) : R (x.outcome s).2 := by
  have hrun := h s hs
  unfold Action.outcome
  cases hx : x s with
  | ok a t =>
    rw [hx] at hrun
    exact hrun
  | error e t =>
    rw [hx] at hrun
    exact hrun

/-! ## Weakening -/

/-- A triple may ask for more and promise less, of answers and of errors. -/
theorem Triple.weaken {x : Action σ α} {Q Q' : α → σ → Prop} (h : Triple P x Q E)
    (hP : ∀ s, P' s → P s) (hQ : ∀ a s, Q a s → Q' a s) (hE : ∀ e s, E e s → E' e s) :
    Triple P' x Q' E' := by
  intro s hs
  have hrun := h s (hP s hs)
  cases hx : x s with
  | ok a t =>
    rw [hx] at hrun
    exact hQ a t hrun
  | error e t =>
    rw [hx] at hrun
    exact hE e t hrun

theorem Triple.post {x : Action σ α} {Q Q' : α → σ → Prop} (h : Triple P x Q E)
    (hQ : ∀ a s, Q a s → Q' a s) : Triple P x Q' E :=
  h.weaken (fun _ hs => hs) hQ fun _ _ he => he

theorem Triple.pre {x : Action σ α} {Q : α → σ → Prop} (h : Triple P x Q E)
    (hP : ∀ s, P' s → P s) : Triple P' x Q E :=
  h.weaken hP (fun _ _ hq => hq) fun _ _ he => he

theorem Triple.catch {x : Action σ α} {Q : α → σ → Prop} (h : Triple P x Q E)
    (hE : ∀ e s, E e s → E' e s) : Triple P x Q E' :=
  h.weaken (fun _ hs => hs) (fun _ _ hq => hq) hE

/-- Two triples about one action hold together. -/
theorem Triple.both {x : Action σ α} {Q R : α → σ → Prop} (hq : Triple P x Q E)
    (hr : Triple P x R E') :
    Triple P x (fun a s => Q a s ∧ R a s) fun e s => E e s ∧ E' e s := by
  intro s hs
  have hqs := hq s hs
  have hrs := hr s hs
  cases hx : x s with
  | ok a t =>
    rw [hx] at hqs hrs
    exact ⟨hqs, hrs⟩
  | error e t =>
    rw [hx] at hqs hrs
    exact ⟨hqs, hrs⟩

/-- What does not depend on the state is known throughout. -/
theorem Triple.of_pure {φ : Prop} {x : Action σ α} {Q : α → σ → Prop} (h : φ → Triple P x Q E) :
    Triple (fun s => φ ∧ P s) x Q E :=
  fun s hs => h hs.1 s hs.2

/-- A triple may be shown for each state on its own. -/
theorem Triple.of_each {x : Action σ α} {Q : α → σ → Prop}
    (h : ∀ s, P s → Triple (fun t => t = s) x Q E) : Triple P x Q E :=
  fun s hs => h s hs s rfl

/-- What holds from each of several starts, holds from any of them. -/
theorem Triple.of_exists {ι : Type} {P : ι → σ → Prop} {x : Action σ α} {Q : α → σ → Prop}
    (h : ∀ i, Triple (P i) x Q E) : Triple (fun s => ∃ i, P i s) x Q E :=
  fun s ⟨i, hs⟩ => h i s hs

/-! ## Answers, errors and sequences -/

theorem Triple.pure {a : α} {Q : α → σ → Prop} (h : ∀ s, P s → Q a s) :
    Triple P (pure a : Action σ α) Q E := h

theorem Triple.throw {e : Error} {Q : α → σ → Prop} (h : ∀ s, P s → E e s) :
    Triple P (throw e : Action σ α) Q E := h

theorem Triple.modify {f : σ → σ} {Q : Unit → σ → Prop} (h : ∀ s, P s → Q () (f s)) :
    Triple P (modify f : Action σ Unit) Q E := h

theorem Triple.get {Q : σ → σ → Prop} (h : ∀ s, P s → Q s s) :
    Triple P (get : Action σ σ) Q E := h

/-- A check leaves the state, so each of its results is judged where it was made. -/
theorem Triple.ofExcept {r : Except Error α} {Q : α → σ → Prop}
    (hok : ∀ a, r = .ok a → ∀ s, P s → Q a s) (herr : ∀ e, r = .error e → ∀ s, P s → E e s) :
    Triple P (ofExcept r : Action σ α) Q E := by
  intro s hs
  cases r with
  | ok a => exact hok a rfl s hs
  | error e => exact herr e rfl s hs

/-- The second action starts from what the first promises for its answer, and both promise the same
of errors. -/
theorem Triple.bind {x : Action σ α} {f : α → Action σ β} {Q : α → σ → Prop} {R : β → σ → Prop}
    (hx : Triple P x Q E) (hf : ∀ a, Triple (Q a) (f a) R E) : Triple P (x >>= f) R E := by
  intro s hs
  have hrun := hx s hs
  simp only [Bind.bind, EStateM.bind]
  cases h : x s with
  | ok a t =>
    rw [h] at hrun
    exact hf a t hrun
  | error e t =>
    rw [h] at hrun
    exact hrun

/-- Nothing comes after an error. -/
theorem Triple.throw_bind {e : Error} {f : α → Action σ β} {R : β → σ → Prop}
    (h : ∀ s, P s → E e s) : Triple P ((MonadExcept.throw e : Action σ α) >>= f) R E :=
  Triple.bind (Q := fun _ _ => False) (Triple.throw h) fun _ _ hs => hs.elim

theorem bind_of_ok {x : Action σ α} {f : α → Action σ β} {s t : σ} {a : α} (h : x s = .ok a t) :
    (x >>= f) s = f a t := by
  simp only [bind, EStateM.bind, h]

theorem bind_of_error {x : Action σ α} {f : α → Action σ β} {s t : σ} {e : Error}
    (h : x s = .error e t) : (x >>= f) s = .error e t := by
  simp only [bind, EStateM.bind, h]

/-- A sequence of answers succeeds if both parts do. -/
theorem except_bind_eq_ok {x : Except Error α} {f : α → Except Error β} {b : β} :
    (x >>= f) = .ok b ↔ ∃ a, x = .ok a ∧ f a = .ok b := by
  cases x <;> simp [bind, Except.bind]

theorem discard_of_error {x : Action σ α} {s t : σ} {e : Error} (h : x s = .error e t) :
    (discard x : Action σ Unit) s = .error e t :=
  bind_of_error h

theorem Triple.discard {x : Action σ α} {Q : Unit → σ → Prop} (h : Triple P x (fun _ => Q ()) E) :
    Triple P (discard x : Action σ Unit) Q E :=
  Triple.bind h fun _ => Triple.pure fun _ hs => hs

theorem discard_bind (x : Action σ α) (f : α → Action σ β) :
    (discard (x >>= f) : Action σ Unit) = x >>= fun a => discard (f a) :=
  bind_assoc x f fun _ => pure ()

/-- The rule of a loop over a list.  `I done` is what holds when the items of `done` were
handled. -/
theorem Triple.forM {l : List β} {f : β → Action σ Unit} {I : List β → σ → Prop}
    (h : ∀ done b rest, l = done ++ b :: rest →
      Triple (I done) (f b) (fun _ => I (done ++ [b])) E) :
    Triple (I []) (l.forM f) (fun _ => I l) E := by
  -- The induction is on what is left of the list; what was handled before grows.
  suffices hloop : ∀ rest done, l = done ++ rest →
      Triple (I done) (rest.forM f) (fun _ => I l) E from hloop l [] rfl
  intro rest
  induction rest with
  | nil =>
    intro done hl
    rw [List.append_nil] at hl
    rw [hl]
    exact Triple.pure fun _ hs => hs
  | cons b rest ih =>
    intro done hl
    refine Triple.bind (h done b rest hl) fun _ => ih (done ++ [b]) ?_
    rw [hl, List.append_assoc, List.singleton_append]

/-- An item that comes once was not handled before. -/
theorem notMem_of_nodup {done rest : List β} {b : β} (h : (done ++ b :: rest).Nodup) : b ∉ done :=
  fun hb => (List.nodup_append.mp h).2.2 b hb b (List.mem_cons_self ..) rfl

/-- If no key comes twice, what was handled before has another key. -/
theorem key_ne_of_nodup {key : β → α} {done rest : List β} {a b : β}
    (h : ((done ++ b :: rest).map key).Nodup) (ha : a ∈ done) : key a ≠ key b := by
  rw [List.map_append, List.map_cons] at h
  intro hab
  exact notMem_of_nodup h (hab ▸ List.mem_map_of_mem ha)

/-! ## Contexts, parts and attempts -/

/-- A named step promises of its errors what is promised of them in their context. -/
theorem Triple.within {step : String} {x : Action σ α} {Q : α → σ → Prop}
    (h : Triple P x Q fun e => E (.context step e)) : Triple P (within step x) Q E := by
  intro s hs
  have hrun := h s hs
  unfold Action.within
  cases hx : x s with
  | ok a t =>
    rw [hx] at hrun
    exact hrun
  | error e t =>
    rw [hx] at hrun
    exact hrun

/-- An action on a part does there what it does alone, and what no new part affects stays. -/
theorem Triple.on {part : σ → τ} {replace : τ → σ → σ} {x : Action τ α} {F : σ → Prop}
    {P : τ → Prop} {Q : α → τ → Prop} {E : Error → τ → Prop} (h : Triple P x Q E)
    (hpart : ∀ t s, part (replace t s) = t) (hframe : ∀ t s, F s → F (replace t s)) :
    Triple (fun s => P (part s) ∧ F s) (on part replace x) (fun a s => Q a (part s) ∧ F s)
      fun e s => E e (part s) ∧ F s := by
  intro s ⟨hs, hF⟩
  have hrun := h (part s) hs
  unfold Action.on
  cases hx : x (part s) with
  | ok a t =>
    rw [hx] at hrun
    -- The part of the new state is the new part, and the frame does not see it.
    dsimp only
    rw [hpart]
    exact ⟨hrun, hframe t s hF⟩
  | error e t =>
    rw [hx] at hrun
    dsimp only
    rw [hpart]
    exact ⟨hrun, hframe t s hF⟩

/-- An attempt always answers: with what the action answers or with its error. -/
theorem Triple.attempt {x : Action σ α} {Q : Except Error α → σ → Prop}
    (h : Triple P x (fun a => Q (.ok a)) fun e => Q (.error e)) : Triple P (attempt x) Q E := by
  intro s hs
  have hrun := h s hs
  unfold Action.attempt
  cases hx : x s with
  | ok a t =>
    rw [hx] at hrun
    exact hrun
  | error e t =>
    rw [hx] at hrun
    exact hrun

/-- That something is absent is an answer, and every other error stays one. -/
theorem Triple.ifFound {x : Action σ α} {Q : Option α → σ → Prop}
    (h : Triple P x (fun a => Q (some a)) fun e s =>
      if e.isNotFound then Q none s else E e s) : Triple P (ifFound x) Q E := by
  intro s hs
  have hrun := h s hs
  unfold Action.ifFound
  cases hx : x s with
  | ok a t =>
    rw [hx] at hrun
    exact hrun
  | error e t =>
    rw [hx] at hrun
    dsimp only at hrun ⊢
    -- Whether the error counts as an answer hangs on the error alone.
    by_cases he : e.isNotFound
    · rw [if_pos he] at hrun ⊢
      exact hrun
    · rw [if_neg he] at hrun ⊢
      exact hrun

/-- What is done after an error shows in the state that the error leaves. -/
theorem Triple.afterError {f : σ → σ} {x : Action σ α} {Q : α → σ → Prop}
    (h : Triple P x Q fun e s => E e (f s)) : Triple P (afterError f x) Q E := by
  intro s hs
  have hrun := h s hs
  unfold Action.afterError
  cases hx : x s with
  | ok a t =>
    rw [hx] at hrun
    exact hrun
  | error e t =>
    rw [hx] at hrun
    exact hrun

/-! ## Errors alone -/

/-- Every error of the action, from whatever state, has `φ`. -/
def Raises (φ : Error → Prop) (x : Action σ α) : Prop :=
  Triple (fun _ => True) x (fun _ _ => True) fun e _ => φ e

/-- What is known of all errors of an action is known beside what a triple says. -/
theorem Triple.raising {φ : Error → Prop} {x : Action σ α} {Q : α → σ → Prop} (h : Triple P x Q E)
    (hx : Raises φ x) : Triple P x Q fun e s => φ e ∧ E e s :=
  ((Triple.pre hx fun _ _ => trivial).both h).post fun _ _ hq => hq.2

namespace Raises

variable {φ ψ : Error → Prop}

theorem imp {x : Action σ α} (hx : Raises φ x) (h : ∀ e, φ e → ψ e) : Raises ψ x :=
  Triple.catch hx fun e _ => h e

theorem pure (a : α) : Raises φ (pure a : Action σ α) := Triple.pure fun _ _ => trivial

theorem modify (f : σ → σ) : Raises φ (modify f : Action σ Unit) := Triple.modify fun _ _ => trivial

theorem ofExcept {r : Except Error α} (h : ∀ e, r = .error e → φ e) :
    Raises φ (ofExcept r : Action σ α) :=
  Triple.ofExcept (fun _ _ _ _ => trivial) fun e he _ _ => h e he

/-- Errors come from either action. -/
theorem bind {x : Action σ α} {f : α → Action σ β} (hx : Raises φ x) (hf : ∀ a, Raises φ (f a)) :
    Raises φ (x >>= f) :=
  Triple.bind hx hf

theorem forM {l : List β} {f : β → Action σ Unit} (hf : ∀ b, Raises φ (f b)) :
    Raises φ (l.forM f) :=
  Triple.forM (I := fun _ _ => True) fun _ b _ _ => hf b

theorem within {step : String} {x : Action σ α} (hx : Raises (fun e => φ (.context step e)) x) :
    Raises φ (within step x) :=
  Triple.within hx

/-- A context is put around every error. -/
theorem context (step : String) (x : Action σ α) :
    Raises (fun e => ∃ source, e = .context step source) (Action.within step x) :=
  within fun s _ => by
    cases x s with
    | ok a t => trivial
    | error e t => exact ⟨e, rfl⟩

/-- An action on a part of the state has the errors that it has on that part. -/
theorem on {part : σ → τ} {replace : τ → σ → σ} {x : Action τ α} (hx : Raises φ x) :
    Raises φ (on part replace x) := by
  intro s _
  have hrun := hx (part s) trivial
  unfold Action.on
  cases h : x (part s) with
  | ok a t => trivial
  | error e t =>
    rw [h] at hrun
    exact hrun

end Raises

end HostNet.Action
