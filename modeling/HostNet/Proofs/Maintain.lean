/-
What an action maintains.

`Maintains P x φ` speaks of a property `P` of states that every run of `x` keeps, whether it
succeeds or fails, and of a fact `φ` about the answers.  The facts do not mention the state, so they
stay known for the rest of a program, and the rules need no other invariant than `P`.
-/

import HostNet.Proofs.Triple

namespace HostNet.Action

variable {σ α β : Type} {P : σ → Prop} {φ ψ : α → Prop}

/-- Every run of `x` from a state with `P` ends in one, and its answer, if it gives one, has `φ`. -/
def Maintains (P : σ → Prop) (x : Action σ α) (φ : α → Prop) : Prop :=
  Triple P x (fun a s => φ a ∧ P s) fun _ => P

namespace Maintains

theorem outcome {x : Action σ α} (h : Maintains P x φ) {s : σ} (hs : P s) : P (x.outcome s).2 :=
  Triple.outcome (Triple.post h fun _ _ ht => ht.2) hs

theorem imp {x : Action σ α} (h : Maintains P x φ) (hφ : ∀ a, φ a → ψ a) : Maintains P x ψ :=
  Triple.post h fun _ _ hs => ⟨hφ _ hs.1, hs.2⟩

theorem forget {x : Action σ α} (h : Maintains P x φ) : Maintains P x fun _ => True :=
  h.imp fun _ _ => trivial

/-- What an action maintains by itself it maintains together. -/
theorem and {R : σ → Prop} {x : Action σ α} (hp : Maintains P x φ) (hr : Maintains R x ψ) :
    Maintains (fun s => P s ∧ R s) x fun a => φ a ∧ ψ a :=
  ((Triple.pre hp fun _ hs => hs.1).both (Triple.pre hr fun _ hs => hs.2)).post
    fun _ _ hs => ⟨⟨hs.1.1, hs.2.1⟩, hs.1.2, hs.2.2⟩

theorem pure {a : α} (ha : φ a) : Maintains P (pure a : Action σ α) φ :=
  Triple.pure fun _ hs => ⟨ha, hs⟩

theorem throw (e : Error) : Maintains P (throw e : Action σ α) φ := Triple.throw fun _ hs => hs

theorem throw_bind (e : Error) (f : α → Action σ β) {χ : β → Prop} :
    Maintains P ((MonadExcept.throw e : Action σ α) >>= f) χ :=
  Triple.throw_bind fun _ hs => hs

theorem modify {f : σ → σ} (h : ∀ s, P s → P (f s)) :
    Maintains P (modify f : Action σ Unit) fun _ => True :=
  Triple.modify fun s hs => ⟨trivial, h s hs⟩

theorem get {χ : σ → Prop} (h : ∀ s, P s → χ s) : Maintains P (get : Action σ σ) χ :=
  Triple.get fun s hs => ⟨h s hs, hs⟩

theorem ofExcept {r : Except Error α} (h : ∀ a, r = .ok a → φ a) : Maintains P (ofExcept r) φ :=
  Triple.ofExcept (fun a ha _ hs => ⟨h a ha, hs⟩) fun _ _ _ hs => hs

theorem except (r : Except Error α) : Maintains P (Action.ofExcept r) fun _ => True :=
  ofExcept fun _ _ => trivial

theorem bind {x : Action σ α} {f : α → Action σ β} {χ : β → Prop} (hx : Maintains P x φ)
    (hf : ∀ a, φ a → Maintains P (f a) χ) : Maintains P (x >>= f) χ :=
  Triple.bind hx fun a => Triple.of_pure (hf a)

/-- What is maintained so far is where the rest of a program starts. -/
theorem triple_bind {x : Action σ α} {f : α → Action σ β} {Q : β → σ → Prop}
    (hx : Maintains P x φ) (hf : ∀ a, φ a → Triple P (f a) Q fun _ => P) :
    Triple P (x >>= f) Q fun _ => P :=
  Triple.bind hx fun a => Triple.of_pure (hf a)

theorem discard {x : Action σ α} (h : Maintains P x φ) :
    Maintains P (discard x : Action σ Unit) fun _ => True :=
  h.bind fun _ _ => pure trivial

theorem ite {c : Prop} [Decidable c] {x y : Action σ α} (hx : c → Maintains P x φ)
    (hy : ¬ c → Maintains P y φ) : Maintains P (if c then x else y) φ := by
  split
  · next h => exact hx h
  · next h => exact hy h

/-- A loop maintains what each of its rounds does, and what each round finds out is known of all
items at the end. -/
theorem forM {l : List β} {f : β → Action σ Unit} {χ : β → Prop}
    (h : ∀ b ∈ l, Maintains P (f b) fun _ => χ b) :
    Maintains P (l.forM f) fun _ => ∀ b ∈ l, χ b := by
  induction l with
  | nil => exact pure nofun
  | cons b l ih =>
    refine (h b (List.mem_cons_self ..)).bind fun _ hb => ?_
    refine (ih fun c hc => h c (List.mem_cons_of_mem _ hc)).imp fun _ hl c hc => ?_
    rcases List.mem_cons.mp hc with rfl | hc
    · exact hb
    · exact hl c hc

/-- A loop that finds nothing out. -/
theorem each {l : List β} {f : β → Action σ Unit}
    (h : ∀ b ∈ l, Maintains P (f b) fun _ => True) : Maintains P (l.forM f) fun _ => True :=
  (forM h).forget

theorem within {step : String} {x : Action σ α} (h : Maintains P x φ) :
    Maintains P (within step x) φ :=
  Triple.within h

theorem attempt {x : Action σ α} (h : Maintains P x φ) :
    Maintains P (attempt x) fun _ => True :=
  Triple.attempt (h.weaken (fun _ hs => hs) (fun _ _ hs => ⟨trivial, hs.2⟩)
    fun _ _ hs => ⟨trivial, hs⟩)

end Maintains

end HostNet.Action
