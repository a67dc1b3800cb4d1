/-
How an operation ends whose step has failed.

The recovery itself never fails.  It leaves the error and the store as they are if the tracker knows
of no change; otherwise it resets the store, and the error says whether that has succeeded.
`Recovered` lists the three ends.
-/

import HostNet.Proofs.StoreSteps

namespace HostNet

open HostNet.Action

variable {σ α : Type}

/-! ## Errors of primitives -/

/-- The error is no context, so what it says is its cause. -/
def Error.Bare (e : Error) : Prop := ∀ step source, e ≠ .context step source

namespace Host

/-- A call fails with an armed failure, or with the error of its effect. -/
theorem raises_perform {φ : Error → Prop} (c : Call) (harmed : φ (injected c.op))
    (heffect : ∀ naming s e, c.effect naming s = .error e → φ e) : Raises φ (perform c) := by
  intro h _
  rcases perform_cases c h with ⟨s, armed, -, hrun⟩ | ⟨e, armed, he, hrun⟩
  · rw [hrun]
    trivial
  · rw [hrun]
    rcases he with rfl | he
    · exact harmed
    · exact heffect _ _ e he

/-- Before a primitive, no other error comes up than the one that is armed. -/
theorem raises_meet {φ : Error → Prop} {op : HostOp} (h : φ (injected op)) :
    Raises φ (meet op) := by
  intro g _
  rcases meet_cases op g with ⟨armed, hrun⟩ | ⟨armed, hrun⟩
  · rw [hrun]
    trivial
  · rw [hrun]
    exact h

theorem raises_list {φ : Error → Prop} (h : φ (injected .readLinks)) : Raises φ list :=
  (raises_meet h).bind fun _ => .bind (Triple.get fun _ _ => trivial) fun _ => .pure _

end Host

/-- An illegal name is reported without a context. -/
theorem LinkName.bare_ofString {text : String} {e : Error} (h : ofString text = .error e) :
    e.Bare := by
  unfold ofString at h
  split at h
  · cases h
  · next d _ =>
    cases h
    cases d <;> nofun

namespace HostState

theorem bare_link {s : HostState} {name : String} {e : Error} (h : s.link name = .error e) :
    e.Bare := by
  unfold link at h
  split at h
  · cases h
  · cases h
    nofun

/-- A link that cannot be created is reported without a context. -/
theorem bare_create {s : HostState} {name : String} {build : String → Link} {e : Error}
    (h : s.create name build = .error e) : e.Bare := by
  unfold create at h
  cases hname : LinkName.ofString name with
  | error e' =>
    rw [hname] at h
    cases h
    exact LinkName.bare_ofString hname
  | ok legal =>
    rw [hname] at h
    by_cases hfound : (s.find? legal.text).isSome = true
    · simp only [bind, Except.bind, hfound, if_true] at h
      cases h
      nofun
    · simp only [bind, Except.bind, hfound] at h
      cases h

end HostState

namespace Host

theorem bare_injected (op : HostOp) : (injected op).Bare := nofun

theorem bare_get (name : String) : Raises Error.Bare (get name) :=
  (raises_meet (bare_injected _)).bind fun _ => .bind (Triple.get fun _ _ => trivial) fun _ =>
    .ofExcept fun _ he => HostState.bare_link he

theorem bare_find (name : String) : Raises Error.Bare (find name) :=
  Triple.ifFound ((bare_get name).catch fun e _ he => by
    split
    · trivial
    · exact he)

/-- The first step of a new bridge is not named, so its error has no context. -/
theorem bare_createBridge (name : String) : Raises Error.Bare (createBridge name) := by
  have hperform : Raises Error.Bare (perform (.createBridge name)) := by
    refine raises_perform _ (bare_injected _) fun naming s e he => ?_
    rw [Call.effect] at he
    exact HostState.bare_create he
  exact Raises.bind (Triple.get fun _ _ => trivial) fun _ => hperform.bind fun _ => .pure _

/-- A link that cannot be set up is reported without a context. -/
theorem bare_setLinkUp (name : String) : Raises Error.Bare (perform (.setLinkUp name)) := by
  refine raises_perform _ (bare_injected _) fun naming s e he => ?_
  cases hl : s.link name with
  | ok l =>
    simp only [Call.effect, hl] at he
    cases he
  | error e' =>
    simp only [Call.effect, hl] at he
    cases he
    exact HostState.bare_link hl

end Host

/-- A subnet that cannot be had is reported without a context. -/
theorem SubnetPool.bare_take {x : SubnetPool} {subnet : Option Ipv4Net} {e : Error}
    (h : x.take subnet = .error e) : e.Bare := by
  cases subnet with
  | some m =>
    simp only [take, reserve] at h
    split at h
    · cases h
      nofun
    · split at h
      · cases h
        nofun
      · cases h
  | none =>
    simp only [take, allocate] at h
    split at h
    · cases h
      nofun
    · cases h

/-- Who does not get the lock has waited in vain. -/
theorem Site.triple_exclusively_timedOut {P : Site → Prop} {Q : α → Site → Prop}
    {E : Error → Site → Prop} {operation : String} {x : Action Site α} (h : Triple P x Q E)
    (hbusy : ∀ s, P s → E (s.lock.timedOut operation) s) :
    Triple P (exclusively operation x) Q E := by
  intro s hs
  cases hholder : s.lock.holder with
  | none =>
    rw [exclusively_of_free hholder]
    exact h s hs
  | some holder =>
    have hbusy := hbusy s hs
    unfold exclusively HostLock.acquire
    rw [get_bind]
    simp only [hholder]
    exact hbusy

/-! ## Recoveries -/

/-- A change of phase leaves the rest of the tracker. -/
theorem Tracker.advance_kept (t : Tracker) (next : Phase) :
    (t.advance next).1.mutated = t.mutated ∧ (t.advance next).1.link = t.link := by
  unfold advance
  split <;> exact ⟨rfl, rfl⟩

/-- The context of an error after which the host was reset. -/
def resetContext (link : String) : String := link ++ " failed, host reset to saved configuration"

namespace Site

variable {m m' : StoredMachine} {t t' : Tracker} {e e' : Error} {s s' : Site}

/-- What the recovery from `e` makes of the error and of the store. -/
inductive Recovered (t : Tracker) (e : Error) (m : StoredMachine) : Error → StoredMachine → Prop
  | unchanged : t.mutated = false → Recovered t e m e m
  | reset {m' : StoredMachine} : t.mutated = true → Store.reset m = .ok () m' →
      Recovered t e m (.context (resetContext t.link) e) m'
  | diverged {r : Error} {m' : StoredMachine} : t.mutated = true → Store.reset m = .error r m' →
      Recovered t e m (.fatal t.link e r) m'

/-- A change of phase keeps the store, and of the tracker whatever is not the phase. -/
theorem triple_advance_kept {F : Error → Site → Prop} (t : Tracker) (next : Phase) :
    Triple (fun s => s.stored = m) (advance t next)
      (fun t' s => (t'.mutated = t.mutated ∧ t'.link = t.link) ∧ s.stored = m) F :=
  fun _ hs => ⟨t.advance_kept next, hs⟩

/-- A recovery ends in one of three ways: nothing had changed, the host was reset, or the reset has
failed, too. -/
theorem recover_recovered (t : Tracker) (e : Error) :
    Triple (fun s => s.stored = m) (recover t e) (fun e' s => Recovered t e m e' s.stored)
      fun _ _ => False := by
  unfold recover
  refine (triple_advance_kept t .failed).bind fun t₁ => Triple.of_pure fun ht₁ => ?_
  rw [ht₁.1]
  cases hmutated : t.mutated with
  | false =>
    refine Triple.pure fun s hs => ?_
    rw [hs]
    exact .unchanged hmutated
  | true =>
    rw [Bool.not_true, if_neg Bool.false_ne_true]
    refine (triple_advance_kept t₁ .resetting).bind fun t₂ => Triple.of_pure fun ht₂ => ?_
    have hlink : t₂.link = t.link := ht₂.2.trans ht₁.2
    rw [hlink]
    -- The attempt tells what the reset comes to.
    have hreset : Triple (fun s => s.stored = m) (attempt (onStore Store.reset))
        (fun r s => match r with
          | .ok _ => Store.reset m = .ok () s.stored
          | .error r => Store.reset m = .error r s.stored) fun _ _ => False := by
      refine Triple.attempt fun s hs => ?_
      unfold onStore Action.on
      rw [← hs]
      cases hrun : Store.reset s.stored with
      | ok u m' => rfl
      | error r m' => rfl
    refine hreset.bind fun r => ?_
    cases r with
    | ok u =>
      refine (triple_discard_advance (P := fun m' => Store.reset m = .ok () m') t₂ .reset).bind
        fun _ => Triple.pure fun s hs => ?_
      exact .reset hmutated hs
    | error r =>
      refine (triple_discard_advance (P := fun m' => Store.reset m = .error r m') t₂
        .resetFailed).bind fun _ => ?_
      exact (triple_publish (P := fun m' => Store.reset m = .error r m') _).bind fun _ =>
        Triple.pure fun s hs => .diverged hmutated hs

/-- Where an operation fails under recovery, one of its steps has failed. -/
theorem recovered_of_withRecovery {steps : Action Tracked α}
    (h : withRecovery t steps s = .error e' s') :
    ∃ e p, steps ⟨s, t⟩ = .error e p ∧ Recovered p.tracker e p.site.stored e' s'.stored := by
  unfold withRecovery at h
  cases hsteps : steps ⟨s, t⟩ with
  | ok a p =>
    rw [hsteps] at h
    cases h
  | error e p =>
    rw [hsteps] at h
    refine ⟨e, p, rfl, ?_⟩
    have hthrow : Triple (fun u => u.stored = p.site.stored)
        (do throw (← recover p.tracker e) : Action Site (α × Tracker)) (fun _ _ => False)
        fun e' u => Recovered p.tracker e p.site.stored e' u.stored :=
      ((recover_recovered p.tracker e).catch fun _ _ he => he.elim).bind fun e' =>
        Triple.throw fun _ hu => hu
    exact hthrow.of_error rfl h

/-- Where one has failed after a change and the reset succeeds, so the operation ends. -/
theorem exists_withRecovery_reset {steps : Action Tracked α} {p : Tracked}
    (hsteps : steps ⟨s, t⟩ = .error e p) (hmutated : p.tracker.mutated = true)
    (hreset : Store.reset p.site.stored = .ok () m) :
    ∃ u, withRecovery t steps s = .error (.context (resetContext p.tracker.link) e) u ∧
      u.stored = m := by
  obtain ⟨e', u, hrecover, hrecovered⟩ := (recover_recovered p.tracker e).total (s := p.site) rfl
  have hrun : withRecovery t steps s = .error e' u := by
    unfold withRecovery
    rw [hsteps]
    dsimp only
    rw [bind_of_ok hrecover]
    rfl
  generalize hm : u.stored = n at hrecovered
  cases hrecovered with
  | unchanged hunmutated => exact absurd (hmutated.symm.trans hunmutated) (by decide)
  | reset _ hreset' =>
    rw [hreset] at hreset'
    exact ⟨u, hrun, hm.trans (EStateM.Result.ok.inj hreset').2.symm⟩
  | diverged _ hreset' =>
    rw [hreset] at hreset'
    cases hreset'

end Site

end HostNet
