/-
Events and errors of an operation tell the truth.

An operation that is refused has published nothing.  One whose steps fail reports the failure, and
the reset if some of its calls had succeeded; its error is that of the step, put into a context if
the reset went through, and a fatal one that holds both errors if it did not.  The compensation of a
step comes to one of three ends, each of which has its lemma.
-/

import HostNet.Proofs.Checks

namespace HostNet

open HostNet.Action

/-! ## Compensation -/

/-- The event that tells of a change of phase. -/
def Tracker.transition (t : Tracker) (before after : Phase) : Event :=
  .transition t.operation t.link before after

theorem Site.told_cons_cons (s : Site) (e f : Event) (es : List Event) :
    s.told (e :: f :: es) = (s.told [e]).told (f :: es) := by
  unfold told
  simp

/-- What compensating a failure publishes and answers, where the operation may fail. -/
theorem Site.recover_eq {t : Tracker} (ht : t.phase.mayBecome .failed = true) (e : Error)
    (s : Site) :
    recover t e s =
      if t.mutated then
        match Store.reset s.stored with
        | .ok () m => .ok (.context (t.link ++ " failed, host reset to saved configuration") e)
            (told { s with stored := m } [t.transition t.phase .failed,
              t.transition .failed .resetting, t.transition .resetting .reset])
        | .error resetError m =>
          .ok (.fatal t.link e resetError)
            (told { s with stored := m } [t.transition t.phase .failed,
              t.transition .failed .resetting, t.transition .resetting .resetFailed,
              t.divergence (.fatal t.link e resetError)])
      else .ok e (s.told [t.transition t.phase .failed]) := by
  unfold recover
  simp only [bind, EStateM.bind, advance_eq ht]
  cases hmutated : t.mutated with
  | false => rfl
  | true =>
    -- The events are published one by one, before the reset and after it.
    simp only [told_cons_cons, Bool.not_true, Bool.false_eq_true, if_false, if_true]
    rw [EStateM.bind, advance_eq rfl]
    simp only [EStateM.bind, Action.attempt, onStore, Action.on, told]
    cases Store.reset s.stored with
    | ok u m => rfl
    | error resetError m => rfl

theorem Site.exists_recover {t : Tracker} (ht : t.phase.mayBecome .failed = true) (e : Error)
    (s : Site) : ∃ e' s', recover t e s = .ok e' s' := by
  rw [recover_eq ht]
  split
  · split
    · exact ⟨_, _, rfl⟩
    · exact ⟨_, _, rfl⟩
  · exact ⟨_, _, rfl⟩

/-! ## The report of an operation -/

namespace MildResult

variable {α : Type} {r : Except Error α}

theorem not_fatal (h : MildResult r) : ¬ ∃ e, r = .error e ∧ e.isFatal = true := by
  rintro ⟨e, hr, he⟩
  rw [h e hr] at he
  cases he

/-- Where the error is not fatal, no failed compensation is told of. -/
theorem diverged_iff (h : MildResult r) {es : List Event}
    (hcount : es.countP Event.isDivergence = 0) :
    es.countP Event.isDivergence = 1 ↔ ∃ e, r = .error e ∧ e.isFatal = true :=
  iff_of_false (by rw [hcount]; exact Nat.zero_ne_one) h.not_fatal

end MildResult

namespace Operation

/-- After the checks of an operation on `s`, a step fails with `e`; this is the site then, and the
tracker. -/
def StepFails (m : Manager) (pm : ProjectManager) (op : Operation) (s : Site) (e : Error)
    (p : Tracked) : Prop :=
  ∃ u s₁, op.begun m pm s = .ok u s₁ ∧ u.steps ⟨s₁, u.tracker⟩ = .error e p

/-- What the events `es` of an operation on `s` tell of its outcome `r` and of the site `s'` that it
leaves. -/
structure Told (m : Manager) (pm : ProjectManager) (op : Operation) (s : Site)
    (r : Except Error Unit) (s' : Site) (es : List Event) : Prop where
  /-- The changes of phase form a chain, and each of them is allowed. -/
  walk : ∃ p q, Phase.Walk p (Event.moves es) q
  /-- No change of phase was ignored. -/
  heard : s'.ignored = s.ignored
  /-- A success ends in the phase that the operation is to come to. -/
  done : r = .ok () → Event.lastPhase? es = some op.goal
  /-- The error is fatal exactly if one failed compensation was told of. -/
  diverged : es.countP Event.isDivergence = 1 ↔ ∃ e, r = .error e ∧ e.isFatal = true
  /-- A fatal error holds that of the failing step and that of the reset, and its text is told right
  after the change from resetting to the failed reset. -/
  fatal : ∀ e, r = .error e → e.isFatal = true → ∃ cause p compensation t before,
    op.StepFails m pm s cause p ∧ Store.reset p.site.stored = .error compensation t ∧
      e = .fatal p.tracker.link cause compensation ∧
      es = before ++ [p.tracker.transition .resetting .resetFailed,
        .fatalDivergence p.tracker.operation p.tracker.link e.message]
  /-- If the store was reset and that succeeded, the error is that of the failing step in one
  context. -/
  reset : s.stored.resets < s'.stored.resets → ∃ cause p, op.StepFails m pm s cause p ∧
    ∀ t, Store.reset p.site.stored = .ok () t → ∃ e step, r = .error e ∧ e = .context step cause ∧
      e.root = cause.root ∧ e.kind = cause.kind
  /-- If the failure is the last that is told of, no call of the operation has succeeded, and links
  and rules are as they were. -/
  failed : Event.lastPhase? es = some .failed → s'.host.state = s.host.state ∧
    ∃ own, s'.host.journal = s.host.journal ++ own ∧ s.host.anySucceeds own = false

variable {m : Manager} {pm : ProjectManager} {op : Operation} {s : Site} {es : List Event}

theorem goal_ne_start (op : Operation) : op.start ≠ op.goal := by cases op <;> nofun

theorem goal_ne_failed (op : Operation) : op.goal ≠ .failed := by cases op <;> nofun

theorem worked_ne_failed (op : Operation) : op.worked ≠ .failed := by cases op <;> nofun

theorem worked_ne_start (op : Operation) : op.start ≠ op.worked := by cases op <;> nofun

/-- What was heard of an operation that did not fail in its steps. -/
theorem told_of_heard {r : Except Error Unit} {s' : Site} {q : Phase}
    (hes : s'.events = s.events ++ es) (hheard : s.Heard op.start q s')
    (hresets : s'.stored.resets = s.stored.resets) (hne : op.start ≠ q) (hq : q ≠ .failed)
    (hdone : r = .ok () → q = op.goal) (hmild : MildResult r) : op.Told m pm s r s' es := by
  obtain ⟨⟨es', hes', hwalk, hcount⟩, hignored⟩ := hheard
  obtain rfl : es = es' := List.append_cancel_left (hes.symm.trans hes')
  have hlast : Event.lastPhase? es = some q := by
    rcases hwalk.eq_nil_or_getLast? with ⟨-, heq⟩ | hlast
    · exact absurd heq hne
    · exact hlast
  exact {
    walk := ⟨_, _, hwalk⟩
    heard := hignored
    done := fun hr => hdone hr ▸ hlast
    diverged := hmild.diverged_iff hcount
    fatal := fun e hr he => (hmild.not_fatal ⟨e, hr, he⟩).elim
    reset := fun hlt => absurd hlt (by omega)
    failed := fun hfailed => absurd (Option.some.inj (hlast.symm.trans hfailed)) hq }

/-- An operation that is refused has done nothing. -/
theorem told_of_refused {e : Error} {s' : Site} (hmild : e.isFatal = false) (h : s.Checked s') :
    op.Told m pm s (.error e) s' [] where
  walk := ⟨op.start, op.start, rfl⟩
  heard := h.ignored
  done := nofun
  diverged := (MildResult.error hmild).diverged_iff rfl
  fatal e' hr he := ((MildResult.error hmild).not_fatal ⟨e', hr, he⟩).elim
  reset hlt := by
    rw [h.stored.resets] at hlt
    exact absurd hlt (lt_irrefl _)
  failed := nofun

/-! ### The three ends of a compensation -/

/-- A step of an operation on `s` has failed with `cause` and left `p`, in the phase `q`.  The steps
have told `es` until then. -/
structure Broke (m : Manager) (pm : ProjectManager) (op : Operation) (s : Site) (cause : Error)
    (p : Tracked) (q : Phase) (es : List Event) : Prop where
  fails : op.StepFails m pm s cause p
  mild : cause.isFatal = false
  phase : p.tracker.phase = q
  mayFail : q.mayBecome .failed = true
  walk : Phase.Walk op.start (Event.moves es) q
  calm : es.countP Event.isDivergence = 0
  heard : p.site.ignored = s.ignored

variable {cause : Error} {p : Tracked} {q : Phase}

/-- After a reset the walk has gone on by three phases, the last of which tells how that went. -/
theorem Broke.walk_reset (h : op.Broke m pm s cause p q es) {r : Phase}
    (hr : Phase.resetting.mayBecome r = true) :
    Phase.Walk op.start
      (Event.moves es ++ [(q, .failed), (.failed, .resetting), (.resetting, r)]) r := by
  have hwalked := ((h.walk.snoc h.mayFail).snoc (r := .resetting) rfl).snoc hr
  rw [List.append_assoc, List.append_assoc] at hwalked
  exact hwalked

/-- No call has succeeded, so nothing is undone, and the failure is the last that is told of. -/
theorem Broke.told_of_unchanged (h : op.Broke m pm s cause p q es) {own : List Call}
    (hafter : s.stored.After own p.site.stored) (hnone : s.host.anySucceeds own = false)
    {s' : Site} (hstored : s'.stored = p.site.stored) (hignored : s'.ignored = p.site.ignored) :
    op.Told m pm s (.error cause) s' (es ++ [p.tracker.transition q .failed]) where
  walk := ⟨op.start, .failed, by rw [Event.moves_append]; exact h.walk.snoc h.mayFail⟩
  heard := hignored.trans h.heard
  done := nofun
  diverged := by
    refine (MildResult.error h.mild).diverged_iff ?_
    rw [List.countP_append, h.calm]
    rfl
  fatal e hr he := ((MildResult.error h.mild).not_fatal ⟨e, hr, he⟩).elim
  reset hlt := by
    rw [hstored, hafter.resets] at hlt
    exact absurd hlt (lt_irrefl _)
  failed _ := by
    unfold Site.host
    rw [hstored]
    refine ⟨?_, own, hafter.journal, hnone⟩
    rw [hafter.host.state]
    exact Host.state_replay_of_not_anySucceeds hnone

/-- The reset has gone through, and the error is that of the step in one context. -/
theorem Broke.told_of_reset (h : op.Broke m pm s cause p q es) (step : String) {s' : Site}
    (hignored : s'.ignored = p.site.ignored) :
    op.Told m pm s (.error (.context step cause)) s'
      (es ++ [p.tracker.transition q .failed, p.tracker.transition .failed .resetting,
        p.tracker.transition .resetting .reset]) := by
  have hmild : MildResult (.error (.context step cause) : Except Error Unit) :=
    MildResult.error h.mild
  have hlast := Event.lastPhase?_append (l := es) (q := .reset)
    (m := [p.tracker.transition q .failed, p.tracker.transition .failed .resetting,
      p.tracker.transition .resetting .reset]) rfl
  exact {
    walk := ⟨op.start, .reset, by rw [Event.moves_append]; exact h.walk_reset rfl⟩
    heard := hignored.trans h.heard
    done := nofun
    diverged := by
      refine hmild.diverged_iff ?_
      rw [List.countP_append, h.calm]
      rfl
    fatal := fun e hr he => (hmild.not_fatal ⟨e, hr, he⟩).elim
    reset := fun _ => ⟨cause, p, h.fails, fun _ _ => ⟨_, _, rfl, rfl, rfl, rfl⟩⟩
    failed := fun hfailed => absurd (Option.some.inj (hlast.symm.trans hfailed)) nofun }

/-- The reset has failed as well, and the error holds both causes. -/
theorem Broke.told_of_diverged (h : op.Broke m pm s cause p q es) {compensation : Error}
    {t : StoredMachine} (hreset : Store.reset p.site.stored = .error compensation t) {s' : Site}
    (hignored : s'.ignored = p.site.ignored) :
    op.Told m pm s (.error (.fatal p.tracker.link cause compensation)) s'
      (es ++ [p.tracker.transition q .failed, p.tracker.transition .failed .resetting,
        p.tracker.transition .resetting .resetFailed,
        p.tracker.divergence (.fatal p.tracker.link cause compensation)]) := by
  -- The walk ends in `resetFailed`, since the divergence is no change of phase.
  have hlast := Event.lastPhase?_append (l := es) (q := .resetFailed)
    (m := [p.tracker.transition q .failed, p.tracker.transition .failed .resetting,
      p.tracker.transition .resetting .resetFailed,
      p.tracker.divergence (.fatal p.tracker.link cause compensation)]) rfl
  exact {
    walk := ⟨op.start, .resetFailed, by rw [Event.moves_append]; exact h.walk_reset rfl⟩
    heard := hignored.trans h.heard
    done := nofun
    diverged := by
      rw [List.countP_append, h.calm]
      exact ⟨fun _ => ⟨_, rfl, rfl⟩, fun _ => rfl⟩
    fatal := fun e hr _ => by
      obtain rfl := Except.error.inj hr
      exact ⟨cause, p, compensation, t,
        es ++ [p.tracker.transition q .failed, p.tracker.transition .failed .resetting],
        h.fails, hreset, rfl, by simp [Tracker.divergence]⟩
    reset := fun _ => ⟨cause, p, h.fails, fun t' ht' => by
      rw [hreset] at ht'
      cases ht'⟩
    failed := fun hfailed => absurd (Option.some.inj (hlast.symm.trans hfailed)) nofun }

/-- What a failing step tells, with its compensation. -/
theorem Broke.told (h : op.Broke m pm s cause p q es) (hes : p.site.events = s.events ++ es)
    {own : List Call} (hafter : s.stored.After own p.site.stored)
    (hmutated : p.tracker.mutated = s.host.anySucceeds own) {e : Error} {s₁ s' : Site}
    (hrecover : Site.recover p.tracker cause p.site = .ok e s₁)
    (hstored : s'.stored = s₁.stored) (hevents : s'.events = s₁.events)
    (hignored : s'.ignored = s₁.ignored) :
    ∃ es', s'.events = s.events ++ es' ∧ op.Told m pm s (.error e) s' es' := by
  -- The events are those of the steps, and those of the compensation.
  have happend {fs : List Event} (hfs : s₁.events = p.site.events ++ fs) :
      s'.events = s.events ++ (es ++ fs) := by
    rw [hevents, hfs, hes, List.append_assoc]
  rw [Site.recover_eq (by rw [h.phase]; exact h.mayFail), h.phase] at hrecover
  cases hm : p.tracker.mutated with
  | false =>
    rw [hm, if_neg Bool.false_ne_true] at hrecover
    obtain ⟨rfl, rfl⟩ := EStateM.Result.ok.inj hrecover
    exact ⟨_, happend rfl, h.told_of_unchanged hafter (hmutated ▸ hm) hstored hignored⟩
  | true =>
    rw [hm, if_pos rfl] at hrecover
    cases hreset : Store.reset p.site.stored with
    | ok u t =>
      rw [hreset] at hrecover
      obtain ⟨rfl, rfl⟩ := EStateM.Result.ok.inj hrecover
      exact ⟨_, happend rfl, h.told_of_reset _ hignored⟩
    | error compensation t =>
      rw [hreset] at hrecover
      obtain ⟨rfl, rfl⟩ := EStateM.Result.ok.inj hrecover
      exact ⟨_, happend rfl, h.told_of_diverged hreset hignored⟩

/-! ### Operations as a whole -/

/-- What an undertaking comes to: its ending after its steps, or the compensation of a failure. -/
theorem undertaking_run_eq (u : Undertaking) (s : Site) :
    u.run s = match u.steps ⟨s, u.tracker⟩ with
      | .ok name p => u.ending name p.tracker p.site
      | .error cause p => match Site.recover p.tracker cause p.site with
        | .ok e t => .error e (u.undo t)
        | .error e t => .error e (u.undo t) := by
  unfold Undertaking.run Action.afterError Site.withRecovery
  simp only [bind, EStateM.bind]
  cases u.steps ⟨s, u.tracker⟩ with
  | ok name p => rfl
  | error cause p =>
    dsimp only
    cases Site.recover p.tracker cause p.site <;> rfl

/-- The events of an operation and its error tell what has happened, whichever failures are armed
and wherever the operation fails. -/
theorem events_tell_outcome (m : Manager) (pm : ProjectManager) (op : Operation) (s : Site) :
    ∃ es, ((op.run m pm).outcome s).2.events = s.events ++ es ∧
      op.Told m pm s ((op.run m pm).outcome s).1 ((op.run m pm).outcome s).2 es := by
  have hbegun := begins m pm op s s (.refl s)
  rw [run_eq]
  unfold Action.outcome
  simp only [bind, EStateM.bind]
  cases hchecks : op.begun m pm s with
  | error e s₁ =>
    rw [hchecks] at hbegun
    obtain ⟨hmild, hchecked⟩ := hbegun
    exact ⟨[], by rw [hchecked.events, List.append_nil], told_of_refused hmild hchecked⟩
  | ok u s₁ =>
    rw [hchecks] at hbegun
    obtain ⟨hreports, hheard, hafter⟩ := hbegun
    have hsteps := hreports.steps ⟨s₁, u.tracker⟩ ⟨rfl, hheard⟩
    have hcounts := hreports.counts ⟨s₁, u.tracker⟩ ⟨[], hafter, rfl, hreports.fresh, nofun⟩
    dsimp only
    rw [undertaking_run_eq]
    cases hrun : u.steps ⟨s₁, u.tracker⟩ with
    | ok name p =>
      rw [hrun] at hsteps hcounts
      have hending := hreports.ending name p.tracker hsteps.phase p.site
        ⟨hsteps.heard, hcounts.1⟩
      dsimp only
      cases hend : u.ending name p.tracker p.site with
      | ok v s' =>
        rw [hend] at hending
        obtain ⟨hdone, hresets⟩ := hending
        obtain ⟨es, hes, -⟩ := hdone.events
        exact ⟨es, hes, told_of_heard hes hdone hresets op.goal_ne_start op.goal_ne_failed
          (fun _ => rfl) nofun⟩
      | error e s' =>
        -- The final reading has failed: what was made stays.
        rw [hend] at hending
        obtain ⟨hmild, hworked, hresets⟩ := hending
        obtain ⟨es, hes, -⟩ := hworked.events
        refine ⟨es, hes, told_of_heard hes hworked hresets op.worked_ne_start op.worked_ne_failed
          nofun fun e' hr => ?_⟩
        rw [← Except.error.inj hr]
        exact hmild
    | error cause p =>
      rw [hrun] at hsteps hcounts
      obtain ⟨hmild, q, ⟨hphase, ⟨es, hes, hwalk, hcount⟩, hignored⟩, hq⟩ := hsteps
      obtain ⟨own, hown, -, hmutated, -⟩ := hcounts
      obtain ⟨e, t, hrecover⟩ := Site.exists_recover (hphase ▸ hq) cause p.site
      obtain ⟨hstored, hevents, hundone⟩ := hreports.undo t
      have hbroke : op.Broke m pm s cause p q es :=
        ⟨⟨u, s₁, hchecks, hrun⟩, hmild, hphase, hq, hwalk, hcount, hignored⟩
      dsimp only
      rw [hrecover]
      exact hbroke.told hes hown hmutated hrecover hstored hevents hundone

end Operation

end HostNet
