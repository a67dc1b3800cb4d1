/-
What a call on projects has done when it has succeeded.

A project that was created was set up on the host in a subnet that was free, and the host is saved
over what was saved before.  A deletion takes the bridge and the rule that its project names, and
gives back the subnet that it names.  Nothing is asked of the site, and nothing is said of calls
that fail.
-/

import HostNet.Proofs.ProjectCalls

namespace HostNet

open HostNet.Action

variable {α : Type}

/-! ## Steps that succeed -/

/-- An operation succeeds as its steps do. -/
theorem Site.triple_withRecovery_ok {P : Site → Prop} {Q : α → Site → Prop} {t : Tracker}
    {steps : Action Tracked α}
    (h : Triple (fun p => P p.site ∧ p.tracker = t) steps (fun a p => Q a p.site) fun _ _ => True) :
    Triple P (withRecovery t steps) (fun r => Q r.1) fun _ _ => True := by
  intro s hs
  have hrun := h ⟨s, t⟩ ⟨hs, rfl⟩
  unfold withRecovery
  cases hx : steps ⟨s, t⟩ with
  | ok a p =>
    rw [hx] at hrun
    exact hrun
  | error e p =>
    dsimp only
    -- Whatever is made of the error, it is thrown.
    simp only [bind, EStateM.bind]
    cases recover p.tracker e p.site <;> trivial

/-- Steps that begin on `b` and leave the pool alone. -/
theorem Underway.withRecovery_ok {b : StoredMachine} {x : SubnetPool} {t : Tracker}
    (ht : t.mutated = false) {steps : Action Tracked α} {Q : α → StoredMachine → Prop}
    (hdone : Triple (Underway b (fun g => g = b.machine.host.state) false) steps
      (fun a p => Q a p.site.stored) fun _ _ => True)
    (hpool : Maintains (fun p : Tracked => p.site.pool = x) steps fun _ => True) :
    Triple (fun s => b.After [] s.stored ∧ s.pool = x) (Site.withRecovery t steps)
      (fun r s => Q r.1 s.stored ∧ s.pool = x) fun _ _ => True := by
  refine Site.triple_withRecovery_ok (Q := fun a s => Q a s.stored ∧ s.pool = x) ?_
  -- The steps begin with no calls made.
  have hbegin : Triple (fun p : Tracked => (b.After [] p.site.stored ∧ p.site.pool = x) ∧
      p.tracker = t) steps (fun a p => Q a p.site.stored) fun _ _ => True :=
    hdone.pre fun p hp => ⟨[], hp.1.1, rfl, by rw [hp.2, ht]; rfl, nofun⟩
  have hboth := hbegin.both (Triple.pre hpool fun p hp => hp.1.2)
  exact hboth.weaken (fun _ hp => hp) (fun _ _ hp => ⟨hp.1, hp.2.2⟩) fun _ _ _ => trivial

/-! ## The calls -/

/-- From `b` to `m` the project `p` was set up, and what `b` had saved was kept as the backup. -/
structure StoredMachine.Adds (b : StoredMachine) (uplink : String) (p : Project)
    (m : StoredMachine) : Prop where
  bridge : p.bridge = b.machine.host.naming.bridgeName p.name
  free : b.machine.host.state.find? p.bridge = none
  apart : uplink ≠ p.bridge
  state : m.machine.host.state = b.machine.host.state.withProject p uplink
  attached : (b.machine.host.state.find? uplink).isSome
  naming : m.machine.host.naming = b.machine.host.naming
  saved : m.Saved b.store.scope
  backup : m.store.backup = some b.store.saved

/-- From `b` to `m` the project `p` was taken down, and what `b` had saved was kept as the
backup. -/
structure StoredMachine.Removes (b : StoredMachine) (p : Project) (m : StoredMachine) : Prop where
  state : m.machine.host.state = b.machine.host.state.withoutProject p
  naming : m.machine.host.naming = b.machine.host.naming
  saved : m.Saved b.store.scope
  backup : m.store.backup = some b.store.saved

namespace ProjectManager

variable {s t : Site} {p : Project}

theorem setUp_adds (pm : ProjectManager) (b : StoredMachine) (name : String) (subnet : Ipv4Net) :
    Triple (Underway b (fun g => g = b.machine.host.state) false) (pm.setUp name subnet)
      (fun p t => p.name = name ∧ p.subnet = subnet ∧ b.Adds pm.uplink p t.site.stored)
      fun _ _ => True := by
  refine (Underway.ends_saved (.setUp pm name subnet nofun)
    ((LinkGuard.vacuous b.store.scope).setUp (Store.saved_save _ _) pm name subnet)).post ?_
  rintro p t ⟨hholds, hsaved, hbackup⟩
  obtain ⟨rfl, hstate, hfree, hapart, huplink⟩ := hholds.host.state
  exact ⟨rfl, rfl, rfl, hfree, hapart, hstate, huplink, hholds.host.naming_eq, hsaved, hbackup⟩

theorem takeDown_removes (b : StoredMachine) (p : Project) :
    Triple (Underway b (fun g => g = b.machine.host.state) false) (takeDown p)
      (fun _ t => b.Removes p t.site.stored) fun _ _ => True := by
  refine (Underway.ends_saved (.takeDown p nofun)
    ((LinkGuard.vacuous b.store.scope).takeDown (Store.saved_save _ _) (p := p) trivial)).post ?_
  rintro u t ⟨hholds, hsaved, hbackup⟩
  exact ⟨hholds.host.state, hholds.host.naming_eq, hsaved, hbackup⟩

/-- A project that was created has a subnet that the pool gave, and was set up in it. -/
theorem adds_of_create {pm : ProjectManager} {name : String} {subnet : Option Ipv4Net}
    (h : pm.create name subnet s = .ok p t) :
    p.name = name ∧ s.stored.Adds pm.uplink p t.stored ∧
      s.pool.take subnet = .ok (p.subnet, t.pool) := by
  refine (createProject_leads (b := s.stored) (x := s.pool)
    (Q := fun p m x => p.name = name ∧ s.stored.Adds pm.uplink p m ∧
      s.pool.take subnet = .ok (p.subnet, x)) (E := fun _ _ _ => True) pm name subnet
    (fun _ _ _ => trivial) ?_).of_ok ⟨.refl _, rfl⟩ h
  intro bridge taken pool _ htake
  refine (Underway.withRecovery_ok (t := .start "create_project" bridge .absent)
    (Q := fun p m => p.name = name ∧ p.subnet = taken ∧ s.stored.Adds pm.uplink p m) rfl
    (setUp_adds pm s.stored name taken) (Tracked.pool_setUp pm name taken)).post ?_
  rintro r u ⟨⟨hname, rfl, hadds⟩, rfl⟩
  exact ⟨hname, hadds, htake⟩

/-- A project that was deleted was taken down, and its subnet was given back. -/
theorem removes_of_delete {pm : ProjectManager} (h : pm.delete p s = .ok () t) :
    s.stored.Removes p t.stored ∧ t.pool = s.pool.release p.subnet := by
  refine (deleteProject_leads (b := s.stored) (x := s.pool)
    (Q := fun m x => s.stored.Removes p m ∧ x = s.pool.release p.subnet)
    (E := fun _ _ _ => True) pm p (fun _ _ _ => trivial) ?_).of_ok ⟨.refl _, rfl⟩ h
  refine (Underway.withRecovery_ok (t := .start "delete_project" p.bridge .present)
    (Q := fun _ m => s.stored.Removes p m) rfl
    (takeDown_removes s.stored p) (Tracked.pool_takeDown p)).post ?_
  rintro r u ⟨hremoves, hpool⟩
  exact ⟨hremoves, congrArg (·.release p.subnet) hpool⟩

end ProjectManager

end HostNet
