/-
Calls that create and delete projects.

After a call that succeeds the host, the pool and the store have one project more or less, and after
one that fails they have the same projects as before, unless the error is fatal.  A call that fails
leaves a host that was `Stalled` in one bridge, which the reset brings back or removes.
-/

import HostNet.Proofs.Accounted
import HostNet.Proofs.Compensation
import HostNet.Proofs.ProjectHosts
import HostNet.Proofs.Request

namespace HostNet

open HostNet.Action

variable {α : Type}

/-! ## The pool -/

namespace SubnetPool

variable {x x₀ : SubnetPool} {live : List Project}

/-- A subnet that is taken was free, and is one of the pool. -/
theorem of_take {subnet : Option Ipv4Net} {n : Ipv4Net} {y : SubnetPool}
    (h : x.take subnet = .ok (n, y)) :
    n ∈ x.subnets ∧ n ∉ x.taken ∧ y = { x with taken := n :: x.taken } := by
  cases subnet with
  | some m =>
    simp only [take, reserve] at h
    split at h
    · cases h
    · next hsubnet =>
      split at h
      · cases h
      · next htaken =>
        cases h
        exact ⟨by simpa using hsubnet, by simpa using htaken, rfl⟩
  | none =>
    simp only [take, allocate] at h
    split at h
    · cases h
    · next m _ hfree =>
      cases h
      have hmem : n ∈ x.available := by
        rw [hfree]
        exact List.mem_cons_self ..
      obtain ⟨hsubnet, hn⟩ := List.mem_filter.mp hmem
      exact ⟨hsubnet, by simpa using hn, rfl⟩

theorem mem_release {n m : Ipv4Net} :
    m ∈ (x.release n).taken ↔ m ∈ x.taken ∧ m ≠ n.truncated := by
  rw [release, List.mem_filter, bne_iff_ne]

/-- Of the pool `x₀` the subnets of the live projects are taken as well, and no more. -/
structure Serves (x₀ : SubnetPool) (live : List Project) (x : SubnetPool) : Prop where
  subnets : x.subnets = x₀.subnets
  taken : ∀ n, n ∈ x.taken ↔ n ∈ x₀.taken ∨ n ∈ live.map Project.subnet
  free : ∀ p ∈ live, p.subnet ∉ x₀.taken

namespace Serves

variable {subnet : Option Ipv4Net} {n : Ipv4Net} {y : SubnetPool} {p : Project}

/-- With no project alive, the pool is as it was at the start. -/
theorem start (x₀ : SubnetPool) : x₀.Serves [] x₀ where
  subnets := rfl
  taken n := by simp
  free _ hp := absurd hp List.not_mem_nil

/-- The subnet that is taken for a new project is one of the pool, and of no other project. -/
theorem of_take (h : x₀.Serves live x) (htake : x.take subnet = .ok (n, y)) :
    n ∈ x₀.subnets ∧ n ∉ x₀.taken ∧ n ∉ live.map Project.subnet := by
  obtain ⟨hmem, hfree, -⟩ := SubnetPool.of_take htake
  rw [h.taken, not_or] at hfree
  exact ⟨h.subnets ▸ hmem, hfree⟩

/-- The subnet that a project takes was none of a live project, so each is taken once. -/
theorem withProject (h : x₀.Serves live x) (htake : x.take subnet = .ok (p.subnet, y)) :
    x₀.Serves (live ++ [p]) y := by
  obtain ⟨-, hfree, -⟩ := h.of_take htake
  obtain ⟨-, -, rfl⟩ := SubnetPool.of_take htake
  refine ⟨h.subnets, fun n => ?_, fun q hq => ?_⟩
  · rw [List.mem_cons, h.taken, List.map_append, List.mem_append, List.map_singleton,
      List.mem_singleton]
    tauto
  · rcases List.mem_append.mp hq with hq | hq
    · exact h.free q hq
    · rw [List.mem_singleton.mp hq]
      exact hfree

/-- A subnet that is given back at once leaves the pool as it was. -/
theorem refused (h : x₀.Serves live x) (htake : x.take subnet = .ok (n, y))
    (hwhole : n.truncated = n) : x₀.Serves live (y.release n) := by
  obtain ⟨-, hfree, rfl⟩ := SubnetPool.of_take htake
  refine ⟨h.subnets, fun m => ?_, h.free⟩
  rw [mem_release, hwhole, List.mem_cons, ← h.taken]
  constructor
  · rintro ⟨rfl | hm, hne⟩
    · exact absurd rfl hne
    · exact hm
  · intro hm
    exact ⟨.inr hm, fun hmn => hfree (hmn ▸ hm)⟩

/-- Only the subnet of the deleted project becomes free, as no other project has it. -/
theorem withoutProject (h : x₀.Serves live x) (hlive : (live.map Project.subnet).Nodup)
    (hwhole : p.subnet.truncated = p.subnet) (hp : p ∈ live) :
    x₀.Serves (live.erase p) (x.release p.subnet) := by
  refine ⟨h.subnets, fun n => ?_, fun q hq => h.free q (List.mem_of_mem_erase hq)⟩
  have hfree := h.free p hp
  rw [mem_release, hwhole, h.taken, ← erase_map_of_nodup hlive hp, hlive.mem_erase_iff]
  constructor
  · rintro ⟨hn | hn, hne⟩
    · exact .inl hn
    · exact .inr ⟨hne, hn⟩
  · rintro (hn | ⟨hne, hn⟩)
    · exact ⟨.inl hn, fun hnp => hfree (hnp ▸ hn)⟩
    · exact ⟨.inr hn, hne⟩

end Serves

end SubnetPool

/-! ## Hosts left off by a call -/

/-- The link `name` is being added to the host of `b` as a bridge, and `rules` are its rules. -/
structure StoredMachine.Adding (b : StoredMachine) (name uplink : String)
    (rules : PerTable (List Rule)) (g : HostState) : Prop where
  grown : b.GrownBy name rules g
  off : b.machine.host.state.OffBy name uplink g
  bridge : ∃ l, g.find? name = some l ∧ l.isBridge = true

/-- A host that a reset brings back to that of `b`: it is that host, or it was left off in one
bridge. -/
structure StoredMachine.Stalled (s b : StoredMachine) (uplink : String) (g : HostState) : Prop where
  recoverable : Recoverable b.store.scope b.machine.host.state g
  leftOff : g = b.machine.host.state ∨ ∃ bridge,
    HostState.LeftOff b.store.scope s.machine.host.state b.machine.host.state bridge uplink g

/-- The store has the host of `s` with the projects `live` set up on it, and has it saved. -/
structure StoredMachine.Serves (s : StoredMachine) (uplink : String) (live : List Project)
    (b : StoredMachine) : Prop where
  naming : b.machine.host.naming = s.machine.host.naming
  scope : b.store.scope = s.store.scope
  host : s.machine.host.state.Serves s.store.scope.tables uplink live b.machine.host.state
  managed : ∀ p ∈ live, s.store.scope.naming.manages p.bridge = true
  saved : b.store.saved.normalized = s.store.scope.snapshotOf b.machine.host.state

section Adding

variable {b : StoredMachine} {name uplink : String} {rules : PerTable (List Rule)}
  {naming : Naming} {g g' : HostState}

theorem StoredMachine.Adding.update (h : b.Adding name uplink rules g) {f : Link → Link}
    (hname : ∀ l, (f l).name = l.name) (hkind : ∀ l, (f l).kind = l.kind)
    (hgrown : b.GrownBy name rules (g.update name f)) :
    b.Adding name uplink rules (g.update name f) := by
  obtain ⟨l, hl, hbridge⟩ := h.bridge
  refine ⟨hgrown, h.off.update hname, f l, ?_, ?_⟩
  · rw [HostState.find?_update hname, if_pos rfl, hl, Option.map_some]
  · unfold Link.isBridge
    rw [hkind]
    exact hbridge

/-- The first call of a new project inserts its bridge. -/
theorem adding_of_createBridge (uplink : String) (hg : g = b.machine.host.state)
    (heffect : (Call.createBridge name).effect naming g = .ok g') :
    b.Adding (naming.bridgeName name) uplink b.machine.host.state.rules g' := by
  have hgrown := grownBy_of_createBridge hg heffect
  subst hg
  obtain ⟨-, -, rfl⟩ := Call.effect_createBridge.mp heffect
  let l : Link := .bare 0 (naming.bridgeName name) .bridge
  refine ⟨hgrown, .of_find?_eq fun n hn => ?_, b.machine.host.state.indexed l, ?_, rfl⟩
  · rw [HostState.find?_insert]
    exact if_neg hn
  · rw [HostState.find?_insert]
    exact if_pos rfl

/-- The gateway is given to the bridge, and no link changes in any other way. -/
theorem adding_of_addAddress {net : IpNet} (h : b.Adding name uplink rules g)
    (heffect : (Call.addAddress name net).effect naming g = .ok g') :
    b.Adding name uplink rules g' := by
  have hgrown := spared_grownBy name rules (.addAddress name net) trivial g g' h.grown heffect
  obtain ⟨-, rfl⟩ := Call.effect_addAddress.mp heffect
  exact h.update (fun _ => rfl) (fun _ => rfl) hgrown

/-- The rule is appended while the links stay as they are. -/
theorem adding_of_createRule {table : Table} {r : Rule} (h : b.Adding name uplink rules g)
    (heffect : (Call.createRule table r).effect naming g = .ok g') :
    b.Adding name uplink (rules.set table (rules.get table ++ [r])) g' := by
  have hgrown := grownBy_of_createRule h.grown heffect
  obtain ⟨-, rfl⟩ := Call.effect_createRule.mp heffect
  exact ⟨hgrown, ⟨h.off.other, h.off.uplink⟩, h.bridge⟩

/-- The uplink is attached to it. -/
theorem adding_of_setLinkMaster (h : b.Adding name uplink rules g)
    (heffect : (Call.setLinkMaster uplink name).effect naming g = .ok g') :
    b.Adding name uplink rules g' := by
  have hgrown := spared_grownBy name rules (.setLinkMaster uplink name) trivial g g' h.grown heffect
  obtain ⟨l, hl, hbridge⟩ := h.bridge
  obtain ⟨-, hne, -, rfl⟩ := Call.effect_setLinkMaster.mp heffect
  refine ⟨hgrown, h.off.enslave (some name), l, ?_, hbridge⟩
  rw [HostState.find?_update (f := fun l : Link => { l with master := some name }) (fun _ => rfl),
    if_neg hne.symm, hl]

theorem adding_of_setLinkUp (h : b.Adding name uplink rules g)
    (heffect : (Call.setLinkUp name).effect naming g = .ok g') :
    b.Adding name uplink rules g' := by
  have hgrown := grownBy_of_setLinkUp h.grown heffect
  obtain ⟨-, rfl⟩ := Call.effect_setLinkUp.mp heffect
  exact h.update (fun _ => rfl) (fun _ => rfl) hgrown

end Adding

namespace StoredMachine.Serves

variable {s b m : StoredMachine} {uplink name : String} {live : List Project} {own : List Call}
  {g : HostState}

/-- Only host, naming, scope and the saved configuration count. -/
theorem of_after (h : s.Serves uplink live b) (hm : b.After own m)
    (hown : b.machine.host.anySucceeds own = false) : s.Serves uplink live m := by
  have hstate : m.machine.host.state = b.machine.host.state :=
    hm.host.state.trans (Host.state_replay_of_not_anySucceeds hown)
  refine ⟨hm.naming.trans h.naming, hm.scope.trans h.scope, ?_, h.managed, ?_⟩
  · rw [hstate]
    exact h.host
  · rw [hm.saved, hstate]
    exact h.saved

/-- A reset brings a host that was left off back to its projects. -/
theorem reset (h : s.Serves uplink live b) (hs : s.machine.host.state.Closed)
    (hg : s.Stalled b uplink (b.machine.host.replay own).state) :
    Triple (b.After own) Store.reset (fun _ => s.Serves uplink live) fun _ _ => True := by
  intro m hm
  rw [reset_eq]
  cases happly : m.store.scope.apply m.store.saved m.machine.host with
  | error e g => trivial
  | ok u g =>
    have hscope := hm.scope.trans h.scope
    have hsaved : m.store.saved.normalized = b.store.scope.snapshotOf b.machine.host.state := by
      rw [hm.saved, h.scope]
      exact h.saved
    -- The saved configuration is that of `b`, so it is applied by a pass.
    rw [hm.scope] at happly
    obtain ⟨-, hnaming, hsnapshot, hrestored, rules, d, e, f, v, hpass⟩ :=
      (hg.recoverable.apply_passes h.host.distinct hsaved).of_ok ⟨nofun, rfl, hm.host.state⟩ happly
    rw [h.scope] at hpass hsnapshot hrestored
    refine ⟨hnaming.trans (hm.naming.trans h.naming), hscope, ?_, h.managed, ?_⟩
    · rcases hg.leftOff with hleft | ⟨bridge, hleft⟩
      · rw [hleft] at hpass
        exact h.host.kept hpass hrestored.rules
      · rw [h.scope] at hleft
        exact h.host.regained hs hleft hg.recoverable.distinct hpass hrestored.rules
    · show m.store.saved.normalized = s.store.scope.snapshotOf g.state
      rw [hm.saved, hsnapshot]
      exact h.saved

/-- Where setting a project up fails, nothing was changed, or its bridge was being added. -/
theorem setUp_stalls (h : s.Serves uplink live b) {pm : ProjectManager} (hpm : pm.uplink = uplink)
    (hlisted : ∀ t ∈ s.store.scope.tables, (s.machine.host.state.rules.get t).Nodup)
    {subnet : Ipv4Net}
    (hmanaged : s.store.scope.naming.manages (s.machine.host.naming.bridgeName name) = true)
    (hrule : Rule.masquerade (.v4 subnet) ∉ b.machine.host.state.rules.get .nat) :
    Triple (Underway b (fun g => g = b.machine.host.state) false) (pm.setUp name subnet)
      (fun _ _ => True) fun _ => Underway b (s.Stalled b uplink) false := by
  let bridge := b.machine.host.naming.bridgeName name
  let old := b.machine.host.state.rules
  let rule := Rule.masquerade (.v4 subnet)
  have hold : ∀ t ∈ b.store.scope.tables, (old.get t).Nodup := h.scope ▸ h.host.listed hlisted
  -- A host with a part of the project can be brought back, and is off by its bridge alone.
  have hadding {rules : PerTable (List Rule)} {g : HostState}
      (hrules : ∀ t ∈ b.store.scope.tables, (rules.get t).Nodup)
      (hg : b.Adding bridge uplink rules g) : s.Stalled b uplink g := by
    have hfree := (h.host.free_of_find?_eq_none hg.grown.2).2
    refine ⟨.of_grown hg.grown.1 h.host.distinct hrules, .inr ⟨bridge, hfree, ?_, hg.off, ?_⟩⟩
    · show b.store.scope.naming.manages (b.machine.host.naming.bridgeName name) = true
      rw [h.scope, h.naming]
      exact hmanaged
    · exact .inr (.inr ⟨hg.grown.2, hg.bridge⟩)
  subst hpm
  refine ((setUp_stages (I := b.Adding bridge pm.uplink old)
    (J := b.Adding bridge pm.uplink (old.set .nat (old.get .nat ++ [rule]))) pm name subnet
    (fun _ heffect => adding_of_createBridge pm.uplink rfl heffect)
    (fun _ _ _ hg heffect => adding_of_addAddress hg heffect)
    (fun _ _ hg heffect => adding_of_createRule hg heffect)
    (fun _ _ hg heffect => adding_of_setLinkMaster hg heffect)
    fun _ _ hg heffect => adding_of_setLinkUp hg heffect).post fun _ _ _ => trivial).catch
      fun _ _ ht => ht.imp ?_
  -- The step that failed came before the bridge, before the rule, or after it.
  rintro g (rfl | hg | hg)
  · exact ⟨.of_grown (.refl _) h.host.distinct hold, .inl rfl⟩
  · exact hadding hold hg
  · exact hadding (fun t ht => nodup_get_append (hold t ht) hrule) hg

/-- Where taking a project down fails, its bridge is there as it was, or it is gone. -/
theorem takeDown_stalls (h : s.Serves uplink live b) (hs : s.machine.host.state.Closed)
    (hlisted : ∀ t ∈ s.store.scope.tables, (s.machine.host.state.rules.get t).Nodup)
    {p : Project} (hp : p ∈ live) :
    Triple (Underway b (fun g => g = b.machine.host.state) false) (ProjectManager.takeDown p)
      (fun _ _ => True) fun _ => Underway b (s.Stalled b uplink) false := by
  have hold : ∀ t ∈ b.store.scope.tables, (b.machine.host.state.rules.get t).Nodup :=
    h.scope ▸ h.host.listed hlisted
  have hfree := (h.host.fresh p hp).1
  have hmanaged : b.store.scope.naming.manages p.bridge = true := h.scope ▸ h.managed p hp
  have hstalled {g : HostState} (hg : Recoverable b.store.scope b.machine.host.state g)
      (hoff : b.machine.host.state.OffBy p.bridge uplink g)
      (hbridge : g.find? p.bridge = none ∨ g.find? p.bridge = b.machine.host.state.find? p.bridge) :
      s.Stalled b uplink g :=
    ⟨hg, .inr ⟨p.bridge, hfree, hmanaged, hoff, hbridge.imp_right .inl⟩⟩
  refine ((takeDown_stages p).post fun _ _ _ => trivial).catch fun _ _ ht => ht.imp ?_
  rintro g (hg | hg)
  · have hrec := hg.recoverable h.host.distinct hold
    obtain ⟨rules, rfl, -⟩ := hg
    exact hstalled hrec (.of_find?_eq fun _ _ => rfl) (.inr rfl)
  · have hrec := hg.recoverable h.host.distinct hold
    obtain ⟨rules, rfl, -⟩ := hg
    -- The rules do not matter to the links.
    have hoff := h.host.offBy_dropped hs hfree
    exact hstalled hrec ⟨hoff.other, hoff.uplink⟩ (.inl h.host.find?_dropped_self)

end StoredMachine.Serves

/-! ## Calls that succeed -/

/-- Nothing is guarded. -/
theorem LinkGuard.vacuous (scope : Scope) : LinkGuard scope (fun _ _ => True) fun _ => True where
  absent _ _ _ _ _ := trivial
  owned _ _ _ _ _ _ := trivial
  call _ _ _ _ _ _ _ := trivial
  rule _ _ _ _ _ _ _ := trivial

/-- The store has its host saved. -/
def StoredMachine.Saved (scope : Scope) (m : StoredMachine) : Prop :=
  m.store.scope = scope ∧ m.store.saved = scope.snapshotOf m.machine.host.state

/-- A store with the given scope and the given saved configuration. -/
abbrev StoredMachine.Holding (scope : Scope) (saved : Snapshot) : StoredMachine → Prop :=
  Guarded scope (fun _ _ => True) fun x => x.saved = saved

/-- What was saved before becomes the backup; a save that fails leaves it saved. -/
theorem Store.saved_save (scope : Scope) (saved : Snapshot) :
    Triple (StoredMachine.Holding scope saved) save
      (fun _ m => m.Saved scope ∧ m.store.backup = some saved)
      fun _ => StoredMachine.Holding scope saved := by
  intro m hm
  cases hrun : save m with
  | error e n =>
    have hafter := StoredMachine.After.save.of_error (.refl m) hrun
    exact ⟨hafter.scope.trans hm.scope_eq, trivial, hafter.saved.trans hm.slots⟩
  | ok u n =>
    obtain ⟨g, kept, files, hg, -, -, rfl⟩ := StoredMachine.of_save hrun
    refine ⟨⟨hm.scope_eq, ?_⟩, congrArg some hm.slots⟩
    show m.store.scope.snapshotOf m.machine.host.state = scope.snapshotOf g.state
    rw [hm.scope_eq, hg.state]

namespace Underway

variable {b : StoredMachine} {t : Tracked}

theorem guarded (h : Underway b (fun g => g = b.machine.host.state) false t) :
    Tracked.Guarded b.store.scope (fun _ _ => True) (fun x => x.saved = b.store.saved) t := by
  obtain ⟨own, hafter, -⟩ := h
  exact ⟨hafter.scope, trivial, hafter.saved⟩

theorem holds (h : Underway b (fun g => g = b.machine.host.state) false t) :
    t.site.Holds false b.machine.host.naming fun g => g = b.machine.host.state := by
  obtain ⟨own, hafter, hstate, -⟩ := h
  exact ⟨⟨nofun, hafter.naming, hafter.host.state.trans hstate⟩, nofun⟩

/-- What steps from `b` achieve, and that they end with it saved. -/
theorem ends_saved {steps : Action Tracked α} {Q : α → HostState → Prop}
    (hsteps : Tracked.Achieves false b.machine.host.naming (fun g => g = b.machine.host.state)
      steps Q)
    (hsaves : Triple
      (Tracked.Guarded b.store.scope (fun _ _ => True) fun x => x.saved = b.store.saved) steps
      (fun _ t => t.site.stored.Saved b.store.scope ∧
        t.site.stored.store.backup = some b.store.saved)
      fun _ => Tracked.Guarded b.store.scope (fun _ _ => True) fun x => x.saved = b.store.saved) :
    Triple (Underway b (fun g => g = b.machine.host.state) false) steps
      (fun a t => t.site.Holds false b.machine.host.naming (Q a) ∧
        t.site.stored.Saved b.store.scope ∧ t.site.stored.store.backup = some b.store.saved)
      fun _ _ => True :=
  ((Triple.pre hsteps fun _ => holds).both (hsaves.pre fun _ => guarded)).catch
    fun _ _ _ => trivial

end Underway

namespace StoredMachine.Serves

variable {s b : StoredMachine} {uplink name : String} {live : List Project}

/-- Steps that lead from `b` to a host with other projects and have it saved. -/
theorem of_saved {m : StoredMachine} {live' : List Project} {P : HostState → Prop}
    (h : s.Serves uplink live b) (hsaved : m.Saved b.store.scope)
    (hm : m.machine.host.Holds false b.machine.host.naming P)
    (hhost : ∀ g, P g → s.machine.host.state.Serves s.store.scope.tables uplink live' g)
    (hmanaged : ∀ p ∈ live', s.store.scope.naming.manages p.bridge = true) :
    s.Serves uplink live' m := by
  refine ⟨hm.naming_eq.trans h.naming, hsaved.1.trans h.scope, hhost _ hm.state, hmanaged, ?_⟩
  rw [hsaved.2, h.scope, Scope.normalized_snapshotOf]

/-- A project that is set up is alive, and the others are as they were. -/
theorem setUp (h : s.Serves uplink live b) {pm : ProjectManager} (hpm : pm.uplink = uplink)
    {subnet : Ipv4Net}
    (hmanaged : s.store.scope.naming.manages (s.machine.host.naming.bridgeName name) = true)
    (hlive : subnet ∉ live.map Project.subnet) (hwhole : subnet.truncated = subnet)
    (hrule : Rule.masquerade (.v4 subnet) ∉ s.machine.host.state.rules.get .nat) :
    Triple (Underway b (fun g => g = b.machine.host.state) false) (pm.setUp name subnet)
      (fun p t => p.subnet = subnet ∧ s.Serves uplink (live ++ [p]) t.site.stored)
      fun _ _ => True := by
  subst hpm
  refine (Underway.ends_saved (.setUp pm name subnet nofun)
    ((LinkGuard.vacuous b.store.scope).setUp (Store.saved_save _ _) pm name subnet)).post ?_
  rintro p t ⟨hholds, hsaved, -⟩
  obtain ⟨rfl, hstate, hfree, hne, -⟩ := hholds.host.state
  refine ⟨rfl, h.of_saved hsaved hholds.host ?_ fun q hq => ?_⟩
  · rintro g ⟨-, rfl, -⟩
    exact h.host.withProject hfree hne hlive hwhole hrule
  · rcases List.mem_append.mp hq with hq | hq
    · exact h.managed q hq
    · rw [List.mem_singleton.mp hq, h.naming]
      exact hmanaged

/-- A project that is taken down is alive no more, and the others are as they were. -/
theorem takeDown (h : s.Serves uplink live b) (hs : s.machine.host.state.Closed) {p : Project}
    (hp : p ∈ live) :
    Triple (Underway b (fun g => g = b.machine.host.state) false) (ProjectManager.takeDown p)
      (fun _ t => s.Serves uplink (live.erase p) t.site.stored) fun _ _ => True := by
  refine (Underway.ends_saved (.takeDown p nofun)
    ((LinkGuard.vacuous b.store.scope).takeDown (Store.saved_save _ _) (p := p) trivial)).post ?_
  rintro u t ⟨hholds, hsaved, -⟩
  refine h.of_saved hsaved hholds.host ?_ fun q hq => h.managed q (List.mem_of_mem_erase hq)
  rintro g rfl
  exact h.host.withoutProject hs hp

end StoredMachine.Serves

/-! ## The pool during a call -/

section Pool

variable {x : SubnetPool}

theorem Site.pool_onStore (y : Action StoredMachine α) :
    Maintains (fun s : Site => s.pool = x) (onStore y) fun _ => True := by
  intro s hs
  unfold onStore Action.on
  cases y s.stored with
  | ok a m => exact ⟨trivial, hs⟩
  | error e m => exact hs

theorem Site.pool_advance (t : Tracker) (next : Phase) :
    Maintains (fun s : Site => s.pool = x) (advance t next) fun _ => True :=
  (triple_advance_pool (P := fun _ pool => pool = x) t next).post fun _ _ hs => ⟨trivial, hs.2⟩

/-- A recovery resets the store, and the pool is beside it. -/
theorem Site.pool_recover (t : Tracker) (e : Error) :
    Maintains (fun s : Site => s.pool = x) (recover t e) fun _ => True := by
  unfold recover
  refine (pool_advance t .failed).bind fun t₁ _ => ?_
  dsimp only
  refine Maintains.ite (fun _ => Maintains.pure trivial) fun _ => ?_
  refine (pool_advance t₁ .resetting).bind fun t₂ _ => ?_
  refine (pool_onStore Store.reset).attempt.bind fun r _ => ?_
  cases r with
  | ok u => exact (pool_advance t₂ .reset).discard.bind fun _ _ => Maintains.pure trivial
  | error resetError =>
    refine (pool_advance t₂ .resetFailed).discard.bind fun _ _ => ?_
    exact Maintains.bind (φ := fun _ => True) (Maintains.modify fun _ hs => hs) fun _ _ =>
      Maintains.pure trivial

theorem Site.pool_withRecovery (t : Tracker) {steps : Action Tracked α}
    (h : Maintains (fun t : Tracked => t.site.pool = x) steps fun _ => True) :
    Maintains (fun s : Site => s.pool = x) (withRecovery t steps) fun _ => True := by
  intro s hs
  have hrun := h ⟨s, t⟩ hs
  unfold withRecovery
  cases hx : steps ⟨s, t⟩ with
  | ok a p =>
    rw [hx] at hrun
    exact hrun
  | error e p =>
    rw [hx] at hrun
    have hthrow : Maintains (fun s : Site => s.pool = x)
        (do throw (← recover p.tracker e) : Action Site (α × Tracker)) fun _ => True :=
      (pool_recover p.tracker e).bind fun e' _ => Maintains.throw e'
    exact hthrow p.site hrun

namespace Tracked

theorem pool_onSite {y : Action Site α}
    (h : Maintains (fun s : Site => s.pool = x) y fun _ => True) :
    Maintains (fun t : Tracked => t.site.pool = x) (onSite y) fun _ => True :=
  triple_onSite h

theorem pool_onHost (y : Action Host α) :
    Maintains (fun t : Tracked => t.site.pool = x) (onHost y) fun _ => True :=
  pool_onSite (Site.pool_onStore _)

theorem pool_touched : Maintains (fun t : Tracked => t.site.pool = x) touched fun _ => True :=
  Maintains.modify fun _ ht => ht

theorem pool_advance (next : Phase) :
    Maintains (fun t : Tracked => t.site.pool = x) (advance next) fun _ => True := by
  unfold advance
  refine Maintains.bind (φ := fun _ => True) (Maintains.get fun _ _ => trivial) fun t _ => ?_
  exact (pool_onSite (Site.pool_advance _ _)).bind fun _ _ => Maintains.modify fun _ ht => ht

theorem pool_save (step : String) :
    Maintains (fun t : Tracked => t.site.pool = x)
      (onSite (Action.within step (Site.onStore Store.save))) fun _ => True :=
  pool_onSite (Site.pool_onStore _).within

theorem pool_change (step : String) (c : Call) :
    Maintains (fun t : Tracked => t.site.pool = x) (change step c) fun _ => True :=
  (pool_onHost _).bind fun _ _ => pool_touched

/-- The subnet is taken before the steps, so these leave the pool alone. -/
theorem pool_setUp (pm : ProjectManager) (name : String) (subnet : Ipv4Net) :
    Maintains (fun t : Tracked => t.site.pool = x) (pm.setUp name subnet) fun _ => True := by
  unfold ProjectManager.setUp
  refine (pool_onHost _).bind fun bridge _ => pool_touched.bind fun _ _ => ?_
  refine Maintains.bind (φ := fun _ => True) (Maintains.modify fun _ ht => ht) fun _ _ => ?_
  refine (pool_advance .created).bind fun _ _ => (pool_onHost _).bind fun _ _ => ?_
  refine (pool_onHost _).bind fun _ _ => (pool_onHost _).bind fun _ _ => ?_
  refine (pool_onHost _).bind fun _ _ => (pool_advance .addressed).bind fun _ _ => ?_
  exact (pool_save _).bind fun _ _ => Maintains.pure trivial

theorem pool_takeDown (p : Project) :
    Maintains (fun t : Tracked => t.site.pool = x) (ProjectManager.takeDown p) fun _ => True := by
  have hremove := (pool_change (x := x) "delete bridge" (.deleteLink p.bridge)).bind fun _ _ =>
    (pool_save "save configuration").bind fun _ _ => pool_advance .gone
  unfold ProjectManager.takeDown
  refine (pool_onHost _).bind fun rules _ => ?_
  dsimp only
  by_cases hmem : rules.contains p.masqueradeRule = true
  · rw [if_pos hmem]
    exact (pool_change _ _).bind fun _ _ => (pool_advance .ruleDeleted).bind fun _ _ => hremove
  · rw [if_neg hmem]
    exact hremove

end Tracked

end Pool

/-! ## Sites with projects -/

/-- Every bridge that the host creates under a name counts as managed. -/
def Naming.Covers (n host : Naming) : Prop :=
  ∀ name, name ≠ "" → n.manages (host.bridgeName name) = true

theorem Naming.covers_self {n : Naming} (hmark : n.mark ≠ "") : n.Covers n :=
  fun _ hname => manages_bridgeName_of_ne hmark hname

namespace Site

/-- What is asked of a site before there are projects on it. -/
structure Vacant (uplink : String) (s : Site) : Prop where
  closed : s.host.state.Closed
  unsaved : ∃ u, Store.isChanged s.stored.disarmed = .ok false u
  nat : Table.nat ∈ s.store.scope.tables
  listed : ∀ t ∈ s.store.scope.tables, (s.host.state.rules.get t).Nodup
  unruled : ∀ n ∈ s.pool.subnets, Rule.masquerade (.v4 n) ∉ s.host.state.rules.get .nat
  unmanaged : s.store.scope.naming.manages uplink = false
  distinct : s.pool.subnets.Nodup
  whole : ∀ n ∈ s.pool.subnets, n.length = 24 ∧ n.truncated = n

/-- Host, store and pool of `t` are those of `s` with the projects `live`. -/
structure Serves (s : Site) (uplink : String) (live : List Project) (t : Site) : Prop where
  stored : s.stored.Serves uplink live t.stored
  pool : s.pool.Serves live t.pool

namespace Serves

variable {s t : Site} {live : List Project} {pm : ProjectManager}

/-- Steps that stall where they fail are undone then, unless the error is fatal.  The pool stays as
it is. -/
theorem withRecovery {b : StoredMachine} {uplink : String} {x : SubnetPool}
    (h : s.stored.Serves uplink live b) (hs : s.host.state.Closed) {t : Tracker}
    (ht : t.mutated = false) {steps : Action Tracked α} {Q : α → StoredMachine → Prop}
    (hdone : Triple (Underway b (fun g => g = b.machine.host.state) false) steps
      (fun a p => Q a p.site.stored) fun _ _ => True)
    (hstalls : Triple (Underway b (fun g => g = b.machine.host.state) false) steps
      (fun _ _ => True) fun _ => Underway b (s.stored.Stalled b uplink) false)
    (hpool : Maintains (fun p : Tracked => p.site.pool = x) steps fun _ => True) :
    Triple (fun u => b.After [] u.stored ∧ u.pool = x) (Site.withRecovery t steps)
      (fun r u => Q r.1 u.stored ∧ u.pool = x)
      fun e u => (e.isFatal = false → s.stored.Serves uplink live u.stored) ∧ u.pool = x := by
  have hsteps := (hdone.both hstalls).weaken (fun _ hp => hp) (fun _ _ hp => hp.1)
    fun _ _ hp => hp.2
  have hstored := withRecovery_leads ht hsteps (fun own hown m hm => h.of_after hm hown)
    fun own hg => h.reset hs hg
  refine ((hstored.pre fun _ hu => hu.1).both
    (Triple.pre (pool_withRecovery t hpool) fun _ hu => hu.2)).weaken (fun _ hu => hu) ?_ ?_
  · rintro r u ⟨hdone, -, hpool⟩
    exact ⟨hdone, hpool⟩
  · rintro e u ⟨hserves | ⟨hfatal, -⟩, hpool⟩
    · exact ⟨fun _ => hserves, hpool⟩
    · exact ⟨fun hmild => absurd (hmild.symm.trans hfatal) Bool.false_ne_true, hpool⟩

/-- A call that creates a project adds one, or fails with a fatal error, or changes nothing. -/
theorem create (h : s.Serves pm.uplink live t) (hs : s.Vacant pm.uplink)
    (hcovers : s.store.scope.naming.Covers s.host.naming) (name : String)
    (subnet : Option Ipv4Net) :
    Triple (fun u => u = t) (pm.create name subnet)
      (fun p u => s.Serves pm.uplink (live ++ [p]) u)
      fun e u => e.isFatal = false → s.Serves pm.uplink live u := by
  refine (createProject_leads (b := t.stored) (x := t.pool)
    (Q := fun p m x => s.stored.Serves pm.uplink (live ++ [p]) m ∧ s.pool.Serves (live ++ [p]) x)
    (E := fun e m x => e.isFatal = false → s.stored.Serves pm.uplink live m ∧ s.pool.Serves live x)
    pm name subnet (fun e m hm _ => ⟨h.stored.of_after hm rfl, h.pool⟩) ?_).weaken ?_
    (fun p u hu => ⟨hu.1, hu.2⟩) fun e u hu hmild => ⟨(hu hmild).1, (hu hmild).2⟩
  · intro bridge taken pool hname htake
    -- The subnet is one of the pool, so its rule is new, and the name is not empty.
    obtain ⟨hmem, -, hlive⟩ := h.pool.of_take htake
    have hwhole := (hs.whole taken hmem).2
    have hrule := hs.unruled taken hmem
    have hmanaged := hcovers name fun hempty => by
      rw [hempty] at hname
      cases hname
    have hruled := h.stored.host.masquerade_notMem hs.nat hwhole hlive hrule
    refine (withRecovery h.stored hs.closed (t := .start "create_project" bridge .absent) rfl
      (Q := fun p m => p.subnet = taken ∧ s.stored.Serves pm.uplink (live ++ [p]) m)
      (h.stored.setUp rfl hmanaged hlive hwhole hrule)
      (h.stored.setUp_stalls rfl hs.listed hmanaged hruled)
      (Tracked.pool_setUp pm name taken)).weaken (fun _ hu => hu) ?_ ?_
    · rintro r u ⟨⟨rfl, hstored⟩, rfl⟩
      exact ⟨hstored, h.pool.withProject htake⟩
    · rintro e u ⟨hstored, rfl⟩ hmild
      exact ⟨hstored hmild, h.pool.refused htake hwhole⟩
  · rintro u rfl
    exact ⟨.refl _, rfl⟩

/-- A call that deletes one of the projects takes it away, or fails with a fatal error, or changes
nothing. -/
theorem delete (h : s.Serves pm.uplink live t) (hs : s.Vacant pm.uplink) {p : Project}
    (hp : p ∈ live) :
    Triple (fun u => u = t) (pm.delete p) (fun _ u => s.Serves pm.uplink (live.erase p) u)
      fun e u => e.isFatal = false → s.Serves pm.uplink live u := by
  refine (deleteProject_leads (b := t.stored) (x := t.pool)
    (Q := fun m x => s.stored.Serves pm.uplink (live.erase p) m ∧ s.pool.Serves (live.erase p) x)
    (E := fun e m x => e.isFatal = false → s.stored.Serves pm.uplink live m ∧ s.pool.Serves live x)
    pm p (fun e m hm _ => ⟨h.stored.of_after hm rfl, h.pool⟩) ?_).weaken ?_
    (fun _ u hu => ⟨hu.1, hu.2⟩) fun e u hu hmild => ⟨(hu hmild).1, (hu hmild).2⟩
  · refine (withRecovery h.stored hs.closed (t := .start "delete_project" p.bridge .present) rfl
      (Q := fun _ m => s.stored.Serves pm.uplink (live.erase p) m)
      (h.stored.takeDown hs.closed hp) (h.stored.takeDown_stalls hs.closed hs.listed hp)
      (Tracked.pool_takeDown p)).weaken (fun _ hu => hu) ?_ ?_
    · rintro r u ⟨hstored, hpool⟩
      rw [hpool]
      exact ⟨hstored, h.pool.withoutProject h.stored.host.subnets (h.stored.host.whole p hp) hp⟩
    · rintro e u ⟨hstored, hpool⟩ hmild
      exact ⟨hstored hmild, hpool ▸ h.pool⟩
  · rintro u rfl
    exact ⟨.refl _, rfl⟩

end Serves

end Site

end HostNet
