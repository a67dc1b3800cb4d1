/-
Arguments are checked before anything is changed.

On a site where no failure is armed, no operation is under way and the slot files can be written, an
operation either succeeds or leaves the site exactly as it was.  The checks only look: each of them
answers from the host as it is (`Looks`).  What they have found out is all that the steps ask for
(`Tracked.Achieves`), and so is what the final reading needs.
-/

import HostNet.Proofs.Compensation
import HostNet.Proofs.ProjectSteps
import HostNet.Proofs.Request

namespace HostNet

open HostNet.Action

/-! ## Looking -/

section Looking

variable {σ α β : Type} {s : σ} {φ : α → Prop}

/-- From `s` the action answers with `φ` or fails, and changes nothing. -/
def Action.Looks (s : σ) (φ : α → Prop) (x : Action σ α) : Prop :=
  Triple (fun t => t = s) x (fun a t => φ a ∧ t = s) fun _ t => t = s

/-- From `s` the action answers with `φ`, or it fails and then `ψ` is the case.  It changes
nothing. -/
def Action.Decides (s : σ) (φ : α → Prop) (ψ : Prop) (x : Action σ α) : Prop :=
  Triple (fun t => t = s) x (fun a t => φ a ∧ t = s) fun _ t => ψ ∧ t = s

/-- A check that decides something looks only. -/
theorem Action.Decides.looks {ψ : Prop} {x : Action σ α} (hx : Decides s φ ψ x) : Looks s φ x :=
  Triple.catch hx fun _ _ ht => ht.2

/-- What comes after a look knows what that has found. -/
theorem Action.Looks.bind {x : Action σ α} {f : α → Action σ β} {R : β → σ → Prop}
    (hx : Looks s φ x) (hf : ∀ a, φ a → Triple (fun t => t = s) (f a) R fun _ t => t = s) :
    Triple (fun t => t = s) (x >>= f) R fun _ t => t = s :=
  Triple.bind hx fun a => Triple.of_pure (hf a)

theorem Action.Looks.within {x : Action σ α} (hx : Looks s φ x) (step : String) :
    Looks s φ (Action.within step x) :=
  Triple.within hx

theorem Action.Looks.discard {x : Action σ α} (hx : Looks s φ x) :
    Looks s (fun _ => ∃ a, φ a) (discard x : Action σ Unit) :=
  Triple.discard (hx.post fun a _ ht => ⟨⟨a, ht.1⟩, ht.2⟩)

theorem Action.Looks.pure {a : α} (ha : φ a) : Looks s φ (pure a) :=
  Triple.pure fun _ ht => ⟨ha, ht⟩

/-- A check of the arguments does not look at the state. -/
theorem Action.looks_ofExcept (r : Except Error α) :
    Looks s (fun a => r = .ok a) (ofExcept r : Action σ α) :=
  Triple.ofExcept (fun _ ha _ ht => ⟨ha, ht⟩) fun _ _ _ ht => ht

/-- A check that has failed. -/
theorem Action.triple_throw_bind {e : Error} {f : α → Action σ β} {R : β → σ → Prop} :
    Triple (fun t => t = s) ((MonadExcept.throw e : Action σ α) >>= f) R fun _ t => t = s :=
  Triple.throw_bind fun _ ht => ht

end Looking

/-! ## Readings of a quiet host -/

namespace Host

variable {h : Host}

theorem Quiet.readable (hq : h.Quiet) : h.Readable := fun op _ => hq op

/-- No reading of a quiet host fails, and none changes it. -/
theorem Inspects.decides {α : Type} {φ : α → Prop} {ψ : Prop} {x : Action Host α}
    (hx : h.Inspects φ ψ x) (hq : h.Quiet) : Decides h φ ψ x := by
  refine Triple.weaken hx ?_ (fun a g hg => ⟨hg.1, hg.2.eq_of_readable hq.readable⟩) fun e g he =>
    ⟨he.1.2.resolve_left hq.readable.not_readingFails, he.2.eq_of_readable hq.readable⟩
  rintro _ rfl
  exact .refl _

/-- Where nothing is armed, observing is looking. -/
theorem Observes.looks {α : Type} {φ : α → Prop} {x : Action Host α} (hx : h.Observes x φ)
    (hq : h.Quiet) : Looks h φ x :=
  ((hx.inspects (ψ := False)).decides hq).looks

/-- On a quiet host a lookup answers the link or says that it is absent. -/
theorem get_of_quiet (hq : h.Quiet) (name : String) :
    get name h = match h.state.find? name with
      | some l => .ok l h
      | none => .error (.notFound "link" name) h := by
  unfold get
  simp only [bind, EStateM.bind, meet_of_quiet hq]
  show Action.ofExcept (h.state.link name) h = _
  unfold HostState.link
  cases h.state.find? name <;> rfl

/-- A link is read off a quiet host exactly if it is there. -/
theorem decides_get (hq : h.Quiet) (name : String) :
    Decides h (fun l => h.state.find? name = some l) (h.state.find? name = none) (get name) :=
  (inspects_get name).decides hq

theorem looks_get (hq : h.Quiet) (name : String) :
    Looks h (fun l => h.state.find? name = some l) (get name) :=
  (decides_get hq name).looks

/-- A link that is not found is absent. -/
theorem looks_find (hq : h.Quiet) (name : String) :
    Looks h (fun found => found = h.state.find? name) (find name) := by
  rintro g rfl
  unfold find Action.ifFound
  rw [get_of_quiet hq]
  cases g.state.find? name with
  | some l => exact ⟨rfl, rfl⟩
  | none => exact ⟨rfl, rfl⟩

theorem looks_chainRules (hq : h.Quiet) (t : Table) (chain : String) :
    Looks h (fun rules => rules = (h.state.rules.get t).filter fun r => r.chain == chain)
      (chainRules t chain) :=
  ((observes_tableRules t).looks hq).bind fun _ hrules => Looks.pure (by rw [hrules])

end Host

/-! ## Checks -/

namespace Site

variable {α : Type} {s : Site}

/-- No reading of a quiet site fails, and none changes it. -/
theorem Inspects.decides {φ : α → Prop} {ψ : Prop} {x : Action Site α} (hx : s.Inspects φ ψ x)
    (hq : s.host.Quiet) : Decides s φ ψ x := by
  have hsame {t : Site} (ht : s.Seen t) : t = s := by
    obtain ⟨g, hg, rfl⟩ := ht
    rw [hg.eq_of_readable hq.readable]
    rfl
  refine Triple.weaken hx ?_ (fun a t ht => ⟨ht.1, hsame ht.2⟩)
    fun e t he => ⟨he.1.2.resolve_left hq.readable.not_readingFails, hsame he.2⟩
  rintro _ rfl
  exact .refl _

/-- Where no reading fails, and what it looks for is there, an action that only reads succeeds. -/
theorem Inspects.total {P : Site → Prop} {φ : Site → α → Prop} {ψ : Site → Prop}
    {x : Action Site α} (hx : ∀ s : Site, s.Inspects (φ s) (ψ s) x)
    (hP : ∀ s, P s → s.host.Quiet ∧ ¬ ψ s) :
    Triple P x (fun a t => φ t a ∧ P t) fun _ _ => False := by
  refine Triple.of_each fun s hs => ?_
  obtain ⟨hq, hψ⟩ := hP s hs
  refine Triple.weaken ((hx s).decides hq) (fun _ ht => ht) ?_ fun _ _ he => hψ he.1
  rintro a _ ⟨ha, rfl⟩
  exact ⟨ha, hs⟩

/-- What is decided on the host of a site is decided on the site. -/
theorem decides_onHost {φ : α → Prop} {ψ : Prop} {x : Action Host α}
    (hx : Decides s.host φ ψ x) : Decides s φ ψ (onHost x) := by
  rintro t rfl
  have hrun := hx t.host rfl
  rw [onHost_eq]
  cases h : x t.host with
  | ok a g =>
    rw [h] at hrun
    obtain ⟨ha, rfl⟩ := hrun
    exact ⟨ha, rfl⟩
  | error e g =>
    rw [h] at hrun
    obtain ⟨he, rfl⟩ := hrun
    exact ⟨he, rfl⟩

/-- A look at the host is one at the site. -/
theorem looks_onHost {φ : α → Prop} {x : Action Host α} (hx : Looks s.host φ x) :
    Looks s φ (onHost x) :=
  (decides_onHost (ψ := True) (Triple.catch hx fun _ _ ht => ⟨trivial, ht⟩)).looks

/-- What is asked of a site: no failure is armed, both slot files can be written, no operation holds
the lock, no two links have one name, and the host names its bridges as the managers do. -/
structure Ready (m : Manager) (pm : ProjectManager) (s : Site) : Prop where
  quiet : s.host.Quiet
  writable : s.files.Writable
  free : s.lock.holder = none
  distinct : s.host.state.Distinct
  manager : m.naming = s.host.naming
  projects : pm.naming = s.host.naming

/-- The site can be told from the others that are calm by its links and rules alone. -/
theorem Ready.holds {m : Manager} {pm : ProjectManager} (h : s.Ready m pm) {P : HostState → Prop}
    (hP : P s.host.state) : s.Holds true s.host.naming P :=
  ⟨⟨fun _ => h.quiet, rfl, hP⟩, fun _ => h.writable⟩

/-- Where the lock is free, an operation validates as it does inside the lock. -/
theorem exclusively_validates (hfree : s.lock.holder = none) {operation : String}
    {x : Action Site α} {Q : α → Site → Prop}
    (hx : Triple (fun t => t = s) x Q fun _ t => t = s) :
    Triple (fun t => t = s) (exclusively operation x) Q fun _ t => t = s := by
  rintro t rfl
  rw [exclusively_of_free hfree]
  exact hx t rfl

/-- Steps that cannot fail are not compensated. -/
theorem withRecovery_of_total {P : Site → Prop} {Q : α → Site → Prop} {steps : Action Tracked α}
    (h : Triple (fun t => P t.site) steps (fun a t => Q a t.site) fun _ _ => False) (t : Tracker) :
    Triple P (withRecovery t steps) (fun r => Q r.1) fun _ _ => False := by
  intro s hs
  have hrun := h ⟨s, t⟩ hs
  unfold withRecovery
  cases hsteps : steps ⟨s, t⟩ with
  | ok a p =>
    rw [hsteps] at hrun
    exact hrun
  | error e p =>
    rw [hsteps] at hrun
    exact hrun.elim

/-- Steps that cannot fail need no recovery. -/
theorem triple_withRecovery {calm : Bool} {naming : Naming} {P : HostState → Prop}
    {steps : Action Tracked α} {Q : α → HostState → Prop}
    (h : Tracked.Achieves calm naming P steps Q) (hcalm : calm = true) (t : Tracker) :
    Triple (Holds calm naming P) (withRecovery t steps)
      (fun r => Holds calm naming (Q r.1)) fun _ _ => False :=
  withRecovery_of_total (Triple.catch h fun _ _ he => absurd (hcalm.symm.trans he) (by decide)) t

end Site

/-! ## The operations -/

section Operations

variable {m : Manager} {pm : ProjectManager} {s : Site}

/-- From `s` the action succeeds, or it fails and changes nothing. -/
def Validates {α : Type} (s : Site) (x : Action Site α) : Prop :=
  Triple (fun t => t = s) x (fun _ _ => True) fun _ t => t = s

/-- From `s` the action succeeds and leads to links and rules with `Q`, or it fails and changes
nothing. -/
def Prepares {α : Type} (s : Site) (x : Action Site (α × Tracker)) (Q : α → HostState → Prop) :
    Prop :=
  Triple (fun t => t = s) x (fun r => Site.Holds true s.host.naming (Q r.1)) fun _ t => t = s

theorem Prepares.discard {α : Type} {x : Action Site (α × Tracker)} {Q : α → HostState → Prop}
    (hx : Prepares s x Q) : Validates s (discard x) :=
  Triple.discard (Triple.post hx fun _ _ _ => trivial)

/-- The final reading succeeds as well. -/
theorem Prepares.concluded {α β : Type} {x : Action Site (α × Tracker)} {Q : α → HostState → Prop}
    {reading : α → Action Site β} (hx : Prepares s x Q)
    (hreading : ∀ a, Triple (Site.Holds true s.host.naming (Q a)) (reading a) (fun _ _ => True)
      fun _ _ => False) :
    Validates s (do let (a, t) ← x; Manager.concluded t (reading a)) := by
  refine Triple.bind hx fun r => ?_
  refine ((hreading r.1).catch fun _ _ he => he.elim).bind fun b => ?_
  exact (Site.triple_discard_advance (P := fun _ => True) r.2 .reconciled).bind fun _ =>
    Triple.pure fun _ _ => trivial

/-- Steps that are sure to succeed on the site. -/
theorem prepares_of_achieves {α : Type} (hs : s.Ready m pm) {steps : Action Tracked α}
    {Q : α → HostState → Prop} (t : Tracker)
    (h : Tracked.Achieves true s.host.naming (fun g => g = s.host.state) steps Q) :
    Prepares s (Site.withRecovery t steps) Q := by
  refine (Site.triple_withRecovery h rfl t).weaken ?_ (fun _ _ ht => ht) fun _ _ he => he.elim
  rintro _ rfl
  exact hs.holds rfl

/-- So they are after a change of phase. -/
theorem prepares_after_advance {α : Type} (hs : s.Ready m pm) {steps : Action Tracked α}
    {Q : α → HostState → Prop} (t : Tracker) (next : Phase)
    (h : Tracked.Achieves true s.host.naming (fun g => g = s.host.state) steps Q) :
    Prepares s (do let t ← Site.advance t next; Site.withRecovery t steps) Q := by
  have hadvance : Triple (fun u => u = s) (Site.advance t next)
      (fun _ => Site.Holds true s.host.naming fun g => g = s.host.state) fun _ u => u = s := by
    rintro _ rfl
    exact ⟨⟨fun _ => hs.quiet, rfl, rfl⟩, fun _ => hs.writable⟩
  exact Triple.bind hadvance fun t' =>
    (Site.triple_withRecovery h rfl t').catch fun _ _ he => he.elim

/-! ### Readings of VLANs and bridges -/

/-- A name is that of a VLAN exactly if it can be viewed as one. -/
theorem HostState.hasVlan_iff {g : HostState} {name : String} :
    g.HasVlan name ↔ g.vlan? name ≠ none := by
  simp only [HasVlan, vlan?, ne_eq, Option.bind_eq_none_iff, not_forall, Option.isSome_iff_ne_none,
    exists_prop]

/-- A name is that of a bridge exactly if it can be viewed as one. -/
theorem HostState.hasBridge_iff {g : HostState} (hd : g.Distinct) {name : String} :
    g.HasBridge name ↔ g.bridge? name ≠ none := by
  rw [← Option.isSome_iff_ne_none, Option.isSome_iff_exists]
  simp only [bridge?_eq_some_iff hd]
  exact ⟨fun ⟨_, l, hl, hb⟩ => ⟨_, l, hl, hb, rfl⟩, fun ⟨_, l, hl, hb, _⟩ => ⟨hd, l, hl, hb⟩⟩

theorem looks_currentVlan (hq : s.host.Quiet) (name : String) :
    Looks s (fun _ => s.host.state.HasVlan name) (Manager.currentVlan name) :=
  ((Manager.inspects_currentVlan s name).decides hq).looks.post fun _ _ ht =>
    ⟨HostState.hasVlan_iff.mpr (by rw [ht.1]; nofun), ht.2⟩

theorem triple_currentVlan {naming : Naming} (name : String) :
    Triple (Site.Holds true naming (HostState.HasVlan name)) (Manager.currentVlan name)
      (fun _ _ => True) fun _ _ => False :=
  (Site.Inspects.total (fun s => Manager.inspects_currentVlan s name) fun _ hs =>
    ⟨hs.host.quiet rfl, HostState.hasVlan_iff.mp hs.host.state⟩).post fun _ _ _ => trivial

theorem looks_currentBridge (hq : s.host.Quiet) (hd : s.host.state.Distinct) (name : String) :
    Looks s (fun _ => s.host.state.HasBridge name) (Manager.currentBridge name) :=
  ((Manager.inspects_currentBridge s name).decides hq).looks.post fun _ _ ht =>
    ⟨(HostState.hasBridge_iff hd).mpr (by rw [ht.1]; nofun), ht.2⟩

theorem triple_currentBridge {naming : Naming} (name : String) :
    Triple (Site.Holds true naming (HostState.HasBridge name)) (Manager.currentBridge name)
      (fun _ _ => True) fun _ _ => False :=
  (Site.Inspects.total (fun s => Manager.inspects_currentBridge s name) fun _ hs =>
    ⟨hs.host.quiet rfl, (HostState.hasBridge_iff hs.host.state.1).mp hs.host.state⟩).post
      fun _ _ _ => trivial

/-- Slaves that were checked stand, and none of them is the bridge. -/
theorem looks_checkSlaves (hq : s.host.Quiet) (bridge : String) (slaves : List String) :
    Looks s (fun checked => ∀ n ∈ checked, n ≠ bridge ∧ (s.host.state.find? n).isSome)
      (Manager.checkSlaves bridge slaves) :=
  ((Manager.inspects_checkSlaves s bridge slaves).decides hq).looks.post fun _ _ ht =>
    ⟨fun n hn => ht.1.1 n ((ht.1.2 n).mp hn), ht.2⟩

/-! ### VLANs and bridges -/

/-- Once name and parent are checked and the name is free, no step of a new VLAN fails. -/
theorem makeVlan_prepares (hs : s.Ready m pm) (parent : String) (id : VlanId)
    (addresses : List IpNet) :
    Prepares s (Manager.makeVlan parent id addresses) HostState.HasVlan := by
  unfold Prepares Manager.makeVlan
  refine (looks_ofExcept _).bind fun name hname => ?_
  refine ((Site.looks_onHost ((Host.looks_get hs.quiet parent).within _)).discard).bind
    fun _ hparent => ?_
  refine (Site.looks_onHost (Host.looks_find hs.quiet name.text)).bind fun found hfound => ?_
  have htext := LinkName.text_of_ofString hname
  have hlegal := name.legal
  rw [htext] at hfound hlegal
  obtain ⟨l, hl⟩ := hparent
  by_cases htaken : found.isSome = true
  · dsimp only
    rw [if_pos htaken]
    exact triple_throw_bind
  · dsimp only
    rw [if_neg htaken]
    refine prepares_of_achieves hs _
      (Tracked.Achieves.vlanSteps (by rw [hl]; rfl) hlegal ?_ addresses)
    rw [← hfound]
    simpa using htaken

/-- Once the name is free and the slaves are checked, no step of a new bridge fails. -/
theorem makeBridge_prepares (hs : s.Ready m pm) (name : String) (slaves : List String)
    (addresses : List IpNet) :
    Prepares s (m.makeBridge name slaves addresses) HostState.HasBridge := by
  unfold Prepares Manager.makeBridge
  rw [hs.manager]
  refine (looks_ofExcept _).bind fun full hfull => ?_
  refine (Site.looks_onHost (Host.looks_find hs.quiet full.text)).bind fun found hfound => ?_
  have htext := LinkName.text_of_ofString hfull
  have hlegal := full.legal
  rw [htext] at hfound hlegal
  by_cases htaken : found.isSome = true
  · dsimp only
    rw [if_pos htaken]
    exact triple_throw_bind
  · dsimp only
    rw [if_neg htaken]
    refine (looks_checkSlaves hs.quiet full.text slaves).bind fun checked hchecked => ?_
    rw [htext] at hchecked
    refine prepares_of_achieves hs _
      (Tracked.Achieves.bridgeSteps hs.distinct hlegal ?_ hchecked addresses)
    rw [← hfound]
    simpa using htaken

theorem reviseVlan_prepares (hs : s.Ready m pm) (name : String) (addresses : List IpNet) :
    Prepares s (Manager.reviseVlan name addresses) fun _ => HostState.HasVlan name := by
  unfold Prepares Manager.reviseVlan
  refine (looks_currentVlan hs.quiet name).discard.bind fun _ hvlan => ?_
  obtain ⟨-, hvlan⟩ := hvlan
  exact prepares_after_advance hs _ _ (Tracked.Achieves.reviseVlanSteps hvlan addresses)

/-- Once the bridge is read and the slaves are checked, no step of the revision fails. -/
theorem reviseBridge_prepares (hs : s.Ready m pm) (name : String) (slaves : List String)
    (addresses : List IpNet) :
    Prepares s (Manager.reviseBridge name slaves addresses) fun _ => HostState.HasBridge name := by
  unfold Prepares Manager.reviseBridge
  refine (Site.looks_onHost (Host.looks_get hs.quiet name)).bind fun link hlink => ?_
  by_cases hbridge : (!link.isBridge) = true
  · dsimp only
    rw [if_pos hbridge]
    exact triple_throw_bind
  · dsimp only
    rw [if_neg hbridge]
    have hhas : s.host.state.HasBridge name := ⟨hs.distinct, link, hlink, by simpa using hbridge⟩
    refine (looks_checkSlaves hs.quiet name slaves).bind fun checked hchecked => ?_
    exact prepares_after_advance hs _ _ (Tracked.Achieves.reviseBridgeSteps hhas hchecked addresses)

theorem deleteVlan_validates (hs : s.Ready m pm) (name : String) :
    Validates s (m.deleteVlan name) := by
  unfold Validates Manager.deleteVlan
  refine (looks_ofExcept _).bind fun _ _ => Site.exclusively_validates hs.free ?_
  refine (looks_currentVlan hs.quiet name).bind fun vlan hvlan => ?_
  obtain ⟨l, hl, -⟩ := hvlan
  exact (prepares_of_achieves hs _
    (Tracked.Achieves.removeVlanSteps (by rw [hl]; rfl) vlan.master)).discard

theorem deleteBridge_validates (hs : s.Ready m pm) (name : String) :
    Validates s (m.deleteBridge name) := by
  unfold Validates Manager.deleteBridge
  refine (looks_ofExcept _).bind fun _ _ => Site.exclusively_validates hs.free ?_
  refine (looks_currentBridge hs.quiet hs.distinct name).bind fun bridge hbridge => ?_
  exact (prepares_of_achieves hs _
    (Tracked.Achieves.removeBridgeSteps hbridge bridge.slaves)).discard

/-! ### Projects -/

/-- A subnet that is not free is found out before the pool changes. -/
theorem takeSubnet_validates (hs : s.Ready m pm) (subnet : Option Ipv4Net) :
    Triple (fun t => t = s) (ProjectManager.takeSubnet subnet)
      (fun _ => Site.Holds true s.host.naming fun g => g = s.host.state) fun _ t => t = s := by
  unfold ProjectManager.takeSubnet
  refine Looks.bind (φ := fun t => t = s) (Triple.get fun _ ht => ⟨ht, ht⟩) fun t _ => ?_
  refine (looks_ofExcept _).bind fun r _ => ?_
  refine Triple.bind (Q := fun _ => Site.Holds true s.host.naming fun g => g = s.host.state)
    (Triple.modify ?_) fun _ => Triple.pure fun _ ht => ht
  rintro _ rfl
  exact ⟨⟨fun _ => hs.quiet, rfl, rfl⟩, fun _ => hs.writable⟩

/-- A project is refused for its name, its bridge, the uplink or the subnets, all before its first
step. -/
theorem createProject_validates (hs : s.Ready m pm) (name : String) (subnet : Option Ipv4Net) :
    Validates s (pm.create name subnet) := by
  unfold Validates ProjectManager.create
  dsimp only
  by_cases hempty : name.isEmpty = true
  · rw [if_pos hempty]
    exact triple_throw_bind
  rw [if_neg hempty, hs.projects]
  refine Site.exclusively_validates hs.free ?_
  refine (looks_ofExcept _).bind fun bridge hbridge => ?_
  refine (Site.looks_onHost (Host.looks_find hs.quiet bridge.text)).bind fun found hfound => ?_
  have htext := LinkName.text_of_ofString hbridge
  have hlegal := bridge.legal
  rw [htext] at hfound hlegal
  by_cases htaken : found.isSome = true
  · rw [if_pos htaken]
    exact triple_throw_bind
  rw [if_neg htaken]
  refine ((Site.looks_onHost ((Host.looks_get hs.quiet pm.uplink).within _)).discard).bind
    fun _ huplink => ?_
  obtain ⟨l, hl⟩ := huplink
  -- From here on nothing can fail.
  refine Triple.bind (takeSubnet_validates hs subnet) fun taken => ?_
  have hsetUp : Tracked.Achieves true s.host.naming (fun g => g = s.host.state)
      (pm.setUp name taken) _ :=
    Tracked.Achieves.setUp pm name taken fun _ =>
      ⟨hlegal, by rw [← hfound]; simpa using htaken, by rw [hl]; rfl⟩
  refine Triple.bind (Q := fun _ _ => True) (Triple.afterError
    ((Site.triple_withRecovery hsetUp rfl _).weaken (fun _ ht => ht) (fun _ _ _ => trivial)
      fun _ _ he => he.elim)) fun r => ?_
  refine Triple.bind (Site.triple_discard_advance (P := fun _ => True) r.2 .reconciled) fun _ => ?_
  exact Triple.bind (Site.triple_publish (P := fun _ => True) _) fun _ =>
    Triple.pure fun _ _ => trivial

/-- A deletion is refused only before its first step: the bridge must be managed and be there. -/
theorem deleteProject_validates (hs : s.Ready m pm) (p : Project) : Validates s (pm.delete p) := by
  unfold Validates ProjectManager.delete
  dsimp only
  by_cases hmanaged : (!pm.naming.manages p.bridge) = true
  · rw [if_pos hmanaged]
    exact triple_throw_bind
  rw [if_neg hmanaged]
  refine Site.exclusively_validates hs.free ?_
  refine (Site.looks_onHost (Host.looks_get hs.quiet p.bridge)).bind fun link hlink => ?_
  by_cases hbridge : (!link.isBridge) = true
  · rw [if_pos hbridge]
    exact triple_throw_bind
  rw [if_neg hbridge]
  refine Triple.bind (prepares_of_achieves hs _ (Tracked.Achieves.takeDown p fun _ => ?_)).discard
    fun _ => ?_
  · rw [hlink]
    rfl
  · refine Triple.bind (Q := fun _ _ => True) (Triple.modify fun _ _ => trivial) fun _ => ?_
    exact Site.triple_publish (P := fun _ => True) _

/-- Every operation either succeeds or is refused by its checks, with the site unchanged. -/
theorem Operation.validates (hs : s.Ready m pm) (op : Operation) : Validates s (op.run m pm) := by
  cases op with
  | createVlan parent id addresses =>
    exact Triple.discard (Site.exclusively_validates hs.free
      ((makeVlan_prepares hs parent id addresses).concluded fun name => triple_currentVlan name))
  | updateVlan name addresses =>
    exact Triple.discard ((looks_ofExcept _).bind fun _ _ => Site.exclusively_validates hs.free
      ((reviseVlan_prepares hs name addresses).concluded fun _ => triple_currentVlan name))
  | deleteVlan name => exact deleteVlan_validates hs name
  | createBridge name slaves addresses =>
    exact Triple.discard (Site.exclusively_validates hs.free
      ((makeBridge_prepares hs name slaves addresses).concluded fun name =>
        triple_currentBridge name))
  | updateBridge name slaves addresses =>
    exact Triple.discard ((looks_ofExcept _).bind fun _ _ => Site.exclusively_validates hs.free
      ((reviseBridge_prepares hs name slaves addresses).concluded fun _ =>
        triple_currentBridge name))
  | deleteBridge name => exact deleteBridge_validates hs name
  | createProject name subnet => exact Triple.discard (createProject_validates hs name subnet)
  | deleteProject p => exact deleteProject_validates hs p

/-! ### Rules -/

/-- A rule is refused before it is appended: for its words, or because it is listed already. -/
theorem createRule_validates (hs : s.Ready m pm) (t : Table) (rule : Rule) :
    Validates s (Manager.createRule t rule) := by
  unfold Validates Manager.createRule
  refine (looks_ofExcept _).bind fun _ hcheck => Site.exclusively_validates hs.free ?_
  refine (Site.looks_onHost (Host.looks_chainRules hs.quiet t _)).bind fun existing _ => ?_
  dsimp only
  by_cases hmem : existing.contains rule.normalized = true
  · rw [if_pos hmem]
    exact triple_throw_bind
  rw [if_neg hmem]
  have hcreate : Host.Achieves true s.host.naming (fun g => g = s.host.state)
      (Host.perform (.createRule t rule.normalized)) fun _ _ => True :=
    Host.Achieves.perform (fun _ _ _ _ => trivial) fun _ g _ =>
      ⟨_, Call.effect_createRule.mpr ⟨hcheck, rfl⟩⟩
  refine Triple.bind (Q := fun _ _ => True) ((Site.triple_onHost hcreate).weaken ?_
    (fun _ _ _ => trivial) fun _ _ he => absurd he (by decide)) fun _ =>
      Triple.pure fun _ _ => trivial
  rintro _ rfl
  exact hs.holds rfl

/-- A rule that is listed is deleted, and one that is not is refused. -/
theorem deleteRule_validates (hs : s.Ready m pm) (t : Table) (rule : Rule) :
    Validates s (Manager.deleteRule t rule) := by
  unfold Validates Manager.deleteRule
  refine (looks_ofExcept _).bind fun _ _ => Site.exclusively_validates hs.free ?_
  refine (Site.looks_onHost (Host.looks_chainRules hs.quiet t _)).bind fun existing hexisting => ?_
  dsimp only
  by_cases hmem : (!existing.contains rule.normalized) = true
  · rw [if_pos hmem]
    exact triple_throw_bind
  rw [if_neg hmem]
  have hrule : rule.normalized ∈ s.host.state.rules.get t := by
    have hin : rule.normalized ∈ existing := by simpa using hmem
    rw [hexisting] at hin
    exact List.mem_of_mem_filter hin
  have hdelete : Host.Achieves true s.host.naming (fun g => g = s.host.state)
      (Host.perform (.deleteRule t rule.normalized)) fun _ _ => True := by
    refine Host.Achieves.perform (fun _ _ _ _ => trivial) ?_
    rintro - g rfl
    exact ⟨_, Call.effect_deleteRule.mpr ⟨hrule, rfl⟩⟩
  refine (Site.triple_onHost hdelete).weaken ?_ (fun _ _ _ => trivial)
    fun _ _ he => absurd he (by decide)
  rintro _ rfl
  exact hs.holds rfl

end Operations

/-! ## Validation is complete -/

namespace SiteRequest

/-- Whether a request creates, changes or deletes links or rules. -/
def IsEdit : SiteRequest → Prop
  | createRule .. | deleteRule .. | operation _ => True
  | _ => False

variable {m : Manager} {pm : ProjectManager} {s : Site} {r : SiteRequest}

/-- A request that edits the host either succeeds, or it fails and leaves the whole site as it was:
no call is made and no event published, and slots, files and pool stay. -/
theorem ok_or_unchanged (hs : s.Ready m pm) (hr : r.IsEdit) :
    (∃ s', r.run m pm s = .ok () s') ∨ ∃ e, r.run m pm s = .error e s := by
  have hvalidates : Validates s (r.run m pm) := by
    cases r with
    | createRule t rule => exact Triple.discard (createRule_validates hs t rule)
    | deleteRule t rule => exact deleteRule_validates hs t rule
    | operation op => exact op.validates hs
    | _ => exact hr.elim
  cases hrun : r.run m pm s with
  | ok u s' => exact .inl ⟨s', rfl⟩
  | error e s' =>
    obtain rfl := hvalidates.of_error rfl hrun
    exact .inr ⟨e, rfl⟩

/-- A site on which nothing can fail, with a VLAN on an interface. -/
def calmSite : Site :=
  { vlanSite with stored := { vlanSite.stored with machine := ⟨Scope.vlanHost, .none⟩ } }

theorem ready_calmSite : calmSite.Ready ⟨.standard⟩ ⟨.standard, "eth0"⟩ where
  quiet _ := rfl
  writable slot := by cases slot <;> rfl
  free := rfl
  distinct := sound_vlanSite.distinct
  manager := rfl
  projects := rfl

/-- A bridge that is to have one slave twice. -/
theorem ok_or_unchanged_calmSite :
    (∃ s', (operation (.createBridge "br" ["eth0", "eth0"] [])).run ⟨.standard⟩ ⟨.standard, "eth0"⟩
        calmSite = .ok () s') ∨
      ∃ e, (operation (.createBridge "br" ["eth0", "eth0"] [])).run ⟨.standard⟩ ⟨.standard, "eth0"⟩
        calmSite = .error e calmSite :=
  ok_or_unchanged ready_calmSite trivial

end SiteRequest

end HostNet
