/-
Guarded links under the operations of a site.

Whatever is guarded on a host is guarded by every operation on the store and by every operation of
the managers: each of them makes its calls about a link that it has created, or that it has read as
a VLAN or as a managed bridge.  This holds of the runs that fail as well, and of the resets after
them.  What is known of the slots and of their files is kept by all that neither saves nor restores.
-/

import HostNet.Proofs.Guarded
import HostNet.Proofs.Operation
import HostNet.Manager.Rules

namespace HostNet

open HostNet.Action

/-- Whether a call is one about rules. -/
def Call.IsRule : Call → Prop
  | createRule .. | deleteRule .. => True
  | _ => False

/-- Guarded links, under any calls about rules. -/
structure LinkGuard (scope : Scope) (I : Naming → HostState → Prop) (U : String → Prop) : Prop
    extends Guard scope I U where
  rule : ∀ naming g g' c, Call.IsRule c → I naming g → c.effect naming g = .ok g' → I naming g'

/-- What a store has saved: the slots in memory, and the slot files. -/
structure Slots where
  saved : Snapshot
  backup : Option Snapshot
  files : SlotFiles

/-- The slots of a store and the files beside it. -/
def StoredMachine.slots (s : StoredMachine) : Slots :=
  ⟨s.store.saved, s.store.backup, s.machine.files⟩

/-- A store with the given scope and with slots that have `K`, on a host whose links and rules have
`I`. -/
structure StoredMachine.Guarded (scope : Scope) (I : Naming → HostState → Prop)
    (K : Slots → Prop) (s : StoredMachine) : Prop where
  scope_eq : s.store.scope = scope
  state : I s.machine.host.naming s.machine.host.state
  slots : K s.slots

variable {scope : Scope} {I : Naming → HostState → Prop} {K : Slots → Prop}
  {U : String → Prop} {α : Type} {φ : α → Prop}

theorem StoredMachine.Guarded.imp {J : Naming → HostState → Prop} {s : StoredMachine}
    (h : s.Guarded scope I K) (hIJ : ∀ naming g, I naming g → J naming g) : s.Guarded scope J K :=
  ⟨h.scope_eq, hIJ _ _ h.state, h.slots⟩

/-- What an action makes of links and rules, it makes of those below a store, and leaves the store
alone. -/
theorem StoredMachine.triple_onHost (scope : Scope) {x : Action Host α}
    {J : α → Naming → HostState → Prop} {F : Naming → HostState → Prop}
    (h : Triple (fun g => I g.naming g.state) x (fun a g => J a g.naming g.state)
      fun _ g => F g.naming g.state) :
    Triple (Guarded scope I K) (Store.onHost x) (fun a => Guarded scope (J a) K)
      fun _ => Guarded scope F K := by
  intro s hs
  have hrun := h s.machine.host hs.state
  rw [onHost_eq]
  cases hx : x s.machine.host with
  | ok a g =>
    rw [hx] at hrun
    exact ⟨hs.scope_eq, hrun, hs.slots⟩
  | error e g =>
    rw [hx] at hrun
    exact ⟨hs.scope_eq, hrun, hs.slots⟩

namespace LinkGuard

/-- No call changes how the host names its bridges. -/
theorem named (hI : LinkGuard scope I U) (n : Naming) :
    LinkGuard scope (fun naming g => naming = n ∧ I naming g) U where
  absent naming g name h hn := hI.absent naming g name h.2 hn
  owned naming g h := hI.owned naming g h.2
  call naming g g' c hc h heffect := ⟨h.1, hI.call naming g g' c hc h.2 heffect⟩
  rule naming g g' c hc h heffect := ⟨h.1, hI.rule naming g g' c hc h.2 heffect⟩

/-! ## Rules -/

/-- A call about rules keeps what guards links. -/
theorem performRule (hI : LinkGuard scope I U) {c : Call} (hc : c.IsRule) :
    Maintains (fun h => I h.naming h.state) (Host.perform c) fun _ => True :=
  Host.maintains_perform fun naming g g' hg heffect => hI.rule naming g g' c hc hg heffect

/-- Arranging a table takes calls about rules only, so it is guarded whatever rules it comes to. -/
theorem arrangeRules (hI : LinkGuard scope I U) (t : Table) (desired : List Rule) :
    Maintains (fun h => I h.naming h.state) (arrangeRules t desired) fun _ => True := by
  unfold HostNet.arrangeRules
  refine (Host.maintains_of_reads (Host.reads_tableRules t)).bind fun live _ => ?_
  dsimp only
  refine (Maintains.each fun r _ => hI.performRule (c := .deleteRule t r) trivial).bind
    fun _ _ => ?_
  refine (Maintains.each fun r _ => hI.performRule (c := .deleteRule t r) trivial).bind
    fun _ _ => ?_
  exact Maintains.each fun r _ => hI.performRule (c := .createRule t r) trivial

/-- Any snapshot may be applied. -/
theorem applySnapshot (hI : LinkGuard scope I U) (snapshot : Snapshot) :
    Maintains (fun h => I h.naming h.state) (scope.apply snapshot) fun _ => True :=
  hI.toGuard.apply snapshot (Maintains.each fun t _ => (hI.arrangeRules t _).within)

/-! ## The store -/

theorem onHost (scope : Scope) {x : Action Host α}
    (h : Maintains (fun g => I g.naming g.state) x φ) :
    Maintains (StoredMachine.Guarded scope I K) (Store.onHost x) φ :=
  (StoredMachine.triple_onHost scope (J := fun a naming g => φ a ∧ I naming g) h).weaken
    (fun _ hs => hs) (fun _ _ hs => ⟨hs.state.1, hs.scope_eq, hs.state.2, hs.slots⟩)
    fun _ _ hs => hs

theorem note (op : StoreOp) :
    Maintains (StoredMachine.Guarded scope I K) (Store.note op) fun _ => True :=
  Maintains.modify fun _ hs => ⟨hs.scope_eq, hs.state, hs.slots⟩

/-- Writing a slot file changes files at most, and so keeps what is said of any slots. -/
theorem keepSnapshot (hK : ∀ x, K x) (slot : Slot) (t : Snapshot) :
    Maintains (StoredMachine.Guarded scope I K) (Store.onMachine (Machine.keepSnapshot slot t))
      fun _ => True := by
  intro s hs
  unfold Store.onMachine Action.on Machine.keepSnapshot
  cases s.machine.files.write slot t.text with
  | ok files => exact ⟨trivial, hs.scope_eq, hs.state, hK _⟩
  | error fault => exact ⟨hs.scope_eq, hs.state, hK _⟩

/-- Whether the saved slot is written or reverted, its host is left alone. -/
theorem writeSavedOrRevert (hK : ∀ x, K x) (t : Snapshot) :
    Maintains (StoredMachine.Guarded scope I K) (Store.writeSavedOrRevert t) fun _ => True := by
  intro s hs
  unfold Store.writeSavedOrRevert Machine.keepSnapshot
  cases s.machine.files.write .saved t.text with
  | ok files => exact ⟨trivial, hs.scope_eq, hs.state, hK _⟩
  | error fault => exact ⟨hs.scope_eq, hs.state, hK _⟩

theorem getStored : Maintains (StoredMachine.Guarded scope I K) (get : Action StoredMachine _)
    fun s => s.store.scope = scope :=
  Maintains.get fun _ hs => hs.scope_eq

/-- A save only reads the host, and may put anything into the slots. -/
theorem save (scope : Scope) (I : Naming → HostState → Prop) (hK : ∀ x, K x) :
    Maintains (StoredMachine.Guarded scope I K) Store.save fun _ => True := by
  unfold Store.save
  refine (note .save).bind fun _ _ => getStored.bind fun s hs => ?_
  refine (onHost scope (Host.maintains_of_reads
    (StoredMachine.reads_capture _))).within.bind fun live _ => ?_
  refine getStored.bind fun s' _ => (keepSnapshot hK .backup _).bind fun _ _ => ?_
  refine (writeSavedOrRevert hK live).bind fun _ _ => ?_
  exact Maintains.modify fun _ hs => ⟨hs.scope_eq, hs.state, hK _⟩

/-- A restore applies the backup, and any snapshot may be applied. -/
theorem restore (hI : LinkGuard scope I U) (hK : ∀ x, K x) :
    Maintains (StoredMachine.Guarded scope I K) Store.restore fun _ => True := by
  unfold Store.restore
  refine (note .restore).bind fun _ _ => getStored.bind fun s hs => ?_
  dsimp only
  cases s.store.backup with
  | none => exact Maintains.throw _
  | some backup =>
    dsimp only
    rw [hs]
    refine (onHost scope (hI.applySnapshot backup)).within.bind fun _ _ => ?_
    refine (keepSnapshot hK .saved backup).bind fun _ _ => ?_
    exact Maintains.modify fun _ hs => ⟨hs.scope_eq, hs.state, hK _⟩

/-- A reset applies the saved snapshot and moves no slot. -/
theorem reset (hI : LinkGuard scope I U) :
    Maintains (StoredMachine.Guarded scope I K) Store.reset fun _ => True := by
  unfold Store.reset
  refine (note .reset).bind fun _ _ => getStored.bind fun s hs => ?_
  dsimp only
  rw [hs]
  exact (onHost scope (hI.applySnapshot _)).within

/-- A comparison reads the host and notes that it was made. -/
theorem isChanged (scope : Scope) (I : Naming → HostState → Prop) :
    Maintains (StoredMachine.Guarded scope I K) Store.isChanged fun _ => True := by
  unfold Store.isChanged
  refine (note .compare).bind fun _ _ => getStored.bind fun s hs => ?_
  refine (onHost scope (Host.maintains_of_reads
    (StoredMachine.reads_capture _))).bind fun live _ => ?_
  exact Maintains.pure trivial

end LinkGuard

/-- Links and rules on a host that a reset keeps guarded as well. -/
structure ResetGuard (scope : Scope) (I : Naming → HostState → Prop) (K : Slots → Prop)
    (U : String → Prop) : Prop extends Guard scope I U where
  reset : Maintains (StoredMachine.Guarded scope I K) Store.reset fun _ => True

/-- Where every call about rules is guarded, so is every reset. -/
theorem LinkGuard.resetGuard (hI : LinkGuard scope I U) (K : Slots → Prop) :
    ResetGuard scope I K U := ⟨hI.toGuard, hI.reset⟩

/-! ## Sites -/

namespace Site

/-- A site whose store is guarded. -/
def Guarded (scope : Scope) (I : Naming → HostState → Prop) (K : Slots → Prop) (s : Site) : Prop :=
  s.stored.Guarded scope I K

/-- The lock, the events and the pool of a site are no part of what is guarded. -/
theorem maintains_onStore {x : Action StoredMachine α}
    (h : Maintains (StoredMachine.Guarded scope I K) x φ) :
    Maintains (Guarded scope I K) (onStore x) φ :=
  triple_onStore h

theorem maintains_onHost (scope : Scope) {x : Action Host α}
    (h : Maintains (fun g => I g.naming g.state) x φ) :
    Maintains (Guarded scope I K) (onHost x) φ :=
  maintains_onStore (LinkGuard.onHost scope h)

/-- Readings keep what is guarded, whether they succeed or fail. -/
theorem maintains_reads {x : Action Host α} (hx : Host.Reads x) :
    Maintains (Guarded scope I K) (onHost x) fun _ => True :=
  maintains_onHost scope (Host.maintains_of_reads hx)

/-- Readings leave a guarded site guarded. -/
theorem Seen.guarded {s t : Site} (h : s.Seen t) (hs : s.Guarded scope I K) :
    t.Guarded scope I K := by
  obtain ⟨g, hg, rfl⟩ := h
  have hstate : I g.naming g.state := by
    rw [hg.naming, hg.state]
    exact hs.state
  exact ⟨hs.scope_eq, hstate, hs.slots⟩

/-- What an action that only reads answers with, it has seen on a guarded site. -/
theorem Inspects.maintains {ψ : Site → Prop} {φ : Site → α → Prop} {x : Action Site α}
    (hx : ∀ s : Site, s.Inspects (φ s) (ψ s) x) :
    Maintains (Guarded scope I K) x fun a => ∃ s : Site, s.Guarded scope I K ∧ φ s a :=
  (keeps hx fun _ _ => Seen.guarded).catch fun _ _ he => he.2

theorem maintains_publish (e : Event) : Maintains (Guarded scope I K) (publish e) fun _ => True :=
  Maintains.modify fun _ hs => hs

theorem maintains_advance (t : Tracker) (next : Phase) :
    Maintains (Guarded scope I K) (advance t next) fun _ => True :=
  (triple_advance (P := StoredMachine.Guarded scope I K) t next).post fun _ _ hs => ⟨trivial, hs.2⟩

/-- An operation that is refused because the lock is held leaves the site guarded, too. -/
theorem maintains_exclusively {operation : String} {x : Action Site α}
    (h : Maintains (Guarded scope I K) x φ) :
    Maintains (Guarded scope I K) (exclusively operation x) φ :=
  triple_exclusively h fun _ _ hs => hs

end Site

/-! ## Steps under a tracker -/

namespace Tracked

/-- An operation on a guarded site. -/
def Guarded (scope : Scope) (I : Naming → HostState → Prop) (K : Slots → Prop) (t : Tracked) :
    Prop :=
  t.site.Guarded scope I K

/-- What an action does to a site, it does to the site of an operation. -/
theorem triple_onSite {P : Site → Prop} {Q : α → Site → Prop} {E : Error → Site → Prop}
    {x : Action Site α} (h : Triple P x Q E) :
    Triple (fun t => P t.site) (onSite x) (fun a t => Q a t.site) fun e t => E e t.site :=
  (Triple.on (F := fun _ => True) h (fun _ _ => rfl) fun _ _ _ => trivial).weaken
    (fun _ ht => ⟨ht, trivial⟩) (fun _ _ ht => ht.1) fun _ _ ht => ht.1

theorem maintains_onSite {x : Action Site α} (h : Maintains (Site.Guarded scope I K) x φ) :
    Maintains (Guarded scope I K) (onSite x) φ :=
  triple_onSite h

theorem maintains_onHost (scope : Scope) {x : Action Host α}
    (h : Maintains (fun g => I g.naming g.state) x φ) :
    Maintains (Guarded scope I K) (onHost x) φ :=
  maintains_onSite (Site.maintains_onHost scope h)

/-- What an action makes of links and rules, it makes of those of an operation. -/
theorem triple_onHost (scope : Scope) {x : Action Host α} {J : α → Naming → HostState → Prop}
    {F : Naming → HostState → Prop}
    (h : Triple (fun g => I g.naming g.state) x (fun a g => J a g.naming g.state)
      fun _ g => F g.naming g.state) :
    Triple (Guarded scope I K) (onHost x) (fun a => Guarded scope (J a) K)
      fun _ => Guarded scope F K :=
  triple_onSite (Site.triple_onStore (StoredMachine.triple_onHost scope h))

theorem maintains_touched : Maintains (Guarded scope I K) touched fun _ => True :=
  Maintains.modify fun _ ht => ht

theorem maintains_rename (link : String) :
    Maintains (Guarded scope I K) (rename link) fun _ => True :=
  Maintains.modify fun _ ht => ht

/-- What is said of the store below a tracker does not depend on the phase. -/
theorem triple_advance {R : StoredMachine → Prop} {E : Error → Tracked → Prop} (next : Phase) :
    Triple (fun t => R t.site.stored) (advance next) (fun _ t => R t.site.stored) E := by
  unfold advance
  refine Triple.bind (Q := fun _ t => R t.site.stored) (Triple.get fun _ ht => ht) fun t => ?_
  refine Triple.bind (Q := fun _ t => R t.site.stored) ?_ fun t' => Triple.modify fun _ ht => ht
  exact (triple_onSite (Site.triple_advance (F := fun _ _ => False) t.tracker next)).weaken
    (fun _ ht => ht) (fun _ _ ht => ht.2) fun _ _ ht => ht.elim

theorem maintains_advance (next : Phase) :
    Maintains (Guarded scope I K) (advance next) fun _ => True :=
  (triple_advance (R := StoredMachine.Guarded scope I K) next).post fun _ _ ht => ⟨trivial, ht⟩

/-- What a save makes of a store, it makes of the store of an operation. -/
theorem triple_save {R : StoredMachine → Prop}
    (hsave : Triple (StoredMachine.Guarded scope I K) Store.save (fun _ => R)
      fun _ => StoredMachine.Guarded scope I K) {step : String} :
    Triple (Guarded scope I K) (onSite (Action.within step (Site.onStore Store.save)))
      (fun _ t => R t.site.stored) fun _ => Guarded scope I K :=
  triple_onSite (P := Site.Guarded scope I K) (Q := fun _ s => R s.stored)
    (E := fun _ => Site.Guarded scope I K) (Site.triple_onStore hsave).within

end Tracked

namespace Guard

open Tracked

variable (hI : Guard scope I U)
include hI

/-- A named step that stays within the guarded names is guarded. -/
theorem step {step : String} {c : Call} (hc : c.Within U) :
    Maintains (Tracked.Guarded scope I K) (Tracked.onHost (Action.within step (Host.perform c)))
      fun _ => True :=
  maintains_onHost scope (hI.perform hc).within

theorem change {step : String} {c : Call} (hc : c.Within U) :
    Maintains (Tracked.Guarded scope I K) (Tracked.change step c) fun _ => True :=
  (hI.step hc).bind fun _ _ => maintains_touched

theorem unnoted {c : Call} (hc : c.Within U) :
    Maintains (Tracked.Guarded scope I K) (Tracked.onHost (Host.perform c)) fun _ => True :=
  maintains_onHost scope (hI.perform hc)

/-- Exchanging addresses touches one link, so its name is the only one to be guarded. -/
theorem assignAddresses {name : String} (hname : U name) (desired : List IpNet) :
    Maintains (Tracked.Guarded scope I K) (Tracked.assignAddresses name desired) fun _ => True := by
  unfold Tracked.assignAddresses
  refine (maintains_onHost scope (Host.maintains_of_reads (Host.reads_get name))).bind
    fun link _ => ?_
  dsimp only
  refine (Maintains.each fun net _ => hI.change (c := .deleteAddress name net) hname).bind
    fun _ _ => ?_
  exact Maintains.each fun net _ => hI.change (c := .addAddress name net) hname

/-- Exchanging slaves sets and unsets masters, which no guard asks a name for. -/
theorem assignSlaves (bridge : String) (desired : List String) :
    Maintains (Tracked.Guarded scope I K) (Tracked.assignSlaves bridge desired) fun _ => True := by
  unfold Tracked.assignSlaves
  refine (maintains_onHost scope (Host.maintains_of_reads Host.reads_list)).bind fun links _ => ?_
  dsimp only
  refine (Maintains.each fun slave _ => hI.change (c := .unsetLinkMaster slave) trivial).bind
    fun _ _ => ?_
  exact Maintains.each fun slave _ => hI.change (c := .setLinkMaster slave bridge) trivial

end Guard

namespace ResetGuard

variable (hI : ResetGuard scope I K U)
include hI

/-- A recovery resets the host if the steps have changed it, and only tells of it otherwise. -/
theorem recover (t : Tracker) (e : Error) :
    Maintains (Site.Guarded scope I K) (Site.recover t e) fun _ => True := by
  unfold Site.recover
  refine (Site.maintains_advance t .failed).bind fun t₁ _ => ?_
  dsimp only
  refine Maintains.ite (fun _ => Maintains.pure trivial) fun _ => ?_
  refine (Site.maintains_advance t₁ .resetting).bind fun t₂ _ => ?_
  refine (Site.maintains_onStore hI.reset).attempt.bind fun r _ => ?_
  cases r with
  | ok u =>
    exact (Site.maintains_advance t₂ .reset).discard.bind fun _ _ => Maintains.pure trivial
  | error resetError =>
    refine (Site.maintains_advance t₂ .resetFailed).discard.bind fun _ _ => ?_
    exact (Site.maintains_publish _).bind fun _ _ => Maintains.pure trivial

/-- Steps that leave a guarded site where they fail are undone by a reset that keeps it guarded. -/
theorem triple_withRecovery (t : Tracker) {steps : Action Tracked α} {P : Tracked → Prop}
    {Q : α → Tracked → Prop} (h : Triple P steps Q fun _ => Tracked.Guarded scope I K) :
    Triple (fun s => P ⟨s, t⟩) (Site.withRecovery t steps) (fun r s => Q r.1 ⟨s, r.2⟩)
      fun _ => Site.Guarded scope I K := by
  intro s hs
  have hrun := h ⟨s, t⟩ hs
  unfold Site.withRecovery
  cases hx : steps ⟨s, t⟩ with
  | ok a p =>
    rw [hx] at hrun
    exact hrun
  | error e p =>
    rw [hx] at hrun
    have hthrow : Triple (Site.Guarded scope I K)
        (do throw (← Site.recover p.tracker e) : Action Site (α × Tracker))
        (fun r s => Q r.1 ⟨s, r.2⟩) fun _ => Site.Guarded scope I K :=
      Triple.bind (hI.recover p.tracker e) fun e' => Triple.throw fun _ hs => hs.2
    exact hthrow p.site hrun

/-- Steps under recovery are guarded if they are so by themselves, and if a reset is. -/
theorem withRecovery (t : Tracker) {steps : Action Tracked α}
    (h : Maintains (Tracked.Guarded scope I K) steps φ) :
    Maintains (Site.Guarded scope I K) (Site.withRecovery t steps) fun r => φ r.1 :=
  hI.triple_withRecovery t h

end ResetGuard

end HostNet
