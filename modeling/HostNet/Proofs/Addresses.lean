/-
Which addresses an application gives out.

The calls of an application give a link only addresses that are recorded under its name, whatever
else they do and wherever they stop.  So what such calls keep is kept by an application.  In
particular, if every link carries only what `C` allows under its name, and every record has no more,
then the links carry no more at every exit.
-/

import HostNet.Proofs.Guarded

namespace HostNet

open HostNet.Action

variable {C : String → IpNet → Prop}

/-- Every link carries only addresses that `C` allows under its name. -/
def HostState.Bears (C : String → IpNet → Prop) (g : HostState) : Prop :=
  ∀ l ∈ g.links, ∀ net ∈ l.addresses, C l.name net

/-- Every record has only such addresses. -/
def Snapshot.Bears (C : String → IpNet → Prop) (x : Snapshot) : Prop :=
  ∀ r ∈ x.links, ∀ net ∈ r.addresses, C r.name net

/-- A call gives a link only an address that `C` allows. -/
def Call.Gives (C : String → IpNet → Prop) : Call → Prop
  | addAddress name net => C name net
  | _ => True

/-! ## Calls and captures -/

theorem HostState.Bears.mono {D : String → IpNet → Prop} {g : HostState} (h : g.Bears C)
    (hCD : ∀ name net, C name net → D name net) : g.Bears D :=
  fun l hl net hnet => hCD _ _ (h l hl net hnet)

theorem Snapshot.Bears.mono {D : String → IpNet → Prop} {x : Snapshot} (h : x.Bears C)
    (hCD : ∀ name net, C name net → D name net) : x.Bears D :=
  fun r hr net hnet => hCD _ _ (h r hr net hnet)

/-- The canonical form sorts the addresses of a record, and adds none. -/
theorem Snapshot.Bears.normalized {x : Snapshot} (h : x.Bears C) : x.normalized.Bears C := by
  intro r hr net hnet
  obtain ⟨q, hq, rfl⟩ := Snapshot.mem_links_normalized.mp hr
  exact h q hq net (mem_sortedSet.mp hnet)

namespace HostState.Bears

variable {naming : Naming} {g g' : HostState} {c : Call}

/-- A new link without addresses bears none that is not allowed. -/
theorem insert (h : g.Bears C) {l : Link} (hl : l.addresses = []) : (g.insert l).Bears C :=
  forall_mem_insert (φ := fun l => ∀ net ∈ l.addresses, C l.name net) h fun net hnet => by
    rw [show (g.indexed l).addresses = [] from hl] at hnet
    cases hnet

/-- An update that gives the link allowed addresses only, if any, keeps those of the host
allowed. -/
theorem update (h : g.Bears C) {n : String} {f : Link → Link} (hname : ∀ l, (f l).name = l.name)
    (haddresses : ∀ l, l.name = n → ∀ net ∈ (f l).addresses, net ∈ l.addresses ∨ C n net) :
    (g.update n f).Bears C := by
  intro m hm net hnet
  obtain ⟨l, hl, rfl⟩ := List.mem_map.mp hm
  by_cases hln : l.name = n
  · rw [if_pos (beq_iff_eq.mpr hln)] at hnet ⊢
    rw [hname]
    exact (haddresses l hln net hnet).elim (h l hl net) fun hC => hln ▸ hC
  · rw [if_neg (by simpa using hln)] at hnet ⊢
    exact h l hl net hnet

/-- The removed link carries nothing. -/
theorem dropped (h : g.Bears C) (name : String) :
    (g.dropped name).Bears fun n net => n ≠ name ∧ C n net := by
  intro m hm net hnet
  obtain ⟨l, hl, hlm⟩ := List.mem_filterMap.mp hm
  rw [Link.name_of_afterRemoval hlm]
  unfold Link.afterRemoval at hlm
  split at hlm
  · cases hlm
  · next hstays =>
    obtain rfl := Option.some.inj hlm
    refine ⟨(not_or.mp hstays).1, h l hl net ?_⟩
    split at hnet <;> exact hnet

/-- A call adds to the addresses of links what it gives. -/
theorem effect (h : g.Bears C) (hc : c.Gives C) (heffect : c.effect naming g = .ok g') :
    g'.Bears C := by
  cases c with
  | createVlan parent id =>
    obtain ⟨-, -, -, rfl⟩ := Call.effect_createVlan.mp heffect
    exact h.insert rfl
  | createBridge name =>
    obtain ⟨-, -, rfl⟩ := Call.effect_createBridge.mp heffect
    exact h.insert rfl
  | setLinkUp name =>
    obtain ⟨-, rfl⟩ := Call.effect_setLinkUp.mp heffect
    exact h.update (fun _ => rfl) fun _ _ _ hnet => .inl hnet
  | setLinkMaster slave master =>
    obtain ⟨-, -, -, rfl⟩ := Call.effect_setLinkMaster.mp heffect
    exact h.update (fun _ => rfl) fun _ _ _ hnet => .inl hnet
  | unsetLinkMaster name =>
    obtain ⟨-, rfl⟩ := Call.effect_unsetLinkMaster.mp heffect
    exact h.update (fun _ => rfl) fun _ _ _ hnet => .inl hnet
  | deleteLink name =>
    obtain ⟨-, rfl⟩ := Call.effect_deleteLink.mp heffect
    exact (h.dropped name).mono fun _ _ hC => hC.2
  | addAddress name net =>
    obtain ⟨-, rfl⟩ := Call.effect_addAddress.mp heffect
    refine h.update (fun _ => rfl) fun l _ net' hnet' => ?_
    rcases List.mem_append.mp hnet' with hnet' | hnet'
    · exact .inl hnet'
    · exact .inr (List.mem_singleton.mp hnet' ▸ hc)
  | deleteAddress name net =>
    obtain ⟨-, rfl⟩ := Call.effect_deleteAddress.mp heffect
    exact h.update (fun _ => rfl) fun _ _ _ hnet => .inl (List.mem_of_mem_filter hnet)
  | createRule t r =>
    obtain ⟨-, rfl⟩ := Call.effect_createRule.mp heffect
    exact h
  | deleteRule t r =>
    obtain ⟨-, rfl⟩ := Call.effect_deleteRule.mp heffect
    exact h

/-- A capture records what links carry. -/
theorem snapshotOf (h : g.Bears C) (scope : Scope) : (scope.snapshotOf g).Bears C := by
  refine Snapshot.Bears.normalized fun r hr net hnet => ?_
  obtain ⟨l, hl, hlr⟩ := List.mem_filterMap.mp hr
  obtain ⟨k, -, rfl⟩ := Option.map_eq_some_iff.mp hlr
  exact h l (HostState.mem_listing.mp hl) net hnet

end HostState.Bears

/-! ## Applications -/

section Apply

variable {I : Naming → HostState → Prop} {scope : Scope} {target : Snapshot}
  (hI : ∀ naming g g' c, Call.Gives C c → I naming g → c.effect naming g = .ok g' → I naming g')
include hI

/-- A call keeps the addresses allowed if the one that it may give is. -/
theorem Host.maintains_gives {c : Call} (hc : c.Gives C) :
    Maintains (fun h => I h.naming h.state) (perform c) fun _ => True :=
  maintains_perform fun naming g g' hg heffect => hI naming g g' c hc hg heffect

/-- Arranging rules gives no link an address. -/
theorem maintains_arrangeRules (t : Table) (desired : List Rule) :
    Maintains (fun h => I h.naming h.state) (arrangeRules t desired) fun _ => True := by
  unfold arrangeRules
  refine (Host.maintains_of_reads (Host.reads_tableRules t)).bind fun live _ => ?_
  dsimp only
  have hdelete (r : Rule) := Host.maintains_gives hI (c := .deleteRule t r) trivial
  refine (Maintains.each fun r _ => hdelete r).bind fun _ _ => ?_
  refine (Maintains.each fun r _ => hdelete r).bind fun _ _ => ?_
  exact Maintains.each fun r _ => Host.maintains_gives hI (c := .createRule t r) trivial

/-- A link is recreated without addresses; they come when it is settled. -/
theorem maintains_recreateBridge (r : LinkRecord) :
    Maintains (fun h => I h.naming h.state) (recreateBridge r) fun _ => True := by
  unfold recreateBridge
  cases r.kind with
  | vlan parent id => exact Maintains.pure trivial
  | bridge =>
    refine Maintains.bind (φ := fun _ => True) ?_ fun created _ => Maintains.except _
    exact ((Host.makes_createBridge r.name).maintains fun naming g g' hg heffect =>
      ⟨trivial, hI naming g g' (.createBridge r.name) trivial hg heffect⟩).within

theorem maintains_recreateVlan (r : LinkRecord) :
    Maintains (fun h => I h.naming h.state) (recreateVlan r) fun _ => True := by
  unfold recreateVlan
  cases r.kind with
  | bridge => exact Maintains.pure trivial
  | vlan parent id =>
    refine (Maintains.except _).bind fun vid _ => ?_
    refine Maintains.bind (φ := fun _ => True) ?_ fun created _ => Maintains.except _
    exact ((Host.makes_createVlan parent vid).maintains fun naming g g' hg heffect =>
      ⟨trivial, hI naming g g' (.createVlan parent vid) trivial hg heffect⟩).within

/-- Arranging a link gives it the addresses that are recorded and that it does not have. -/
theorem maintains_arrangeLink {r : LinkRecord} (hr : ∀ net ∈ r.addresses, C r.name net) :
    Maintains (fun h => I h.naming h.state) (arrangeLink r) fun _ => True := by
  unfold arrangeLink
  refine (Host.maintains_of_reads (Host.reads_get r.name)).bind fun live _ => ?_
  refine Maintains.bind (φ := fun _ => True) ?_ fun _ _ => ?_
  · unfold arrangeMaster
    refine Maintains.ite (fun _ => Maintains.pure trivial) fun _ => ?_
    cases r.master with
    | some master => exact Host.maintains_gives hI (c := .setLinkMaster r.name master) trivial
    | none => exact Host.maintains_gives hI (c := .unsetLinkMaster r.name) trivial
  · refine (Maintains.each fun net _ =>
      Host.maintains_gives hI (c := .deleteAddress r.name net) trivial).bind fun _ _ => ?_
    refine (Maintains.each fun net hnet =>
      Host.maintains_gives hI (c := .addAddress r.name net) (hr net ?_)).bind fun _ _ => ?_
    · exact List.mem_of_mem_filter (List.mem_eraseDups.mp hnet)
    · exact Maintains.ite (fun _ => Host.maintains_gives hI (c := .setLinkUp r.name) trivial)
        fun _ => Maintains.pure trivial

theorem maintains_attach (a : Attachment) :
    Maintains (fun h => I h.naming h.state) (attach a) fun _ => True := by
  unfold attach
  refine (Host.maintains_of_reads (Host.reads_get a.slave)).within.bind fun slave _ => ?_
  exact Maintains.ite
    (fun _ => (Host.maintains_gives hI (c := .setLinkMaster a.slave a.master) trivial).within)
    fun _ => Maintains.pure trivial

/-- All addresses that an application gives are recorded in the snapshot it applies. -/
theorem Scope.maintains_applyLinks (current : Snapshot) (htarget : target.Bears C) :
    Maintains (fun h => I h.naming h.state) (applyLinks current target) fun _ => True := by
  have hdelete (r : LinkRecord) :
      Maintains (fun h => I h.naming h.state) (deleteStale r.name) fun _ => True :=
    Host.maintains_deleteStale (Host.maintains_gives hI (c := .deleteLink r.name) trivial)
  unfold applyLinks detachStale
  refine (Maintains.each fun a _ =>
    (Host.maintains_gives hI (c := .unsetLinkMaster a.slave) trivial).within).bind fun _ _ => ?_
  refine (Maintains.each fun r _ => hdelete r).bind fun _ _ => ?_
  refine (Maintains.each fun r _ => maintains_recreateBridge hI r).bind fun _ _ => ?_
  refine (Maintains.each fun r _ => maintains_recreateVlan hI r).bind fun _ _ => ?_
  refine (Maintains.each fun r hr =>
    (maintains_arrangeLink hI (htarget r hr)).within).bind fun _ _ => ?_
  exact Maintains.each fun a _ => maintains_attach hI a

/-- What calls keep that give out only recorded addresses, an application keeps. -/
theorem Scope.maintains_apply (htarget : target.Bears C) :
    Maintains (fun h => I h.naming h.state) (scope.apply target) fun _ => True := by
  unfold apply applyRules
  dsimp only
  refine (Maintains.each fun t _ => (maintains_arrangeRules hI t _).within).bind fun _ _ => ?_
  refine (Host.maintains_of_reads (StoredMachine.reads_capture scope)).bind fun current _ => ?_
  exact maintains_applyLinks hI current htarget.normalized

end Apply

end HostNet
