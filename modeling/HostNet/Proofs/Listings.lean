/-
Listing and looking up.

The listing of bridges gives what the lookups of the names on the host give, one after another.  So
does the listing of VLANs, unless there is a managed VLAN of which parent or number can be told
neither from the kernel nor from its name.  A lookup of that name says that there is no such VLAN;
the listing says so too, and gives none of the others either.
-/

import HostNet.Proofs.ManagedBridges

namespace HostNet

open HostNet.Action

/-! ## Views of VLANs -/

/-- The views of some links, or the refusal of the first one that has none. -/
theorem VlanView.mapM_ofLink (ls : List Link) :
    ls.mapM ofLink = match ls.find? fun l => (ofLink? l).isNone with
      | none => .ok (ls.filterMap ofLink?)
      | some l => .error (.notFound "vlan" l.name) := by
  induction ls with
  | nil => rfl
  | cons l ls ih =>
    rw [List.mapM_cons, ih, ofLink, List.find?_cons, List.filterMap_cons]
    cases ofLink? l with
    | none => rfl
    | some v => cases ls.find? fun l => (ofLink? l).isNone <;> rfl

/-! ## What readings answer -/

namespace Host

variable {h g : Host}

theorem state_of_meet {op : HostOp} (hmeet : meet op h = .ok () g) : g.state = h.state := by
  rcases meet_cases op h with ⟨armed, hrun⟩ | ⟨armed, hrun⟩
  · rw [hrun] at hmeet
    cases hmeet
    rfl
  · rw [hrun] at hmeet
    cases hmeet

theorem list_of_meet (hmeet : meet .readLinks h = .ok () g) : list h = .ok h.state.listing g := by
  rw [← state_of_meet hmeet]
  simp only [list, bind, EStateM.bind, hmeet, EStateM.get, pure, EStateM.pure]

/-- A lookup that meets no failure answers the link of the name. -/
theorem get_of_meet (hmeet : meet .readLinks h = .ok () g) {name : String} {l : Link}
    (hl : h.state.find? name = some l) : get name h = .ok l g := by
  rw [← state_of_meet hmeet] at hl
  simp only [get, bind, EStateM.bind, hmeet, EStateM.get, HostState.link_eq_ok_iff.mpr hl]
  rfl

end Host

/-- An action goes on with what it has read off the host. -/
theorem Site.outcome_onHost_bind {α β : Type} {x : Action Host α} {s : Site} {a : α} {h : Host}
    (hx : x s.host = .ok a h) (f : α → Action Site β) :
    (onHost x >>= f).outcome s = (f a).outcome (s.withHost h) := by
  have hrun : (onHost x).outcome s = (.ok a, s.withHost h) := by rw [outcome, onHost_eq, hx]
  rw [outcome_bind, hrun]

namespace Manager

/-- What a lookup gives for the names of the links on the host, in their order, where it gives
one. -/
def lookups {α : Type} (lookup : String → Action Site α) (s : Site) : List α :=
  (s.host.state.listing.map Link.name).filterMap fun n => ((lookup n).outcome s).1.toOption

/-- The link is a managed VLAN of which parent or number cannot be told. -/
def obscure (m : Manager) (l : Link) : Bool :=
  l.isVlan && m.naming.manages l.name && (VlanView.ofLink? l).isNone

section Readings

variable {m : Manager} {s : Site} {h : Host}

/-! ## Listings -/

/-- VLANs are listed by viewing every managed one, and the first that cannot be viewed is the
error. -/
theorem outcome_listVlans (hmeet : Host.meet .readLinks s.host = .ok () h) :
    (m.listVlans.outcome s).1 =
      (s.host.state.listing.filter fun l => l.isVlan && m.naming.manages l.name).mapM
        VlanView.ofLink := by
  rw [listVlans, Site.outcome_onHost_bind (Host.list_of_meet hmeet), outcome_ofExcept]

/-- Bridges are listed by viewing every managed one. -/
theorem outcome_listBridges (hmeet : Host.meet .readLinks s.host = .ok () h) :
    (m.listBridges.outcome s).1 =
      (s.host.state.listing.filter fun l => l.isBridge && m.naming.manages l.name).mapM fun l =>
        BridgeView.ofLink l s.host.state.listing := by
  rw [listBridges, Site.outcome_onHost_bind (Host.list_of_meet hmeet), outcome_ofExcept]

/-! ## Lookups of names that are listed -/

/-- A managed name is looked up, and another one is refused. -/
theorem toOption_checkManaged_bind {α : Type} (what name : String) (x : Action Site α) :
    ((ofExcept (m.checkManaged what name) >>= fun _ => x).outcome s).1.toOption =
      if m.naming.manages name then (x.outcome s).1.toOption else none := by
  rw [outcome_bind, outcome_ofExcept]
  cases hmanages : m.naming.manages name with
  | true => rw [checkManaged_of_manages hmanages, if_pos rfl]
  | false =>
    rw [checkManaged_of_not_manages hmanages]
    rfl

/-- A listed link is looked up as a VLAN if it is managed and can be viewed. -/
theorem getVlan_of_mem (hd : s.host.state.Distinct) (hmeet : Host.meet .readLinks s.host = .ok () h)
    {l : Link} (hl : l ∈ s.host.state.listing) :
    ((m.getVlan l.name).outcome s).1.toOption =
      if m.naming.manages l.name then VlanView.ofLink? l else none := by
  have hfind := HostState.find?_of_mem hd (HostState.mem_listing.mp hl)
  rw [getVlan, toOption_checkManaged_bind,
    Site.outcome_onHost_bind (Host.get_of_meet hmeet hfind), outcome_ofExcept,
    VlanView.toOption_ofLink]

/-- A listed link is looked up as a bridge if it is managed and is one. -/
theorem getBridge_of_mem (hd : s.host.state.Distinct)
    (hmeet : Host.meet .readLinks s.host = .ok () h) {l : Link} (hl : l ∈ s.host.state.listing) :
    ((m.getBridge l.name).outcome s).1.toOption =
      if l.isBridge && m.naming.manages l.name then
        some (BridgeView.view l s.host.state.listing)
      else none := by
  have hfind := HostState.find?_of_mem hd (HostState.mem_listing.mp hl)
  rw [getBridge, toOption_checkManaged_bind, currentBridge,
    Site.outcome_onHost_bind (Host.list_of_meet hmeet), HostState.find?_listing hd, hfind]
  dsimp only
  rw [outcome_ofExcept, BridgeView.toOption_ofLink]
  cases l.isBridge <;> simp

/-! ## The listings are made of the lookups -/

/-- Lookups leave out the VLANs that cannot be viewed. -/
theorem lookups_getVlan (hd : s.host.state.Distinct)
    (hmeet : Host.meet .readLinks s.host = .ok () h) :
    lookups m.getVlan s =
      (s.host.state.listing.filter fun l => l.isVlan && m.naming.manages l.name).filterMap
        VlanView.ofLink? := by
  rw [lookups, List.filterMap_map, List.filterMap_filter]
  refine List.filterMap_congr fun l hl => ?_
  rw [Function.comp_apply, getVlan_of_mem hd hmeet hl]
  cases hvlan : l.isVlan with
  | true => rfl
  | false =>
    rw [VlanView.ofLink?_of_not_isVlan hvlan, ite_self]
    rfl

/-- Every managed bridge can be viewed, so lookups leave out none. -/
theorem lookups_getBridge (hd : s.host.state.Distinct)
    (hmeet : Host.meet .readLinks s.host = .ok () h) :
    lookups m.getBridge s =
      (s.host.state.listing.filter fun l => l.isBridge && m.naming.manages l.name).map fun l =>
        BridgeView.view l s.host.state.listing := by
  rw [lookups, List.filterMap_map, ← List.filterMap_eq_map', List.filterMap_filter]
  exact List.filterMap_congr fun l hl => getBridge_of_mem hd hmeet hl

/-- If the links can be read, the bridges that are listed are those that are found one by one, and
so are the VLANs, in the order of the links.  But the first VLAN that is obscure makes the whole
listing of VLANs fail. -/
theorem listings_of_lookups (hd : s.host.state.Distinct)
    (hmeet : Host.meet .readLinks s.host = .ok () h) :
    (m.listBridges.outcome s).1 = .ok (lookups m.getBridge s) ∧
    (m.listVlans.outcome s).1 = match s.host.state.listing.find? m.obscure with
      | none => .ok (lookups m.getVlan s)
      | some l => .error (.notFound "vlan" l.name) := by
  constructor
  · rw [outcome_listBridges hmeet, lookups_getBridge hd hmeet]
    refine mapM_eq_ok fun l hl => ?_
    have hbridge : l.isBridge = true := (Bool.and_eq_true_iff.mp (List.mem_filter.mp hl).2).1
    exact BridgeView.ofLink_eq_ok_iff.mpr ⟨hbridge, rfl⟩
  · have hobscure : (s.host.state.listing.filter fun l =>
        l.isVlan && m.naming.manages l.name).find? (fun l => (VlanView.ofLink? l).isNone) =
        s.host.state.listing.find? m.obscure := by
      rw [List.find?_filter]
      congr 1
      funext l
      rw [Bool.decide_and, Bool.decide_coe, Bool.decide_coe]
      rfl
    rw [outcome_listVlans hmeet, VlanView.mapM_ofLink, lookups_getVlan hd hmeet, hobscure]

end Readings

/-! ### A listing that hides a VLAN -/

/-- A host with a managed bridge and two managed VLANs, one of which is obscure. -/
def obscureHost : Host :=
  ⟨.standard,
    ⟨5, [⟨1, "eth0", .physical, [], none, none, none, true⟩,
      ⟨2, "rol.mgmt", .vlan, [], none, none, none, true⟩,
      ⟨3, "rol.x.5", .vlan, [], some "rol.x", some "eth0", some 5, true⟩,
      ⟨4, "rol.x", .bridge, [], none, none, none, true⟩], .const []⟩,
    [], fun _ => none⟩

/-- A site with this host. -/
def obscureSite : Site :=
  { SiteRequest.calmSite with
    stored := { SiteRequest.calmSite.stored with machine := ⟨obscureHost, .none⟩ } }

theorem distinct_obscureSite : obscureSite.host.state.Distinct := by
  unfold HostState.Distinct
  decide

/-- The bridge is listed, but no VLAN. -/
theorem listings_of_lookups_obscureSite :
    obscureSite.host.state.Distinct ∧
      Host.meet .readLinks obscureSite.host = .ok () obscureSite.host ∧
      ((⟨.standard⟩ : Manager).listBridges.outcome obscureSite).1 =
        .ok [⟨"rol.x", ["rol.x.5"], [], true⟩] ∧
      ((⟨.standard⟩ : Manager).listVlans.outcome obscureSite).1 =
        .error (.notFound "vlan" "rol.mgmt") := by
  obtain ⟨hbridges, hvlans⟩ :=
    listings_of_lookups (m := ⟨.standard⟩) (s := obscureSite) distinct_obscureSite rfl
  have hlookups : lookups (⟨.standard⟩ : Manager).getBridge obscureSite =
      [⟨"rol.x", ["rol.x.5"], [], true⟩] := by cbv
  have hfirst : obscureSite.host.state.listing.find? (obscure ⟨.standard⟩) =
      some ⟨2, "rol.mgmt", .vlan, [], none, none, none, true⟩ := by cbv
  rw [hlookups] at hbridges
  rw [hfirst] at hvlans
  exact ⟨distinct_obscureSite, rfl, hbridges, hvlans⟩

/-- The VLAN that is not obscure is found by its name. -/
theorem vlan_hidden_obscureSite :
    ((⟨.standard⟩ : Manager).listVlans.outcome obscureSite).1 =
        .error (.notFound "vlan" "rol.mgmt") ∧
      ((⟨.standard⟩ : Manager).getVlan "rol.x.5").outcome obscureSite =
        (.ok ⟨"rol.x.5", "eth0", 5, [], some "rol.x", true⟩, obscureSite) := by
  constructor <;> cbv

end Manager

end HostNet
