/-
What a host has of the subnets of projects, and whose it is.

A host has something of a subnet where a managed link carries the gateway of it, or where the NAT
table lists its rule.  `SubnetsOwned` says that whatever is had of some subnets is that of live
projects, of a host and of what is recorded of one.  A project with a subnet of its own, and the
deletion of one, keep this for the projects that are live then.  So do captures and applications
for the same projects: a capture records what the host has, and an application brings what is
recorded.
-/

import HostNet.Proofs.Addresses
import HostNet.Proofs.Generations
import HostNet.Proofs.ProjectEffects
import HostNet.Proofs.RuleSteps
import HostNet.Proofs.SlotGuard

namespace HostNet

open HostNet.Action

/-! ## Gateways -/

/-- The address of a whole subnet of 24 bits ends in a zero byte. -/
theorem Network.toNat_address_of_truncated {n : Ipv4Net} (hlength : n.length = 24)
    (hn : n.truncated = n) : n.address.toNat < 2 ^ 32 ∧ n.address.toNat % 256 = 0 := by
  have haddress : n.address.toNat < 2 ^ 32 := n.address.isLt
  have hshift := n.toNat_address_truncated
  rw [hn, hostBits, hlength, show Family.width .v4 - 24 = 8 from rfl,
    Nat.shiftRight_eq_div_pow, Nat.shiftLeft_eq] at hshift
  exact ⟨haddress, by omega⟩

/-- Subnets with a prefix length of 24 and without host bits have different gateways. -/
theorem firstHostOf_inj {m n : Ipv4Net} (hm : m.length = 24 ∧ m.truncated = m)
    (hn : n.length = 24 ∧ n.truncated = n) (h : firstHostOf m = firstHostOf n) : m = n := by
  obtain ⟨hmlt, hmbits⟩ := Network.toNat_address_of_truncated hm.1 hm.2
  obtain ⟨hnlt, hnbits⟩ := Network.toNat_address_of_truncated hn.1 hn.2
  have haddress : m.address.toNat = n.address.toNat := by
    unfold firstHostOf at h
    rw [hm.2, hn.2] at h
    have hfirst : BitVec.ofNat 32 (min (m.address.toNat + 1) 0xFFFFFFFF) =
        BitVec.ofNat 32 (min (n.address.toNat + 1) 0xFFFFFFFF) :=
      congrArg Network.address (IpNet.v4.inj h)
    have hnat := congrArg BitVec.toNat hfirst
    rw [BitVec.toNat_ofNat, BitVec.toNat_ofNat] at hnat
    omega
  apply Network.rank_inj
  rw [Network.rank, Network.rank, haddress, hm.1, hn.1]

/-! ## What is had of a subnet -/

/-- A managed link carries the gateway of the subnet, or the NAT table lists its rule. -/
def HostState.Uses (naming : Naming) (n : Ipv4Net) (g : HostState) : Prop :=
  (∃ l ∈ g.links, naming.manages l.name = true ∧ firstHostOf n ∈ l.addresses) ∨
    Rule.masquerade (.v4 n) ∈ g.rules.get .nat

/-- Such a link or such a rule is recorded. -/
def Snapshot.Uses (naming : Naming) (n : Ipv4Net) (x : Snapshot) : Prop :=
  (∃ r ∈ x.links, naming.manages r.name = true ∧ firstHostOf n ∈ r.addresses) ∨
    Rule.masquerade (.v4 n) ∈ x.rulesOf .nat

/-- A managed link may carry the gateway of a subnet only if it is the bridge of a live project in
that subnet. -/
def Allotted (naming : Naming) (subnets : List Ipv4Net) (live : List Project) (name : String)
    (net : IpNet) : Prop :=
  naming.manages name = true → ∀ n ∈ subnets, net = firstHostOf n →
    ∃ p ∈ live, p.bridge = name ∧ p.subnet = n

/-- Rules are listed once, and those of subnets are rules of live projects. -/
structure RulesOwned (subnets : List Ipv4Net) (live : List Project) (rules : List Rule) : Prop where
  nodup : rules.Nodup
  owner : ∀ n ∈ subnets, Rule.masquerade (.v4 n) ∈ rules → ∃ p ∈ live, p.subnet = n

/-- Whatever a host has of the subnets is that of live projects. -/
structure HostState.SubnetsOwned (naming : Naming) (subnets : List Ipv4Net) (live : List Project)
    (g : HostState) : Prop where
  distinct : g.Distinct
  bears : g.Bears (Allotted naming subnets live)
  nat : RulesOwned subnets live (g.rules.get .nat)

/-- Whatever is recorded of the subnets is that of live projects. -/
structure Snapshot.SubnetsOwned (naming : Naming) (subnets : List Ipv4Net) (live : List Project)
    (x : Snapshot) : Prop where
  bears : x.Bears (Allotted naming subnets live)
  nat : RulesOwned subnets live (x.rulesOf .nat)

section SubnetsOwned

variable {naming : Naming} {subnets : List Ipv4Net} {live : List Project} {p : Project}
  {g : HostState} {x : Snapshot}

/-- What is allotted stays so when there is one project more. -/
theorem Allotted.append (p : Project) (name : String) (net : IpNet)
    (h : Allotted naming subnets live name net) :
    Allotted naming subnets (live ++ [p]) name net := by
  intro hname n hn hnet
  obtain ⟨q, hq, howner⟩ := h hname n hn hnet
  exact ⟨q, List.mem_append_left _ hq, howner⟩

theorem RulesOwned.sublist {rules now : List Rule} (h : RulesOwned subnets live rules)
    (hsub : now.Sublist rules) : RulesOwned subnets live now :=
  ⟨h.nodup.sublist hsub, fun n hn hrule => h.owner n hn (hsub.mem hrule)⟩

/-- Rules that live projects own are owned when there is one project more. -/
theorem RulesOwned.append {rules : List Rule} (h : RulesOwned subnets live rules) (p : Project) :
    RulesOwned subnets (live ++ [p]) rules := by
  refine ⟨h.nodup, fun n hn hrule => ?_⟩
  obtain ⟨q, hq, hsubnet⟩ := h.owner n hn hrule
  exact ⟨q, List.mem_append_left _ hq, hsubnet⟩

theorem Snapshot.SubnetsOwned.append (h : x.SubnetsOwned naming subnets live) (p : Project) :
    x.SubnetsOwned naming subnets (live ++ [p]) :=
  ⟨h.bears.mono (Allotted.append p), h.nat.append p⟩

/-- Where nothing is had of the subnets, there need be no projects. -/
theorem HostState.subnetsOwned_of_unused (hd : g.Distinct) (hnat : (g.rules.get .nat).Nodup)
    (h : ∀ n ∈ subnets, ¬ g.Uses naming n) : g.SubnetsOwned naming subnets [] where
  distinct := hd
  bears l hl _ hnet hname n hn heq := (h n hn (.inl ⟨l, hl, hname, heq ▸ hnet⟩)).elim
  nat := ⟨hnat, fun n hn hrule => (h n hn (.inr hrule)).elim⟩

/-- Of subnets that a snapshot does not use, nothing is recorded that could lack an owner. -/
theorem Snapshot.subnetsOwned_of_unused (hnat : (x.rulesOf .nat).Nodup)
    (h : ∀ n ∈ subnets, ¬ x.Uses naming n) : x.SubnetsOwned naming subnets [] where
  bears r hr _ hnet hname n hn heq := (h n hn (.inl ⟨r, hr, hname, heq ▸ hnet⟩)).elim
  nat := ⟨hnat, fun n hn hrule => (h n hn (.inr hrule)).elim⟩

/-- A subnet that the host has something of is that of a live project. -/
theorem HostState.SubnetsOwned.owner (h : g.SubnetsOwned naming subnets live) {n : Ipv4Net}
    (hn : n ∈ subnets) (hused : g.Uses naming n) : ∃ p ∈ live, p.subnet = n := by
  rcases hused with ⟨l, hl, hname, hnet⟩ | hrule
  · obtain ⟨p, hp, -, hsubnet⟩ := h.bears l hl _ hnet hname n hn rfl
    exact ⟨p, hp, hsubnet⟩
  · exact h.nat.owner n hn hrule

/-- Two managed links with the gateway of one subnet are the bridge of one project. -/
theorem HostState.SubnetsOwned.eq_of_gateway (h : g.SubnetsOwned naming subnets live)
    (hlive : (live.map Project.subnet).Nodup) {n : Ipv4Net} (hn : n ∈ subnets) {l m : Link}
    (hl : l ∈ g.links) (hm : m ∈ g.links) (hlname : naming.manages l.name = true)
    (hmname : naming.manages m.name = true) (hlnet : firstHostOf n ∈ l.addresses)
    (hmnet : firstHostOf n ∈ m.addresses) : l = m := by
  obtain ⟨p, hp, hpl, hpn⟩ := h.bears l hl _ hlnet hlname n hn rfl
  obtain ⟨q, hq, hqm, hqn⟩ := h.bears m hm _ hmnet hmname n hn rfl
  have hpq : p = q := List.inj_on_of_nodup_map hlive hp hq (hpn.trans hqn.symm)
  refine List.inj_on_of_nodup_map h.distinct hl hm ?_
  rw [← hpl, ← hqm, hpq]

/-! ## One project more or less -/

/-- A new project has a subnet of its own. -/
theorem HostState.SubnetsOwned.withProject (h : g.SubnetsOwned naming subnets live)
    (hsubnets : ∀ n ∈ subnets, n.length = 24 ∧ n.truncated = n) (hp : p.subnet ∈ subnets)
    (hnew : p.subnet ∉ live.map Project.subnet) (uplink : String) :
    (g.withProject p uplink).SubnetsOwned naming subnets (live ++ [p]) where
  distinct := h.distinct.withProject
  bears := by
    have hbare := (h.bears.mono (Allotted.append p)).insert
      (l := Link.bare 0 p.bridge .bridge) rfl
    have hbridge : (g.withBridge p).Bears (Allotted naming subnets (live ++ [p])) := by
      refine hbare.update (fun _ => rfl) fun l _ net hnet => ?_
      refine (List.mem_append.mp hnet).imp_right fun hnet hname n hn hgateway => ?_
      -- The gateway tells its subnet from the others.
      rw [List.mem_singleton.mp hnet] at hgateway
      exact ⟨p, List.mem_append_right _ (List.mem_singleton_self p), rfl,
        firstHostOf_inj (hsubnets _ hp) (hsubnets _ hn) hgateway⟩
    have hruled : ((g.withBridge p).appendRule .nat p.masqueradeRule).Bears
        (Allotted naming subnets (live ++ [p])) := hbridge
    have hattached := hruled.update (n := uplink)
      (f := fun l => { l with master := some p.bridge }) (fun _ => rfl) fun _ _ _ hnet => .inl hnet
    exact hattached.update (f := fun l => { l with isUp := true }) (fun _ => rfl)
      fun _ _ _ hnet => .inl hnet
  nat := by
    rw [rules_withProject, if_pos rfl]
    refine ⟨nodup_append_singleton h.nat.nodup fun hrule => ?_, fun n hn hrule => ?_⟩
    · obtain ⟨q, hq, hsubnet⟩ := h.nat.owner _ hp hrule
      exact hnew (hsubnet ▸ List.mem_map_of_mem hq)
    · rcases List.mem_append.mp hrule with hrule | hrule
      · exact (h.nat.append p).owner n hn hrule
      · refine ⟨p, List.mem_append_right _ (List.mem_singleton_self p), ?_⟩
        have htruncated := Rule.truncated_eq_of_masquerade (List.mem_singleton.mp hrule)
        rw [(hsubnets n hn).2, (hsubnets _ hp).2] at htruncated
        exact htruncated.symm

/-- The bridge and the rule of a project go with it. -/
theorem HostState.SubnetsOwned.withoutProject (h : g.SubnetsOwned naming subnets live)
    (p : Project) : (g.withoutProject p).SubnetsOwned naming subnets (live.erase p) where
  distinct := h.distinct.withoutProject
  bears := by
    have hruled : (g.withRules .nat ((g.rules.get .nat).erase p.masqueradeRule)).Bears
        (Allotted naming subnets live) := h.bears
    refine (hruled.dropped p.bridge).mono fun name net ⟨hne, hC⟩ hname n hn hnet => ?_
    obtain ⟨q, hq, hbridge, hsubnet⟩ := hC hname n hn hnet
    have hqp : q ≠ p := fun hqp => hne (by rw [← hbridge, hqp])
    exact ⟨q, (List.mem_erase_of_ne hqp).mpr hq, hbridge, hsubnet⟩
  nat := by
    rw [rules_withoutProject, if_pos rfl]
    refine ⟨h.nat.nodup.sublist List.erase_sublist, fun n hn hrule => ?_⟩
    obtain ⟨hne, hrule⟩ := h.nat.nodup.mem_erase_iff.mp hrule
    obtain ⟨q, hq, rfl⟩ := h.nat.owner n hn hrule
    exact ⟨q, (List.mem_erase_of_ne fun hqp => hne (by rw [hqp]; rfl)).mpr hq, rfl⟩

/-! ## Captures and applications -/

/-- A capture records no address and no rule that the host does not have. -/
theorem Snapshot.subnetsOwned_snapshotOf (scope : Scope) (h : g.SubnetsOwned naming subnets live) :
    (scope.snapshotOf g).SubnetsOwned naming subnets live where
  bears := h.bears.snapshotOf scope
  nat := by
    rw [Scope.rulesOf_snapshotOf]
    split
    · exact h.nat
    · exact h.nat.sublist (List.nil_sublist _)

theorem slotGuard_subnetsOwned (scope : Scope) (host naming : Naming) (subnets : List Ipv4Net)
    (live : List Project) :
    SlotGuard scope (fun n g => n = host ∧ g.SubnetsOwned naming subnets live)
      (Snapshot.SubnetsOwned naming subnets live) where
  captured _ _ h := Snapshot.subnetsOwned_snapshotOf scope h.2
  applied x hx := by
    -- Addresses and names on the one hand, the rules on the other.
    have hlinks : Maintains (fun h : Host => h.naming = host ∧ h.state.Distinct ∧
        h.state.Bears (Allotted naming subnets live)) (scope.apply x) fun _ => True :=
      Scope.maintains_apply (C := Allotted naming subnets live)
        (I := fun n g => n = host ∧ g.Distinct ∧ g.Bears (Allotted naming subnets live))
        (fun _ g g' c hc hg heffect =>
          ⟨hg.1, ((HostState.Descends.refl hg.2.1).effect heffect).distinct,
            hg.2.2.effect hc heffect⟩) hx.bears
    have hrules : Maintains (fun h : Host => ∀ t, t = .nat →
        RulesOwned subnets live (h.state.rules.get t)) (scope.apply x) fun _ => True := by
      refine Scope.apply_maintains (Φ := fun t l => t = .nat → RulesOwned subnets live l)
        (fun t l l' hsub hl ht => (hl ht).sublist hsub) ?_
      rintro t - l hl rfl
      rw [rearranged_eq (not_repeatsAcross_of_nodup (hl rfl).nodup)]
      exact hx.nat
    refine (hlinks.and hrules).weaken ?_ ?_ ?_
    · rintro h ⟨hhost, howned⟩
      exact ⟨⟨hhost, howned.distinct, howned.bears⟩, fun t ht => ht ▸ howned.nat⟩
    · rintro _ h ⟨-, ⟨hhost, hdistinct, hbears⟩, hnat⟩
      exact ⟨trivial, hhost, hdistinct, hbears, hnat _ rfl⟩
    · rintro _ h ⟨⟨hhost, hdistinct, hbears⟩, hnat⟩
      exact ⟨hhost, hdistinct, hbears, hnat _ rfl⟩

end SubnetsOwned

end HostNet
