/-
What setting up a project makes of a host, and taking it down.

Both sequences of calls lead to one host, which `withProject` and `withoutProject` compute.  Setting
up appends the rule of the project and attaches the uplink; taking down erases the rule and removes
the bridge, which releases whatever was attached to it.
-/

import HostNet.Proofs.Calm

namespace HostNet

open HostNet.Action

/-! ## Hosts with and without a project -/

/-- The bridge of a project when it is set up, under the index that the host gives it. -/
def Project.link (p : Project) (index : UInt32) : Link :=
  { Link.bare index p.bridge .bridge with addresses := [p.gateway], isUp := true }

/-- The words of a masquerade rule are in order, whatever subnet it is for. -/
theorem Rule.check_masquerade (n : IpNet) : (masquerade n).check = .ok () := by
  have hchain : checkWord "chain" "POSTROUTING" = .ok () := by decide
  have htarget : checkWord "target" "MASQUERADE" = .ok () := by decide
  show (do checkWord "chain" "POSTROUTING"; checkWord "target" "MASQUERADE") = _
  rw [hchain]
  exact htarget

namespace HostState

variable {s : HostState} {p : Project} {uplink : String}

/-- The host with the bridge of a project, which has its gateway and is down. -/
def withBridge (s : HostState) (p : Project) : HostState :=
  (s.insert (Link.bare 0 p.bridge .bridge)).update p.bridge fun l =>
    { l with addresses := l.addresses ++ [p.gateway] }

/-- The host with a project set up on it. -/
def withProject (s : HostState) (p : Project) (uplink : String) : HostState :=
  (((s.withBridge p).appendRule .nat p.masqueradeRule).update uplink fun l =>
    { l with master := some p.bridge }).update p.bridge fun l => { l with isUp := true }

/-- The host with a project taken down. -/
def withoutProject (s : HostState) (p : Project) : HostState :=
  (s.withRules .nat ((s.rules.get .nat).erase p.masqueradeRule)).dropped p.bridge

/-- The bridge of a project is found with its gateway, not up yet, and every other link as it
was. -/
theorem find?_withBridge (n : String) :
    (s.withBridge p).find? n =
      if n = p.bridge then some { p.link s.nextIndex with isUp := false } else s.find? n := by
  unfold withBridge
  rw [find?_update (f := fun l : Link => { l with addresses := l.addresses ++ [p.gateway] })
    (fun _ => rfl)]
  simp only [find?_insert, Link.bare]
  by_cases hn : n = p.bridge
  · rw [if_pos hn, if_pos hn, if_pos trivial]
    rfl
  · rw [if_neg hn, if_neg hn, if_neg hn]

/-- A project changes two links: its bridge, and the uplink, which gets that bridge as its
master. -/
theorem find?_withProject (hne : uplink ≠ p.bridge) (n : String) :
    (s.withProject p uplink).find? n =
      if n = p.bridge then some (p.link s.nextIndex)
      else if n = uplink then (s.find? uplink).map fun l => { l with master := some p.bridge }
      else s.find? n := by
  have hrules (n : String) :
      ((s.withBridge p).appendRule .nat p.masqueradeRule).find? n = (s.withBridge p).find? n := rfl
  unfold withProject
  rw [find?_update (f := fun l : Link => { l with isUp := true }) (fun _ => rfl)]
  simp only [find?_update (f := fun l : Link => { l with master := some p.bridge }) (fun _ => rfl),
    hrules, find?_withBridge]
  by_cases hn : n = p.bridge
  · rw [if_pos hn, if_pos hn, if_neg (Ne.symm hne), if_pos trivial]
    rfl
  · rw [if_neg hn, if_neg hn, if_neg hn, if_neg hne]

/-- The rule of a project is appended to the nat table, and no other table is changed. -/
theorem rules_withProject (t : Table) :
    (s.withProject p uplink).rules.get t =
      if t = .nat then s.rules.get .nat ++ [p.masqueradeRule] else s.rules.get t :=
  PerTable.get_set ..

theorem Distinct.withBridge (hd : s.Distinct) : (s.withBridge p).Distinct :=
  (hd.insert _).update fun _ => rfl

/-- Each step of a project inserts one link or updates one, so names stay distinct. -/
theorem Distinct.withProject (hd : s.Distinct) : (s.withProject p uplink).Distinct := by
  have hruled : ((s.withBridge p).appendRule .nat p.masqueradeRule).Distinct :=
    hd.withBridge (p := p)
  have hattached := hruled.update (n := uplink)
    (f := fun l : Link => { l with master := some p.bridge }) fun _ => rfl
  exact hattached.update (f := fun l : Link => { l with isUp := true }) fun _ => rfl

/-- The first rule like that of the project is erased from the nat table, and no other table is
changed. -/
theorem rules_withoutProject (t : Table) :
    (s.withoutProject p).rules.get t =
      if t = .nat then (s.rules.get .nat).erase p.masqueradeRule else s.rules.get t :=
  PerTable.get_set ..

theorem Distinct.withoutProject (hd : s.Distinct) : (s.withoutProject p).Distinct :=
  Distinct.dropped (s := s.withRules .nat _) hd p.bridge

end HostState

/-! ## The steps -/

namespace Tracked.Achieves

variable {calm : Bool} {naming : Naming} {s : HostState}

/-- A call that leads from one host to another, in the context of what is being done. -/
theorem step {what : String} {c : Call} {s t : HostState}
    (hok : ∀ t', c.effect naming s = .ok t' → t' = t)
    (hcalm : calm = true → ∃ t', c.effect naming s = .ok t') :
    Achieves calm naming (fun g => g = s)
      (Tracked.onHost (Action.within what (Host.perform c))) fun _ g => g = t := by
  refine onHost (Host.Achieves.within (Host.Achieves.perform ?_ ?_))
  · rintro g g' rfl heffect
    exact hok g' heffect
  · rintro hc g rfl
    exact hcalm hc

/-- Setting a project up needs a name for its bridge that is legal and free, and the uplink. -/
theorem setUp (m : ProjectManager) (name : String) (subnet : Ipv4Net)
    (hcalm : calm = true → LinkName.defect? (naming.bridgeName name) = none ∧
      s.find? (naming.bridgeName name) = none ∧ (s.find? m.uplink).isSome) :
    Achieves calm naming (fun g => g = s) (m.setUp name subnet) fun p g =>
      p = ⟨name, naming.bridgeName name, subnet⟩ ∧ g = s.withProject p m.uplink ∧
        s.find? p.bridge = none ∧ m.uplink ≠ p.bridge ∧ (s.find? m.uplink).isSome := by
  let p : Project := ⟨name, naming.bridgeName name, subnet⟩
  let ruled : HostState := (s.withBridge p).appendRule .nat p.masqueradeRule
  let attached : HostState := ruled.update m.uplink fun l => { l with master := some p.bridge }
  unfold ProjectManager.setUp
  refine bind (Q := fun created g => created = p.bridge ∧ s.find? p.bridge = none ∧
      g = s.insert (Link.bare 0 p.bridge .bridge))
    (onHost (Host.Achieves.createBridge (fun g hg hfree => ⟨rfl, hg ▸ hfree, by rw [hg]⟩)
      fun hc g hg => hg ▸ ⟨(hcalm hc).1, (hcalm hc).2.1⟩)) fun created => of_each ?_
  rintro g ⟨rfl, hfree, rfl⟩
  have huplink : calm = true → m.uplink ≠ p.bridge := by
    intro hc hm
    have hsome := (hcalm hc).2.2
    rw [hm, hfree] at hsome
    cases hsome
  refine touched.bind fun _ => (rename _).bind fun _ => (advance .created).bind fun _ => ?_
  dsimp only
  -- The gateway, then the rule: the bridge is new, and the rule is well-formed.
  refine (step (t := s.withBridge p) (fun g hg => (Call.effect_addAddress.mp hg).2) fun _ =>
    ⟨_, Call.effect_addAddress.mpr ⟨⟨s.indexed (Link.bare 0 p.bridge .bridge), ?_,
      List.not_mem_nil⟩, rfl⟩⟩).bind fun _ => ?_
  · rw [HostState.find?_insert, Link.bare]
    exact if_pos rfl
  refine (step (t := ruled) (fun g hg => (Call.effect_createRule.mp hg).2) fun _ =>
    ⟨_, Call.effect_createRule.mpr ⟨Rule.check_masquerade _, rfl⟩⟩).bind fun _ => ?_
  -- The uplink is another link than the bridge.
  have hbridge : ruled.find? p.bridge = some { p.link s.nextIndex with isUp := false } :=
    (HostState.find?_withBridge p.bridge).trans (if_pos rfl)
  have hother : ∀ n, n ≠ p.bridge → ruled.find? n = s.find? n := fun n hn =>
    (HostState.find?_withBridge n).trans (if_neg hn)
  refine bind (Q := fun _ g => g = attached ∧ m.uplink ≠ p.bridge ∧ (s.find? m.uplink).isSome)
    (onHost (Host.Achieves.within (Host.Achieves.perform ?_ ?_))) fun _ => of_each ?_
  · rintro g g' rfl heffect
    obtain ⟨-, hne, hsome, rfl⟩ := Call.effect_setLinkMaster.mp heffect
    exact ⟨rfl, hne, hother m.uplink hne ▸ hsome⟩
  · rintro hc g rfl
    refine ⟨_, Call.effect_setLinkMaster.mpr ⟨⟨_, hbridge, rfl⟩, huplink hc, ?_, rfl⟩⟩
    rw [hother _ (huplink hc)]
    exact (hcalm hc).2.2
  rintro g ⟨rfl, hne, hsome⟩
  refine bind (Q := fun _ g => g = s.withProject p m.uplink)
    (onHost (Host.Achieves.perform ?_ ?_)) fun _ => ?_
  · rintro g g' rfl heffect
    exact (Call.effect_setLinkUp.mp heffect).2
  · rintro - g rfl
    refine ⟨_, Call.effect_setLinkUp.mpr ⟨?_, rfl⟩⟩
    rw [HostState.find?_update (f := fun l : Link => { l with master := some p.bridge })
      (fun _ => rfl), if_neg (Ne.symm hne), hbridge]
    rfl
  refine (advance .addressed).bind fun _ => (save _).bind fun _ => pure fun g hg => ?_
  exact ⟨rfl, hg, hfree, hne, hsome⟩

/-- Taking a project down needs its bridge. -/
theorem takeDown (p : Project) (hcalm : calm = true → (s.find? p.bridge).isSome) :
    Achieves calm naming (fun g => g = s) (ProjectManager.takeDown p) fun _ g =>
      g = s.withoutProject p := by
  have hdelete (g : HostState) (hg : calm = true → (g.find? p.bridge).isSome) :
      Achieves calm naming (fun g' => g' = g)
        (do
          Tracked.change "delete bridge" (.deleteLink p.bridge)
          Tracked.onSite (Action.within "save configuration" (Site.onStore Store.save))
          Tracked.advance .gone)
        fun _ g' => g' = g.dropped p.bridge := by
    refine bind (Q := fun _ g' => g' = g.dropped p.bridge) (change ?_ ?_) fun _ =>
      (save _).bind fun _ => advance .gone
    · rintro g g' rfl heffect
      exact (Call.effect_deleteLink.mp heffect).2
    · rintro hc g rfl
      exact ⟨_, Call.effect_deleteLink.mpr ⟨hg hc, rfl⟩⟩
  unfold ProjectManager.takeDown
  dsimp only
  refine bind (Q := fun rules g => g = s ∧
      rules = (s.rules.get .nat).filter fun r => r.chain == p.masqueradeRule.chain)
    (onHost (Host.Achieves.bind (Q := fun rules g => g = s ∧ rules = s.rules.get .nat)
      (Host.Achieves.tableRules ?_) fun rules => Host.Achieves.pure ?_)) fun rules => of_each ?_
  · rintro g rfl
    exact ⟨rfl, rfl⟩
  · rintro g ⟨rfl, rfl⟩
    exact ⟨rfl, rfl⟩
  rintro g ⟨rfl, rfl⟩
  -- The rule is in its chain if it is in the table.
  have hmem : ((g.rules.get .nat).filter fun r => r.chain == p.masqueradeRule.chain).contains
      p.masqueradeRule = true ↔ p.masqueradeRule ∈ g.rules.get .nat := by
    rw [List.contains_iff_mem, List.mem_filter]
    simp
  by_cases hrule : p.masqueradeRule ∈ g.rules.get .nat
  · rw [if_pos (hmem.mpr hrule)]
    refine bind (Q := fun _ g' => g' = g.withRules .nat ((g.rules.get .nat).erase p.masqueradeRule))
      (change ?_ ?_) fun _ => (advance .ruleDeleted).bind fun _ => hdelete _ hcalm
    · rintro g g' rfl heffect
      exact (Call.effect_deleteRule.mp heffect).2
    · rintro - g rfl
      exact ⟨_, Call.effect_deleteRule.mpr ⟨hrule, rfl⟩⟩
  · rw [if_neg (mt hmem.mp hrule)]
    have hsame : g.withRules .nat ((g.rules.get .nat).erase p.masqueradeRule) = g := by
      rw [List.erase_of_not_mem hrule]
      exact HostState.withRules_get g .nat
    unfold HostState.withoutProject
    rw [hsame]
    exact hdelete g hcalm

end Tracked.Achieves

end HostNet
