/-
Bridges under management.

What `createBridge` makes carries the mark of the manager and something more, as long as it was
asked for by a name: then the manager reads it back, lists it, records it, and does not refuse to
delete it (`Keeps`).  Asked for by the empty name it makes a bridge that is called as the mark
alone.  No name of that kind is managed, so the manager disowns the bridge from then on (`Disowns`).
-/

import HostNet.Proofs.Accounted
import HostNet.Proofs.FailedSteps
import HostNet.Proofs.Generations
import HostNet.Proofs.Readings
import HostNet.Proofs.Validation

namespace HostNet

open HostNet.Action

/-! ## Bridges that a host shows -/

/-- The host has the bridge as it is viewed. -/
def HostState.Shows (g : HostState) (b : BridgeView) : Prop :=
  ∃ l, g.find? b.name = some l ∧ l.isBridge = true ∧ BridgeView.view l g.listing = b

/-- A list of checks each of which succeeds. -/
theorem mapM_eq_ok {α β : Type} {f : α → Except Error β} {g : α → β} {l : List α}
    (h : ∀ a ∈ l, f a = .ok (g a)) : l.mapM f = .ok (l.map g) := by
  induction l with
  | nil => rfl
  | cons a l ih =>
    have hrest := ih fun b hb => h b (List.mem_cons_of_mem _ hb)
    rw [List.mapM_cons, h a (List.mem_cons_self ..), hrest]
    rfl

/-! ## Readings of bridges -/

namespace Manager

variable {m : Manager} {b : BridgeView} {q : Site}

theorem checkManaged_of_manages {what name : String} (h : m.naming.manages name = true) :
    m.checkManaged what name = .ok () := by
  rw [checkManaged, if_pos h]

theorem checkManaged_of_not_manages {what name : String} (h : m.naming.manages name = false) :
    m.checkManaged what name = .error (.notFound what name) := by
  rw [checkManaged, if_neg (by simp [h])]

/-- A bridge that the host shows is read as it is. -/
theorem observes_currentBridge (hd : q.host.state.Distinct) (hb : q.host.state.Shows b) :
    q.Observes (currentBridge b.name) fun c => c = b := by
  have hshown : q.host.state.bridge? b.name = some b := (HostState.bridge?_eq_some_iff hd).mpr hb
  have hreads := inspects_currentBridge q b.name
  rw [hshown] at hreads
  refine Triple.weaken hreads (fun _ hu => hu) (fun c u hu => ⟨?_, hu.2⟩) fun e u he =>
    ⟨he.1.2.resolve_right nofun, he.2⟩
  exact (Option.some.inj hu.1).symm

/-- The managed bridges are listed, and no others. -/
theorem observes_listBridges :
    q.Observes m.listBridges fun bs => ∀ c, c ∈ bs ↔ ∃ l ∈ q.host.state.links,
      l.isBridge = true ∧ m.naming.manages l.name = true ∧
        BridgeView.view l q.host.state.listing = c := by
  unfold listBridges
  refine (Site.observes_onHost Host.observes_list).bind fun links hlinks => ?_
  refine .ofExcept (mapM_eq_ok (g := fun l => BridgeView.view l links) fun l hl => ?_) fun c => ?_
  · have hbridge : l.isBridge = true := (Bool.and_eq_true_iff.mp (List.mem_filter.mp hl).2).1
    exact BridgeView.ofLink_eq_ok_iff.mpr ⟨hbridge, rfl⟩
  · simp only [hlinks, List.mem_map, List.mem_filter, HostState.mem_listing, Bool.and_eq_true,
      and_assoc]

end Manager

/-! ## What a creation leaves -/

/-- No call gives two links one name. -/
theorem HostState.guard_distinct (scope : Scope) :
    LinkGuard scope (fun _ g => g.Distinct) fun _ => True where
  absent _ _ _ _ _ := trivial
  owned _ _ _ _ _ _ := trivial
  call _ _ _ _ _ h hc := ((Descends.refl h).effect hc).distinct
  rule _ _ _ _ _ h hc := ((Descends.refl h).effect hc).distinct

section Creation

variable {scope : Scope} {n : Naming} {m : Manager} {s s' : Site} {b : BridgeView}

/-- A host whose bridges are named by `n` and none of whose links share a name. -/
abbrev NamedDistinct (n : Naming) (naming : Naming) (g : HostState) : Prop :=
  naming = n ∧ g.Distinct

theorem Manager.bridgeSteps_named (name : String) (slaves : List String)
    (addresses : List IpNet) :
    Maintains (Tracked.Guarded scope (NamedDistinct n) fun _ => True)
      (bridgeSteps name slaves addresses) fun created => created = n.bridgeName name := by
  have hI := (HostState.guard_distinct scope).named n
  have hcreate : Maintains (fun h => NamedDistinct n h.naming h.state) (Host.createBridge name)
      fun created => created = n.bridgeName name :=
    (Host.makes_createBridge name).maintains fun naming g g' hg heffect =>
      ⟨congrArg (·.bridgeName name) hg.1,
        hI.call naming g g' (.createBridge name) trivial hg heffect⟩
  unfold bridgeSteps
  refine (Tracked.maintains_onHost scope hcreate).bind fun created hcreated => ?_
  refine Tracked.maintains_touched.bind fun _ _ => ?_
  refine (Tracked.maintains_rename created).bind fun _ _ => ?_
  refine (Tracked.maintains_advance .created).bind fun _ _ => ?_
  refine (hI.unnoted (c := .setLinkUp created) trivial).bind fun _ _ => ?_
  refine (hI.assignSlaves created slaves).bind fun _ _ => ?_
  refine (hI.assignAddresses trivial addresses).bind fun _ _ => ?_
  exact (Tracked.maintains_advance .addressed).bind fun _ _ => Maintains.pure hcreated

theorem Manager.makeBridge_named (m : Manager) (name : String) (slaves : List String)
    (addresses : List IpNet) :
    Maintains (Site.Guarded scope (NamedDistinct n) fun _ => True)
      (m.makeBridge name slaves addresses) fun r => r.1 = n.bridgeName name := by
  unfold makeBridge
  refine (Maintains.except _).bind fun full _ => ?_
  refine (Site.maintains_reads (Host.reads_find full.text)).bind fun link _ => ?_
  dsimp only
  by_cases hfound : link.isSome = true
  · rw [if_pos hfound]
    exact Maintains.throw_bind _ _
  · rw [if_neg hfound]
    refine (maintains_checkSlaves full.text slaves).bind fun checked _ => ?_
    exact (((HostState.guard_distinct scope).named n).resetGuard _).withRecovery _
      (bridgeSteps_named name checked addresses)

/-- What a reading of a bridge answers is on the host. -/
theorem Manager.triple_currentBridge_shows (name : String) :
    Triple (Site.Holds false n HostState.Distinct) (currentBridge name)
      (fun b u => b.name = name ∧ u.host.state.Distinct ∧ u.host.state.Shows b)
      fun _ _ => True := by
  refine Triple.of_each fun u hu =>
    Triple.weaken (inspects_currentBridge u name) ?_ ?_ fun _ _ _ => trivial
  · rintro _ rfl
    exact .refl _
  · rintro b _ ⟨hb, g, hg, rfl⟩
    have hstate : (u.withHost g).host.state = u.host.state := hg.state
    have hd : u.host.state.Distinct := hu.host.state
    obtain ⟨l, hl, hbridge, rfl⟩ := (HostState.bridge?_eq_some_iff hd).mp hb
    have hname : l.name = name := HostState.name_of_find? hl
    have hfind : u.host.state.find? l.name = some l := hname.symm ▸ hl
    rw [hstate]
    exact ⟨hname, hd, l, hfind, hbridge, rfl⟩

/-- A creation that succeeds answers with what the host shows in the end. -/
theorem Manager.shows_of_createBridge {name : String} {slaves : List String}
    {addresses : List IpNet} (hd : s.host.state.Distinct)
    (hrun : m.createBridge name slaves addresses s = .ok b s') :
    b.name = s.host.naming.bridgeName name ∧ s'.host.state.Distinct ∧ s'.host.state.Shows b := by
  have hsteps : Triple
      (Site.Guarded s.store.scope (NamedDistinct s.host.naming) fun _ => True)
      (do let r ← m.makeBridge name slaves addresses
          concluded r.2 (currentBridge r.1))
      (fun b u => b.name = s.host.naming.bridgeName name ∧ u.host.state.Distinct ∧
        u.host.state.Shows b) fun _ _ => True := by
    refine Triple.bind ((m.makeBridge_named name slaves addresses).catch fun _ _ _ => trivial)
      fun r => Triple.of_pure fun hr => ?_
    -- The last change of phase comes after the reading, and leaves the host.
    have hread := triple_currentBridge_shows (n := s.host.naming) r.1
    refine Triple.bind (hread.pre fun u hu => ?_) fun c => ?_
    · exact ⟨⟨fun h => absurd h Bool.false_ne_true, hu.state.1, hu.state.2⟩,
        fun h => absurd h Bool.false_ne_true⟩
    · rw [hr]
      exact (Site.triple_discard_advance (P := fun w => c.name = s.host.naming.bridgeName name ∧
        w.machine.host.state.Distinct ∧ w.machine.host.state.Shows c) r.2 .reconciled).bind
          fun _ => Triple.pure fun _ hu => hu
  exact hsteps.of_ok ⟨rfl, ⟨rfl, hd⟩, trivial⟩ (Site.eq_ok_of_exclusively hrun)

end Creation

/-! ## Refusals -/

/-- The error does not say that a bridge is not found. -/
def Error.IsOther (e : Error) : Prop := ∀ name, e ≠ .notFound "bridge" name

/-- A context is no refusal, whatever is in it. -/
theorem Action.isOther_within {σ α : Type} (step : String) (x : Action σ α) :
    Raises Error.IsOther (within step x) :=
  (Raises.context step x).imp fun e he name => by
    obtain ⟨source, rfl⟩ := he
    nofun

theorem Host.isOther_injected (op : HostOp) : (injected op).IsOther := nofun

/-- A link that is not there is missed as a link, not as a bridge. -/
theorem Host.isOther_deleteLink (name : String) :
    Raises Error.IsOther (Host.perform (.deleteLink name)) := by
  refine raises_perform _ (isOther_injected _) fun naming s e he bridge => ?_
  change s.remove name = .error e at he
  cases hl : s.find? name with
  | none =>
    rw [HostState.remove_of_find?_eq_none hl] at he
    rw [← Except.error.inj he]
    intro hlink
    exact absurd (Error.notFound.inj hlink).1 (by decide)
  | some l =>
    rw [HostState.remove_of_find? hl] at he
    cases he

theorem Tracked.isOther_advance (next : Phase) : Raises Error.IsOther (Tracked.advance next) :=
  (Tracked.triple_advance (R := fun _ => True) next).weaken (fun _ _ => trivial)
    (fun _ _ _ => trivial) fun _ _ he => he

theorem Tracked.isOther_change (step : String) (c : Call) :
    Raises Error.IsOther (Tracked.change step c) :=
  .bind (.on (.on (.on (.on (isOther_within step _))))) fun _ => .modify _

theorem Tracked.isOther_assignSlaves (bridge : String) (desired : List String) :
    Raises Error.IsOther (Tracked.assignSlaves bridge desired) := by
  unfold Tracked.assignSlaves
  refine .bind (.on (.on (.on (.on (Host.raises_list (Host.isOther_injected _)))))) fun links => ?_
  dsimp only
  exact .bind (.forM fun slave => Tracked.isOther_change _ _) fun _ =>
    .forM fun slave => Tracked.isOther_change _ _

theorem Manager.isOther_removeBridgeSteps (name : String) (slaves : List String) :
    Raises Error.IsOther (removeBridgeSteps name slaves) := by
  have hdelete : Raises Error.IsOther (do
      Tracked.onHost (Host.perform (.deleteLink name)); Tracked.advance .gone) :=
    .bind (.on (.on (.on (.on (Host.isOther_deleteLink name))))) fun _ =>
      Tracked.isOther_advance .gone
  unfold removeBridgeSteps
  dsimp only
  by_cases hs : (!slaves.isEmpty) = true
  · rw [if_pos hs]
    exact .bind (Tracked.isOther_assignSlaves name []) fun _ =>
      .bind (Tracked.isOther_advance .unlinked) fun _ => hdelete
  · rw [if_neg hs]
    exact hdelete

/-- Neither a reset nor its failure makes a refusal of another error. -/
theorem Site.Recovered.isOther {t : Tracker} {e e' : Error} {m m' : StoredMachine}
    (h : Site.Recovered t e m e' m') (he : e.IsOther) : e'.IsOther := by
  cases h with
  | unchanged => exact he
  | reset => nofun
  | diverged => nofun

namespace Manager

variable {m : Manager} {b : BridgeView} {s s' q : Site} {name : String} {slaves : List String}
  {addresses : List IpNet}

/-- Whatever fails in the deletion of a bridge that is there, it is not refused. -/
theorem deleteBridge_unrefused (hmanaged : m.naming.manages b.name = true)
    (hd : q.host.state.Distinct) (hb : q.host.state.Shows b) {e : Error} {q' : Site}
    (hrun : m.deleteBridge b.name q = .error e q') : e ≠ .notFound "bridge" b.name := by
  have hsteps : Triple q.Seen
      (do let bridge ← currentBridge b.name
          discard <| Site.withRecovery (.start "delete_bridge" b.name .present)
            (removeBridgeSteps b.name bridge.slaves))
      (fun _ _ => True) fun e _ => e ≠ .notFound "bridge" b.name := by
    refine Triple.bind (Q := fun _ _ => True) ?_ fun bridge => Triple.discard ?_
    · exact (observes_currentBridge hd hb).weaken (fun _ hu => hu) (fun _ _ _ => trivial)
        fun _ _ he => he.1.ne_notFound "bridge" b.name
    · rintro u -
      cases hx : Site.withRecovery (.start "delete_bridge" b.name .present)
          (removeBridgeSteps b.name bridge.slaves) u with
      | ok r t => trivial
      | error e' t =>
        obtain ⟨e, p, hfailed, hrecovered⟩ := Site.recovered_of_withRecovery hx
        have he := (isOther_removeBridgeSteps b.name bridge.slaves).of_error trivial hfailed
        exact hrecovered.isOther he b.name
  unfold deleteBridge at hrun
  rw [checkManaged_of_manages hmanaged] at hrun
  exact (Site.triple_exclusively_timedOut hsteps fun _ _ => nofun).of_error (.refl q) hrun

/-! ## Under management or not -/

/-- The bridge is under management on a site: it is read back and listed as it is, every capture in
the manager's naming records it, and it may be deleted. -/
structure Keeps (m : Manager) (b : BridgeView) (q : Site) : Prop where
  read : q.Observes (m.getBridge b.name) fun c => c = b
  listed : q.Observes m.listBridges fun bs => b ∈ bs
  recorded : ∀ tables, q.host.Observes (Scope.capture ⟨m.naming, tables⟩) fun t =>
    ∃ r ∈ t.links, r.name = b.name ∧ r.kind = .bridge ∧
      (∀ a, a ∈ r.addresses ↔ a ∈ b.addresses) ∧ r.up = b.isUp
  deletable : ∀ e q', m.deleteBridge b.name q = .error e q' → e ≠ .notFound "bridge" b.name

/-- The bridge is nothing to the manager: it is refused, not listed, and no capture in the manager's
naming records it. -/
structure Disowns (m : Manager) (b : BridgeView) (q : Site) : Prop where
  unread : m.getBridge b.name q = .error (.notFound "bridge" b.name) q
  unlisted : q.Observes m.listBridges fun bs => ∀ c ∈ bs, c.name ≠ b.name
  unrecorded : ∀ tables, q.host.Observes (Scope.capture ⟨m.naming, tables⟩) fun t =>
    ∀ r ∈ t.links, r.name ≠ b.name
  undeletable : m.deleteBridge b.name q = .error (.notFound "bridge" b.name) q

/-- Whether a bridge is recorded hangs on its name alone. -/
theorem recordKind?_of_bridge {scope : Scope} {l : Link} (hl : l.isBridge = true) :
    scope.recordKind? l = if scope.naming.manages l.name then some .bridge else none := by
  have hkind : l.kind = .bridge := by simpa [Link.isBridge] using hl
  have hvlan : l.isVlan = false := by simp [Link.isVlan, hkind]
  simp [Scope.recordKind?, hvlan, hl]

theorem keeps_of_shows (hmanaged : m.naming.manages b.name = true) (hd : q.host.state.Distinct)
    (hb : q.host.state.Shows b) : m.Keeps b q where
  read := by
    unfold getBridge
    rw [checkManaged_of_manages hmanaged]
    exact (Site.Observes.ofExcept (φ := fun _ => True) rfl trivial).bind fun _ _ =>
      observes_currentBridge hd hb
  listed := by
    obtain ⟨l, hl, hbridge, hview⟩ := hb
    have hname : l.name = b.name := HostState.name_of_find? hl
    refine Triple.post observes_listBridges fun bs u hbs => ⟨(hbs.1 b).mpr ?_, hbs.2⟩
    exact ⟨l, HostState.mem_of_find? hl, hbridge, hname.symm ▸ hmanaged, hview⟩
  recorded tables := by
    obtain ⟨l, hl, hbridge, rfl⟩ := hb
    refine (Scope.observes_capture _).imp fun t ht => ?_
    have hkind := @recordKind?_of_bridge ⟨m.naming, tables⟩ l hbridge
    have hmanaged : m.naming.manages l.name = true := hmanaged
    rw [if_pos hmanaged] at hkind
    -- The bridge is managed, so a capture records it as one.
    have hrecord := Scope.recordAt_eq_some_iff.mpr ⟨l, _, hl, hkind, rfl⟩
    rw [ht]
    refine ⟨⟨l.name, .bridge, l.master, sortedSet IpNet.le l.addresses, l.isUp⟩,
      (Scope.mem_links_snapshotOf hd).mpr hrecord, rfl, rfl, fun a => ?_, rfl⟩
    exact mem_sortedSet
  deletable _ _ hrun := deleteBridge_unrefused hmanaged hd hb hrun

theorem disowns_of_shows (hmanaged : m.naming.manages b.name = false)
    (hd : q.host.state.Distinct) (hb : q.host.state.Shows b) : m.Disowns b q where
  unread := by
    unfold getBridge
    rw [checkManaged_of_not_manages hmanaged]
    rfl
  unlisted := by
    refine Triple.post observes_listBridges fun bs u hbs => ⟨fun c hc hname => ?_, hbs.2⟩
    obtain ⟨l, -, -, hl, rfl⟩ := (hbs.1 c).mp hc
    change l.name = b.name at hname
    rw [hname, hmanaged] at hl
    cases hl
  unrecorded tables := by
    obtain ⟨l, hl, hbridge, rfl⟩ := hb
    refine (Scope.observes_capture _).imp fun t ht r hr hname => ?_
    have hkind := @recordKind?_of_bridge ⟨m.naming, tables⟩ l hbridge
    have hmanaged : m.naming.manages l.name = false := hmanaged
    rw [if_neg (by simp [hmanaged])] at hkind
    rw [ht] at hr
    -- A record of that name would be one of the bridge, which is not managed.
    have hrecord := Scope.kindAt_of_mem_links hd hr
    rw [hname, Scope.kindAt_of_find? hl, hkind] at hrecord
    cases hrecord
  undeletable := by
    unfold deleteBridge
    rw [checkManaged_of_not_manages hmanaged]
    rfl

/-- A bridge that was created is under management exactly if it was asked for by a name; so it is on
every site with the links that the creation has left. -/
theorem keeps_iff_of_createBridge (hmark : m.naming.mark ≠ "")
    (hnaming : s.host.naming = m.naming) (hd : s.host.state.Distinct)
    (hrun : m.createBridge name slaves addresses s = .ok b s') :
    (m.naming.manages b.name = true ↔ name ≠ "") ∧
      ∀ q : Site, q.host.state = s'.host.state →
        if name = "" then m.Disowns b q else m.Keeps b q := by
  obtain ⟨hname, hd', hshows⟩ := shows_of_createBridge hd hrun
  rw [hnaming] at hname
  by_cases hempty : name = ""
  · -- Asked for by the empty name, the bridge is called as the mark.
    have hnone : m.naming.manages "" = false := by simp [Naming.manages]
    have hself : m.naming.manages b.name = false := by
      rw [hname, hempty, Naming.bridgeName, hnone, if_neg Bool.false_ne_true, String.append_empty]
      simp [Naming.manages]
    refine ⟨by simp [hself, hempty], fun q hq => ?_⟩
    rw [if_pos hempty]
    exact disowns_of_shows hself (hq.symm ▸ hd') (hq.symm ▸ hshows)
  · have hmanaged : m.naming.manages b.name = true :=
      hname ▸ Naming.manages_bridgeName_of_ne hmark hempty
    refine ⟨by simp [hmanaged, hempty], fun q hq => ?_⟩
    rw [if_neg hempty]
    exact keeps_of_shows hmanaged (hq.symm ▸ hd') (hq.symm ▸ hshows)

/-- A bridge that was asked for by a name. -/
theorem keeps_iff_of_createBridge_calmSite : ∃ s',
    (⟨.standard⟩ : Manager).createBridge "b" [] [] SiteRequest.calmSite =
        .ok ⟨"rol.b", [], [], true⟩ s' ∧
      (⟨.standard⟩ : Manager).Keeps ⟨"rol.b", [], [], true⟩ s' := by
  have hanswer : (((⟨.standard⟩ : Manager).createBridge "b" [] []).outcome
      SiteRequest.calmSite).1 = .ok ⟨"rol.b", [], [], true⟩ := by cbv
  have hrun := outcome_eq_ok_iff.mp (Prod.ext hanswer rfl)
  obtain ⟨-, hkeeps⟩ := keeps_iff_of_createBridge (by decide) rfl
    SiteRequest.ready_calmSite.distinct hrun
  have hkept := hkeeps _ rfl
  rw [if_neg (by decide)] at hkept
  exact ⟨_, hrun, hkept⟩

/-- The bridge of no name is made, and then refused. -/
theorem createBridge_nameless_calmSite : ∃ s',
    (⟨.standard⟩ : Manager).createBridge "" [] [] SiteRequest.calmSite =
        .ok ⟨"rol.", [], [], true⟩ s' ∧
      Naming.standard.manages "rol." = false ∧
      (⟨.standard⟩ : Manager).getBridge "rol." s' = .error (.notFound "bridge" "rol.") s' ∧
      (⟨.standard⟩ : Manager).deleteBridge "rol." s' = .error (.notFound "bridge" "rol.") s' := by
  have hanswer : (((⟨.standard⟩ : Manager).createBridge "" [] []).outcome
      SiteRequest.calmSite).1 = .ok ⟨"rol.", [], [], true⟩ := by cbv
  have hrun := outcome_eq_ok_iff.mp (Prod.ext hanswer rfl)
  have hself : Naming.standard.manages "rol." = false := by decide
  have hcheck : (⟨.standard⟩ : Manager).checkManaged "bridge" "rol." =
      .error (.notFound "bridge" "rol.") := checkManaged_of_not_manages hself
  refine ⟨_, hrun, hself, ?_, ?_⟩
  · rw [getBridge, hcheck]
    rfl
  · rw [deleteBridge, hcheck]
    rfl

end Manager

end HostNet
