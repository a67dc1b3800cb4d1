/-
What an update of a bridge comes to.

The slaves of the bridge become those that were asked for, and so do its addresses; no other link is
touched, apart from the slaves that the bridge takes and the ones that it gives up.  On a host where
no failure is armed the update succeeds if there is the bridge and if there are the slaves, none of
which is the bridge itself.  As the steps are then sure to succeed, nothing is compensated, and the
slot files do not matter.
-/

import HostNet.Proofs.ManagedBridges

namespace HostNet

open HostNet.Action

/-! ## The links afterwards -/

theorem Diff.outside_eq {α : Type} [DecidableEq α] (items excluded : List α) :
    outside items excluded = (items.filter fun a => decide (a ∉ excluded)).eraseDups := by
  rw [outside]
  congr 2
  funext a
  simp

namespace Link

/-- A link after a bridge was brought to other slaves. -/
def reslaved (bridge : String) (desired : List String) (l : Link) : Link :=
  { l with
    master :=
      if l.name ∈ desired then some bridge
      else if l.master = some bridge then none
      else l.master }

/-- A link without the addresses that are not desired. -/
def thinned (desired : List IpNet) (l : Link) : Link :=
  { l with addresses := l.addresses.filter fun a => decide (a ∈ desired) }

/-- A link after it was brought to other addresses: those that it keeps stay in their order, and the
new ones follow. -/
def readdressed (desired : List IpNet) (l : Link) : Link :=
  { l with
    addresses := (l.addresses.filter fun a => decide (a ∈ desired)) ++
      (desired.filter fun a => decide (a ∉ l.addresses)).eraseDups }

/-- A link after a bridge was brought to other slaves and addresses. -/
def revised (bridge : String) (slaves : List String) (desired : List IpNet) (l : Link) : Link :=
  let m := l.reslaved bridge slaves
  if l.name = bridge then m.readdressed desired else m

theorem mem_addresses_readdressed {desired : List IpNet} {l : Link} {a : IpNet} :
    a ∈ (l.readdressed desired).addresses ↔ a ∈ desired := by
  rw [readdressed, List.mem_append, List.mem_filter, List.mem_eraseDups, List.mem_filter]
  by_cases ha : a ∈ l.addresses <;> simp [ha]

theorem master_revised_iff {bridge : String} {slaves : List String} {addresses : List IpNet}
    {l : Link} : (l.revised bridge slaves addresses).master = some bridge ↔ l.name ∈ slaves := by
  have hmaster :
      (l.revised bridge slaves addresses).master = (l.reslaved bridge slaves).master := by
    rw [revised]
    split <;> rfl
  rw [hmaster, reslaved]
  by_cases hn : l.name ∈ slaves <;> by_cases hm : l.master = some bridge <;> simp [hn, hm]

theorem isBridge_revised {bridge : String} {slaves : List String} {addresses : List IpNet}
    {l : Link} : (l.revised bridge slaves addresses).isBridge = l.isBridge := by
  rw [revised]
  split <;> rfl

theorem reslaved_congr {bridge : String} {desired desired' : List String}
    (h : ∀ n, n ∈ desired ↔ n ∈ desired') (l : Link) :
    l.reslaved bridge desired = l.reslaved bridge desired' := by
  simp only [reslaved, h]

end Link

/-- The links are those of `s`, each changed as `f` says, and the rules are the same. -/
structure HostState.Mapped (s : HostState) (f : Link → Link) (t : HostState) : Prop where
  distinct : t.Distinct
  rules : t.rules = s.rules
  find : ∀ n, t.find? n = (s.find? n).map f

/-- A bridge that was brought to its slaves before is brought to its addresses. -/
theorem HostState.Mapped.revised {g u v : HostState} {bridge : String} {slaves : List String}
    {addresses : List IpNet} {b : Link} (h : g.Mapped (Link.reslaved bridge slaves) u)
    (hb : g.find? bridge = some b)
    (hv : Edited u bridge ((b.reslaved bridge slaves).readdressed addresses) v) :
    g.Mapped (Link.revised bridge slaves addresses) v := by
  refine ⟨hv.distinct, hv.rules.trans h.rules, fun n => ?_⟩
  by_cases hn : n = bridge
  · subst hn
    have hname : b.name = n := HostState.name_of_find? hb
    rw [hv.find, hb, Option.map_some, Link.revised, if_pos hname]
  · rw [hv.other n hn, h.find]
    refine Option.map_congr fun l hl => ?_
    have hname : l.name = n := HostState.name_of_find? hl
    rw [Link.revised, if_neg (hname ▸ hn)]

/-! ## Giving masters to links one by one -/

/-- The link was there and has been given a master, or none. -/
def Mastered (m : Option String) (_ : String) (before : Option Link) (after : Link) : Prop :=
  ∃ l, before = some l ∧ after = { l with master := m }

section Masters

variable {s t : HostState} {naming : Naming} {names : List String} {m : Option String}

theorem Changed.find?_of_mastered (h : Changed id (Mastered m) s names t) (n : String) :
    t.find? n = (s.find? n).map fun l => if n ∈ names then { l with master := m } else l := by
  by_cases hn : n ∈ names
  · obtain ⟨after, ht, l, hl, rfl⟩ := h.set n hn
    rw [id] at ht hl
    rw [ht, hl, Option.map_some, if_pos hn]
  · rw [h.other n fun b hb hbn => hn (hbn ▸ hb)]
    simp only [if_neg hn, Option.map_id']

/-- A loop of calls, each of which gives one link its master. -/
theorem mastered_achieves {c : String → Call} (hd : s.Distinct) (hn : names.Nodup)
    (heffect : ∀ n t u, (c n).effect naming t = .ok u →
      u = t.update n fun l => { l with master := m })
    (hcan : ∀ n ∈ names, (s.find? n).isSome ∧ ∀ done t, Changed id (Mastered m) s done t →
      ∃ u, (c n).effect naming t = .ok u) :
    Host.Achieves true naming (fun u => u = s) (names.forM fun n => Host.perform (c n))
      fun _ => Changed id (Mastered m) s names := by
  refine Changed.forM hd (by rwa [List.map_id]) fun done n rest t hsplit ht => ?_
  obtain ⟨hstands, hcan⟩ := hcan n (hsplit ▸ List.mem_append_right _ (List.mem_cons_self ..))
  have hsome : (t.find? n).isSome := by rwa [ht.find?_of_mastered, Option.isSome_map]
  obtain ⟨l, hl⟩ := Option.isSome_iff_exists.mp hsome
  refine Host.Achieves.perform ?_ ?_
  · rintro u v rfl hv
    obtain rfl := heffect n u v hv
    exact ((Edited.refl ht.distinct hl).update (f := fun l => { l with master := m })
      fun _ => rfl).changed ⟨l, hl, rfl⟩
  · rintro - u rfl
    exact hcan done u ht

/-- What is released was a slave and is not to be one, and what is attached was none and is to be
one. -/
theorem Changed.mapped_reslaved {u v w : HostState} {bridge : String} {desired : List String}
    (hd : u.Distinct)
    (hv : Changed id (Mastered none) u (Diff.outside (slavesOf bridge u.listing) desired) v)
    (hw : Changed id (Mastered (some bridge)) v
      (Diff.outside desired (slavesOf bridge u.listing)) w) :
    u.Mapped (Link.reslaved bridge desired) w := by
  refine ⟨hw.distinct, hw.rules.trans hv.rules, fun n => ?_⟩
  rw [hw.find?_of_mastered, hv.find?_of_mastered]
  cases hl : u.find? n with
  | none => rfl
  | some l =>
    obtain rfl : l.name = n := HostState.name_of_find? hl
    have hslave : l.name ∈ slavesOf bridge u.listing ↔ l.master = some bridge := by
      rw [HostState.mem_slavesOf hd, hl]
      simp
    have hstays (h : l.master = some bridge) : { l with master := some bridge } = l := by rw [← h]
    simp only [Option.map_some, mem_outside, hslave, Link.reslaved]
    by_cases hn : l.name ∈ desired <;> by_cases hm : l.master = some bridge <;>
      simp [hn, hm, hstays]

end Masters

/-! ## The addresses of a link -/

section Addresses

variable {calm : Bool} {naming : Naming} {s : HostState} {name : String} {l : Link}
  {desired : List IpNet}

/-- What is not desired is taken off a link. -/
theorem removeAddresses_achieves :
    Host.Achieves calm naming (Edited s name l)
      ((Diff.outside l.addresses desired).forM fun net => Host.perform (.deleteAddress name net))
      fun _ => Edited s name (l.thinned desired) := by
  have hsub : ∀ net ∈ Diff.outside l.addresses desired, net ∈ l.addresses :=
    fun net hnet => (mem_outside.mp hnet).1
  refine (deleteAddresses_achieves (nodup_outside ..) hsub).post fun _ v hv => ?_
  rwa [filter_notMem_outside] at hv

/-- What is missing is put on it then. -/
theorem completeAddresses_achieves :
    Host.Achieves calm naming (Edited s name (l.thinned desired))
      ((Diff.outside desired l.addresses).forM fun net => Host.perform (.addAddress name net))
      fun _ => Edited s name (l.readdressed desired) := by
  -- What is added was not there, so it is not among the addresses that were kept.
  have hnew : ∀ net ∈ Diff.outside desired l.addresses, net ∉ (l.thinned desired).addresses :=
    fun net hnet hmem => (mem_outside.mp hnet).2 (List.mem_filter.mp hmem).1
  rw [Link.readdressed, ← Diff.outside_eq]
  exact addAddresses_achieves (l := l.thinned desired) (nodup_outside ..) hnew

end Addresses

/-! ## Steps on a host without failures -/

/-- What an action comes to on a host without failures it comes to on the host of a site. -/
theorem Site.triple_onHost_holds {α : Type} {naming : Naming} {P : HostState → Prop}
    {x : Action Host α} {Q : α → HostState → Prop} (hx : Host.Achieves true naming P x Q) :
    Triple (fun s : Site => s.host.Holds true naming P) (onHost x)
      (fun a s => s.host.Holds true naming (Q a)) fun _ _ => False :=
  (triple_host hx).catch fun _ _ he => Bool.noConfusion he

namespace Tracked

variable {α β : Type} {naming : Naming} {P : HostState → Prop} {Q : α → HostState → Prop}

/-- From a host with `P` on which no failure is armed, the steps lead to one with `Q`, whatever the
slot files are like. -/
def Reaches (naming : Naming) (P : HostState → Prop) (x : Action Tracked α)
    (Q : α → HostState → Prop) : Prop :=
  Triple (fun t => t.site.host.Holds true naming P) x
    (fun a t => t.site.host.Holds true naming (Q a)) fun _ _ => False

theorem onHost_eq (x : Action Host α) (t : Tracked) :
    onHost x t = match x t.site.host with
      | .ok a h => .ok a { t with site := t.site.withHost h }
      | .error e h => .error e { t with site := t.site.withHost h } := by
  unfold onHost onSite Action.on
  rw [Site.onHost_eq]
  cases x t.site.host <;> rfl

/-- A call within a step acts on the host as it does alone. -/
theorem change_of_perform (step : String) {c : Call} {t : Tracked} {g : Host}
    (h : Host.perform c t.site.host = .ok () g) :
    ∃ t', change step c t = .ok () t' ∧ t'.site.host = g := by
  have hrun : onHost (Action.within step (Host.perform c)) t =
      .ok () { t with site := t.site.withHost g } := by
    rw [onHost_eq, Action.within, h]
  exact ⟨_, bind_of_ok hrun, rfl⟩

namespace Reaches

theorem onHost {x : Action Host α} (hx : Host.Achieves true naming P x Q) :
    Reaches naming P (Tracked.onHost x) Q :=
  triple_onSite (Site.triple_onHost_holds hx)

theorem advance (next : Phase) : Reaches naming P (advance next) fun _ => P := fun _ ht => ht

/-- A loop of calls within steps does on the host what the loop of the calls does. -/
theorem changes {l : List β} {c : β → Call} (step : β → String) {R : HostState → Prop}
    (h : Host.Achieves true naming P (l.forM fun b => Host.perform (c b)) fun _ => R) :
    Reaches naming P (l.forM fun b => change (step b) (c b)) fun _ => R := by
  -- Each call succeeds where it does alone, and is followed by the same calls.
  have hruns (t : Tracked) (g : Host)
      (hrun : (l.forM fun b => Host.perform (c b)) t.site.host = .ok () g) :
      ∃ t', (l.forM fun b => change (step b) (c b)) t = .ok () t' ∧ t'.site.host = g := by
    clear h
    induction l generalizing t with
    | nil => exact ⟨t, rfl, (EStateM.Result.ok.inj hrun).2⟩
    | cons b l ih =>
      change (Host.perform (c b) >>= fun _ => l.forM fun b => Host.perform (c b)) t.site.host = _
        at hrun
      cases hb : Host.perform (c b) t.site.host with
      | ok u g' =>
        rw [bind_of_ok hb] at hrun
        obtain ⟨t₁, ht₁, rfl⟩ := change_of_perform (step b) hb
        obtain ⟨t₂, ht₂, hg⟩ := ih t₁ hrun
        exact ⟨t₂, (bind_of_ok ht₁).trans ht₂, hg⟩
      | error e g' =>
        rw [bind_of_error hb] at hrun
        cases hrun
  intro t ht
  obtain ⟨u, g, hrun, hg⟩ := Triple.total (h.catch fun _ _ he => Bool.noConfusion he) ht
  obtain ⟨t', ht', rfl⟩ := hruns t g hrun
  rw [ht']
  exact hg

/-- The steps may be shown for each state of links and rules on its own. -/
theorem of_each {x : Action Tracked α} (h : ∀ g, P g → Reaches naming (fun u => u = g) x Q) :
    Reaches naming P x Q :=
  fun t ht => h t.site.host.state ht.state t ⟨ht.quiet, ht.naming_eq, rfl⟩

theorem post {x : Action Tracked α} {R : α → HostState → Prop} (h : Reaches naming P x Q)
    (hQ : ∀ a g, Q a g → R a g) : Reaches naming P x R :=
  Triple.post h fun a _ ht => ht.imp (hQ a)

theorem bind {x : Action Tracked α} {f : α → Action Tracked β} {R : β → HostState → Prop}
    (hx : Reaches naming P x Q) (hf : ∀ a g, Q a g → Reaches naming (fun u => u = g) (f a) R) :
    Reaches naming P (x >>= f) R :=
  Triple.bind hx fun a => of_each (hf a)

/-! ### Slaves and addresses -/

variable {g : HostState} {bridge : String}

theorem assignSlaves (hd : g.Distinct) (hbridge : ∃ b, g.find? bridge = some b ∧ b.isBridge = true)
    {desired : List String} (hdesired : ∀ n ∈ desired, n ≠ bridge ∧ (g.find? n).isSome) :
    Reaches naming (fun u => u = g) (Tracked.assignSlaves bridge desired)
      fun _ => g.Mapped (Link.reslaved bridge desired) := by
  unfold Tracked.assignSlaves
  have hlist : Host.Achieves true naming (fun u => u = g) Host.list
      fun links u => links = g.listing ∧ u = g :=
    Host.Achieves.list fun u hu => ⟨by rw [hu], hu⟩
  refine (onHost hlist).bind fun links u hu => ?_
  obtain ⟨rfl, rfl⟩ := hu
  let diff := Diff.between (slavesOf bridge u.listing) desired
  -- First the slaves that are not desired are released, then those that are missing are attached.
  have hrelease : Host.Achieves true naming (fun v => v = u)
      (diff.toRemove.forM fun n => Host.perform (.unsetLinkMaster n))
      fun _ => Changed id (Mastered none) u diff.toRemove := by
    refine mastered_achieves hd (nodup_outside ..)
      (fun n t w hw => (Call.effect_unsetLinkMaster.mp hw).2) fun n hn => ?_
    obtain ⟨l, hl, -⟩ := (HostState.mem_slavesOf hd).mp (mem_outside.mp hn).1
    refine ⟨by rw [hl]; rfl, fun done t ht => ⟨_, Call.effect_unsetLinkMaster.mpr ⟨?_, rfl⟩⟩⟩
    rw [ht.find?_of_mastered, hl]
    rfl
  refine bind (changes _ hrelease) fun _ v hv => ?_
  have hattach : Host.Achieves true naming (fun w => w = v)
      (diff.toAdd.forM fun n => Host.perform (.setLinkMaster n bridge))
      fun _ => Changed id (Mastered (some bridge)) v diff.toAdd := by
    refine mastered_achieves hv.distinct (nodup_outside ..)
      (fun n t w hw => (Call.effect_setLinkMaster.mp hw).2.2.2) fun n hn => ?_
    obtain ⟨hne, hstands⟩ := hdesired n (mem_outside.mp hn).1
    have hstands' : (v.find? n).isSome := by rwa [hv.find?_of_mastered, Option.isSome_map]
    refine ⟨hstands', fun done t ht => ⟨_, Call.effect_setLinkMaster.mpr ⟨?_, hne, ?_, rfl⟩⟩⟩
    · -- The bridge may have been released itself, but it is a bridge.
      obtain ⟨b, hb, hbridge⟩ := hbridge
      rw [ht.find?_of_mastered, hv.find?_of_mastered, hb]
      refine ⟨_, rfl, ?_⟩
      split <;> split <;> exact hbridge
    · rwa [ht.find?_of_mastered, Option.isSome_map]
  exact (changes _ hattach).post fun _ w hw => hv.mapped_reslaved hd hw

theorem assignAddresses (hd : g.Distinct) {name : String} {l : Link} (hl : g.find? name = some l)
    (desired : List IpNet) :
    Reaches naming (fun u => u = g) (Tracked.assignAddresses name desired)
      fun _ => Edited g name (l.readdressed desired) := by
  unfold Tracked.assignAddresses
  have hget : Host.Achieves true naming (fun u => u = g) (Host.get name)
      fun m u => m = l ∧ u = g := by
    refine Host.Achieves.get ?_ ?_
    · rintro u m rfl hm
      exact ⟨Option.some.inj (hm.symm.trans hl), rfl⟩
    · rintro - u rfl
      rw [hl]
      rfl
  refine (onHost hget).bind fun m u hu => ?_
  obtain ⟨rfl, rfl⟩ := hu
  let diff := Diff.between m.addresses desired
  have hremove : Host.Achieves true naming (fun v => v = u)
      (diff.toRemove.forM fun net => Host.perform (.deleteAddress name net))
      fun _ => Edited u name (m.thinned desired) := by
    refine removeAddresses_achieves.pre fun v hv => ?_
    rw [hv]
    exact Edited.refl hd hl
  exact Triple.bind (changes _ hremove) fun _ => changes _ completeAddresses_achieves

theorem reviseBridgeSteps (hd : g.Distinct)
    (hbridge : ∃ b, g.find? bridge = some b ∧ b.isBridge = true) {slaves : List String}
    (hslaves : ∀ n ∈ slaves, n ≠ bridge ∧ (g.find? n).isSome) (addresses : List IpNet) :
    Reaches naming (fun u => u = g)
      (do
        Tracked.assignSlaves bridge slaves
        Tracked.assignAddresses bridge addresses
        Tracked.advance .addressed)
      fun _ => g.Mapped (Link.revised bridge slaves addresses) := by
  refine (assignSlaves hd hbridge hslaves).bind fun _ u hu => ?_
  obtain ⟨b, hb, -⟩ := hbridge
  have hub : u.find? bridge = some (b.reslaved bridge slaves) := by
    rw [hu.find, hb, Option.map_some]
  refine (assignAddresses hu.distinct hub addresses).bind fun _ v hv => ?_
  refine (advance .addressed).post ?_
  rintro _ _ rfl
  exact hu.revised hb hv

theorem withRecovery {steps : Action Tracked α} (h : Reaches naming P steps Q) (t : Tracker) :
    Triple (fun s : Site => s.host.Holds true naming P) (Site.withRecovery t steps)
      (fun r s => s.host.Holds true naming (Q r.1)) fun _ _ => False :=
  Site.withRecovery_of_total (P := fun s => s.host.Holds true naming P)
    (Q := fun a s => s.host.Holds true naming (Q a)) h t

end Reaches

end Tracked

/-! ## Checks that tell what is missing -/

/-- The bridge stands, and so do the slaves, none of which is the bridge. -/
def HostState.Admits (g : HostState) (bridge : String) (slaves : List String) : Prop :=
  (∃ b, g.find? bridge = some b ∧ b.isBridge = true) ∧
    ∀ n ∈ slaves, n ≠ bridge ∧ (g.find? n).isSome = true

section Checks

variable {s : Site}

namespace Manager

/-- Up to its final reading an update either finds that the bridge or a slave is missing, or does
all that it was asked for. -/
theorem triple_reviseBridge (hq : s.host.Quiet) (hd : s.host.state.Distinct) (name : String)
    (slaves : List String) (addresses : List IpNet) :
    Triple (fun t => t = s) (reviseBridge name slaves addresses)
      (fun _ t => s.host.state.Admits name slaves ∧ t.host.Holds true s.host.naming
        (s.host.state.Mapped (Link.revised name slaves addresses)))
      fun _ _ => ¬ s.host.state.Admits name slaves := by
  unfold reviseBridge
  refine Triple.bind ((Site.decides_onHost (Host.decides_get hq name)).catch ?_) fun link =>
    Triple.of_pure fun hlink => ?_
  · rintro _ _ ⟨hnone, -⟩ ⟨⟨b, hb, -⟩, -⟩
    rw [hnone] at hb
    cases hb
  by_cases hbridge : (!link.isBridge) = true
  · dsimp only
    rw [if_pos hbridge]
    refine Triple.throw_bind ?_
    rintro _ _ ⟨⟨b, hb, hisBridge⟩, -⟩
    obtain rfl : link = b := Option.some.inj (hlink.symm.trans hb)
    rw [hisBridge] at hbridge
    cases hbridge
  dsimp only
  rw [if_neg hbridge]
  have hbridge : ∃ b, s.host.state.find? name = some b ∧ b.isBridge = true :=
    ⟨link, hlink, by simpa using hbridge⟩
  have hchecks := (inspects_checkSlaves s name slaves).decides hq
  refine Triple.bind (hchecks.catch fun _ _ hbad h => hbad.1 h.2)
    fun checked => Triple.of_pure fun hchecked => ?_
  obtain ⟨hslaves, hmem⟩ := hchecked
  -- The change of phase leaves the host, and the steps are sure to succeed on it.
  have hadvance : Triple (fun t => t = s)
      (Site.advance (.start "update_bridge" name .absent) .created)
      (fun _ t => t.host.Holds true s.host.naming fun g => g = s.host.state)
      fun _ _ => ¬ s.host.state.Admits name slaves := by
    rintro t rfl
    exact ⟨fun _ => hq, rfl, rfl⟩
  have hchecked : ∀ n ∈ checked, n ≠ name ∧ (s.host.state.find? n).isSome :=
    fun n hn => hslaves n ((hmem n).mp hn)
  refine hadvance.bind fun t =>
    ((Tracked.Reaches.reviseBridgeSteps hd hbridge hchecked addresses).withRecovery t).weaken
      (fun _ ht => ht) (fun r u hu => ?_) fun _ _ he => he.elim
  have hsame : Link.revised name checked addresses = Link.revised name slaves addresses := by
    funext l
    rw [Link.revised, Link.revised, Link.reslaved_congr hmem]
  exact ⟨⟨hbridge, hslaves⟩, hsame ▸ hu⟩

/-- A bridge is read as it is. -/
theorem triple_currentBridge_view {naming : Naming} {P : HostState → Prop} {name : String}
    (hP : ∀ g, P g → g.HasBridge name) :
    Triple (fun t : Site => t.host.Holds true naming P) (currentBridge name)
      (fun v t => P t.host.state ∧ ∃ b, t.host.state.find? name = some b ∧
        BridgeView.view b t.host.state.listing = v)
      fun _ _ => False := by
  refine (Site.Inspects.total (fun s => inspects_currentBridge s name) fun u hu => ?_).post
    fun v u hu => ?_
  · have hhas := hP _ hu.state
    exact ⟨hu.quiet rfl, (HostState.hasBridge_iff hhas.1).mp hhas⟩
  · obtain ⟨hview, hu⟩ := hu
    obtain ⟨b, hb, -, hview⟩ := (HostState.bridge?_eq_some_iff (hP _ hu.state).1).mp hview
    exact ⟨hu.state, b, hb, hview⟩

end Manager

end Checks

/-! ## Updates of bridges -/

/-- From `g` to `g'` the bridge was brought to other slaves and addresses, and it is viewed as `v`
then. -/
structure HostState.Revision (g : HostState) (bridge : String) (slaves : List String)
    (addresses : List IpNet) (g' : HostState) (v : BridgeView) : Prop extends
    g.Mapped (Link.revised bridge slaves addresses) g' where
  slave_iff : ∀ n, (∃ l, g'.find? n = some l ∧ l.master = some bridge) ↔ n ∈ slaves
  name_eq : v.name = bridge
  slaves_sorted : v.slaves.Pairwise (· < ·)
  mem_slaves : ∀ n, n ∈ v.slaves ↔ n ∈ slaves
  mem_addresses : ∀ a, a ∈ v.addresses ↔ a ∈ addresses
  viewed : ∃ b, g'.find? bridge = some b ∧ v.addresses = b.addresses ∧ v.isUp = b.isUp

/-- The links with the bridge as their master are those that were asked for. -/
theorem HostState.Mapped.slave_iff {g g' : HostState} {bridge : String} {slaves : List String}
    {addresses : List IpNet} (h : g.Mapped (Link.revised bridge slaves addresses) g')
    (hslaves : ∀ n ∈ slaves, (g.find? n).isSome) (n : String) :
    (∃ l, g'.find? n = some l ∧ l.master = some bridge) ↔ n ∈ slaves := by
  simp only [h.find, Option.map_eq_some_iff]
  constructor
  · rintro ⟨_, ⟨l, hl, rfl⟩, hmaster⟩
    obtain rfl : l.name = n := name_of_find? hl
    exact Link.master_revised_iff.mp hmaster
  · intro hn
    obtain ⟨l, hl⟩ := Option.isSome_iff_exists.mp (hslaves n hn)
    obtain rfl : l.name = n := name_of_find? hl
    exact ⟨_, ⟨l, hl, rfl⟩, Link.master_revised_iff.mpr hn⟩

/-- What is read in the end is what was asked for. -/
theorem HostState.Mapped.revision {g g' : HostState} {bridge : String} {slaves : List String}
    {addresses : List IpNet} {b : Link} (h : g.Mapped (Link.revised bridge slaves addresses) g')
    (hadmits : g.Admits bridge slaves) (hb : g'.find? bridge = some b) :
    g.Revision bridge slaves addresses g' (BridgeView.view b g'.listing) := by
  have hname : b.name = bridge := name_of_find? hb
  have hslave_iff := h.slave_iff fun n hn => (hadmits.2 n hn).2
  refine ⟨h, hslave_iff, hname, ?_, fun n => ?_, fun a => ?_, b, hb, rfl, rfl⟩
  · -- Sorted names none of which stands twice go up strictly.
    have hsorted := pairwise_mergeSort_by_name id (slavesOf b.name g'.listing)
    have hnodup : ((slavesOf b.name g'.listing).mergeSort fun a b => decide (a ≤ b)).Nodup :=
      (List.mergeSort_perm ..).nodup_iff.mpr (nodup_slavesOf h.distinct _)
    exact hsorted.imp₂ (fun _ _ hle hne => lt_of_le_of_ne hle hne) hnodup
  · rw [BridgeView.view, List.mem_mergeSort, mem_slavesOf h.distinct, hname, hslave_iff]
  · rw [h.find] at hb
    obtain ⟨l, hl, rfl⟩ := Option.map_eq_some_iff.mp hb
    rw [BridgeView.view, Link.revised, if_pos (name_of_find? hl), Link.mem_addresses_readdressed]

namespace Manager

/-- An update that is not refused ends with a reading of what it has done. -/
theorem triple_updateBridge {s : Site} (hq : s.host.Quiet) (hfree : s.lock.holder = none)
    (hd : s.host.state.Distinct) (m : Manager) (name : String) (slaves : List String)
    (addresses : List IpNet) :
    Triple (fun t => t = s) (m.updateBridge name slaves addresses)
      (fun v t => (m.naming.manages name = true ∧ s.host.state.Admits name slaves) ∧
        s.host.state.Revision name slaves addresses t.host.state v)
      fun _ _ => ¬ (m.naming.manages name = true ∧ s.host.state.Admits name slaves) := by
  unfold updateBridge
  cases hmanages : m.naming.manages name with
  | false =>
    rw [checkManaged_of_not_manages hmanages]
    exact Triple.throw_bind fun _ _ h => Bool.false_ne_true h.1
  | true =>
    rw [checkManaged_of_manages hmanages]
    refine Triple.bind (Q := fun _ t => t = s) (Triple.pure fun _ ht => ht) fun _ => ?_
    rintro t rfl
    rw [Site.exclusively_of_free hfree]
    refine Triple.bind ((triple_reviseBridge hq hd name slaves addresses).catch
      fun _ _ hbad h => hbad h.2) (fun r => Triple.of_pure fun hadmits => ?_) t rfl
    -- The bridge stands after the steps, so it is read, and the last change of phase leaves it.
    have hhas (g : HostState)
        (hg : t.host.state.Mapped (Link.revised name slaves addresses) g) : g.HasBridge name := by
      obtain ⟨⟨b, hb, hbridge⟩, -⟩ := hadmits
      exact ⟨hg.distinct, _, by rw [hg.find, hb]; rfl, Link.isBridge_revised.trans hbridge⟩
    refine Triple.bind ((triple_currentBridge_view hhas).catch fun _ _ he => he.elim) fun v => ?_
    refine (Site.triple_discard_advance (P := fun w =>
      t.host.state.Mapped (Link.revised name slaves addresses) w.machine.host.state ∧
        ∃ b, w.machine.host.state.find? name = some b ∧
          BridgeView.view b w.machine.host.state.listing = v) r.2 .reconciled).bind fun _ => ?_
    refine Triple.pure ?_
    rintro u ⟨hu, b, hb, rfl⟩
    exact ⟨⟨rfl, hadmits⟩, hu.revision hadmits hb⟩

/-- On a host without failures an update of a bridge succeeds exactly if the bridge is managed, it
stands, and so do all the slaves that it is to have, none of which is the bridge itself.  Then the
host has been changed in this and nothing else, and the answer says so. -/
theorem updateBridge_exact {s : Site} (hq : s.host.Quiet) (hfree : s.lock.holder = none)
    (hd : s.host.state.Distinct) (m : Manager) (name : String) (slaves : List String)
    (addresses : List IpNet) :
    ((∃ v s', m.updateBridge name slaves addresses s = .ok v s') ↔
      m.naming.manages name = true ∧ s.host.state.Admits name slaves) ∧
    ∀ v s', m.updateBridge name slaves addresses s = .ok v s' →
      s.host.state.Revision name slaves addresses s'.host.state v := by
  have hupdate := triple_updateBridge hq hfree hd m name slaves addresses
  refine ⟨⟨?_, fun hallowed => ?_⟩, fun v s' hrun => (hupdate.of_ok rfl hrun).2⟩
  · rintro ⟨v, s', hrun⟩
    exact (hupdate.of_ok rfl hrun).1
  · cases hrun : m.updateBridge name slaves addresses s with
    | ok v s' => exact ⟨v, s', rfl⟩
    | error e s' => exact absurd hallowed (hupdate.of_error rfl hrun)

/-! ### A bridge that takes the slave of another one -/

/-- A host with two bridges, each of which has a slave. -/
def patchHost : Host :=
  ⟨.standard,
    ⟨6, [⟨1, "eth0", .physical, [], some "rol.x", none, none, true⟩,
      ⟨2, "eth1", .physical, [], some "rol.y", none, none, true⟩,
      ⟨3, "eth2", .physical, [], none, none, none, false⟩,
      ⟨4, "rol.x", .bridge, [.v4 (.ofAddress24 0x0A000101), .v4 (.ofAddress24 0x0A000201)], none,
        none, none, true⟩,
      ⟨5, "rol.y", .bridge, [], none, none, none, true⟩], .const []⟩,
    [], fun _ => none⟩

/-- A site with this host. -/
def patchSite : Site :=
  { SiteRequest.calmSite with
    stored := { SiteRequest.calmSite.stored with machine := ⟨patchHost, .none⟩ } }

/-- The bridge takes `eth1` from the other one, gives `eth0` up, and keeps one of its addresses. -/
theorem updateBridge_exact_patchSite :
    patchSite.host.Quiet ∧ patchSite.lock.holder = none ∧ patchSite.host.state.Distinct ∧
      ∃ v s', (⟨.standard⟩ : Manager).updateBridge "rol.x" ["eth2", "eth1", "eth2"]
          [.v4 (.ofAddress24 0x0A000301), .v4 (.ofAddress24 0x0A000201),
            .v4 (.ofAddress24 0x0A000301)] patchSite = .ok v s' ∧
        (∀ n, n ∈ v.slaves ↔ n = "eth1" ∨ n = "eth2") ∧
        v.addresses = [.v4 (.ofAddress24 0x0A000201), .v4 (.ofAddress24 0x0A000301)] ∧
        s'.host.state.find? "eth0" =
          some ⟨1, "eth0", .physical, [], none, none, none, true⟩ ∧
        s'.host.state.find? "eth1" =
          some ⟨2, "eth1", .physical, [], some "rol.x", none, none, true⟩ := by
  have hquiet : patchSite.host.Quiet := fun _ => rfl
  have hd : patchSite.host.state.Distinct := by unfold HostState.Distinct; decide
  obtain ⟨hallowed, hexact⟩ := updateBridge_exact hquiet rfl hd ⟨.standard⟩ "rol.x"
    ["eth2", "eth1", "eth2"] [.v4 (.ofAddress24 0x0A000301), .v4 (.ofAddress24 0x0A000201),
      .v4 (.ofAddress24 0x0A000301)]
  have hadmits : patchSite.host.state.Admits "rol.x" ["eth2", "eth1", "eth2"] :=
    ⟨⟨_, rfl, rfl⟩, by decide⟩
  obtain ⟨v, s', hrun⟩ := hallowed.mpr ⟨by decide, hadmits⟩
  have hrevision := hexact v s' hrun
  obtain ⟨b, hb, hview, -⟩ := hrevision.viewed
  refine ⟨hquiet, rfl, hd, v, s', hrun, fun n => ?_, ?_, ?_, ?_⟩
  · rw [hrevision.mem_slaves]
    grind
  · rw [hrevision.find] at hb
    rw [hview, ← Option.some.inj hb]
    decide
  · rw [hrevision.find]
    decide
  · rw [hrevision.find]
    decide

end Manager

end HostNet
