/-
Hosts with projects on them.

`Serves s tables uplink live t` says that `t` is the host `s` with the projects `live` set up on it,
in this order: it has their bridges and their rules, and all else is as in `s` but for the master of
the uplink.  Setting one more project up and taking one down keep this, and so does bringing a host
back that was left off in the middle of either.
-/

import HostNet.Proofs.ApplyFrame
import HostNet.Proofs.ApplyHonest
import HostNet.Proofs.ProjectSteps

namespace HostNet

/-! ## What is asked of the host without projects -/

/-- Every link that a link names is there, and every master is a bridge. -/
structure HostState.Closed (s : HostState) : Prop where
  distinct : s.Distinct
  masters : s.MastersExist
  parents : ∀ l ∈ s.links, ∀ p, l.parent = some p → (s.find? p).isSome

/-- No link names one that is absent. -/
theorem HostState.Closed.not_named {s : HostState} (hs : s.Closed) {b n : String} {l : Link}
    (hb : s.find? b = none) (hl : s.find? n = some l) :
    l.parent ≠ some b ∧ l.master ≠ some b := by
  constructor
  · intro hp
    have hsome := hs.parents l (mem_of_find? hl) b hp
    rw [hb] at hsome
    cases hsome
  · intro hm
    obtain ⟨m, hm, -⟩ := hs.masters l (mem_of_find? hl) b hm
    rw [hb] at hm
    cases hm

/-- A link that neither is the removed one nor hangs on it stays as it is. -/
theorem Link.afterRemoval_eq {b : String} {l : Link} (hname : l.name ≠ b)
    (hparent : l.parent ≠ some b) (hmaster : l.master ≠ some b) : l.afterRemoval b = some l := by
  rw [afterRemoval, if_neg (not_or.mpr ⟨hname, hparent⟩), if_neg hmaster]

/-- Taking a member out of a list takes its image out of the images, if these are all different. -/
theorem erase_map_of_nodup {α β : Type} [BEq α] [LawfulBEq α] [BEq β] [LawfulBEq β] {f : α → β}
    {l : List α} {a : α} (h : (l.map f).Nodup) (ha : a ∈ l) :
    (l.map f).erase (f a) = (l.erase a).map f := by
  induction l with
  | nil => rfl
  | cons b l ih =>
    obtain ⟨hb, hl⟩ := List.nodup_cons.mp h
    rcases List.mem_cons.mp ha with rfl | ha
    · rw [List.map_cons, List.erase_cons_head, List.erase_cons_head]
    · -- The head is another member, with another image.
      have himage : f b ≠ f a := fun hba => hb (hba ▸ List.mem_map_of_mem ha)
      have hne : b ≠ a := fun hba => himage (congrArg f hba)
      rw [List.map_cons, List.erase_cons_tail (by simpa using himage),
        List.erase_cons_tail (by simpa using hne), List.map_cons, ih hl ha]

/-- A masquerade rule tells its network with the host bits cleared. -/
theorem Rule.truncated_eq_of_masquerade {m n : Ipv4Net}
    (h : masquerade (.v4 m) = masquerade (.v4 n)) : m.truncated = n.truncated := by
  simpa [masquerade, withSource, IpNet.truncated] using h

/-! ## Hosts that differ in one bridge -/

namespace HostState

/-- `g` is `t` but for the link `b` and the master of the uplink. -/
structure OffBy (t : HostState) (b uplink : String) (g : HostState) : Prop where
  other : ∀ n, n ≠ b → n ≠ uplink → g.find? n = t.find? n
  uplink : uplink ≠ b → ∃ master, g.find? uplink =
    (t.find? uplink).map fun l => { l with master := master }

namespace OffBy

variable {t g : HostState} {b uplink : String}

theorem of_find?_eq (h : ∀ n, n ≠ b → g.find? n = t.find? n) : t.OffBy b uplink g where
  other n hn _ := h n hn
  uplink hne := by
    rw [h uplink hne]
    cases t.find? uplink with
    | none => exact ⟨none, rfl⟩
    | some l => exact ⟨l.master, rfl⟩

/-- The link `b` may be changed in any way. -/
theorem update (h : t.OffBy b uplink g) {f : Link → Link} (hname : ∀ l, (f l).name = l.name) :
    t.OffBy b uplink (g.update b f) where
  other n hn hnu := by
    rw [find?_update hname, if_neg hn]
    exact h.other n hn hnu
  uplink hne := by
    rw [find?_update hname, if_neg hne]
    exact h.uplink hne

/-- The uplink may be given any master. -/
theorem enslave (h : t.OffBy b uplink g) (master : Option String) :
    t.OffBy b uplink (g.update uplink fun l => { l with master := master }) where
  other n hn hnu := by
    rw [find?_update (f := fun l : Link => { l with master := master }) (fun _ => rfl), if_neg hnu]
    exact h.other n hn hnu
  uplink hne := by
    obtain ⟨old, hold⟩ := h.uplink hne
    refine ⟨master, ?_⟩
    rw [find?_update (f := fun l : Link => { l with master := master }) (fun _ => rfl),
      if_pos rfl, hold, Option.map_map]
    rfl

end OffBy

/-! ## Hosts with projects -/

/-- The links of `t` are those of `s` and the bridges of the projects `live`, and the uplink may
have another master. -/
structure Houses (s : HostState) (uplink : String) (live : List Project) (t : HostState) :
    Prop where
  distinct : t.Distinct
  fresh : ∀ p ∈ live, s.find? p.bridge = none ∧ p.bridge ≠ uplink
  standing : ∀ p ∈ live, ∃ index, t.find? p.bridge = some (p.link index)
  other : ∀ n, n ≠ uplink → n ∉ live.map Project.bridge → t.find? n = s.find? n
  uplink : ∃ master, t.find? uplink = (s.find? uplink).map fun l => { l with master := master }

/-- The host `t` is `s` with the projects `live` set up on it, as far as the given tables go. -/
structure Serves (s : HostState) (tables : List Table) (uplink : String) (live : List Project)
    (t : HostState) : Prop extends Houses s uplink live t where
  bridges : (live.map Project.bridge).Nodup
  subnets : (live.map Project.subnet).Nodup
  whole : ∀ p ∈ live, p.subnet.truncated = p.subnet
  unruled : ∀ p ∈ live, p.masqueradeRule ∉ s.rules.get .nat
  rules : ∀ table ∈ tables, t.rules.get table =
    if table = .nat then s.rules.get .nat ++ live.map Project.masqueradeRule
    else s.rules.get table

theorem Serves.start {s : HostState} (hd : s.Distinct) (tables : List Table) (uplink : String) :
    s.Serves tables uplink [] s where
  distinct := hd
  fresh _ hp := absurd hp List.not_mem_nil
  standing _ hp := absurd hp List.not_mem_nil
  other _ _ _ := rfl
  uplink := by
    cases s.find? uplink with
    | none => exact ⟨none, rfl⟩
    | some l => exact ⟨l.master, rfl⟩
  bridges := List.nodup_nil
  subnets := List.nodup_nil
  whole _ hp := absurd hp List.not_mem_nil
  unruled _ hp := absurd hp List.not_mem_nil
  rules table _ := by
    rw [List.map_nil, List.append_nil]
    split
    · next h => rw [h]
    · rfl

namespace Houses

variable {s t v : HostState} {uplink b : String} {live live' : List Project}

/-- A name that is free in `s` and belongs to no project is free. -/
theorem find?_eq_none (h : s.Houses uplink live t) (hb : s.find? b = none)
    (hlive : b ∉ live.map Project.bridge) : t.find? b = none := by
  by_cases hbu : b = uplink
  · subst hbu
    obtain ⟨master, hmaster⟩ := h.uplink
    rw [hmaster, hb, Option.map_none]
  · rw [h.other b hbu hlive, hb]

/-- A name that is free belongs to no project, and is free in `s`. -/
theorem free_of_find?_eq_none (h : s.Houses uplink live t) (hb : t.find? b = none) :
    b ∉ live.map Project.bridge ∧ s.find? b = none := by
  have hlive : b ∉ live.map Project.bridge := by
    intro hmem
    obtain ⟨p, hp, rfl⟩ := List.mem_map.mp hmem
    obtain ⟨index, hindex⟩ := h.standing p hp
    rw [hb] at hindex
    cases hindex
  refine ⟨hlive, ?_⟩
  by_cases hbu : b = uplink
  · subst hbu
    obtain ⟨master, hmaster⟩ := h.uplink
    rw [hb] at hmaster
    exact Option.map_eq_none_iff.mp hmaster.symm
  · rw [← h.other b hbu hlive, hb]

/-- Only what is found counts. -/
theorem congr (h : s.Houses uplink live t) (hd : v.Distinct)
    (hfind : ∀ n, v.find? n = t.find? n) : s.Houses uplink live v where
  distinct := hd
  fresh := h.fresh
  standing p hp := by
    rw [hfind]
    exact h.standing p hp
  other n hnu hn := (hfind n).trans (h.other n hnu hn)
  uplink := by
    rw [hfind]
    exact h.uplink

/-- A change of one bridge and of the master of the uplink leads to a host with other projects. -/
theorem offBy (h : s.Houses uplink live t) (hoff : t.OffBy b uplink v) (hd : v.Distinct)
    (hb : s.find? b = none) (hlive : ∀ p, p.bridge ≠ b → (p ∈ live' ↔ p ∈ live))
    (hat : ∀ p ∈ live', p.bridge = b → b ≠ uplink ∧ ∃ index, v.find? b = some (p.link index))
    (hnone : b ∉ live'.map Project.bridge → v.find? b = none) : s.Houses uplink live' v where
  distinct := hd
  fresh p hp := by
    by_cases hpb : p.bridge = b
    · rw [hpb]
      exact ⟨hb, (hat p hp hpb).1⟩
    · exact h.fresh p ((hlive p hpb).mp hp)
  -- A project other than that of `b` stands where it stood.
  standing p hp := by
    by_cases hpb : p.bridge = b
    · rw [hpb]
      exact (hat p hp hpb).2
    · have hold := (hlive p hpb).mp hp
      rw [hoff.other p.bridge hpb (h.fresh p hold).2]
      exact h.standing p hold
  other n hnu hn := by
    by_cases hnb : n = b
    · subst hnb
      rw [hnone hn, hb]
    · rw [hoff.other n hnb hnu]
      refine h.other n hnu fun hmem => hn ?_
      obtain ⟨p, hp, rfl⟩ := List.mem_map.mp hmem
      exact List.mem_map_of_mem ((hlive p hnb).mpr hp)
  uplink := by
    by_cases hub : uplink = b
    · -- The bridge cannot be one of the projects then.
      subst hub
      refine ⟨none, ?_⟩
      rw [hb, Option.map_none]
      refine hnone fun hmem => ?_
      obtain ⟨p, hp, hpb⟩ := List.mem_map.mp hmem
      exact (hat p hp hpb).1 rfl
    · obtain ⟨master, hmaster⟩ := hoff.uplink hub
      obtain ⟨old, hold⟩ := h.uplink
      refine ⟨master, ?_⟩
      rw [hmaster, hold, Option.map_map]
      rfl

/-- The bridge of a project names no link, and any other link but the uplink is one of `s`. -/
theorem not_named (h : s.Houses uplink live t) (hs : s.Closed) (hb : s.find? b = none)
    {n : String} {l : Link} (hl : t.find? n = some l) :
    l.parent ≠ some b ∧ (n ≠ uplink → l.master ≠ some b) := by
  by_cases hlive : n ∈ live.map Project.bridge
  · obtain ⟨p, hp, rfl⟩ := List.mem_map.mp hlive
    obtain ⟨index, hindex⟩ := h.standing p hp
    obtain rfl := Option.some.inj (hl.symm.trans hindex)
    exact ⟨nofun, nofun⟩
  by_cases hnu : n = uplink
  · subst hnu
    obtain ⟨master, hmaster⟩ := h.uplink
    rw [hmaster] at hl
    obtain ⟨l', hl', rfl⟩ := Option.map_eq_some_iff.mp hl
    exact ⟨(hs.not_named hb hl').1, fun hne => absurd rfl hne⟩
  · rw [h.other n hnu hlive] at hl
    exact ⟨(hs.not_named hb hl).1, fun _ => (hs.not_named hb hl).2⟩

/-- Removing a bridge that `s` does not have releases the uplink at most. -/
theorem offBy_dropped (h : s.Houses uplink live t) (hs : s.Closed) (hb : s.find? b = none) :
    t.OffBy b uplink (t.dropped b) where
  other n hnb hnu := by
    rw [find?_dropped h.distinct]
    cases hl : t.find? n with
    | none => rfl
    | some l =>
      obtain ⟨hparent, hmaster⟩ := h.not_named hs hb hl
      exact Link.afterRemoval_eq (name_of_find? hl ▸ hnb) hparent (hmaster hnu)
  uplink hub := by
    rw [find?_dropped h.distinct]
    cases hl : t.find? uplink with
    | none => exact ⟨none, rfl⟩
    | some l =>
      have hparent := (h.not_named hs hb hl).1
      rw [Option.bind_some, Link.afterRemoval,
        if_neg (not_or.mpr ⟨name_of_find? hl ▸ hub, hparent⟩)]
      by_cases hm : l.master = some b
      · exact ⟨none, by rw [if_pos hm, Option.map_some]⟩
      · exact ⟨l.master, by rw [if_neg hm, Option.map_some]⟩

theorem find?_dropped_self (h : s.Houses uplink live t) : (t.dropped b).find? b = none := by
  rw [find?_dropped h.distinct]
  cases hl : t.find? b with
  | none => rfl
  | some l => rw [Option.bind_some, Link.afterRemoval, if_pos (.inl (name_of_find? hl))]

end Houses

/-! ## Setting up and taking down -/

namespace Houses

variable {s t : HostState} {uplink : String} {live : List Project} {p : Project}

/-- One more project. -/
theorem withProject (h : s.Houses uplink live t) (hfree : t.find? p.bridge = none)
    (hne : uplink ≠ p.bridge) : s.Houses uplink (live ++ [p]) (t.withProject p uplink) := by
  obtain ⟨hnew, hb⟩ := h.free_of_find?_eq_none hfree
  -- The project changes its bridge and the uplink, and no other link.
  have hoff : t.OffBy p.bridge uplink (t.withProject p uplink) := by
    refine ⟨fun n hnb hnu => ?_, fun hub => ⟨some p.bridge, ?_⟩⟩
    · rw [find?_withProject hne, if_neg hnb, if_neg hnu]
    · rw [find?_withProject hne, if_neg hub, if_pos rfl]
  have hself : (t.withProject p uplink).find? p.bridge = some (p.link t.nextIndex) := by
    rw [find?_withProject hne, if_pos rfl]
  refine h.offBy hoff h.distinct.withProject hb (fun q hq => ?_) (fun q hq hqb => ?_) ?_
  · rw [List.mem_append, List.mem_singleton]
    exact or_iff_left fun hqp => hq (hqp ▸ rfl)
  · rcases List.mem_append.mp hq with hq | hq
    · exact absurd (hqb ▸ List.mem_map_of_mem hq) hnew
    · rw [List.mem_singleton.mp hq]
      exact ⟨hne.symm, t.nextIndex, hself⟩
  · intro hnone
    rw [List.map_append] at hnone
    exact absurd (List.mem_append_right _ (List.mem_singleton_self _)) hnone

/-- One project less. -/
theorem withoutProject (h : s.Houses uplink live t) (hs : s.Closed)
    (hbridges : (live.map Project.bridge).Nodup) (hp : p ∈ live) :
    s.Houses uplink (live.erase p) (t.withoutProject p) := by
  have hlive : live.Nodup := hbridges.of_map
  obtain ⟨hb, hbu⟩ := h.fresh p hp
  -- The rules do not matter to the links.
  have hdropped := h.offBy_dropped hs hb
  have hoff : t.OffBy p.bridge uplink (t.withoutProject p) := ⟨hdropped.other, hdropped.uplink⟩
  have hself : (t.withoutProject p).find? p.bridge = none := h.find?_dropped_self
  refine h.offBy hoff h.distinct.withoutProject hb (fun q hq => ?_) (fun q hq hqb => ?_)
    fun _ => hself
  · rw [hlive.mem_erase_iff]
    exact and_iff_right fun hqp => hq (hqp ▸ rfl)
  · -- No other project has this bridge.
    obtain ⟨hne, hq⟩ := hlive.mem_erase_iff.mp hq
    exact absurd (List.inj_on_of_nodup_map hbridges hq hp hqb) hne

end Houses

namespace Serves

variable {s t v : HostState} {tables : List Table} {uplink : String} {live : List Project}
  {p : Project}

theorem nodup_rules (h : s.Serves tables uplink live t) :
    (live.map Project.masqueradeRule).Nodup := by
  refine List.Nodup.map_on (fun p hp q hq hpq => ?_) h.subnets.of_map
  have hsubnet := Rule.truncated_eq_of_masquerade hpq
  rw [h.whole p hp, h.whole q hq] at hsubnet
  exact List.inj_on_of_nodup_map h.subnets hp hq hsubnet

/-- The rule of a subnet that no project has is new. -/
theorem masquerade_notMem (h : s.Serves tables uplink live t) (hnat : .nat ∈ tables) {n : Ipv4Net}
    (hwhole : n.truncated = n) (hn : n ∉ live.map Project.subnet)
    (hrule : Rule.masquerade (.v4 n) ∉ s.rules.get .nat) :
    Rule.masquerade (.v4 n) ∉ t.rules.get .nat := by
  rw [h.rules _ hnat, if_pos rfl, List.mem_append, not_or]
  refine ⟨hrule, fun hmem => ?_⟩
  obtain ⟨p, hp, hpn⟩ := List.mem_map.mp hmem
  have hsubnet := Rule.truncated_eq_of_masquerade hpn
  rw [h.whole p hp, hwhole] at hsubnet
  exact hn (hsubnet ▸ List.mem_map_of_mem hp)

/-- No rule is listed twice, also where a rule of a new project is appended. -/
theorem listed (h : s.Serves tables uplink live t)
    (hs : ∀ table ∈ tables, (s.rules.get table).Nodup) :
    ∀ table ∈ tables, (t.rules.get table).Nodup := by
  intro table htable
  rw [h.rules table htable]
  split
  · next hnat =>
    subst hnat
    refine List.nodup_append.mpr ⟨hs _ htable, h.nodup_rules, ?_⟩
    rintro r hr _ hlive rfl
    obtain ⟨p, hp, rfl⟩ := List.mem_map.mp hlive
    exact h.unruled p hp hr
  · exact hs table htable

/-- One more project. -/
theorem withProject (h : s.Serves tables uplink live t) (hfree : t.find? p.bridge = none)
    (hne : uplink ≠ p.bridge) (hsubnet : p.subnet ∉ live.map Project.subnet)
    (hwhole : p.subnet.truncated = p.subnet)
    (hrule : p.masqueradeRule ∉ s.rules.get .nat) :
    s.Serves tables uplink (live ++ [p]) (t.withProject p uplink) := by
  obtain ⟨hnew, -⟩ := h.free_of_find?_eq_none hfree
  have hmap {β : Type} (f : Project → β) : (live ++ [p]).map f = live.map f ++ [f p] := by
    rw [List.map_append, List.map_singleton]
  refine ⟨h.toHouses.withProject hfree hne, ?_, ?_, fun q hq => ?_, fun q hq => ?_,
    fun table htable => ?_⟩
  · rw [hmap]
    exact nodup_append_singleton h.bridges hnew
  · rw [hmap]
    exact nodup_append_singleton h.subnets hsubnet
  · rcases List.mem_append.mp hq with hq | hq
    · exact h.whole q hq
    · rw [List.mem_singleton.mp hq]
      exact hwhole
  · rcases List.mem_append.mp hq with hq | hq
    · exact h.unruled q hq
    · rw [List.mem_singleton.mp hq]
      exact hrule
  · rw [rules_withProject, hmap]
    split
    · next hnat =>
      subst hnat
      rw [h.rules _ htable, if_pos rfl, List.append_assoc]
    · next hnat => rw [h.rules _ htable, if_neg hnat]

/-- One project less. -/
theorem withoutProject (h : s.Serves tables uplink live t) (hs : s.Closed) (hp : p ∈ live) :
    s.Serves tables uplink (live.erase p) (t.withoutProject p) := by
  have hsub : (live.erase p).Sublist live := List.erase_sublist
  refine ⟨h.toHouses.withoutProject hs h.bridges hp, h.bridges.sublist (hsub.map _),
    h.subnets.sublist (hsub.map _), fun q hq => h.whole q (hsub.mem hq),
    fun q hq => h.unruled q (hsub.mem hq), fun table htable => ?_⟩
  rw [rules_withoutProject]
  split
  · next hnat =>
    subst hnat
    rw [h.rules _ htable, if_pos rfl, List.erase_append_right _ (h.unruled p hp),
      erase_map_of_nodup h.nodup_rules hp]
  · next hnat => rw [h.rules _ htable, if_neg hnat]

end Serves

end HostState

/-! ## Coming back -/

section Regained

variable {scope : Scope} {s t g v : HostState} {uplink b : String} {live : List Project}

/-- A bridge with a managed name is recorded. -/
theorem Scope.recordKind?_of_managed {l : Link} (hl : l.isBridge = true)
    (hmanaged : scope.naming.manages l.name = true) : scope.recordKind? l = some .bridge := by
  have hkind : l.kind = .bridge := by simpa [Link.isBridge] using hl
  simp [recordKind?, Link.isVlan, hkind, hl, hmanaged]

/-- A bridge of a project that is built from its record is as it was, under another index. -/
theorem Project.settled_blank {p : Project} {index : UInt32} {r : LinkRecord}
    (hmanaged : scope.naming.manages p.bridge = true) (hp : t.find? p.bridge = some (p.link index))
    (hr : scope.recordAt t p.bridge = some r) (other : UInt32) :
    r.settled (r.blank other) = p.link other := by
  obtain ⟨l, k, hl, hk, rfl⟩ := Scope.recordAt_eq_some_iff.mp hr
  obtain rfl := Option.some.inj (hl.symm.trans hp)
  have hkind : scope.recordKind? (p.link index) = some .bridge :=
    Scope.recordKind?_of_managed rfl hmanaged
  obtain rfl := Option.some.inj (hk.symm.trans hkind)
  have hsorted : sortedSet IpNet.le [p.gateway] = [p.gateway] :=
    sortedSet_of_sorted (List.pairwise_singleton ..) (List.nodup_singleton _)
  have hadded : Diff.outside [p.gateway] [] = [p.gateway] :=
    eraseDups_of_nodup (List.nodup_singleton _)
  simp only [LinkRecord.settled, LinkRecord.blank, Project.link, Link.bare, hsorted, hadded,
    List.filter_nil, List.nil_append, Bool.or_true]

/-- `g` is `t`, left off where the bridge `b` was being added or had been removed. -/
structure HostState.LeftOff (scope : Scope) (s t : HostState) (b uplink : String)
    (g : HostState) : Prop where
  free : s.find? b = none
  managed : scope.naming.manages b = true
  off : t.OffBy b uplink g
  bridge : g.find? b = none ∨ g.find? b = t.find? b ∨
    t.find? b = none ∧ ∃ l, g.find? b = some l ∧ l.isBridge = true

variable {d e f u : HostState} {rules : PerTable (List Rule)}

namespace HostState.LeftOff

/-- Both hosts count every other link as the same. -/
theorem alike (h : LeftOff scope s t b uplink g) {n : String} (hn : n ≠ b) :
    scope.Alike t { g with rules := rules } n := by
  by_cases hnu : n = uplink
  · subst hnu
    obtain ⟨master, hmaster⟩ := h.off.uplink hn
    cases hl : t.find? n with
    | none => exact .of_find?_eq (hmaster.trans (by rw [hl, Option.map_none]))
    | some l => exact .of_master hl (hmaster.trans (by rw [hl, Option.map_some]))
  · exact .of_find?_eq (h.off.other n hn hnu)

/-- A pass changes no more than that bridge and the master of the uplink. -/
theorem offBy_final (h : LeftOff scope s t b uplink g) (ht : s.Houses uplink live t)
    (hs : s.Closed) (hg : g.Distinct) (hpass : scope.Pass t { g with rules := rules } d e f u v) :
    t.OffBy b uplink v := by
  have hgd : HostState.Distinct { g with rules := rules } := hg
  -- No link names the bridge, except that the uplink may have it as master.
  have hparent {n p : String} {l : Link} (hl : t.find? n = some l) (hp : l.parent = some p) :
      scope.Alike t { g with rules := rules } p :=
    h.alike fun hpb => (ht.not_named hs h.free hl).1 (hpb ▸ hp)
  refine ⟨fun n hnb hnu => ?_, fun hub => ?_⟩
  · have hsame := h.off.other n hnb hnu
    cases hl : t.find? n with
    | none => exact hpass.final_of_absent ht.distinct hgd hl (.inl (hsame.trans hl))
    | some l =>
      refine hpass.final_of_same ht.distinct hgd hl (hsame.trans hl) (fun _ => hparent hl) ?_
      exact fun m hm => h.alike fun hmb => (ht.not_named hs h.free hl).2 hnu (hmb ▸ hm)
  · obtain ⟨master, hmaster⟩ := h.off.uplink hub
    cases hl : t.find? uplink with
    | none =>
      rw [hl, Option.map_none] at hmaster
      exact ⟨none, hpass.final_of_absent ht.distinct hgd hl (.inl hmaster)⟩
    | some l =>
      rw [hl, Option.map_some] at hmaster
      exact hpass.final_of_master ht.distinct hgd hl hmaster fun _ => hparent hl

/-- If the bridge is that of a project, it ends as it was, or it is built from its record. -/
theorem standing_final (h : LeftOff scope s t b uplink g) (ht : s.Houses uplink live t)
    (hg : g.Distinct) (hpass : scope.Pass t { g with rules := rules } d e f u v) {p : Project}
    (hp : p ∈ live) (hpb : p.bridge = b) : ∃ index, v.find? b = some (p.link index) := by
  obtain ⟨index, hindex⟩ := ht.standing p hp
  have hmanaged := h.managed
  have hbridge := h.bridge
  subst hpb
  rcases hbridge with hbridge | hbridge | ⟨hbridge, -⟩
  · have hkind : scope.recordKind? (p.link index) = some .bridge :=
      Scope.recordKind?_of_managed rfl hmanaged
    obtain ⟨r, hr, -⟩ := Scope.kindAt_eq_some_iff.mp ((Scope.kindAt_of_find? hindex).trans hkind)
    obtain ⟨other, hother⟩ := hpass.final_of_missing ht.distinct hg hr hbridge
    exact ⟨other, hother.trans (congrArg some (Project.settled_blank hmanaged hindex hr other))⟩
  · exact ⟨index, hpass.final_of_same ht.distinct hg hindex (hbridge.trans hindex) nofun nofun⟩
  · rw [hindex] at hbridge
    cases hbridge

/-- If it is that of none, it is gone. -/
theorem absent_final (h : LeftOff scope s t b uplink g) (ht : s.Houses uplink live t)
    (hg : g.Distinct) (hpass : scope.Pass t { g with rules := rules } d e f u v)
    (hnone : b ∉ live.map Project.bridge) : v.find? b = none := by
  have hfree := ht.find?_eq_none h.free hnone
  refine hpass.final_of_absent ht.distinct hg hfree ?_
  rcases h.bridge with hbridge | hbridge | ⟨-, l, hl, hkind⟩
  · exact .inl hbridge
  · exact .inl (hbridge.trans hfree)
  · -- It is recorded, so it was deleted.
    refine .inr ?_
    rw [Scope.kindAt_of_find? (show HostState.find? { g with rules := rules } b = some l from hl),
      Scope.recordKind?_of_managed hkind (HostState.name_of_find? hl ▸ h.managed)]
    nofun

end HostState.LeftOff

namespace HostState.Serves

/-- Only links and the recorded rules count. -/
theorem of_houses (h : s.Serves scope.tables uplink live t) (hv : s.Houses uplink live v)
    (hrules : ∀ table ∈ scope.tables, v.rules.get table = t.rules.get table) :
    s.Serves scope.tables uplink live v :=
  ⟨hv, h.bridges, h.subnets, h.whole, h.unruled,
    fun table htable => (hrules table htable).trans (h.rules table htable)⟩

/-- Where nothing was changed, nothing is. -/
theorem kept (h : s.Serves scope.tables uplink live t)
    (hpass : scope.Pass t { t with rules := rules } d e f u v)
    (hrules : ∀ table ∈ scope.tables, v.rules.get table = t.rules.get table) :
    s.Serves scope.tables uplink live v := by
  have htd : HostState.Distinct { t with rules := rules } := h.distinct
  have halike (n : String) : scope.Alike t { t with rules := rules } n := .of_find?_eq rfl
  refine h.of_houses (h.congr hpass.attached.distinct fun n => ?_) hrules
  cases hl : t.find? n with
  | none => exact hpass.final_of_absent h.distinct htd hl (.inl hl)
  | some l =>
    exact hpass.final_of_same h.distinct htd hl hl (fun _ _ => halike _) fun _ _ => halike _

/-- A host that was left off in one bridge is brought back to its projects. -/
theorem regained (h : s.Serves scope.tables uplink live t) (hs : s.Closed)
    (hleft : LeftOff scope s t b uplink g) (hg : g.Distinct)
    (hpass : scope.Pass t { g with rules := rules } d e f u v)
    (hrules : ∀ table ∈ scope.tables, v.rules.get table = t.rules.get table) :
    s.Serves scope.tables uplink live v := by
  have hoff := hleft.offBy_final h.toHouses hs hg hpass
  refine h.of_houses (h.offBy hoff hpass.attached.distinct hleft.free (fun _ _ => Iff.rfl)
    (fun p hp hpb => ⟨?_, hleft.standing_final h.toHouses hg hpass hp hpb⟩)
    (hleft.absent_final h.toHouses hg hpass)) hrules
  exact hpb ▸ (h.fresh p hp).2

end HostState.Serves

end Regained

end HostNet
