/-
Interfaces that are not under management.

A link that is neither a VLAN nor a managed bridge is never deleted, never set up, and never given
or deprived of an address; it may be enslaved and released.  Deleting a link takes the links on top
of it along, so this hangs on those being VLANs, which every call keeps up.
-/

import HostNet.Proofs.ApplyHonest
import HostNet.Proofs.Request

namespace HostNet

open HostNet.Action

namespace HostState

/-- The links of `g` that have a parent are VLANs, and the links of `s` that are neither VLANs nor
managed bridges are links of `g` with the same data but for their masters. -/
structure Sheltered (naming : Naming) (s g : HostState) : Prop where
  distinct : g.Distinct
  parent : ∀ l ∈ g.links, l.parent.isSome → l.isVlan = true
  kept : ∀ n l, s.find? n = some l → ¬ l.Owned naming →
    ∃ master, g.find? n = some { l with master := master }

/-- A name that is not that of a sheltered link. -/
def Open (naming : Naming) (s : HostState) (n : String) : Prop :=
  ∀ l, s.find? n = some l → l.Owned naming

namespace Sheltered

variable {naming : Naming} {s g : HostState}

theorem refl (hd : s.Distinct) (hp : ∀ l ∈ s.links, l.parent.isSome → l.isVlan = true) :
    s.Sheltered naming s where
  distinct := hd
  parent := hp
  kept _ l hl _ := ⟨l.master, hl⟩

theorem insert (h : s.Sheltered naming g) {l : Link} (hfree : g.find? l.name = none)
    (hl : l.parent.isSome → l.isVlan = true) : s.Sheltered naming (g.insert l) where
  distinct := h.distinct.insert l
  parent := forall_mem_insert h.parent hl
  kept n k hk hown := by
    obtain ⟨master, hm⟩ := h.kept n k hk hown
    have hne : n ≠ l.name := by
      rintro rfl
      rw [hfree] at hm
      cases hm
    exact ⟨master, by rw [find?_insert, if_neg hne, hm]⟩

/-- A change of an open link, or of a master. -/
theorem update (h : s.Sheltered naming g) {n : String} {f : Link → Link}
    (hname : ∀ l, (f l).name = l.name) (hparent : ∀ l, (f l).parent = l.parent)
    (hkind : ∀ l, (f l).kind = l.kind)
    (hf : s.Open naming n ∨ ∀ l, ∃ master, f l = { l with master := master }) :
    s.Sheltered naming (g.update n f) where
  distinct := h.distinct.update hname
  parent := forall_mem_update h.parent fun l hl hp => by
    unfold Link.isVlan at hl ⊢
    rw [hkind]
    exact hl (hparent l ▸ hp)
  kept k l hl hown := by
    obtain ⟨master, hm⟩ := h.kept k l hl hown
    rw [find?_update hname]
    by_cases hkn : k = n
    · rw [if_pos hkn, ← hkn, hm]
      -- The link is changed, so it is its master that is.
      rcases hf with hopen | hmaster
      · exact absurd (hopen l (hkn ▸ hl)) hown
      · obtain ⟨master', hf⟩ := hmaster { l with master := master }
        exact ⟨master', congrArg some hf⟩
    · rw [if_neg hkn]
      exact ⟨master, hm⟩

/-- A deletion takes VLANs along only. -/
theorem dropped (h : s.Sheltered naming g) {n : String} (hn : s.Open naming n) :
    s.Sheltered naming (g.dropped n) where
  distinct := h.distinct.dropped n
  parent := forall_mem_dropped h.parent (fun _ hl => hl) n
  kept k l hl hown := by
    obtain ⟨master, hm⟩ := h.kept k l hl hown
    have hkn : l.name ≠ n := by
      rw [name_of_find? hl]
      rintro rfl
      exact hown (hn l hl)
    have hparent : l.parent ≠ some n := by
      intro hp
      have hvlan := h.parent _ (mem_of_find? hm) (by simp [hp])
      exact hown (.inl hvlan)
    rw [find?_dropped h.distinct, hm, Option.bind_some, Link.afterRemoval,
      if_neg (not_or.mpr ⟨hkn, hparent⟩)]
    split
    · exact ⟨none, rfl⟩
    · exact ⟨master, rfl⟩

/-- A call that deletes, sets up or readdresses no sheltered link keeps what is sheltered. -/
theorem effect {c : Call} (hc : c.Within (s.Open naming)) (hg : s.Sheltered naming g)
    {n : Naming} {g' : HostState} (heffect : c.effect n g = .ok g') : s.Sheltered naming g' := by
  cases c with
  | createVlan parent id =>
    obtain ⟨-, -, hfree, rfl⟩ := Call.effect_createVlan.mp heffect
    exact hg.insert hfree fun _ => rfl
  | createBridge name =>
    obtain ⟨-, hfree, rfl⟩ := Call.effect_createBridge.mp heffect
    exact hg.insert hfree nofun
  | setLinkUp name =>
    obtain ⟨-, rfl⟩ := Call.effect_setLinkUp.mp heffect
    exact hg.update (fun _ => rfl) (fun _ => rfl) (fun _ => rfl) (.inl hc)
  | setLinkMaster slave master =>
    obtain ⟨-, -, -, rfl⟩ := Call.effect_setLinkMaster.mp heffect
    exact hg.update (fun _ => rfl) (fun _ => rfl) (fun _ => rfl) (.inr fun _ => ⟨_, rfl⟩)
  | unsetLinkMaster name =>
    obtain ⟨-, rfl⟩ := Call.effect_unsetLinkMaster.mp heffect
    exact hg.update (fun _ => rfl) (fun _ => rfl) (fun _ => rfl) (.inr fun _ => ⟨_, rfl⟩)
  | deleteLink name =>
    obtain ⟨-, rfl⟩ := Call.effect_deleteLink.mp heffect
    exact hg.dropped hc
  | addAddress name net =>
    obtain ⟨-, rfl⟩ := Call.effect_addAddress.mp heffect
    exact hg.update (fun _ => rfl) (fun _ => rfl) (fun _ => rfl) (.inl hc)
  | deleteAddress name net =>
    obtain ⟨-, rfl⟩ := Call.effect_deleteAddress.mp heffect
    exact hg.update (fun _ => rfl) (fun _ => rfl) (fun _ => rfl) (.inl hc)
  | createRule t r => exact hc.elim
  | deleteRule t r => exact hc.elim

/-- Calls about rules change no link. -/
theorem effect_rule {c : Call} (hc : c.IsRule) (hg : s.Sheltered naming g) {n : Naming}
    {g' : HostState} (heffect : c.effect n g = .ok g') : s.Sheltered naming g' := by
  cases c with
  | createRule t r =>
    obtain ⟨-, rfl⟩ := Call.effect_createRule.mp heffect
    exact ⟨hg.distinct, hg.parent, hg.kept⟩
  | deleteRule t r =>
    obtain ⟨-, rfl⟩ := Call.effect_deleteRule.mp heffect
    exact ⟨hg.distinct, hg.parent, hg.kept⟩
  | _ => exact hc.elim

/-- Sheltered links are guarded. -/
theorem guard (scope : Scope) (s : HostState) :
    LinkGuard scope (fun _ => s.Sheltered scope.naming) (s.Open scope.naming) where
  absent _ g n hg hfree l hl := by
    by_contra hown
    obtain ⟨master, hm⟩ := hg.kept n l hl hown
    rw [hfree] at hm
    cases hm
  owned _ g hg m hm hown l hl := by
    by_contra hl'
    obtain ⟨master, hfind⟩ := hg.kept m.name l hl hl'
    rw [find?_of_mem hg.distinct hm] at hfind
    -- The link that is there is the sheltered one, which is not managed.
    obtain rfl := Option.some.inj hfind
    exact hl' hown
  call _ _ _ _ hc hg heffect := effect hc hg heffect
  rule _ _ _ _ hc hg heffect := effect_rule hc hg heffect

end Sheltered

end HostState

namespace Site

/-- On a host on which only VLANs have a parent, no run of requests deletes or changes a link that
is neither a VLAN nor a managed bridge, but for its master.  The slots may hold any snapshots, and
any failures may be met. -/
theorem Reaches.link_kept {m : Manager} {pm : ProjectManager} {s t : Site}
    (hrun : s.Reaches m pm t) (hm : m.naming = s.store.scope.naming)
    (hpm : pm.naming = s.store.scope.naming) (hd : s.host.state.Distinct)
    (hparent : ∀ l ∈ s.host.state.links, l.parent.isSome → l.isVlan = true) {l : Link}
    (hl : l ∈ s.host.state.links) (hvlan : l.isVlan = false)
    (hbridge : (l.isBridge && s.store.scope.naming.manages l.name) = false) :
    ∃ master, t.host.state.find? l.name = some { l with master := master } := by
  have hstart : s.Guarded s.store.scope
      (fun _ => s.host.state.Sheltered s.store.scope.naming) fun _ => True :=
    ⟨rfl, .refl hd hparent, trivial⟩
  have hguarded := hrun.guarded (HostState.Sheltered.guard s.store.scope s.host.state) hm hpm hstart
  refine hguarded.state.kept l.name l (HostState.find?_of_mem hd hl) ?_
  rintro (hown | hown)
  · rw [hvlan] at hown
    cases hown
  · rw [hown.1, hown.2] at hbridge
    cases hbridge

/-- A site whose saved slot was edited by hand: it records the only interface as a bridge. -/
def editedSite : Site where
  stored := {
    machine := ⟨Scope.vlanHost, .none⟩
    store := {
      scope := ⟨.standard, []⟩
      paths := .standard
      saved := ⟨[⟨"eth0", .bridge, none, [], false⟩], [], .const none⟩
      backup := none
      journal := [] } }
  lock := .free HostLock.standardTimeout
  events := []
  ignored := 0
  pool := .ofList []

/-- The interface is enslaved, and after a reset to the edited slot it is still there. -/
theorem Reaches.link_kept_editedSite : ∃ t, editedSite.Reaches ⟨.standard⟩ ⟨.standard, "eth0"⟩ t ∧
    ∃ master, t.host.state.find? "eth0" =
      some ⟨1, "eth0", .physical, [], master, none, none, true⟩ := by
  have hrun : editedSite.Reaches ⟨.standard⟩ ⟨.standard, "eth0"⟩ _ :=
    (Site.Reaches.start.request (.operation (.createBridge "x" ["eth0"] []))).request .reset
  exact ⟨_, hrun, hrun.link_kept (l := ⟨1, "eth0", .physical, [], none, none, none, true⟩) rfl rfl
    (by unfold HostState.Distinct; decide) (by decide) (by decide) rfl (by decide)⟩

end Site

end HostNet
