/-
How a host represents its links.

A link has the number of its insertion as its index, so the order of the indices is that in which
the links were inserted.  `HostState.Numbered` ties the links to the names inserted so far, and
every step of a run keeps it as long as the counter does not overflow.  With what holds of every
host that calls have built, and with the list of injected failures, this makes up `Host.WellFormed`.
-/

import HostNet.Proofs.InjectedFailures
import HostNet.Proofs.Readings
import Mathlib.Data.List.Dedup

namespace HostNet

/-! ## Names in the order of their last insertion -/

section Names

variable {α β : Type}

/-- What is appended comes last, and nowhere else. -/
theorem dedup_concat [DecidableEq α] (l : List α) (a : α) :
    (l ++ [a]).dedup = l.dedup.filter (fun b => b != a) ++ [a] := by
  induction l with
  | nil => simp
  | cons b l ih =>
    rw [List.cons_append]
    by_cases hb : b ∈ l
    · rw [List.dedup_cons_of_mem hb, List.dedup_cons_of_mem (List.mem_append_left _ hb), ih]
    · rw [List.dedup_cons_of_notMem hb]
      by_cases hba : b = a
      · subst hba
        rw [List.dedup_cons_of_mem (by simp), ih]
        simp
      · rw [List.dedup_cons_of_notMem (by simp [hb, hba]), ih]
        simp [hba]

/-- A search for each of some distinct keys finds the items of a list, if these have some of the
keys in the same order. -/
theorem filterMap_eq_of_sublist {key : β → α} {find : α → Option β} {keys : List α}
    {items : List β} (hsub : (items.map key).Sublist keys) (hkeys : keys.Nodup)
    (hfound : ∀ b ∈ items, find (key b) = some b)
    (hnone : ∀ a ∈ keys, a ∉ items.map key → find a = none) : keys.filterMap find = items := by
  induction keys generalizing items with
  | nil =>
    have hitems : items.map key = [] := List.sublist_nil.mp hsub
    rw [List.map_eq_nil_iff.mp hitems]
    rfl
  | cons a keys ih =>
    obtain ⟨ha, hrest⟩ := List.nodup_cons.mp hkeys
    rcases List.sublist_cons_iff.mp hsub with hsub | ⟨names, hnames, hsub⟩
    · have hout : a ∉ items.map key := fun hin => ha (hsub.subset hin)
      rw [List.filterMap_cons_none (hnone a (List.mem_cons_self ..) hout)]
      exact ih hsub hrest hfound fun c hc => hnone c (List.mem_cons_of_mem _ hc)
    · -- The first key is that of the first item.
      obtain ⟨b, tail, rfl, hkey, rfl⟩ := List.map_eq_cons_iff.mp hnames
      have hb : find a = some b := hkey ▸ hfound b (List.mem_cons_self ..)
      have htail : keys.filterMap find = tail := by
        refine ih hsub hrest (fun c hc => hfound c (List.mem_cons_of_mem _ hc)) fun c hc hout => ?_
        refine hnone c (List.mem_cons_of_mem _ hc) fun hin => ?_
        rw [hnames] at hin
        rcases List.mem_cons.mp hin with rfl | hin
        · exact ha hc
        · exact hout hin
      rw [List.filterMap_cons_some hb, htail]

end Names

/-! ## Links and the order of their insertion -/

namespace HostState

/-- The indices of the links with their names, in order. -/
def tags (s : HostState) : List (UInt32 × String) := s.links.map fun l => (l.index, l.name)

/-- A link without an index takes the next one, and an older link of its name goes. -/
theorem tags_insert (s : HostState) {l : Link} (hindex : l.index = 0) :
    (s.insert l).tags = s.tags.filter (fun t => t.2 != l.name) ++ [(s.nextIndex, l.name)] := by
  unfold tags HostState.insert
  rw [List.map_append, List.filter_map, hindex]
  rfl

theorem nextIndex_insert (s : HostState) {l : Link} (hindex : l.index = 0) :
    (s.insert l).nextIndex = s.nextIndex + 1 := by
  unfold HostState.insert
  rw [hindex]
  show (if s.nextIndex ≤ s.nextIndex then s.nextIndex else s.nextIndex) + 1 = _
  rw [ite_self]

/-- The links are among those inserted under the names `inserted`: each has the number of its
insertion as its index, and they are in the order in which their names were inserted last. -/
structure Numbered (inserted : List String) (s : HostState) : Prop where
  next : s.nextIndex.toNat = inserted.length + 1
  ascending : s.tags.Pairwise fun a b => a.1 < b.1
  numbered : ∀ t ∈ s.tags, 0 < t.1.toNat ∧ inserted[t.1.toNat - 1]? = some t.2
  order : (s.tags.map Prod.snd).Sublist inserted.dedup

namespace Numbered

variable {inserted : List String} {s g : HostState} {naming : Naming}

theorem empty : Numbered [] empty where
  next := rfl
  ascending := .nil
  numbered _ ht := absurd ht List.not_mem_nil
  order := .slnil

theorem lt_next (h : s.Numbered inserted) {t : UInt32 × String} (ht : t ∈ s.tags) :
    t.1 < s.nextIndex := by
  obtain ⟨hpos, hname⟩ := h.numbered t ht
  have hlt := (List.getElem?_eq_some_iff.mp hname).1
  have hnext := h.next
  rw [UInt32.lt_iff_toNat_lt]
  omega

/-- Links may go, and they may change as long as they keep their names and indices. -/
theorem of_sublist (h : s.Numbered inserted) (hnext : g.nextIndex = s.nextIndex)
    (htags : g.tags.Sublist s.tags) : g.Numbered inserted where
  next := hnext ▸ h.next
  ascending := h.ascending.sublist htags
  numbered t ht := h.numbered t (htags.subset ht)
  order := (htags.map Prod.snd).trans h.order

/-- A new link takes the next index, which must not be the last one. -/
theorem insert (h : s.Numbered inserted) {l : Link} (hindex : l.index = 0)
    (hcount : inserted.length + 1 < 2 ^ 32 - 1) :
    (s.insert l).Numbered (inserted ++ [l.name]) where
  next := by
    have hnext := h.next
    rw [nextIndex_insert s hindex, UInt32.toNat_add, hnext, List.length_append]
    simp only [UInt32.toNat_one, List.length_singleton]
    omega
  ascending := by
    rw [tags_insert s hindex, List.pairwise_append]
    refine ⟨h.ascending.sublist List.filter_sublist, List.pairwise_singleton .., ?_⟩
    intro t ht u hu
    rw [List.mem_singleton.mp hu]
    exact h.lt_next (List.mem_of_mem_filter ht)
  numbered t ht := by
    rw [tags_insert s hindex] at ht
    rcases List.mem_append.mp ht with ht | ht
    · obtain ⟨hpos, hname⟩ := h.numbered t (List.mem_of_mem_filter ht)
      have hlt := (List.getElem?_eq_some_iff.mp hname).1
      exact ⟨hpos, (List.getElem?_append_left hlt).trans hname⟩
    · rw [List.mem_singleton.mp ht]
      dsimp only
      rw [h.next]
      exact ⟨Nat.succ_pos _, List.getElem?_concat_length ..⟩
  order := by
    -- The tag of an older link with that name goes, and so does that name in the order.
    have hnames : (s.tags.filter fun t => t.2 != l.name).map Prod.snd =
        (s.tags.map Prod.snd).filter fun n => n != l.name := by
      rw [List.filter_map]
      rfl
    rw [tags_insert s hindex, dedup_concat, List.map_append, hnames]
    exact (h.order.filter _).append (List.Sublist.refl _)

theorem update (h : s.Numbered inserted) {name : String} {f : Link → Link}
    (hf : ∀ l, ((f l).index, (f l).name) = (l.index, l.name)) :
    (s.update name f).Numbered inserted := by
  have htags : (s.update name f).tags = s.tags := map_links_update hf s name
  exact h.of_sublist rfl (htags ▸ List.Sublist.refl _)

theorem dropped (h : s.Numbered inserted) (name : String) :
    (s.dropped name).Numbered inserted := by
  refine h.of_sublist rfl (map_filterMap_sublist (fun l m hm => ?_) s.links)
  rcases Link.freed_of_afterRemoval hm with rfl | rfl <;> rfl

/-- A call counts the link that it creates. -/
theorem effect (h : s.Numbered inserted) {c : Call} (hg : c.effect naming s = .ok g)
    (hcount : (inserted ++ (c.created? naming).toList).length < 2 ^ 32 - 1) :
    g.Numbered (inserted ++ (c.created? naming).toList) := by
  rcases Call.effect_shape hg with ⟨l, hcreated, hindex, -, rfl⟩ | ⟨hcreated, hshape⟩
  · rw [hcreated, List.length_append] at hcount
    rw [hcreated]
    exact h.insert hindex hcount
  · rw [hcreated]
    refine (List.append_nil inserted).symm ▸ ?_
    rcases hshape with ⟨name, f, hname, hnumber, -, rfl⟩ | ⟨name, -, rfl⟩ | ⟨hlinks, hnext⟩
    · exact h.update fun l => Prod.ext (hnumber l) (hname l)
    · exact h.dropped name
    · refine h.of_sublist hnext ?_
      unfold tags
      rw [hlinks]

theorem ascending_links (h : s.Numbered inserted) :
    s.links.Pairwise fun a b => a.index < b.index := by
  have hascending := h.ascending
  unfold tags at hascending
  rwa [List.pairwise_map] at hascending

/-- The listing is that of the links as they were inserted. -/
theorem listing_eq (h : s.Numbered inserted) : s.listing = s.links :=
  List.mergeSort_of_pairwise (h.ascending_links.imp fun hab => by simp [listedBefore, hab])

/-- It has each name where that was inserted last, if there still is a link of that name. -/
theorem filterMap_find? (h : s.Numbered inserted) (hd : s.Distinct) :
    inserted.dedup.filterMap s.find? = s.links := by
  have hnames : s.tags.map Prod.snd = s.links.map Link.name := List.map_map
  refine filterMap_eq_of_sublist (hnames ▸ h.order) (List.nodup_dedup inserted)
    (fun l hl => find?_of_mem hd hl) fun n _ hn => ?_
  rw [find?_eq_none_iff]
  intro l hl hln
  exact hn (List.mem_map.mpr ⟨l, hl, hln⟩)

end Numbered

/-! ## Addresses -/

/-- No link lists an address twice. -/
def Unrepeated (s : HostState) : Prop := ∀ l ∈ s.links, l.addresses.Nodup

namespace Unrepeated

variable {s g : HostState} {naming : Naming}

theorem update (h : s.Unrepeated) {name : String} {f : Link → Link}
    (hf : ∀ l ∈ s.links, l.name = name → (f l).addresses.Nodup) :
    (s.update name f).Unrepeated := by
  intro m hm
  obtain ⟨l, hl, rfl⟩ := List.mem_map.mp hm
  split
  · next hln => exact hf l hl (beq_iff_eq.mp hln)
  · exact h l hl

theorem effect (h : s.Unrepeated) (hd : s.Distinct) {c : Call}
    (hg : c.effect naming s = .ok g) : g.Unrepeated := by
  cases c with
  | createVlan parent id =>
    obtain ⟨-, -, -, rfl⟩ := Call.effect_createVlan.mp hg
    exact forall_mem_insert h List.nodup_nil
  | createBridge name =>
    obtain ⟨-, -, rfl⟩ := Call.effect_createBridge.mp hg
    exact forall_mem_insert h List.nodup_nil
  | setLinkUp name =>
    obtain ⟨-, rfl⟩ := Call.effect_setLinkUp.mp hg
    exact h.update fun l hl _ => h l hl
  | setLinkMaster slave master =>
    obtain ⟨-, -, -, rfl⟩ := Call.effect_setLinkMaster.mp hg
    exact h.update fun l hl _ => h l hl
  | unsetLinkMaster name =>
    obtain ⟨-, rfl⟩ := Call.effect_unsetLinkMaster.mp hg
    exact h.update fun l hl _ => h l hl
  | deleteLink name =>
    obtain ⟨-, rfl⟩ := Call.effect_deleteLink.mp hg
    exact forall_mem_dropped h (fun _ hl => hl) name
  | addAddress name net =>
    obtain ⟨⟨k, hk, hnet⟩, rfl⟩ := Call.effect_addAddress.mp hg
    refine h.update fun l hl hln => ?_
    -- The changed link is the one on which the address was found missing.
    have hlk : l = k := by
      rw [← hln, find?_of_mem hd hl] at hk
      exact Option.some.inj hk
    exact nodup_append_singleton (h l hl) (hlk ▸ hnet)
  | deleteAddress name net =>
    obtain ⟨-, rfl⟩ := Call.effect_deleteAddress.mp hg
    exact h.update fun l hl _ => (h l hl).filter _
  | createRule t r =>
    obtain ⟨-, rfl⟩ := Call.effect_createRule.mp hg
    exact h
  | deleteRule t r =>
    obtain ⟨-, rfl⟩ := Call.effect_deleteRule.mp hg
    exact h

end Unrepeated

/-! ## Runs -/

/-- What holds of the links of a host after a run that inserted the names `inserted`. -/
structure Orderly (inserted : List String) (s : HostState) : Prop where
  numbered : s.Numbered inserted
  built : s.Built
  unrepeated : s.Unrepeated

end HostState

namespace Host

/-- The devices that a host begins with are numbered in their order. -/
theorem numbered_devices {inserted : List String} {h : Host}
    (hh : h.state.Numbered inserted) (devices : List String)
    (hcount : (inserted ++ devices).length < 2 ^ 32 - 1) :
    (devices.foldl addDevice h).state.Numbered (inserted ++ devices) := by
  induction devices generalizing inserted h with
  | nil => exact (List.append_nil inserted).symm ▸ hh
  | cons d devices ih =>
    rw [List.append_cons] at hcount ⊢
    have hadded : (h.addDevice d).state.Numbered (inserted ++ [d]) := by
      refine hh.insert (l := { Link.bare 0 d .physical with isUp := true }) rfl ?_
      simp only [List.length_append, List.length_singleton] at hcount
      omega
    exact ih hadded hcount

theorem orderly_seeded (naming : Naming) {devices : List String}
    (hcount : ("lo" :: devices).length < 2 ^ 32 - 1) :
    (seeded naming devices).state.Orderly ("lo" :: devices) where
  numbered := numbered_devices (h := empty naming) .empty ("lo" :: devices) hcount
  built := built_seeded naming devices
  unrepeated l hl := by
    rw [(plain_seeded naming devices l hl).2.2.2]
    exact List.nodup_nil

end Host

namespace HostState.Orderly

variable {inserted : List String} {h : Host}

theorem next (hh : h.state.Orderly inserted) (x : HostStep)
    (hcount : (inserted ++ x.inserted h).length < 2 ^ 32 - 1) :
    (x.next h).state.Orderly (inserted ++ x.inserted h) := by
  rcases x.next_cases h with ⟨c, -, -, heffect, hinserted⟩ | ⟨hstate, hinserted⟩
  · rw [hinserted] at hcount ⊢
    exact ⟨hh.numbered.effect heffect hcount, hh.built.effect heffect,
      hh.unrepeated.effect hh.built.distinct heffect⟩
  · rw [hinserted, hstate, List.append_nil]
    exact hh

theorem after (hh : h.state.Orderly inserted) (steps : List HostStep)
    (hcount : (inserted ++ h.insertions steps).length < 2 ^ 32 - 1) :
    (h.after steps).state.Orderly (inserted ++ h.insertions steps) := by
  induction steps generalizing inserted h with
  | nil => exact (List.append_nil inserted).symm ▸ hh
  | cons x xs ih =>
    have hassoc : inserted ++ h.insertions (x :: xs) =
        inserted ++ x.inserted h ++ (x.next h).insertions xs := (List.append_assoc ..).symm
    rw [hassoc] at hcount ⊢
    refine ih (hh.next x ?_) hcount
    rw [List.length_append] at hcount
    omega

end HostState.Orderly

/-- How a host represents its links and failures, where `inserted` are the names of the links that
were inserted so far, and `failures` is the list of injected failures. -/
structure Host.WellFormed (inserted : List String) (failures : List Failure) (h : Host) :
    Prop where
  /-- A link is found under its own name. -/
  keyed : ∀ n l, h.state.find? n = some l ↔ l ∈ h.state.links ∧ l.name = n
  /-- Insertions are counted, and the index of a link is the number of its own. -/
  counted : h.state.nextIndex.toNat = inserted.length + 1
  numbered : ∀ l ∈ h.state.links, 0 < l.index ∧ l.index < h.state.nextIndex ∧
    inserted[l.index.toNat - 1]? = some l.name
  distinct : h.state.links.Pairwise fun a b => a.index ≠ b.index
  /-- A listing has the links in the order in which they were created, each of them once. -/
  listed : h.Observes Host.list fun links =>
    links = inserted.dedup.filterMap h.state.find? ∧
      links.Pairwise fun a b => a.index < b.index
  addresses : ∀ l ∈ h.state.links, l.addresses.Nodup
  master : ∀ l ∈ h.state.links, ∀ m, l.master = some m →
    m ≠ l.name ∧ ∃ b, h.state.find? m = some b ∧ b.isBridge = true
  wellNamed : ∀ l ∈ h.state.links, l.WellNamed
  /-- At most one failure is listed for each primitive, and that is what calls meet. -/
  once : ∀ op, failures.countP (fun f => f.op == op) ≤ 1 ∧
    failures.find? (fun f => f.op == op) = (h.armed op).map (Failure.ofInjection op)
  remaining : ∀ f ∈ failures, f.remaining ≠ some 0

/-- After every run, whatever succeeds and fails in it, a host represents its links and failures as
it should, as long as the counter of insertions has not come to its end; and every name that a step
inserted is legal. -/
theorem Host.wellFormed_after (naming : Naming) (devices : List String) (steps : List HostStep)
    (hcount : ("lo" :: devices ++ (seeded naming devices).insertions steps).length <
      2 ^ 32 - 1) :
    ((seeded naming devices).after steps).WellFormed
        ("lo" :: devices ++ (seeded naming devices).insertions steps)
        (steps.foldl HostStep.failures []) ∧
      ∀ n ∈ (seeded naming devices).insertions steps, LinkName.defect? n = none := by
  have hseeds : ("lo" :: devices).length < 2 ^ 32 - 1 := by
    rw [List.length_append] at hcount
    omega
  -- What the links are like, and which failures are armed, are two inductions on the steps.
  have hh := (orderly_seeded naming hseeds).after steps hcount
  have hd := hh.built.distinct
  have hfailures : Failure.Lists (steps.foldl HostStep.failures [])
      ((seeded naming devices).after steps).armed := by
    refine Failure.lists_after ?_ steps
    rw [armed_seeded]
    exact .nil
  refine ⟨?_, fun n hn => legal_of_insertions hn⟩
  -- From here on only what holds of the last host counts, not how it was reached.
  generalize ("lo" :: devices ++ (seeded naming devices).insertions steps) = inserted at hh ⊢
  generalize (seeded naming devices).after steps = h at hh hd hfailures ⊢
  exact {
    keyed n l := ⟨fun hl => ⟨HostState.mem_of_find? hl, HostState.name_of_find? hl⟩,
      fun ⟨hl, hname⟩ => hname ▸ HostState.find?_of_mem hd hl⟩
    counted := hh.numbered.next
    numbered l hl := by
      have htag : (l.index, l.name) ∈ h.state.tags := List.mem_map.mpr ⟨l, hl, rfl⟩
      obtain ⟨hpos, hname⟩ := hh.numbered.numbered _ htag
      exact ⟨UInt32.lt_iff_toNat_lt.mpr hpos, hh.numbered.lt_next htag, hname⟩
    distinct := hh.numbered.ascending_links.imp UInt32.ne_of_lt
    listed := observes_list.imp fun links hlinks => by
      rw [hlinks, hh.numbered.listing_eq, hh.numbered.filterMap_find? hd]
      exact ⟨rfl, hh.numbered.ascending_links⟩
    addresses := hh.unrepeated
    master l hl m hm := by
      obtain ⟨hne, hbridge⟩ := hh.built.master _ l m (HostState.find?_of_mem hd hl) hm
      exact ⟨hne.symm, hbridge⟩
    wellNamed := hh.built.wellNamed
    once op := ⟨hfailures.countP_le op, hfailures.find? op⟩
    remaining f hf := hfailures.remaining_ne_zero hf }

/-- Steps among which a call fails as an injection has it, another one as its link is missing, and a
VLAN is deleted and created again. -/
def tourSteps : List HostStep :=
  [.arm .createBridge (.once 1), .call (.createBridge "a"), .call (.createBridge "b"),
    .call (.createVlan "eth0" ⟨30, by decide, by decide⟩), .call (.setLinkMaster "eth0.30" "rol.a"),
    .call (.createVlan "eth1" ⟨30, by decide, by decide⟩), .list, .call (.deleteLink "eth0.30"),
    .call (.createVlan "eth0" ⟨30, by decide, by decide⟩), .arm .readLinks .always]

theorem Host.wellFormed_after_tourSteps :
    (seeded .standard ["eth0"]).insertions tourSteps = ["rol.a", "eth0.30", "eth0.30"] ∧
    tourSteps.foldl HostStep.failures [] = [⟨.readLinks, 0, none⟩] ∧
    ((seeded .standard ["eth0"]).after tourSteps).WellFormed
      ["lo", "eth0", "rol.a", "eth0.30", "eth0.30"] [⟨.readLinks, 0, none⟩] ∧
    ((seeded .standard ["eth0"]).after tourSteps).state.tags =
      [(1, "lo"), (2, "eth0"), (3, "rol.a"), (5, "eth0.30")] := by
  have hinsertions : (seeded .standard ["eth0"]).insertions tourSteps =
      ["rol.a", "eth0.30", "eth0.30"] := by decide +kernel
  have hfailures : tourSteps.foldl HostStep.failures [] = [⟨.readLinks, 0, none⟩] := by
    decide +kernel
  have hcount : ("lo" :: ["eth0"] ++ (seeded .standard ["eth0"]).insertions tourSteps).length <
      2 ^ 32 - 1 := by
    rw [hinsertions]
    decide
  obtain ⟨hformed, -⟩ := wellFormed_after .standard ["eth0"] tourSteps hcount
  rw [hinsertions, hfailures] at hformed
  exact ⟨hinsertions, hfailures, hformed, by decide +kernel⟩

end HostNet
