/-
Checks that only read.

An operation reads links before it changes anything, and at its end it reads what it has made.
`Inspects` says of such an action what it answers, when it fails, and that it does nothing but read.
Whatever readings leave true of a site is kept by it for that reason (`Inspects.keeps`), so each of
these actions is looked into once.
-/

import HostNet.Manager.Links
import HostNet.Proofs.Readings

namespace HostNet

open HostNet.Action

/-! ## Readings of a host that may fail -/

namespace Host

variable {α : Type} {h : Host} {φ : α → Prop} {ψ : Prop}

/-- The error of a failed reading is an injected one in its contexts, and none of these is fatal. -/
theorem ReadingFails.isFatal_eq_false {e : Error} (he : h.ReadingFails e) : e.isFatal = false := by
  obtain ⟨op, -, -, hroot⟩ := he
  unfold Error.isFatal
  rw [← Error.kind_root, hroot]
  rfl

/-- Run on `h`, or on what readings left of it, the action only reads.  It answers with `φ`; or it
fails with an error that is not fatal, and then a reading has failed or `ψ` is the case. -/
def Inspects (h : Host) (φ : α → Prop) (ψ : Prop) (x : Action Host α) : Prop :=
  Triple h.Observed x (fun a g => φ a ∧ h.Observed g)
    fun e g => (e.isFatal = false ∧ (h.ReadingFails e ∨ ψ)) ∧ h.Observed g

/-- An action that observes fails with a reading only. -/
theorem Observes.inspects {x : Action Host α} (hx : h.Observes x φ) : h.Inspects φ ψ x :=
  Triple.catch hx fun _ _ he => ⟨⟨he.1.isFatal_eq_false, .inl he.1⟩, he.2⟩

theorem Inspects.within {x : Action Host α} (hx : h.Inspects φ ψ x) (step : String) :
    h.Inspects φ ψ (Action.within step x) :=
  Triple.within (Triple.catch hx fun _ _ he =>
    ⟨⟨he.1.1, he.1.2.imp ReadingFails.of_context id⟩, he.2⟩)

/-- A link is read exactly if it is there. -/
theorem inspects_get (name : String) :
    h.Inspects (fun l => h.state.find? name = some l) (h.state.find? name = none) (get name) := by
  refine Triple.bind (Observes.inspects (observes_meet rfl)) fun _ => ?_
  rintro g ⟨-, hg⟩
  -- The state that is looked into is that of `h`.
  have hlink : g.state.link name = h.state.link name := by rw [hg.state]
  dsimp only [bind, EStateM.bind, EStateM.get]
  rw [hlink]
  unfold HostState.link
  cases h.state.find? name with
  | some l => exact ⟨rfl, hg⟩
  | none => exact ⟨⟨rfl, .inr rfl⟩, hg⟩

end Host

/-! ## Readings of a site -/

namespace Site

variable {α β : Type} {s t : Site} {φ : α → Prop} {ψ ψ' : Prop}

/-- Run on `s`, or on what readings left of it, the action only reads.  It answers with `φ`; or it
fails with an error that is not fatal, and then a reading has failed or `ψ` is the case. -/
def Inspects (s : Site) (φ : α → Prop) (ψ : Prop) (x : Action Site α) : Prop :=
  Triple s.Seen x (fun a t => φ a ∧ s.Seen t)
    fun e t => (e.isFatal = false ∧ (s.host.ReadingFails e ∨ ψ)) ∧ s.Seen t

/-- What is inspected on the host of a site is inspected on the site. -/
theorem inspects_onHost {x : Action Host α} (hx : s.host.Inspects φ ψ x) :
    s.Inspects φ ψ (onHost x) := by
  rintro t ⟨g, hg, rfl⟩
  have hrun := hx g hg
  have hhost : (s.withHost g).host = g := rfl
  rw [onHost_eq, hhost]
  cases h : x g with
  | ok a k =>
    rw [h] at hrun
    exact ⟨hrun.1, k, hrun.2, rfl⟩
  | error e k =>
    rw [h] at hrun
    exact ⟨hrun.1, k, hrun.2, rfl⟩

namespace Inspects

theorem pure {a : α} (ha : φ a) : s.Inspects φ ψ (pure a) := Triple.pure fun _ ht => ⟨ha, ht⟩

theorem throw {e : Error} (he : e.isFatal = false) (hψ : ψ) :
    s.Inspects φ ψ (throw e : Action Site α) :=
  Triple.throw fun _ ht => ⟨⟨he, .inr hψ⟩, ht⟩

theorem throw_bind {e : Error} (he : e.isFatal = false) (hψ : ψ) {f : β → Action Site α} :
    s.Inspects φ ψ ((MonadExcept.throw e : Action Site β) >>= f) :=
  Triple.throw_bind fun _ ht => ⟨⟨he, .inr hψ⟩, ht⟩

theorem bind {χ : β → Prop} {x : Action Site α} {f : α → Action Site β} (hx : s.Inspects φ ψ x)
    (hf : ∀ a, φ a → s.Inspects χ ψ (f a)) : s.Inspects χ ψ (x >>= f) :=
  Triple.bind hx fun a => Triple.of_pure (hf a)

/-- Where it fails, less may be said. -/
theorem imp {x : Action Site α} (hx : s.Inspects φ ψ x) (h : ψ → ψ') : s.Inspects φ ψ' x :=
  Triple.catch hx fun _ _ he => ⟨⟨he.1.1, he.1.2.imp id h⟩, he.2⟩

theorem discard {x : Action Site α} (hx : s.Inspects φ ψ x) :
    s.Inspects (fun _ => ∃ a, φ a) ψ (discard x : Action Site Unit) :=
  hx.bind fun a ha => pure ⟨a, ha⟩

/-- What readings leave true is kept, and an answer tells of a site where it was true. -/
theorem keeps {P : Site → Prop} {φ : Site → α → Prop} {ψ : Site → Prop} {x : Action Site α}
    (hx : ∀ s : Site, s.Inspects (φ s) (ψ s) x) (hP : ∀ s t : Site, s.Seen t → P s → P t) :
    Triple P x (fun a t => (∃ s, P s ∧ φ s a) ∧ P t) fun e t => e.isFatal = false ∧ P t := by
  refine Triple.of_each fun s hs => Triple.weaken (hx s) ?_
    (fun a t ht => ⟨⟨s, hs, ht.1⟩, hP s t ht.2 hs⟩) fun e t he => ⟨he.1.1, hP s t he.2 hs⟩
  rintro _ rfl
  exact .refl _

end Inspects

/-- A reading is no call. -/
theorem Seen.after {b : StoredMachine} {own : List Call} (h : s.Seen t)
    (hs : b.After own s.stored) : b.After own t.stored := by
  obtain ⟨g, hg, rfl⟩ := h
  have halike : g.Alike (b.machine.host.replay own) :=
    ⟨hg.naming.trans hs.host.naming, hg.state.trans hs.host.state,
      hg.journal.trans hs.host.journal,
      fun op hop => (hg.alike.armed op hop).trans (hs.host.armed op hop)⟩
  exact ⟨halike, hs.scope, hs.saved, hs.backup, hs.resets⟩

/-- An operation stays where it is while an action only reads. -/
theorem Inspects.after {φ : Site → α → Prop} {ψ : Site → Prop} {x : Action Site α}
    (hx : ∀ s : Site, s.Inspects (φ s) (ψ s) x) (b : StoredMachine) (own : List Call) :
    Triple (fun s => b.After own s.stored) x (fun _ s => b.After own s.stored)
      fun _ s => b.After own s.stored :=
  (keeps hx fun _ _ ht hs => ht.after hs).weaken (fun _ hs => hs) (fun _ _ ht => ht.2)
    fun _ _ ht => ht.2

end Site

/-! ## Views of VLANs and bridges -/

theorem VlanView.toOption_ofLink (l : Link) : (ofLink l).toOption = ofLink? l := by
  rw [ofLink]
  cases ofLink? l <;> rfl

/-- Only VLANs are viewed as such. -/
theorem VlanView.ofLink?_of_not_isVlan {l : Link} (h : l.isVlan = false) : ofLink? l = none := by
  rw [ofLink?, if_neg (by simp [h])]

/-- A link as a bridge among all links. -/
def BridgeView.view (l : Link) (all : List Link) : BridgeView :=
  ⟨l.name, (slavesOf l.name all).mergeSort fun a b => a ≤ b, l.addresses, l.isUp⟩

theorem BridgeView.ofLink_eq_ok_iff {l : Link} {all : List Link} {b : BridgeView} :
    ofLink l all = .ok b ↔ l.isBridge = true ∧ view l all = b := by
  unfold ofLink view
  split
  · next h => simp [h]
  · next h => simp [h]

theorem BridgeView.toOption_ofLink (l : Link) (all : List Link) :
    (ofLink l all).toOption = if l.isBridge then some (view l all) else none := by
  rw [ofLink, view]
  split <;> rfl

namespace HostState

variable {g : HostState} {name : String}

/-- How a host shows the VLAN of a name. -/
def vlan? (g : HostState) (name : String) : Option VlanView :=
  (g.find? name).bind VlanView.ofLink?

/-- How a host shows the bridge of a name, as the first link listed under it. -/
def bridge? (g : HostState) (name : String) : Option BridgeView :=
  (g.listing.find? fun l => l.name == name).bind fun l => (BridgeView.ofLink l g.listing).toOption

/-- What is shown as a VLAN is a link of the host that is one. -/
theorem exists_isVlan_of_vlan? {v : VlanView} (h : g.vlan? name = some v) :
    ∃ l ∈ g.links, l.name = name ∧ l.isVlan = true := by
  obtain ⟨l, hl, hv⟩ := Option.bind_eq_some_iff.mp h
  refine ⟨l, mem_of_find? hl, name_of_find? hl, ?_⟩
  by_contra hvlan
  rw [VlanView.ofLink?_of_not_isVlan (Bool.eq_false_of_not_eq_true hvlan)] at hv
  cases hv

/-- What is shown as a bridge is a link of the host that is one. -/
theorem exists_isBridge_of_bridge? {b : BridgeView} (h : g.bridge? name = some b) :
    ∃ l ∈ g.links, l.name = name ∧ l.isBridge = true := by
  obtain ⟨l, hl, hb⟩ := Option.bind_eq_some_iff.mp h
  rw [BridgeView.toOption_ofLink, Option.ite_none_right_eq_some] at hb
  exact ⟨l, mem_listing.mp (List.mem_of_find?_eq_some hl), by simpa using List.find?_some hl, hb.1⟩

/-- Where no two links have one name, it does not matter that the listing was looked into. -/
theorem bridge?_eq_some_iff (hd : g.Distinct) {b : BridgeView} :
    g.bridge? name = some b ↔
      ∃ l, g.find? name = some l ∧ l.isBridge = true ∧ BridgeView.view l g.listing = b := by
  rw [bridge?, find?_listing hd, Option.bind_eq_some_iff]
  simp only [BridgeView.toOption_ofLink, Option.ite_none_right_eq_some, Option.some.injEq]

end HostState

/-! ## The readings of the managers -/

namespace Manager

variable {s : Site}

/-- A VLAN is read by its view, and its absence is told only where there is none. -/
theorem inspects_currentVlan (s : Site) (name : String) :
    s.Inspects (fun v => s.host.state.vlan? name = some v) (s.host.state.vlan? name = none)
      (currentVlan name) := by
  unfold currentVlan HostState.vlan?
  have hget := Site.inspects_onHost (s := s) (Host.inspects_get name)
  refine (hget.imp fun hnone => by rw [hnone]; rfl).bind fun l hl => ?_
  rw [hl, Option.bind_some]
  unfold VlanView.ofLink
  cases VlanView.ofLink? l with
  | some v => exact .pure rfl
  | none => exact .throw rfl rfl

/-- A bridge is read by its view, with the slaves that the listing has at that moment. -/
theorem inspects_currentBridge (s : Site) (name : String) :
    s.Inspects (fun b => s.host.state.bridge? name = some b) (s.host.state.bridge? name = none)
      (currentBridge name) := by
  unfold currentBridge HostState.bridge?
  refine (Site.inspects_onHost Host.observes_list.inspects).bind fun links hlinks => ?_
  rw [hlinks]
  cases s.host.state.listing.find? fun l => l.name == name with
  | none => exact .throw rfl rfl
  | some l =>
    dsimp only
    rw [Option.bind_some]
    unfold BridgeView.ofLink
    split
    · exact .pure rfl
    · exact .throw rfl rfl

/-- Slaves are accepted exactly if all of them stand and none is the bridge.  Those that are
accepted are the ones that were asked for. -/
theorem inspects_checkSlaves (s : Site) (bridge : String) (slaves : List String) :
    s.Inspects
      (fun checked => (∀ n ∈ slaves, n ≠ bridge ∧ (s.host.state.find? n).isSome) ∧
        ∀ n, n ∈ checked ↔ n ∈ slaves)
      (¬ ∀ n ∈ slaves, n ≠ bridge ∧ (s.host.state.find? n).isSome)
      (checkSlaves bridge slaves) := by
  induction slaves with
  | nil => exact .pure ⟨nofun, fun _ => .rfl⟩
  | cons slave slaves ih =>
    unfold checkSlaves
    by_cases hself : slave = bridge
    · rw [if_pos hself]
      exact .throw_bind rfl fun h => (h slave (List.mem_cons_self ..)).1 hself
    rw [if_neg hself]
    have hmissing (hnone : s.host.state.find? slave = none) :
        ¬ ∀ n ∈ slave :: slaves, n ≠ bridge ∧ (s.host.state.find? n).isSome := by
      intro h
      have hsome := (h slave (List.mem_cons_self ..)).2
      rw [hnone] at hsome
      cases hsome
    have hget := Site.inspects_onHost
      ((Host.inspects_get (h := s.host) slave).within ("slave of bridge " ++ bridge))
    refine (hget.imp hmissing).discard.bind fun _ hstands => ?_
    -- The slave stands, and the others are checked in the same way.
    refine (ih.imp fun hbad h => hbad fun n hn => h n (List.mem_cons_of_mem _ hn)).bind
      fun rest hrest => .pure ⟨?_, fun n => ?_⟩
    · obtain ⟨l, hl⟩ := hstands
      exact List.forall_mem_cons.mpr ⟨⟨hself, by rw [hl]; rfl⟩, hrest.1⟩
    · rw [List.mem_cons, List.mem_cons, List.mem_filter, hrest.2, bne_iff_ne]
      by_cases hn : n = slave <;> simp [hn]

end Manager

end HostNet
