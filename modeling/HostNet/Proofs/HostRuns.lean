/-
Runs of a host.

A `HostStep` is whatever is done to a host from outside: a call, a reading, or a change of what is
armed or journaled.  A step of a run leaves links and rules alone, or it is a call that takes its
effect (`HostStep.next_cases`), and that has one of a few shapes (`Call.effect_shape`).  So what
holds of a host with interfaces alone and is kept by every effect holds after every run.  The names
of the links that a run inserts are listed along with it.
-/

import HostNet.Proofs.Built
import HostNet.Proofs.Replay

namespace HostNet

/-- What is done to a host in one step of a run. -/
inductive HostStep where
  | call (c : Call)
  | list
  | get (name : String)
  | tableRules (t : Table)
  | chainRules (t : Table) (chain : String)
  | arm (op : HostOp) (i : Injection)
  | disarm
  | forgetJournal

/-- The name of the link that a call creates if it succeeds. -/
def Call.created? (naming : Naming) : Call → Option String
  | createVlan parent id => some (vlanName parent id)
  | createBridge name => some (naming.bridgeName name)
  | _ => none

/-- The shapes of effects: a link is created on what is there, a link is changed and keeps its name,
its index and its parent, a link is deleted, or no link is touched. -/
theorem Call.effect_shape {naming : Naming} {s g : HostState} {c : Call}
    (hg : c.effect naming s = .ok g) :
    (∃ l : Link, c.created? naming = some l.name ∧ l.index = 0 ∧
      (∀ p, l.parent = some p → (s.find? p).isSome) ∧ g = s.insert l) ∨
    c.created? naming = none ∧
      ((∃ name, ∃ f : Link → Link, (∀ l, (f l).name = l.name) ∧ (∀ l, (f l).index = l.index) ∧
        (∀ l, (f l).parent = l.parent) ∧ g = s.update name f) ∨
      (∃ name, c = .deleteLink name ∧ g = s.dropped name) ∨
      g.links = s.links ∧ g.nextIndex = s.nextIndex) := by
  have hupdate {name : String} {f : Link → Link} (hf : ∀ l, (f l).name = l.name ∧
      (f l).index = l.index ∧ (f l).parent = l.parent) :
      ∃ n, ∃ k : Link → Link, (∀ l, (k l).name = l.name) ∧ (∀ l, (k l).index = l.index) ∧
        (∀ l, (k l).parent = l.parent) ∧ s.update name f = s.update n k :=
    ⟨name, f, fun l => (hf l).1, fun l => (hf l).2.1, fun l => (hf l).2.2, rfl⟩
  cases c with
  | createVlan parent id =>
    obtain ⟨hparent, -, -, rfl⟩ := effect_createVlan.mp hg
    refine .inl ⟨_, rfl, rfl, ?_, rfl⟩
    intro p hp
    exact Option.some.inj hp ▸ hparent
  | createBridge name =>
    obtain ⟨-, -, rfl⟩ := effect_createBridge.mp hg
    refine .inl ⟨_, rfl, rfl, ?_, rfl⟩
    intro p hp
    cases hp
  | setLinkUp name =>
    obtain ⟨-, rfl⟩ := effect_setLinkUp.mp hg
    exact .inr ⟨rfl, .inl (hupdate fun _ => ⟨rfl, rfl, rfl⟩)⟩
  | setLinkMaster slave master =>
    obtain ⟨-, -, -, rfl⟩ := effect_setLinkMaster.mp hg
    exact .inr ⟨rfl, .inl (hupdate fun _ => ⟨rfl, rfl, rfl⟩)⟩
  | unsetLinkMaster name =>
    obtain ⟨-, rfl⟩ := effect_unsetLinkMaster.mp hg
    exact .inr ⟨rfl, .inl (hupdate fun _ => ⟨rfl, rfl, rfl⟩)⟩
  | deleteLink name =>
    obtain ⟨-, rfl⟩ := effect_deleteLink.mp hg
    exact .inr ⟨rfl, .inr (.inl ⟨name, rfl, rfl⟩)⟩
  | addAddress name net =>
    obtain ⟨-, rfl⟩ := effect_addAddress.mp hg
    exact .inr ⟨rfl, .inl (hupdate fun _ => ⟨rfl, rfl, rfl⟩)⟩
  | deleteAddress name net =>
    obtain ⟨-, rfl⟩ := effect_deleteAddress.mp hg
    exact .inr ⟨rfl, .inl (hupdate fun _ => ⟨rfl, rfl, rfl⟩)⟩
  | createRule t r =>
    obtain ⟨-, rfl⟩ := effect_createRule.mp hg
    exact .inr ⟨rfl, .inr (.inr ⟨rfl, rfl⟩)⟩
  | deleteRule t r =>
    obtain ⟨-, rfl⟩ := effect_deleteRule.mp hg
    exact .inr ⟨rfl, .inr (.inr ⟨rfl, rfl⟩)⟩

namespace HostStep

/-- The host after a step, whatever that came to. -/
def next (h : Host) : HostStep → Host
  | call c => h.afterCall c
  | list => (Host.list.outcome h).2
  | get name => ((Host.get name).outcome h).2
  | tableRules t => ((Host.tableRules t).outcome h).2
  | chainRules t chain => ((Host.chainRules t chain).outcome h).2
  | arm op i => h.arm op (some i)
  | disarm => h.disarm
  | forgetJournal => h.forgetJournal

/-- The names of the links that a step inserts: at most one. -/
def inserted (h : Host) : HostStep → List String
  | call c => if h.succeeds c then (c.created? h.naming).toList else []
  | _ => []

end HostStep

namespace Host

/-- The host after some steps. -/
def after (h : Host) : List HostStep → Host
  | [] => h
  | x :: xs => (x.next h).after xs

/-- The names of the links that some steps insert, in order. -/
def insertions (h : Host) : List HostStep → List String
  | [] => []
  | x :: xs => x.inserted h ++ (x.next h).insertions xs

/-- A host that begins with its loopback interface and some devices. -/
def seeded (naming : Naming) (devices : List String) : Host :=
  devices.foldl addDevice (fresh naming)

theorem after_append (h : Host) (xs ys : List HostStep) :
    h.after (xs ++ ys) = (h.after xs).after ys := by
  induction xs generalizing h with
  | nil => rfl
  | cons x xs ih => exact ih (x.next h)

/-! ## One step -/

/-- A reading leaves a host that differs in what readings meet. -/
theorem Reads.alike {α : Type} {x : Action Host α} (hx : Reads x) (h : Host) :
    (x.outcome h).2.Alike h := by
  have hrun := hx h h (.refl h)
  unfold Action.outcome
  cases hxh : x h with
  | ok a g =>
    rw [hxh] at hrun
    exact hrun
  | error e g =>
    rw [hxh] at hrun
    exact hrun

end Host

namespace HostStep

open Host

theorem naming_next (h : Host) (x : HostStep) : (x.next h).naming = h.naming := by
  cases x with
  | call c => exact naming_afterCall h c
  | list => exact (reads_list.alike h).naming
  | get name => exact ((reads_get name).alike h).naming
  | tableRules t => exact ((reads_tableRules t).alike h).naming
  | chainRules t chain => exact ((reads_chainRules t chain).alike h).naming
  | arm op i => rfl
  | disarm => rfl
  | forgetJournal => rfl

/-- A step is a call that takes its effect, or it inserts nothing and leaves links and rules as they
were. -/
theorem next_cases (h : Host) (x : HostStep) :
    (∃ c, x = .call c ∧ h.succeeds c = true ∧
      c.effect h.naming h.state = .ok (x.next h).state ∧
      x.inserted h = (c.created? h.naming).toList) ∨
      (x.next h).state = h.state ∧ x.inserted h = [] := by
  cases x with
  | call c =>
    cases hc : h.succeeds c with
    | true => exact .inl ⟨c, rfl, hc, effect_of_succeeds hc, if_pos hc⟩
    | false => exact .inr ⟨state_afterCall_of_not_succeeds hc, if_neg (by simp [hc])⟩
  | list => exact .inr ⟨(reads_list.alike h).state, rfl⟩
  | get name => exact .inr ⟨((reads_get name).alike h).state, rfl⟩
  | tableRules t => exact .inr ⟨((reads_tableRules t).alike h).state, rfl⟩
  | chainRules t chain => exact .inr ⟨((reads_chainRules t chain).alike h).state, rfl⟩
  | arm op i => exact .inr ⟨rfl, rfl⟩
  | disarm => exact .inr ⟨rfl, rfl⟩
  | forgetJournal => exact .inr ⟨rfl, rfl⟩

/-- The name of a link that is inserted is legal. -/
theorem legal_of_inserted {h : Host} {x : HostStep} {n : String} (hn : n ∈ x.inserted h) :
    LinkName.defect? n = none := by
  rcases x.next_cases h with ⟨c, -, -, heffect, hinserted⟩ | ⟨-, hinserted⟩
  · rw [hinserted, Option.mem_toList] at hn
    cases c with
    | createVlan parent id =>
      obtain ⟨-, hlegal, -⟩ := Call.effect_createVlan.mp heffect
      exact Option.some.inj hn ▸ hlegal
    | createBridge name =>
      obtain ⟨hlegal, -⟩ := Call.effect_createBridge.mp heffect
      exact Option.some.inj hn ▸ hlegal
    | _ => cases hn
  · rw [hinserted] at hn
    cases hn

end HostStep

/-! ## Runs -/

namespace Host

/-- What every effect keeps is kept by a run. -/
theorem after_of_effect {I : HostState → Prop} {h : Host} (hh : I h.state)
    (heffect : ∀ c s g, I s → Call.effect h.naming s c = .ok g → I g) (steps : List HostStep) :
    I (h.after steps).state := by
  induction steps generalizing h with
  | nil => exact hh
  | cons x xs ih =>
    refine ih ?_ (by rwa [x.naming_next])
    rcases x.next_cases h with ⟨c, -, -, hc, -⟩ | ⟨hstate, -⟩
    · exact heffect c _ _ hh hc
    · exact hstate.symm ▸ hh

theorem built_after {h : Host} (hh : h.state.Built) (steps : List HostStep) :
    (h.after steps).state.Built :=
  after_of_effect hh (fun _ _ _ hs hc => hs.effect hc) steps

theorem legal_of_insertions {h : Host} {steps : List HostStep} {n : String}
    (hn : n ∈ h.insertions steps) : LinkName.defect? n = none := by
  induction steps generalizing h with
  | nil => cases hn
  | cons x xs ih =>
    rcases List.mem_append.mp hn with hn | hn
    · exact HostStep.legal_of_inserted hn
    · exact ih hn

/-! ## Hosts to begin with -/

/-- Devices are all free and have no addresses, and nothing else of the host changes. -/
theorem plain_devices {h : Host} (devices : List String) (hd : h.state.Distinct)
    (hh : ∀ l ∈ h.state.links, l.kind = .physical ∧ l.parent = none ∧ l.master = none ∧
      l.addresses = []) :
    (devices.foldl addDevice h).state.Distinct ∧
      (devices.foldl addDevice h).state.rules = h.state.rules ∧
      (devices.foldl addDevice h).armed = h.armed ∧
      ∀ l ∈ (devices.foldl addDevice h).state.links, l.kind = .physical ∧ l.parent = none ∧
        l.master = none ∧ l.addresses = [] := by
  induction devices generalizing h with
  | nil => exact ⟨hd, rfl, rfl, hh⟩
  | cons d devices ih =>
    exact ih (hd.insert _) (HostState.forall_mem_insert hh ⟨rfl, rfl, rfl, rfl⟩)

variable (naming : Naming) (devices : List String)

theorem plain_seeded :
    ∀ l ∈ (seeded naming devices).state.links, l.kind = .physical ∧ l.parent = none ∧
      l.master = none ∧ l.addresses = [] :=
  (plain_devices (h := empty naming) ("lo" :: devices) List.nodup_nil nofun).2.2.2

theorem armed_seeded : (seeded naming devices).armed = fun _ => none :=
  (plain_devices (h := empty naming) ("lo" :: devices) List.nodup_nil nofun).2.2.1

theorem built_seeded : (seeded naming devices).state.Built := by
  obtain ⟨hd, hrules, -⟩ :=
    plain_devices (h := empty naming) ("lo" :: devices) List.nodup_nil nofun
  refine .of_devices hd (fun l hl => ?_) fun t r hr => ?_
  · obtain ⟨hkind, hparent, hmaster, -⟩ := plain_seeded naming devices l hl
    exact ⟨hkind, hparent, hmaster⟩
  · have hnone : r ∈ HostState.empty.rules.get t := hrules ▸ hr
    cases t <;> cases hnone

end Host

end HostNet
