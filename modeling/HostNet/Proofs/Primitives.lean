/-
What the primitives of a host do.

For each call there is one equivalence that says when it takes effect and what the host is then.  A
call that is made either takes this effect or fails and leaves links and rules as they are.
`Achieves` states a triple in terms of links and rules alone: on a host without armed failures
(`calm`) the action must succeed, on any other host only its successes count.
-/

import HostNet.Proofs.Lookup
import HostNet.Proofs.Triple

namespace HostNet

/-! ## The effect of each call -/

namespace Call

variable {naming : Naming} {s s' : HostState}

/-- Looking for a link only to see that it is there. -/
theorem discard_link_eq (s : HostState) (n : String) :
    (discard (s.link n) : Except Error Unit) =
      if (s.find? n).isSome then .ok () else .error (.notFound "link" n) := by
  unfold HostState.link
  cases s.find? n <;> rfl

/-- A link is created if its name is legal and free. -/
theorem create_eq_ok_iff {name : String} {build : String → Link} :
    s.create name build = .ok s' ↔
      LinkName.defect? name = none ∧ s.find? name = none ∧ s' = s.insert (build name) := by
  unfold HostState.create LinkName.ofString
  split
  · next hlegal =>
    cases hfind : s.find? name with
    | none => simp [hlegal, hfind, eq_comm, bind, Except.bind, pure, Except.pure]
    | some l => simp [hlegal, hfind, bind, Except.bind, throw, throwThe, MonadExceptOf.throw]
  · next d hd => simp [hd, bind, Except.bind]

/-- A VLAN is created on a parent that is there, under a name that is legal and free. -/
theorem effect_createVlan {parent : String} {id : VlanId} :
    (createVlan parent id).effect naming s = .ok s' ↔
      (s.find? parent).isSome ∧ LinkName.defect? (vlanName parent id) = none ∧
        s.find? (vlanName parent id) = none ∧
        s' = s.insert { Link.bare 0 (vlanName parent id) .vlan with
          parent := some parent, vlanId := some id.val } := by
  simp only [effect, discard_link_eq]
  by_cases hp : (s.find? parent).isSome
  · -- The parent is there, so the name decides.
    simp only [hp, if_true, true_and, bind, Except.bind, create_eq_ok_iff]
  · simp [hp, bind, Except.bind]

/-- A bridge is created under the managed name that it is given, if that is legal and free. -/
theorem effect_createBridge {name : String} :
    (createBridge name).effect naming s = .ok s' ↔
      LinkName.defect? (naming.bridgeName name) = none ∧ s.find? (naming.bridgeName name) = none ∧
        s' = s.insert (Link.bare 0 (naming.bridgeName name) .bridge) := by
  simp only [effect, create_eq_ok_iff]

/-- A link that is there can be set up, also if it is up already. -/
theorem effect_setLinkUp {name : String} :
    (setLinkUp name).effect naming s = .ok s' ↔
      (s.find? name).isSome ∧ s' = s.update name fun l => { l with isUp := true } := by
  simp only [effect, discard_link_eq]
  by_cases hn : (s.find? name).isSome
  · simp [hn, eq_comm, bind, Except.bind, pure, Except.pure]
  · simp [hn, bind, Except.bind]

/-- A link that is there can be released, also if it has no master. -/
theorem effect_unsetLinkMaster {name : String} :
    (unsetLinkMaster name).effect naming s = .ok s' ↔
      (s.find? name).isSome ∧ s' = s.update name fun l => { l with master := none } := by
  simp only [effect, discard_link_eq]
  by_cases hn : (s.find? name).isSome
  · simp [hn, eq_comm, bind, Except.bind, pure, Except.pure]
  · simp [hn, bind, Except.bind]

/-- Only a bridge can be made a master, and of another link that is there. -/
theorem effect_setLinkMaster {slave master : String} :
    (setLinkMaster slave master).effect naming s = .ok s' ↔
      (∃ b, s.find? master = some b ∧ b.isBridge = true) ∧ slave ≠ master ∧ (s.find? slave).isSome ∧
        s' = s.update slave fun l => { l with master := some master } := by
  simp only [effect, HostState.enslave, discard_link_eq]
  cases hm : s.find? master with
  | none => simp [HostState.link, hm, bind, Except.bind]
  | some b =>
    -- The checks are made in this order, and the first that fails decides.
    by_cases hb : b.isBridge = true
    · by_cases hsm : slave = master
      · simp [HostState.link, hm, hb, hsm, bind, Except.bind, throw, throwThe, MonadExceptOf.throw]
      · by_cases hs : (s.find? slave).isSome
        · have hbridge : ∃ c, some b = some c ∧ c.isBridge = true := ⟨b, rfl, hb⟩
          simp only [HostState.link, hm, hb, hsm, hs, hbridge, bind, Except.bind, pure, Except.pure]
          simp only [Bool.not_true, Bool.false_eq_true, if_false, if_true, ne_eq, hsm,
            not_false_eq_true, true_and, Except.ok.injEq, @eq_comm _ s']
        · simp [HostState.link, hm, hb, hsm, hs, bind, Except.bind]
    · simp [HostState.link, hm, hb, bind, Except.bind, throw, throwThe, MonadExceptOf.throw]

/-- A link that is there can be deleted. -/
theorem effect_deleteLink {name : String} :
    (deleteLink name).effect naming s = .ok s' ↔
      (s.find? name).isSome ∧ s' = s.dropped name := by
  simp only [effect]
  cases hn : s.find? name with
  | none => simp [HostState.remove_of_find?_eq_none hn]
  | some l => simp [HostState.remove_of_find? hn, eq_comm]

/-- An address is added to a link that does not have it, behind those that it has. -/
theorem effect_addAddress {name : String} {net : IpNet} :
    (addAddress name net).effect naming s = .ok s' ↔
      (∃ l, s.find? name = some l ∧ net ∉ l.addresses) ∧
        s' = s.update name fun l => { l with addresses := l.addresses ++ [net] } := by
  simp only [effect, HostState.link]
  cases hn : s.find? name with
  | none => simp [bind, Except.bind]
  | some l =>
    by_cases hnet : net ∈ l.addresses
    · simp [hnet, bind, Except.bind, throw, throwThe, MonadExceptOf.throw]
    · simp [hnet, eq_comm, bind, Except.bind, pure, Except.pure]

/-- An address is deleted from a link that has it. -/
theorem effect_deleteAddress {name : String} {net : IpNet} :
    (deleteAddress name net).effect naming s = .ok s' ↔
      (∃ l, s.find? name = some l ∧ net ∈ l.addresses) ∧
        s' = s.update name fun l => { l with addresses := l.addresses.filter (· != net) } := by
  simp only [effect, HostState.link]
  cases hn : s.find? name with
  | none => simp [bind, Except.bind]
  | some l =>
    by_cases hnet : net ∈ l.addresses
    · simp [hnet, eq_comm, bind, Except.bind, pure, Except.pure]
    · simp [hnet, bind, Except.bind, throw, throwThe, MonadExceptOf.throw]

/-- A rule that passes its check is appended to its table, also if the table has it already. -/
theorem effect_createRule {t : Table} {r : Rule} :
    (createRule t r).effect naming s = .ok s' ↔ r.check = .ok () ∧ s' = s.appendRule t r := by
  simp only [effect]
  cases r.check with
  | ok u => simp [eq_comm, bind, Except.bind, pure, Except.pure]
  | error e => simp [bind, Except.bind]

/-- Of a rule that a table lists, the first one is deleted. -/
theorem effect_deleteRule {t : Table} {r : Rule} :
    (deleteRule t r).effect naming s = .ok s' ↔
      r ∈ s.rules.get t ∧ s' = { s with rules := s.rules.set t ((s.rules.get t).erase r) } := by
  simp only [effect]
  by_cases hr : r ∈ s.rules.get t
  · simp [hr, eq_comm, pure, Except.pure]
  · simp [hr, bind, Except.bind, throw, throwThe, MonadExceptOf.throw]

end Call

/-! ## Making a call -/

namespace Host

/-- No failure is armed. -/
def Quiet (h : Host) : Prop := ∀ op, h.armed op = none

theorem meet_of_quiet {h : Host} (hq : h.Quiet) (op : HostOp) : meet op h = .ok () h := by
  simp [meet, hq op]

/-- The error of an armed failure. -/
def injected (op : HostOp) : Error := .ioFailure op.name "injected failure"

/-- Meeting a failure uses it up at most; nothing else of the host changes. -/
theorem meet_cases (op : HostOp) (h : Host) :
    (∃ armed, meet op h = .ok () { h with armed := armed }) ∨
      ∃ armed, meet op h = .error (injected op) { h with armed := armed } := by
  unfold meet
  split
  · exact .inl ⟨h.armed, rfl⟩
  · exact .inl ⟨_, rfl⟩
  · exact .inr ⟨h.armed, rfl⟩
  · exact .inr ⟨_, rfl⟩

/-- A call is noted, meets the failure that is armed for it, and only then takes effect. -/
theorem perform_eq (c : Call) (h : Host) :
    perform c h =
      match meet c.op { h with journal := h.journal ++ [c] } with
      | .ok () g =>
        match c.effect g.naming g.state with
        | .ok s => .ok () { g with state := s }
        | .error e => .error e g
      | .error e g => .error e g := by
  -- The call is noted first, and what comes after reads the host that met the failure.
  let x : Action Host Unit := do
    let h ← EStateM.get
    let s ← Action.ofExcept (c.effect h.naming h.state)
    set { h with state := s }
  show EStateM.bind (meet c.op) (fun _ => x) { h with journal := h.journal ++ [c] } = _
  unfold EStateM.bind
  cases meet c.op { h with journal := h.journal ++ [c] } with
  | ok u g =>
    show EStateM.bind (Action.ofExcept (c.effect g.naming g.state))
      (fun s => set { g with state := s }) g = match c.effect g.naming g.state with
        | .ok s => .ok () { g with state := s }
        | .error e => .error e g
    cases c.effect g.naming g.state <;> rfl
  | error e g => rfl

/-- A call that succeeds has taken its effect; one that fails left links and rules as they were.
Either way it is in the journal. -/
theorem perform_cases (c : Call) (h : Host) :
    (∃ s armed, c.effect h.naming h.state = .ok s ∧ perform c h =
        .ok () { h with state := s, journal := h.journal ++ [c], armed := armed }) ∨
      ∃ e armed, (e = injected c.op ∨ c.effect h.naming h.state = .error e) ∧
        perform c h = .error e { h with journal := h.journal ++ [c], armed := armed } := by
  rw [perform_eq]
  rcases meet_cases c.op { h with journal := h.journal ++ [c] } with ⟨armed, hm⟩ | ⟨armed, hm⟩
  · rw [hm]
    dsimp only
    cases heffect : c.effect h.naming h.state with
    | ok s => exact .inl ⟨s, armed, rfl, rfl⟩
    | error e => exact .inr ⟨e, armed, .inr rfl, rfl⟩
  · rw [hm]
    exact .inr ⟨_, armed, .inl rfl, rfl⟩

/-- Where nothing is armed, a call succeeds if its effect does. -/
theorem perform_of_quiet {c : Call} {h : Host} (hq : h.Quiet) {s : HostState}
    (hs : c.effect h.naming h.state = .ok s) :
    perform c h = .ok () { h with state := s, journal := h.journal ++ [c] } := by
  rw [perform_eq, meet_of_quiet (h := { h with journal := h.journal ++ [c] }) hq]
  dsimp only
  rw [hs]

/-- Where nothing is armed, a call that fails has failed for want of its effect, and is noted all
the same. -/
theorem perform_error_of_quiet {c : Call} {h : Host} (hq : h.Quiet) {e : Error}
    (he : c.effect h.naming h.state = .error e) :
    perform c h = .error e { h with journal := h.journal ++ [c] } := by
  rw [perform_eq, meet_of_quiet (h := { h with journal := h.journal ++ [c] }) hq]
  dsimp only
  rw [he]

/-- A quiet host stays quiet, as its calls and readings meet nothing. -/
theorem Quiet.of_meet {h g : Host} {op : HostOp} (hq : h.Quiet) (hrun : meet op h = .ok () g) :
    g.Quiet := by
  rw [meet_of_quiet hq] at hrun
  rw [← (EStateM.Result.ok.inj hrun).2]
  exact hq

/-- A call arms no failure. -/
theorem Quiet.of_perform {h g : Host} {c : Call} (hq : h.Quiet) (hrun : perform c h = .ok () g) :
    g.Quiet := by
  cases heffect : c.effect h.naming h.state with
  | ok s =>
    rw [perform_of_quiet hq heffect] at hrun
    rw [← (EStateM.Result.ok.inj hrun).2]
    exact hq
  | error e =>
    rw [perform_error_of_quiet hq heffect] at hrun
    cases hrun

/-! ## Triples about links and rules -/

/-- A host named by `naming` whose links and rules have `P`, and that is quiet if `calm` is set. -/
structure Holds (calm : Bool) (naming : Naming) (P : HostState → Prop) (h : Host) : Prop where
  quiet : calm = true → h.Quiet
  naming_eq : h.naming = naming
  state : P h.state

/-- From a host with `P` the action leads to one with `Q` if it succeeds; on a calm host it does. -/
def Achieves {α : Type} (calm : Bool) (naming : Naming) (P : HostState → Prop) (x : Action Host α)
    (Q : α → HostState → Prop) : Prop :=
  Action.Triple (Holds calm naming P) x (fun a => Holds calm naming (Q a)) fun _ _ => calm = false

section Achieves

variable {α β : Type} {calm : Bool} {naming : Naming} {P P' : HostState → Prop}

theorem Holds.imp {h : Host} (hh : Holds calm naming P h) (hP : ∀ s, P s → P' s) :
    Holds calm naming P' h := ⟨hh.quiet, hh.naming_eq, hP _ hh.state⟩

theorem Achieves.post {x : Action Host α} {Q Q' : α → HostState → Prop}
    (h : Achieves calm naming P x Q) (hQ : ∀ a s, Q a s → Q' a s) : Achieves calm naming P x Q' :=
  Action.Triple.post h fun a _ hh => hh.imp (hQ a)

theorem Achieves.pre {x : Action Host α} {Q : α → HostState → Prop}
    (h : Achieves calm naming P x Q) (hP : ∀ s, P' s → P s) : Achieves calm naming P' x Q :=
  Action.Triple.pre h fun _ hh => hh.imp hP

/-- It may be shown for each state of links and rules on its own. -/
theorem Achieves.of_each {x : Action Host α} {Q : α → HostState → Prop}
    (h : ∀ s, P s → Achieves calm naming (fun t => t = s) x Q) : Achieves calm naming P x Q :=
  fun g hg => h g.state hg.state g ⟨hg.quiet, hg.naming_eq, rfl⟩

theorem Achieves.pure {a : α} {Q : α → HostState → Prop} (h : ∀ s, P s → Q a s) :
    Achieves calm naming P (pure a) Q :=
  Action.Triple.pure fun _ hh => hh.imp h

/-- What the first action achieves is what the next one starts from, for each answer. -/
theorem Achieves.bind {x : Action Host α} {f : α → Action Host β} {Q : α → HostState → Prop}
    {R : β → HostState → Prop} (hx : Achieves calm naming P x Q)
    (hf : ∀ a, Achieves calm naming (Q a) (f a) R) : Achieves calm naming P (x >>= f) R :=
  Action.Triple.bind hx hf

theorem Achieves.within {step : String} {x : Action Host α} {Q : α → HostState → Prop}
    (h : Achieves calm naming P x Q) : Achieves calm naming P (Action.within step x) Q :=
  Action.Triple.within h

/-- A loop keeps an invariant over the items that it is done with. -/
theorem Achieves.forM {l : List β} {f : β → Action Host Unit} {I : List β → HostState → Prop}
    (h : ∀ done b rest, l = done ++ b :: rest →
      Achieves calm naming (I done) (f b) fun _ => I (done ++ [b])) :
    Achieves calm naming (I []) (l.forM f) fun _ => I l :=
  Action.Triple.forM (I := fun done => Holds calm naming (I done)) h

/-- A check that may fail achieves what its answer is good for; on a calm host it must not fail. -/
theorem Achieves.ofExcept {r : Except Error α} {Q : α → HostState → Prop}
    (hok : ∀ a, r = .ok a → ∀ s, P s → Q a s) (hcalm : calm = true → ∃ a, r = .ok a) :
    Achieves calm naming P (Action.ofExcept r) Q := by
  refine Action.Triple.ofExcept (fun a ha _ hh => hh.imp (hok a ha)) fun e he _ _ => ?_
  -- A calm host would have given an answer.
  by_contra hc
  obtain ⟨a, ha⟩ := hcalm (by simpa using hc)
  rw [ha] at he
  cases he

/-- A call takes its effect. -/
theorem Achieves.perform {c : Call} {Q : Unit → HostState → Prop}
    (hok : ∀ s t, P s → c.effect naming s = .ok t → Q () t)
    (hcalm : calm = true → ∀ s, P s → ∃ t, c.effect naming s = .ok t) :
    Achieves calm naming P (perform c) Q := by
  intro h hh
  rcases perform_cases c h with ⟨s, armed, heffect, hrun⟩ | ⟨e, armed, -, hrun⟩
  · have hquiet (hc : calm = true) := (hh.quiet hc).of_perform hrun
    rw [hrun]
    exact ⟨hquiet, hh.naming_eq, hok h.state s hh.state (hh.naming_eq ▸ heffect)⟩
  · rw [hrun]
    dsimp only
    by_contra hc
    have hc : calm = true := by simpa using hc
    -- A quiet host lets the call take its effect, so it cannot have failed.
    obtain ⟨s, hs⟩ := hcalm hc h.state hh.state
    rw [perform_of_quiet (hh.quiet hc) (hh.naming_eq ▸ hs)] at hrun
    cases hrun

/-- A reading changes neither links nor rules. -/
theorem Achieves.meet {op : HostOp} : Achieves calm naming P (meet op) fun _ => P := by
  intro h hh
  rcases meet_cases op h with ⟨armed, hrun⟩ | ⟨armed, hrun⟩
  · have hquiet (hc : calm = true) := (hh.quiet hc).of_meet hrun
    rw [hrun]
    exact ⟨hquiet, hh.naming_eq, hh.state⟩
  · rw [hrun]
    dsimp only
    by_contra hc
    have hc : calm = true := by simpa using hc
    rw [meet_of_quiet (hh.quiet hc)] at hrun
    cases hrun

/-- What is computed from the state alone. -/
theorem Achieves.getState {f : HostState → α} {Q : α → HostState → Prop}
    (h : ∀ s, P s → Q (f s) s) :
    Achieves calm naming P (do return f (← EStateM.get).state) Q :=
  fun g hh => ⟨hh.quiet, hh.naming_eq, h g.state hh.state⟩

theorem Achieves.list {Q : List Link → HostState → Prop} (h : ∀ s, P s → Q s.listing s) :
    Achieves calm naming P list Q :=
  Achieves.bind Achieves.meet fun _ => Achieves.getState h

theorem Achieves.tableRules {t : Table} {Q : List Rule → HostState → Prop}
    (h : ∀ s, P s → Q (s.rules.get t) s) : Achieves calm naming P (tableRules t) Q :=
  Achieves.bind Achieves.meet fun _ => Achieves.getState h

/-- A lookup answers the link of the name, which must be there on a calm host. -/
theorem Achieves.get {name : String} {Q : Link → HostState → Prop}
    (hok : ∀ s l, P s → s.find? name = some l → Q l s)
    (hcalm : calm = true → ∀ s, P s → (s.find? name).isSome) :
    Achieves calm naming P (get name) Q := by
  refine Achieves.bind Achieves.meet fun _ => Action.Triple.of_each fun h hh => ?_
  refine Action.Triple.bind (Q := fun g t => g = h ∧ t = h) ?_ fun g => ?_
  · rintro t rfl
    exact ⟨rfl, rfl⟩
  refine Action.Triple.ofExcept ?_ ?_
  · rintro l hl t ⟨rfl, rfl⟩
    exact ⟨hh.quiet, hh.naming_eq, hok _ l hh.state (HostState.link_eq_ok_iff.mp hl)⟩
  · rintro e he t ⟨rfl, rfl⟩
    by_contra hc
    obtain ⟨l, hl⟩ := Option.isSome_iff_exists.mp (hcalm (by simpa using hc) _ hh.state)
    rw [HostState.link_eq_ok_iff.mpr hl] at he
    cases he

/-- A bridge is created under its managed name, if that is legal and free. -/
theorem Achieves.createBridge {name : String} {Q : String → HostState → Prop}
    (hok : ∀ s, P s → s.find? (naming.bridgeName name) = none →
      Q (naming.bridgeName name) (s.insert (.bare 0 (naming.bridgeName name) .bridge)))
    (hcalm : calm = true → ∀ s, P s →
      LinkName.defect? (naming.bridgeName name) = none ∧
        s.find? (naming.bridgeName name) = none) :
    Achieves calm naming P (Host.createBridge name) Q := by
  intro h hh
  have hrun : Host.createBridge name h =
      (Host.perform (.createBridge name) >>= fun _ => Pure.pure (naming.bridgeName name)) h := by
    rw [← hh.naming_eq]
    rfl
  rw [hrun]
  refine Achieves.bind (Q := fun _ => Q (naming.bridgeName name)) (Achieves.perform ?_ ?_)
    (fun _ => Achieves.pure fun _ hs => hs) h hh
  · intro s t hs ht
    obtain ⟨-, hfree, rfl⟩ := Call.effect_createBridge.mp ht
    exact hok s hs hfree
  · intro hc s hs
    obtain ⟨hlegal, hfree⟩ := hcalm hc s hs
    exact ⟨_, Call.effect_createBridge.mpr ⟨hlegal, hfree, rfl⟩⟩

/-- A VLAN is created on a link that is there, if its name is legal and free. -/
theorem Achieves.createVlan {parent : String} {id : VlanId} {Q : String → HostState → Prop}
    (hok : ∀ s, P s → s.find? (vlanName parent id) = none →
      Q (vlanName parent id) (s.insert { Link.bare 0 (vlanName parent id) .vlan with
        parent := some parent, vlanId := some id.val }))
    (hcalm : calm = true → ∀ s, P s → (s.find? parent).isSome ∧
      LinkName.defect? (vlanName parent id) = none ∧ s.find? (vlanName parent id) = none) :
    Achieves calm naming P (Host.createVlan parent id) Q := by
  refine Achieves.bind (Q := fun _ => Q (vlanName parent id)) (Achieves.perform ?_ ?_)
    fun _ => Achieves.pure fun _ hs => hs
  · intro s t hs ht
    obtain ⟨-, -, hfree, rfl⟩ := Call.effect_createVlan.mp ht
    exact hok s hs hfree
  · intro hc s hs
    obtain ⟨hparent, hlegal, hfree⟩ := hcalm hc s hs
    exact ⟨_, Call.effect_createVlan.mpr ⟨hparent, hlegal, hfree, rfl⟩⟩

end Achieves

end Host

end HostNet
