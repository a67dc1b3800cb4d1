/-
Primitives are atomic, and an armed failure is met when it should be.

A primitive notes its call, meets the failure that is armed for it, and then comes to what links and
rules alone decide (`Primitive.effect`).  This one equation for all primitives
(`Primitive.outcome_run`) tells what a failure leaves behind and what the journal holds.  A failure
that lets `skip` calls of its primitive through is counted down by those calls and by nothing else
(`Host.armed_after`), so the call after them fails, and no other call can tell that the failure is
there.
-/

import HostNet.Proofs.InjectedFailures

namespace HostNet

open HostNet.Action

/-! ## Primitives -/

/-- A primitive of a host with its arguments: a call that changes the host, or a reading. -/
inductive Primitive where
  | change (c : Call)
  | list
  | get (name : String)
  | find (name : String)
  | tableRules (t : Table)
  | chainRules (t : Table) (chain : String)

namespace Primitive

/-- What primitives answer with. -/
inductive Answer where
  | done
  | created (name : String)
  | links (ls : List Link)
  | link (l : Link)
  | found (l : Option Link)
  | rules (rs : List Rule)
  deriving DecidableEq

/-- A call of a primitive. -/
def run : Primitive → Action Host Answer
  | change (.createVlan parent id) => do return .created (← Host.createVlan parent id)
  | change (.createBridge name) => do return .created (← Host.createBridge name)
  | change c => do
    Host.perform c
    return .done
  | list => do return .links (← Host.list)
  | get name => do return .link (← Host.get name)
  | find name => do return .found (← Host.find name)
  | tableRules t => do return .rules (← Host.tableRules t)
  | chainRules t chain => do return .rules (← Host.chainRules t chain)

/-- The primitive as failures are armed for it. -/
def op : Primitive → HostOp
  | change c => c.op
  | list | get _ | find _ => .readLinks
  | tableRules _ | chainRules .. => .readRules

/-- What a call of the primitive adds to the journal. -/
def journaled : Primitive → List Call
  | change c => [c]
  | _ => []

/-- The step of a run that calls the primitive.  To the host a search is the same as a lookup. -/
def step : Primitive → HostStep
  | change c => .call c
  | list => .list
  | get name | find name => .get name
  | tableRules t => .tableRules t
  | chainRules t chain => .chainRules t chain

/-- The answer of a call that succeeds. -/
def answer (naming : Naming) (c : Call) : Answer := (c.created? naming).elim .done .created

/-- What a primitive comes to where nothing is armed for it: its answer, and the links and rules
from then on. -/
def effect (naming : Naming) (s : HostState) : Primitive → Except Error (Answer × HostState)
  | change c => (c.effect naming s).map fun t => (answer naming c, t)
  | list => .ok (.links s.listing, s)
  | get name => (s.link name).map fun l => (.link l, s)
  | find name => .ok (.found (s.find? name), s)
  | tableRules t => .ok (.rules (s.rules.get t), s)
  | chainRules t chain => .ok (.rules ((s.rules.get t).filter fun r => r.chain == chain), s)

end Primitive

/-! ## Meeting a failure -/

namespace Host

/-- Whether the next call of a primitive meets its failure. -/
def failsNext (h : Host) (op : HostOp) : Bool :=
  match h.armed op with
  | some .always | some (.once 0) => true
  | _ => false

/-- The host after a call of a primitive has met or passed its failure. -/
def met (h : Host) (op : HostOp) : Host :=
  { h with armed := fun o => if o = op then (h.armed op).bind Injection.met else h.armed o }

/-- A primitive fails if the failure that is armed for it is due, and counts it down otherwise. -/
theorem outcome_meet (op : HostOp) (h : Host) :
    (meet op).outcome h = (if h.failsNext op then .error (injected op) else .ok (), h.met op) := by
  refine Prod.ext ?_ ?_
  · unfold outcome meet failsNext
    rcases h.armed op with - | - | - | skip <;> rfl
  · have harmed := armed_meet op h
    unfold outcome at harmed ⊢
    rcases meet_cases op h with ⟨armed, hrun⟩ | ⟨armed, hrun⟩
    · rw [hrun] at harmed ⊢
      exact congrArg (fun a => { h with armed := a }) harmed
    · rw [hrun] at harmed ⊢
      exact congrArg (fun a => { h with armed := a }) harmed

/-- A call is noted, then meets what is armed for it, and then takes its effect. -/
theorem outcome_perform (c : Call) (h : Host) :
    (perform c).outcome h =
      let g := { h.met c.op with journal := h.journal ++ [c] }
      if h.failsNext c.op then (.error (injected c.op), g)
      else match c.effect h.naming h.state with
        | .ok s => (.ok (), { g with state := s })
        | .error e => (.error e, g) := by
  have hfails : failsNext { h with journal := h.journal ++ [c] } c.op = h.failsNext c.op := rfl
  unfold perform
  rw [outcome_bind, outcome_modify]
  dsimp only
  rw [outcome_bind, outcome_meet, hfails]
  cases h.failsNext c.op with
  | true => rfl
  | false =>
    show (Action.ofExcept (c.effect h.naming h.state) >>= _ : Action Host Unit).outcome _ = _
    rw [outcome_bind, outcome_ofExcept]
    cases c.effect h.naming h.state <;> rfl

/-! ## Readings -/

/-- An action that meets the failure of a primitive and then answers from links and rules. -/
def Consults {α : Type} (op : HostOp) (f : HostState → Except Error α) (x : Action Host α) : Prop :=
  ∀ h, x.outcome h = (if h.failsNext op then .error (injected op) else f h.state, h.met op)

section Consults

variable {α β : Type} {op : HostOp}

/-- What is computed from the answer. -/
theorem Consults.map {f : HostState → Except Error α} {x : Action Host α} (hx : Consults op f x)
    (k : α → β) : Consults op (fun s => (f s).map k) (do return k (← x)) := by
  intro h
  rw [outcome_bind, hx h]
  cases h.failsNext op with
  | true => rfl
  | false =>
    simp only [Bool.false_eq_true, if_false]
    cases f h.state <;> rfl

/-- A listing tells the links of the host and changes nothing but what is armed. -/
theorem consults_list : Consults .readLinks (fun s => .ok s.listing) list := by
  intro h
  unfold list
  rw [outcome_bind, outcome_meet]
  cases h.failsNext .readLinks <;> rfl

theorem consults_get (name : String) : Consults .readLinks (fun s => s.link name) (get name) := by
  intro h
  unfold get
  rw [outcome_bind, outcome_meet]
  cases h.failsNext .readLinks with
  | true => rfl
  | false => exact outcome_ofExcept _ _

/-- That a link is absent is told as an answer, and an armed failure as an error. -/
theorem consults_find (name : String) :
    Consults .readLinks (fun s => .ok (s.find? name)) (find name) := by
  intro h
  unfold find
  rw [outcome_ifFound, consults_get name h]
  cases h.failsNext .readLinks with
  | true => rfl
  | false =>
    simp only [Bool.false_eq_true, if_false, HostState.link]
    cases h.state.find? name <;> rfl

theorem consults_tableRules (t : Table) :
    Consults .readRules (fun s => .ok (s.rules.get t)) (tableRules t) := by
  intro h
  unfold tableRules
  rw [outcome_bind, outcome_meet]
  cases h.failsNext .readRules <;> rfl

theorem consults_chainRules (t : Table) (chain : String) :
    Consults .readRules (fun s => .ok ((s.rules.get t).filter fun r => r.chain == chain))
      (chainRules t chain) :=
  (consults_tableRules t).map fun rules => rules.filter fun r : Rule => r.chain == chain

end Consults

end Host

namespace Primitive

/-- A change that succeeds answers with the name of the link that it has created, if it has. -/
theorem outcome_run_change (c : Call) (h : Host) :
    (change c).run.outcome h =
      (do
        Host.perform c
        return answer h.naming c : Action Host Answer).outcome h := by
  cases c with
  | createVlan parent id =>
    simp only [run, Host.createVlan, bind_assoc, pure_bind]
    rfl
  | createBridge name =>
    simp only [run, Host.createBridge, bind_assoc, pure_bind]
    rfl
  | _ => rfl

/-- What a call of a primitive comes to: it is noted, meets the failure that is armed for it, and
otherwise takes its effect. -/
def result (p : Primitive) (h : Host) : Except Error Answer × Host :=
  let g := { h.met p.op with journal := h.journal ++ p.journaled }
  if h.failsNext p.op then (.error (Host.injected p.op), g)
  else match p.effect h.naming h.state with
    | .ok (a, s) => (.ok a, { g with state := s })
    | .error e => (.error e, g)

/-- A reading comes to what it answers from links and rules. -/
theorem outcome_run_reading {α : Type} {p : Primitive} {f : HostState → Except Error α}
    {x : Action Host α} {k : α → Answer} {h : Host} (hx : Host.Consults p.op f x)
    (hrun : p.run = do return k (← x)) (hjournal : p.journaled = [])
    (heffect : p.effect h.naming h.state = (f h.state).map fun a => (k a, h.state)) :
    p.run.outcome h = p.result h := by
  rw [hrun, hx.map k h, result, heffect, hjournal, List.append_nil]
  cases h.failsNext p.op with
  | true => rfl
  | false =>
    simp only [Bool.false_eq_true, if_false]
    cases f h.state <;> rfl

/-- Every primitive comes to what its result says. -/
theorem outcome_run (p : Primitive) (h : Host) : p.run.outcome h = p.result h := by
  cases p with
  | change c =>
    rw [outcome_run_change, outcome_bind, Host.outcome_perform]
    simp only [result, op, journaled, effect]
    by_cases hfails : h.failsNext c.op = true
    · simp only [hfails, if_true]
    · simp only [hfails]
      cases c.effect h.naming h.state <;> rfl
  | list => exact outcome_run_reading Host.consults_list rfl rfl rfl
  | get name => exact outcome_run_reading (Host.consults_get name) rfl rfl rfl
  | find name => exact outcome_run_reading (Host.consults_find name) rfl rfl rfl
  | tableRules t => exact outcome_run_reading (Host.consults_tableRules t) rfl rfl rfl
  | chainRules t chain => exact outcome_run_reading (Host.consults_chainRules t chain) rfl rfl rfl

theorem op?_step (p : Primitive) : p.step.op? = some p.op := by
  cases p <;> rfl

/-- What a primitive leaves of the host is what its step does. -/
theorem next_step (p : Primitive) (h : Host) : p.step.next h = (p.run.outcome h).2 := by
  -- Only the answer is computed after the primitive.
  have hanswer {α : Type} (x : Action Host α) (k : α → Answer) :
      (x.outcome h).2 = ((do return k (← x) : Action Host Answer).outcome h).2 := by
    rw [outcome_bind]
    rcases x.outcome h with ⟨e | a, g⟩ <;> rfl
  cases p with
  | change c =>
    rw [outcome_run_change]
    exact hanswer (Host.perform c) fun _ => answer h.naming c
  | list => exact hanswer Host.list .links
  | get name => exact hanswer (Host.get name) .link
  | find name =>
    have hfind : ((Host.find name).outcome h).2 = ((Host.get name).outcome h).2 := by
      rw [Host.find, outcome_ifFound]
    exact hfind.symm.trans (hanswer (Host.find name) .found)
  | tableRules t => exact hanswer (Host.tableRules t) .rules
  | chainRules t chain => exact hanswer (Host.chainRules t chain) .rules

end Primitive

/-! ## Errors of its own -/

/-- The error of an armed failure names a primitive, and no error of a primitive itself does. -/
theorem Host.injected_ne_ioFailure (op : HostOp) (message : String) :
    injected op ≠ .ioFailure "set link master" message := by
  cases op <;> simp [injected, HostOp.name]

/-- Neither of two actions that follow each other has an error of this kind. -/
theorem bind_ne_error {α β : Type} {x : Except Error α} {f : α → Except Error β} {e : Error}
    (hx : x ≠ .error e) (hf : ∀ a, f a ≠ .error e) : (x >>= f) ≠ .error e := by
  cases x with
  | ok a => exact hf a
  | error e' => exact fun h => hx (congrArg Except.error (Except.error.inj h))

theorem pure_ne_error {α : Type} (a : α) (e : Error) : (pure a : Except Error α) ≠ .error e := nofun

namespace HostState

variable (s : HostState) (op : HostOp)

theorem link_ne_injected (name : String) : s.link name ≠ .error (Host.injected op) := by
  unfold link
  cases s.find? name <;> simp [Host.injected]

theorem discard_link_ne_injected (name : String) :
    (discard (s.link name) : Except Error Unit) ≠ .error (Host.injected op) := by
  rw [Call.discard_link_eq]
  split <;> simp [Host.injected]

/-- A creation has errors of its own, and none of them is an injected one. -/
theorem create_ne_injected (name : String) (build : String → Link) :
    s.create name build ≠ .error (Host.injected op) := by
  unfold create LinkName.ofString
  refine bind_ne_error ?_ fun n => ?_
  · split
    · exact nofun
    · next d _ => cases d <;> simp [LinkName.Defect.error, Host.injected]
  · dsimp only
    split
    · exact nofun
    · exact nofun

theorem enslave_ne_injected (slave master : String) :
    s.enslave slave master ≠ .error (Host.injected op) := by
  unfold enslave
  refine bind_ne_error (s.link_ne_injected op master) fun b => ?_
  dsimp only
  split
  · exact fun h => Host.injected_ne_ioFailure op _ (Except.error.inj h).symm
  · split
    · exact fun h => Host.injected_ne_ioFailure op _ (Except.error.inj h).symm
    · exact bind_ne_error (s.discard_link_ne_injected op slave) fun _ => pure_ne_error _ _

end HostState

theorem Rule.check_ne_injected (r : Rule) (op : HostOp) : r.check ≠ .error (Host.injected op) := by
  have hword (field word : String) : checkWord field word ≠ .error (Host.injected op) := by
    unfold checkWord
    split
    · exact nofun
    · split <;> exact nofun
  exact bind_ne_error (hword "chain" r.chain) fun _ => hword "target" r.target

/-- The effect of a call never fails with an injected error, so such an error tells of an armed
failure. -/
theorem Call.effect_ne_injected (naming : Naming) (s : HostState) (c : Call) (op : HostOp) :
    c.effect naming s ≠ .error (Host.injected op) := by
  cases c with
  | createVlan parent id =>
    rw [effect]
    refine bind_ne_error (s.discard_link_ne_injected op parent) fun _ => ?_
    exact s.create_ne_injected op (vlanName parent id) _
  | createBridge name =>
    rw [effect]
    exact s.create_ne_injected op (naming.bridgeName name) _
  | setLinkMaster slave master => exact s.enslave_ne_injected op slave master
  | setLinkUp name | unsetLinkMaster name | deleteLink name =>
    exact bind_ne_error (s.discard_link_ne_injected op name) fun _ => pure_ne_error _ _
  | addAddress name net | deleteAddress name net =>
    refine bind_ne_error (s.link_ne_injected op name) fun l => ?_
    dsimp only
    split <;> rintro ⟨⟩
  | createRule t r => exact bind_ne_error (r.check_ne_injected op) fun _ => pure_ne_error _ _
  | deleteRule t r =>
    rw [effect]
    dsimp only
    split <;> rintro ⟨⟩

/-- What a primitive comes to of itself is never the error of an armed failure. -/
theorem Primitive.effect_ne_injected (naming : Naming) (s : HostState) (p : Primitive)
    (op : HostOp) : p.effect naming s ≠ .error (Host.injected op) := by
  have hmap {α β : Type} {x : Except Error α} (k : α → β) (hx : x ≠ .error (Host.injected op)) :
      x.map k ≠ .error (Host.injected op) := by
    cases x with
    | ok a => exact nofun
    | error e => exact fun h => hx (congrArg Except.error (Except.error.inj h))
  cases p with
  | change c => exact hmap _ (c.effect_ne_injected naming s op)
  | get name => exact hmap _ (s.link_ne_injected op name)
  | _ => exact nofun

/-! ## Runs under an armed failure -/

/-- The step neither arms another failure for the primitive nor disarms it. -/
def HostStep.Spares (op : HostOp) : HostStep → Prop
  | arm o _ => o ≠ op
  | disarm => False
  | _ => True

/-- How many of some steps meet the failure of a primitive. -/
def HostStep.callsOf (op : HostOp) (steps : List HostStep) : Nat :=
  steps.countP fun x => x.op? == some op

/-- Every step is a call of at most one primitive. -/
theorem HostStep.callsOf_cons (op : HostOp) (x : HostStep) (xs : List HostStep) :
    callsOf op (x :: xs) = callsOf op xs + if x.op? = some op then 1 else 0 := by
  simp [callsOf, List.countP_cons]

namespace Host

variable {op : HostOp}

/-- Calls of a primitive count its failure down, and no other step touches it. -/
theorem armed_next_of_spares {x : HostStep} (hx : x.Spares op) (h : Host) :
    (x.next h).armed op =
      if x.op? = some op then (h.armed op).bind Injection.met else h.armed op := by
  cases hop : x.op? with
  | some o =>
    rw [armed_next hop, armed_meet]
    by_cases ho : op = o
    · simp [ho]
    · have hne : o ≠ op := Ne.symm ho
      simp [ho, hne]
  | none =>
    rw [if_neg nofun]
    cases x with
    | arm o i => exact if_neg (Ne.symm hx)
    | disarm => exact hx.elim
    | forgetJournal => rfl
    | _ => cases hop

/-- A primitive that nothing is armed for stays so. -/
theorem armed_after_none {steps : List HostStep} (hsteps : ∀ x ∈ steps, x.Spares op) {h : Host}
    (harmed : h.armed op = none) : (h.after steps).armed op = none := by
  induction steps generalizing h with
  | nil => exact harmed
  | cons x xs ih =>
    obtain ⟨hx, hxs⟩ := List.forall_mem_cons.mp hsteps
    refine ih hxs ?_
    rw [armed_next_of_spares hx, harmed]
    exact ite_self none

/-- After as many calls as it lets through the failure is due, and after one more it is spent. -/
theorem armed_after {steps : List HostStep} (hsteps : ∀ x ∈ steps, x.Spares op) {h : Host}
    {skip : Nat} (harmed : h.armed op = some (.once skip)) :
    (h.after steps).armed op =
      if HostStep.callsOf op steps ≤ skip then some (.once (skip - HostStep.callsOf op steps))
      else none := by
  induction steps generalizing h skip with
  | nil => simpa [after, HostStep.callsOf] using harmed
  | cons x xs ih =>
    obtain ⟨hx, hxs⟩ := List.forall_mem_cons.mp hsteps
    have hnext := armed_next_of_spares hx h
    rw [harmed] at hnext
    show ((x.next h).after xs).armed op = _
    rw [HostStep.callsOf_cons]
    by_cases hop : x.op? = some op
    · rw [if_pos hop] at hnext ⊢
      cases skip with
      | zero =>
        rw [armed_after_none hxs hnext, if_neg (Nat.not_succ_le_zero _)]
      | succ skip =>
        rw [ih hxs hnext]
        simp only [Nat.add_le_add_iff_right, Nat.add_sub_add_right]
    · rw [if_neg hop] at hnext ⊢
      exact ih hxs hnext

/-- So the next call of the primitive fails if exactly as many calls came before it as the failure
lets through. -/
theorem failsNext_after_iff {steps : List HostStep} (hsteps : ∀ x ∈ steps, x.Spares op) {h : Host}
    {skip : Nat} (harmed : h.armed op = some (.once skip)) :
    (h.after steps).failsNext op = true ↔ HostStep.callsOf op steps = skip := by
  rw [failsNext, armed_after hsteps harmed]
  by_cases hle : HostStep.callsOf op steps ≤ skip
  · rw [if_pos hle]
    obtain ⟨left, rfl⟩ := Nat.exists_eq_add_of_le hle
    cases left <;> simp
  · rw [if_neg hle]
    exact iff_of_false nofun fun h => hle h.le

/-! ## Hosts with and without the failure -/

theorem failsNext_disarmed (h : Host) (op o : HostOp) :
    (h.arm op none).failsNext o = if o = op then false else h.failsNext o := by
  unfold failsNext arm
  by_cases ho : o = op <;> simp [ho]

/-- Disarming one primitive before or after another one is met is the same. -/
theorem met_disarmed (h : Host) (op o : HostOp) :
    (h.arm op none).met o = (h.met o).arm op none := by
  unfold met arm
  congr 1
  funext q
  by_cases hq : q = op
  · by_cases ho : o = op
    · simp [hq, ho]
    · simp [hq, Ne.symm ho]
  · by_cases ho : q = o
    · have hne : o ≠ op := ho ▸ hq
      simp [ho, hne]
    · simp [hq, ho]

end Host

namespace Primitive

/-- A call of a primitive, whatever is armed. -/
structure Atomic (p : Primitive) (h : Host) : Prop where
  /-- If it fails, the links, the next index and the rules stay as they are. -/
  unchanged : ∀ e, (p.run.outcome h).1 = .error e → (p.run.outcome h).2.state = h.state
  /-- It is noted once if it may change the host, also if it fails, and else not at all. -/
  journal : (p.run.outcome h).2.journal = h.journal ++ p.journaled
  /-- It is a step of a run, -/
  step : (p.run.outcome h).2 = p.step.next h
  /-- which counts as a call of this primitive. -/
  counts : p.step.op? = some p.op

/-- A call of a primitive comes to what it does without the failure that is armed for `op`. -/
structure Ignores (p : Primitive) (op : HostOp) (h : Host) : Prop where
  answer : (p.run.outcome h).1 = (p.run.outcome (h.arm op none)).1
  /-- All but this failure is the same afterwards. -/
  host : (p.run.outcome h).2.arm op none = (p.run.outcome (h.arm op none)).2

/-- A primitive takes its whole effect or none of it. -/
theorem atomic (p : Primitive) (h : Host) : p.Atomic h := by
  refine ⟨fun e he => ?_, ?_, (next_step p h).symm, op?_step p⟩
  · rw [outcome_run, result] at he ⊢
    by_cases hfails : h.failsNext p.op = true
    · rw [if_pos hfails]
      rfl
    · rw [if_neg hfails] at he ⊢
      cases heffect : p.effect h.naming h.state with
      | ok r =>
        rw [heffect] at he
        cases he
      | error e => rfl
  · rw [outcome_run, result]
    split
    · rfl
    · split <;> rfl

/-- A failure that is not due, or armed for another primitive, does not show in the outcome. -/
theorem ignores {p : Primitive} {op : HostOp} {h : Host}
    (hpass : p.op = op → h.failsNext op = false) : p.Ignores op h := by
  have hfails : (h.arm op none).failsNext p.op = h.failsNext p.op := by
    rw [Host.failsNext_disarmed]
    split
    · next hop => rw [hop, hpass hop]
    · rfl
  have hboth : ((p.run.outcome h).1, (p.run.outcome h).2.arm op none) =
      p.run.outcome (h.arm op none) := by
    rw [outcome_run, outcome_run, result, result, hfails, Host.met_disarmed]
    by_cases hfail : h.failsNext p.op = true
    · rw [if_pos hfail, if_pos hfail]
      rfl
    · rw [if_neg hfail, if_neg hfail]
      show _ = match p.effect h.naming h.state with | .ok (a, s) => _ | .error e => _
      cases p.effect h.naming h.state <;> rfl
  have hanswer := congrArg Prod.fst hboth
  have hhost := congrArg Prod.snd hboth
  exact ⟨hanswer, hhost⟩

/-- An injected error comes up exactly when the failure is due. -/
theorem error_injected_iff {p : Primitive} {h : Host} :
    (p.run.outcome h).1 = .error (Host.injected p.op) ↔ h.failsNext p.op = true := by
  rw [outcome_run, result]
  by_cases hfail : h.failsNext p.op = true
  · rw [if_pos hfail]
    exact iff_of_true rfl hfail
  · rw [if_neg hfail]
    refine iff_of_false (fun h' => ?_) hfail
    cases heffect : p.effect h.naming h.state with
    | ok r =>
      rw [heffect] at h'
      cases h'
    | error e =>
      rw [heffect] at h'
      have he : e = Host.injected p.op := Except.error.inj h'
      exact p.effect_ne_injected _ _ p.op (heffect.trans (congrArg Except.error he))

/-- The calls of a run are noted in their order. -/
theorem journal_after_calls (h : Host) (ps : List Primitive) :
    (h.after (ps.map step)).journal = h.journal ++ ps.flatMap journaled := by
  induction ps generalizing h with
  | nil => exact (List.append_nil _).symm
  | cons p ps ih =>
    show ((p.step.next h).after (ps.map step)).journal = _
    rw [ih, next_step, (p.atomic h).journal, List.flatMap_cons, List.append_assoc]

/-- A call that fails leaves links and rules as they are, and every call that may change them is
noted once.  After a failure was armed that lets `skip` calls through, the call of its primitive
that comes after exactly so many of them fails with its error, and it alone: every other call of
this primitive, and every call of another one, comes to what it does on the same host without that
failure. -/
theorem atomic_and_exact (p : Primitive) :
    (∀ h : Host, p.Atomic h) ∧
    (∀ (h : Host) (ps : List Primitive),
      (h.after (ps.map step)).journal = h.journal ++ ps.flatMap journaled) ∧
    ∀ (h : Host) (op : HostOp) (skip : Nat) (steps : List HostStep),
      (∀ x ∈ steps, x.Spares op) →
      let g := (h.arm op (some (.once skip))).after steps
      (p.op = op →
        ((p.run.outcome g).1 = .error (Host.injected op) ↔ HostStep.callsOf op steps = skip)) ∧
      ((p.op = op → HostStep.callsOf op steps ≠ skip) → p.Ignores op g) := by
  refine ⟨p.atomic, journal_after_calls, fun h op skip steps hsteps => ?_⟩
  have harmed : (h.arm op (some (.once skip))).armed op = some (.once skip) := if_pos rfl
  have hdue := Host.failsNext_after_iff hsteps harmed
  refine ⟨?_, fun hother => ignores fun hop => ?_⟩
  · rintro rfl
    exact error_injected_iff.trans hdue
  · rw [← Bool.not_eq_true, hdue]
    exact hother hop

/-- The second time that the link is set up fails, and a listing between does not count. -/
theorem atomic_and_exact_secondCall :
    ((change (.setLinkUp "lo")).run.outcome
      (((Host.fresh .standard).arm .setLinkUp (some (.once 1))).after
        [.call (.setLinkUp "lo"), .list])).1 = .error (Host.injected .setLinkUp) ∧
    list.Ignores .setLinkUp (((Host.fresh .standard).arm .setLinkUp (some (.once 1))).after
        [.call (.setLinkUp "lo")]) := by
  constructor
  · exact ((atomic_and_exact (change (.setLinkUp "lo"))).2.2 _ .setLinkUp 1
      [.call (.setLinkUp "lo"), .list] (by simp [HostStep.Spares])).1 rfl |>.mpr rfl
  · exact ((atomic_and_exact list).2.2 _ .setLinkUp 1 [.call (.setLinkUp "lo")]
      (by simp [HostStep.Spares])).2 nofun

end Primitive

end HostNet
