/-
What the journal of a host tells.

Readings change nothing of a host but the failures armed for them, and no call meets those.  So the
calls in the journal can be replayed on the host as it was before: each comes to what it came to
then.  In this way the journal tells which of its calls succeeded.
-/

import HostNet.Proofs.Primitives

namespace HostNet

/-- Whether a primitive is a reading. -/
def HostOp.isReading : HostOp → Bool
  | readLinks | readRules => true
  | _ => false

/-- The failures that calls meet are not those that readings meet. -/
theorem Call.isReading_op (c : Call) : c.op.isReading = false := by cases c <;> rfl

namespace Host

/-! ## Hosts that differ in what readings meet -/

/-- The hosts differ at most in the failures that are armed for readings. -/
structure Alike (g h : Host) : Prop where
  naming : g.naming = h.naming
  state : g.state = h.state
  journal : g.journal = h.journal
  armed : ∀ op, op.isReading = false → g.armed op = h.armed op

theorem Alike.refl (h : Host) : h.Alike h := ⟨rfl, rfl, rfl, fun _ _ => rfl⟩

/-- On hosts that are alike a call meets the same failure, and they stay alike. -/
theorem Alike.meet {g h : Host} (hgh : g.Alike h) {op : HostOp} (hop : op.isReading = false) :
    ∃ g' h', g'.Alike h' ∧
      (meet op g = .ok () g' ∧ meet op h = .ok () h' ∨
        meet op g = .error (injected op) g' ∧ meet op h = .error (injected op) h') := by
  -- What the failure becomes is the same on both hosts.
  have harm (i : Option Injection) : (g.arm op i).Alike (h.arm op i) := by
    refine ⟨hgh.naming, hgh.state, hgh.journal, fun o ho => ?_⟩
    simp only [arm, hgh.armed o ho]
  have hsame := hgh.armed op hop
  unfold Host.meet
  rw [hsame]
  cases h.armed op with
  | none => exact ⟨g, h, hgh, .inl ⟨rfl, rfl⟩⟩
  | some i =>
    cases i with
    | always => exact ⟨g, h, hgh, .inr ⟨rfl, rfl⟩⟩
    | once skip =>
      cases skip with
      | zero => exact ⟨_, _, harm none, .inr ⟨rfl, rfl⟩⟩
      | succ skip => exact ⟨_, _, harm (some (.once skip)), .inl ⟨rfl, rfl⟩⟩

/-- A call comes to the same on hosts that are alike. -/
theorem Alike.perform {g h : Host} (hgh : g.Alike h) (c : Call) :
    ((perform c).outcome g).1 = ((perform c).outcome h).1 ∧
      ((perform c).outcome g).2.Alike ((perform c).outcome h).2 := by
  -- Both hosts note the call, then meet the same failure, and the effect sees the same state.
  have hnoted :
      Alike { g with journal := g.journal ++ [c] } { h with journal := h.journal ++ [c] } :=
    ⟨hgh.naming, hgh.state, congrArg (· ++ [c]) hgh.journal, hgh.armed⟩
  unfold Action.outcome
  rw [perform_eq, perform_eq]
  obtain ⟨g', h', halike, ⟨hg, hh⟩ | ⟨hg, hh⟩⟩ := hnoted.meet c.isReading_op
  · rw [hg, hh]
    dsimp only
    rw [halike.naming, halike.state]
    cases c.effect h'.naming h'.state with
    | ok s => exact ⟨rfl, rfl, rfl, halike.journal, halike.armed⟩
    | error e => exact ⟨rfl, halike⟩
  · rw [hg, hh]
    exact ⟨rfl, halike⟩

/-! ## Readings -/

/-- An action that reads a host only. -/
def Reads {α : Type} (x : Action Host α) : Prop :=
  ∀ g, Action.Triple (fun h => h.Alike g) x (fun _ h => h.Alike g) fun _ h => h.Alike g

section Reads

variable {α β : Type}

theorem Reads.pure (a : α) : Reads (pure a : Action Host α) :=
  fun _ => Action.Triple.pure fun _ hh => hh

theorem Reads.ofExcept (r : Except Error α) : Reads (Action.ofExcept r) :=
  fun _ => Action.Triple.ofExcept (fun _ _ _ hh => hh) fun _ _ _ hh => hh

/-- Readings may go by the answers of those before them. -/
theorem Reads.bind {x : Action Host α} {f : α → Action Host β} (hx : Reads x)
    (hf : ∀ a, Reads (f a)) : Reads (x >>= f) :=
  fun g => Action.Triple.bind (hx g) fun a => hf a g

theorem Reads.within {step : String} {x : Action Host α} (hx : Reads x) :
    Reads (Action.within step x) :=
  fun g => Action.Triple.within (hx g)

theorem Reads.getState : Reads (EStateM.get : Action Host Host) :=
  fun _ => Action.Triple.get fun _ hh => hh

/-- A reading uses up at most the failure that is armed for it. -/
theorem reads_meet {op : HostOp} (hop : op.isReading = true) : Reads (meet op) := by
  intro g h hh
  -- Only the failure armed for this reading changes, and calls do not meet it.
  have hne {o : HostOp} (ho : o.isReading = false) : o ≠ op := by
    rintro rfl
    rw [hop] at ho
    cases ho
  have harm (i : Option Injection) : (h.arm op i).Alike g :=
    ⟨hh.naming, hh.state, hh.journal, fun o ho => (if_neg (hne ho)).trans (hh.armed o ho)⟩
  unfold meet
  cases h.armed op with
  | none => exact hh
  | some i =>
    cases i with
    | always => exact hh
    | once skip =>
      cases skip with
      | zero => exact harm none
      | succ skip => exact harm (some (.once skip))

theorem reads_list : Reads list :=
  (reads_meet rfl).bind fun _ => Reads.getState.bind fun _ => Reads.pure _

theorem reads_get (name : String) : Reads (get name) :=
  (reads_meet rfl).bind fun _ => Reads.getState.bind fun _ => Reads.ofExcept _

/-- A lookup that finds no link has still only read. -/
theorem reads_find (name : String) : Reads (find name) := by
  intro g
  refine Action.Triple.ifFound ((reads_get name g).weaken (fun _ hh => hh) (fun _ _ hh => hh) ?_)
  intro e h hh
  split <;> exact hh

theorem reads_tableRules (t : Table) : Reads (tableRules t) :=
  (reads_meet rfl).bind fun _ => Reads.getState.bind fun _ => Reads.pure _

theorem reads_chainRules (t : Table) (chain : String) : Reads (chainRules t chain) :=
  (reads_tableRules t).bind fun _ => Reads.pure _

end Reads

/-! ## Replaying calls -/

/-- The host after one call, whatever that came to. -/
def afterCall (h : Host) (c : Call) : Host := ((perform c).outcome h).2

/-- The host after some calls, each of them made whatever became of those before it. -/
def replay (h : Host) (cs : List Call) : Host := cs.foldl afterCall h

/-- Whether a call would succeed. -/
def succeeds (h : Host) (c : Call) : Bool := ((perform c).outcome h).1.isOk

/-- Whether one of some calls would succeed in its turn. -/
def anySucceeds (h : Host) : List Call → Bool
  | [] => false
  | c :: cs => h.succeeds c || (h.afterCall c).anySucceeds cs

/-- The last of some calls runs on the host that the others leave. -/
theorem replay_snoc (h : Host) (cs : List Call) (c : Call) :
    h.replay (cs ++ [c]) = (h.replay cs).afterCall c := by
  rw [replay, List.foldl_append]
  rfl

/-- Whether the last of some calls succeeds is decided on the host that the others leave. -/
theorem anySucceeds_snoc (h : Host) (cs : List Call) (c : Call) :
    h.anySucceeds (cs ++ [c]) = (h.anySucceeds cs || (h.replay cs).succeeds c) := by
  induction cs generalizing h with
  | nil => simp [anySucceeds, replay]
  | cons d cs ih =>
    -- The later calls run on the host that the first one leaves.
    rw [List.cons_append, anySucceeds, anySucceeds, ih, Bool.or_assoc]
    rfl

/-- A call that succeeds has taken its effect. -/
theorem effect_of_succeeds {h : Host} {c : Call} (hc : h.succeeds c = true) :
    c.effect h.naming h.state = .ok (h.afterCall c).state := by
  unfold succeeds Action.outcome at hc
  unfold afterCall Action.outcome
  rcases perform_cases c h with ⟨s, armed, heffect, hrun⟩ | ⟨e, armed, -, hrun⟩
  · rw [hrun]
    exact heffect
  · rw [hrun] at hc
    cases hc

/-- A call that fails is noted in the journal, and leaves links and rules as they were. -/
theorem state_afterCall_of_not_succeeds {h : Host} {c : Call} (hc : h.succeeds c = false) :
    (h.afterCall c).state = h.state := by
  unfold succeeds Action.outcome at hc
  unfold afterCall Action.outcome
  rcases perform_cases c h with ⟨s, armed, -, hrun⟩ | ⟨e, armed, -, hrun⟩
  · rw [hrun] at hc
    cases hc
  · rw [hrun]

/-- A call is noted in the journal also if it fails. -/
theorem journal_afterCall (h : Host) (c : Call) :
    (h.afterCall c).journal = h.journal ++ [c] := by
  unfold afterCall Action.outcome
  rcases perform_cases c h with ⟨s, armed, -, hrun⟩ | ⟨e, armed, -, hrun⟩
  · rw [hrun]
  · rw [hrun]

theorem naming_afterCall (h : Host) (c : Call) : (h.afterCall c).naming = h.naming := by
  unfold afterCall Action.outcome
  rcases perform_cases c h with ⟨s, armed, -, hrun⟩ | ⟨e, armed, -, hrun⟩
  · rw [hrun]
  · rw [hrun]

/-- A replay adds the replayed calls to the journal, in their order. -/
theorem journal_replay (h : Host) (cs : List Call) : (h.replay cs).journal = h.journal ++ cs := by
  induction cs generalizing h with
  | nil => exact (List.append_nil _).symm
  | cons c cs ih =>
    refine (ih (h.afterCall c)).trans ?_
    rw [journal_afterCall, List.append_assoc, List.singleton_append]

/-- No call changes which names are managed. -/
theorem naming_replay (h : Host) (cs : List Call) : (h.replay cs).naming = h.naming := by
  induction cs generalizing h with
  | nil => rfl
  | cons c cs ih => exact (ih (h.afterCall c)).trans (naming_afterCall h c)

/-- Calls that all fail leave links and rules as they were. -/
theorem state_replay_of_not_anySucceeds {h : Host} {cs : List Call}
    (hcs : h.anySucceeds cs = false) : (h.replay cs).state = h.state := by
  induction cs generalizing h with
  | nil => rfl
  | cons c cs ih =>
    rw [anySucceeds, Bool.or_eq_false_iff] at hcs
    -- The first call fails, so the others start from the same links and rules.
    exact (ih hcs.2).trans (state_afterCall_of_not_succeeds hcs.1)

end Host

end HostNet
