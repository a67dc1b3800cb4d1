/-
The list of injected failures.

A host knows for each primitive the failure that is armed for it (`Host.armed`).  The same failures
are kept here as a list of records with counts: an injection is appended in place of the records of
its primitive, the first record of a primitive is counted down as it is met, and a record whose
count has come to zero is dropped.  After every run the list has for each primitive the armed
failure and nothing else (`Failure.lists_after`), so no primitive is listed twice and no count is
zero.
-/

import HostNet.Proofs.HostRuns

namespace HostNet

open HostNet.Action

/-- What is left of a failure that a call has met. -/
def Injection.met : Injection → Option Injection
  | always => some always
  | once 0 => none
  | once (skip + 1) => some (once skip)

/-- Only the failure of the primitive is met. -/
theorem Host.armed_meet (op : HostOp) (h : Host) :
    ((meet op).outcome h).2.armed = fun o =>
      if o = op then (h.armed op).bind Injection.met else h.armed o := by
  funext o
  unfold outcome meet
  rcases harmed : h.armed op with - | - | - | skip
  · by_cases ho : o = op
    · simp [ho, harmed]
    · simp [ho]
  · by_cases ho : o = op
    · simp [ho, harmed, Injection.met]
    · simp [ho]
  · rfl
  · rfl

/-- An injected failure with its counts. -/
structure Failure where
  op : HostOp
  /-- The calls that it lets through first. -/
  skip : Nat
  /-- How often it is met after those; without a number, every time. -/
  remaining : Option Nat
  deriving DecidableEq, Repr

namespace Failure

/-- The record of an armed failure. -/
def ofInjection (op : HostOp) : Injection → Failure
  | .always => ⟨op, 0, none⟩
  | .once skip => ⟨op, skip, some 1⟩

/-- A call less is let through. -/
def letThrough (f : Failure) : Failure := { f with skip := f.skip - 1 }

/-- It has been met once more. -/
def countDown (f : Failure) : Failure := { f with remaining := f.remaining.map (· - 1) }

theorem op_letThrough (f : Failure) : f.letThrough.op = f.op := rfl

theorem op_countDown (f : Failure) : f.countDown.op = f.op := rfl

/-- Appends a failure, in place of those of its primitive. -/
def push (fs : List Failure) (f : Failure) : List Failure :=
  fs.filter (fun g => g.op != f.op) ++ [f]

/-- Changes the first failure of a primitive. -/
def onFirst (op : HostOp) (change : Failure → Failure) : List Failure → List Failure
  | [] => []
  | f :: fs => if f.op = op then change f :: fs else f :: onFirst op change fs

/-- Whether a call of a primitive meets a failure, and the failures from then on. -/
def check (op : HostOp) (fs : List Failure) : Bool × List Failure :=
  match fs.find? fun f => f.op == op with
  | none => (false, fs)
  | some f =>
    if 0 < f.skip then (false, onFirst op letThrough fs)
    else (true, (onFirst op countDown fs).filter fun f => f.remaining != some 0)

/-- The list has for each primitive what is armed for it. -/
def Lists (fs : List Failure) (armed : HostOp → Option Injection) : Prop :=
  ∀ op, fs.filter (fun f => f.op == op) = ((armed op).map (ofInjection op)).toList

/-! ## The changes of the list, primitive by primitive -/

theorem op_ofInjection (op : HostOp) (i : Injection) : (ofInjection op i).op = op := by
  cases i <;> rfl

theorem filter_push (fs : List Failure) (f : Failure) (op : HostOp) :
    (push fs f).filter (fun g => g.op == op) =
      if op = f.op then [f] else fs.filter fun g => g.op == op := by
  unfold push
  rw [List.filter_append, List.filter_filter, List.filter_singleton]
  by_cases hop : op = f.op
  · subst hop
    simp
  · have hne : (f.op == op) = false := by simpa using Ne.symm hop
    -- Among the failures of `op` none is of the other primitive.
    have hsame : ∀ g ∈ fs, (g.op == op && g.op != f.op) = (g.op == op) := by
      intro g _
      by_cases hg : g.op = op
      · simp [hg, hop]
      · simp [hg]
    rw [List.filter_congr hsame, hne, if_neg hop]
    simp

theorem filter_onFirst {change : Failure → Failure} (hchange : ∀ f, (change f).op = f.op)
    (op o : HostOp) (fs : List Failure) :
    (onFirst op change fs).filter (fun f => f.op == o) =
      if o = op then (fs.filter fun f => f.op == op).modifyHead change
      else fs.filter fun f => f.op == o := by
  induction fs with
  | nil => simp [onFirst]
  | cons f fs ih =>
    unfold onFirst
    by_cases hf : f.op = op
    · by_cases ho : o = op
      · simp [hf, ho, hchange]
      · have hne : op ≠ o := Ne.symm ho
        simp [hf, ho, hchange, hne]
    · rw [if_neg hf, List.filter_cons, ih]
      by_cases ho : o = op
      · subst ho
        simp [hf]
      · simp only [if_neg ho, List.filter_cons]

namespace Lists

variable {fs : List Failure} {armed : HostOp → Option Injection}

theorem nil : Lists [] fun _ => none := fun _ => rfl

/-- Who looks for the failure of a primitive finds the armed one. -/
theorem find? (h : Lists fs armed) (op : HostOp) :
    fs.find? (fun f => f.op == op) = (armed op).map (ofInjection op) := by
  rw [← List.head?_filter, h op]
  cases armed op <;> rfl

/-- No primitive is listed twice. -/
theorem countP_le (h : Lists fs armed) (op : HostOp) : fs.countP (fun f => f.op == op) ≤ 1 := by
  rw [List.countP_eq_length_filter, h op]
  cases armed op <;> simp

/-- A failure that is listed can still be met. -/
theorem remaining_ne_zero (h : Lists fs armed) {f : Failure} (hf : f ∈ fs) :
    f.remaining ≠ some 0 := by
  have hmem : f ∈ fs.filter fun g => g.op == f.op := List.mem_filter.mpr ⟨hf, by simp⟩
  rw [h f.op, Option.mem_toList] at hmem
  obtain ⟨i, -, hi⟩ := Option.map_eq_some_iff.mp hmem
  rw [← hi]
  cases i <;> simp [ofInjection]

/-- What is done to the failures of one primitive, and how those are armed from then on. -/
theorem replace (h : Lists fs armed) {gs : List Failure} {op : HostOp} {i : Option Injection}
    (hown : gs.filter (fun f => f.op == op) = (i.map (ofInjection op)).toList)
    (hother : ∀ o, o ≠ op →
      gs.filter (fun f => f.op == o) = fs.filter fun f => f.op == o) :
    Lists gs fun o => if o = op then i else armed o := by
  intro o
  dsimp only
  split
  · next ho => rw [ho, hown]
  · next ho => rw [hother o ho, h o]

theorem push (h : Lists fs armed) (op : HostOp) (i : Injection) :
    Lists (Failure.push fs (ofInjection op i)) fun o => if o = op then some i else armed o := by
  refine h.replace ?_ fun o ho => ?_
  · rw [filter_push, op_ofInjection, if_pos rfl]
    rfl
  · rw [filter_push, op_ofInjection, if_neg ho]

end Lists

/-! ## Meeting a failure -/

/-- A failure that is met is counted down, and the failures of other primitives stay. -/
theorem Lists.filter_check_of_ne {fs : List Failure} {armed : HostOp → Option Injection}
    (h : Lists fs armed) {op o : HostOp} (ho : o ≠ op) :
    (check op fs).2.filter (fun f => f.op == o) = fs.filter fun f => f.op == o := by
  unfold check
  split
  · rfl
  · split
    · rw [filter_onFirst op_letThrough, if_neg ho]
    · rw [List.filter_comm, filter_onFirst op_countDown, if_neg ho]
      -- No other count is zero, so no other failure is dropped.
      refine List.filter_eq_self.mpr fun f hf => ?_
      simpa using h.remaining_ne_zero (List.mem_of_mem_filter hf)

/-- The list and the host agree on whether a call meets a failure, and on what is armed after it. -/
theorem Lists.check {fs : List Failure} {h : Host} (hfs : Lists fs h.armed) (op : HostOp) :
    (Failure.check op fs).1 = !((Host.meet op).outcome h).1.isOk ∧
      Lists (Failure.check op fs).2 ((Host.meet op).outcome h).2.armed := by
  have hfind := hfs.find? op
  have hown := hfs op
  rw [Host.armed_meet]
  constructor
  · unfold Failure.check outcome Host.meet
    rw [hfind]
    rcases h.armed op with - | - | - | skip <;> rfl
  · -- The failures of other primitives stay in the list, so only those of this one are looked at.
    refine hfs.replace ?_ fun o ho => hfs.filter_check_of_ne ho
    unfold Failure.check
    rw [hfind]
    cases harmed : h.armed op with
    | none =>
      rw [harmed] at hown
      exact hown
    | some i =>
      rw [harmed] at hown
      cases i with
      | always =>
        show ((onFirst op countDown fs).filter _).filter _ = _
        rw [List.filter_comm, filter_onFirst op_countDown, if_pos rfl, hown]
        rfl
      | once skip =>
        cases skip with
        | zero =>
          show ((onFirst op countDown fs).filter _).filter _ = _
          rw [List.filter_comm, filter_onFirst op_countDown, if_pos rfl, hown]
          rfl
        | succ skip =>
          show (onFirst op letThrough fs).filter _ = _
          rw [filter_onFirst op_letThrough, if_pos rfl, hown]
          rfl

end Failure

/-! ## Runs -/

namespace HostStep

/-- The primitive whose failure a step meets. -/
def op? : HostStep → Option HostOp
  | call c => some c.op
  | list | get _ => some .readLinks
  | tableRules _ | chainRules .. => some .readRules
  | arm .. | disarm | forgetJournal => none

/-- The list of failures after a step. -/
def failures (fs : List Failure) (x : HostStep) : List Failure :=
  match x with
  | arm op i => Failure.push fs (.ofInjection op i)
  | disarm => []
  | _ =>
    match x.op? with
    | some op => (Failure.check op fs).2
    | none => fs

end HostStep

namespace Host

/-- What follows an action and arms nothing leaves what is armed after the action. -/
theorem armed_bind {α β : Type} {x : Action Host α} {f : α → Action Host β}
    (hf : ∀ a g, ((f a).outcome g).2.armed = g.armed) (h : Host) :
    ((x >>= f).outcome h).2.armed = (x.outcome h).2.armed := by
  rw [outcome_bind]
  rcases x.outcome h with ⟨e | a, g⟩
  · rfl
  · exact hf a g

theorem armed_afterCall (h : Host) (c : Call) :
    (h.afterCall c).armed = ((meet c.op).outcome h).2.armed := by
  -- The failure that is met does not depend on the journal.
  have hnoted : ((meet c.op).outcome { h with journal := h.journal ++ [c] }).2.armed =
      ((meet c.op).outcome h).2.armed := by
    rw [armed_meet, armed_meet]
  refine (armed_bind (x := meet c.op) (fun _ g => ?_) _).trans hnoted
  show ((Action.ofExcept (c.effect g.naming g.state) >>= _).outcome g).2.armed = _
  rw [outcome_bind, outcome_ofExcept]
  cases c.effect g.naming g.state <;> rfl

/-- A step that meets a failure arms nothing else. -/
theorem armed_next {x : HostStep} {op : HostOp} (hx : x.op? = some op) (h : Host) :
    (x.next h).armed = ((meet op).outcome h).2.armed := by
  cases x with
  | call c =>
    obtain rfl := Option.some.inj hx
    exact armed_afterCall h c
  | list =>
    obtain rfl := Option.some.inj hx
    exact armed_bind (x := meet .readLinks) (fun _ _ => rfl) h
  | get name =>
    obtain rfl := Option.some.inj hx
    refine armed_bind (x := meet .readLinks) (fun _ g => ?_) h
    show ((Action.ofExcept (g.state.link name) : Action Host Link).outcome g).2.armed = _
    rw [outcome_ofExcept]
  | tableRules t =>
    obtain rfl := Option.some.inj hx
    exact armed_bind (x := meet .readRules) (fun _ _ => rfl) h
  | chainRules t chain =>
    obtain rfl := Option.some.inj hx
    have htable : ((tableRules t).outcome h).2.armed = ((meet .readRules).outcome h).2.armed :=
      armed_bind (fun _ _ => rfl) h
    exact (armed_bind (x := tableRules t) (fun _ _ => rfl) h).trans htable
  | _ => cases hx

end Host

namespace Failure

theorem Lists.next {fs : List Failure} {h : Host} (hfs : Lists fs h.armed) (x : HostStep) :
    Lists (x.failures fs) (x.next h).armed := by
  have hmet {op : HostOp} (hop : x.op? = some op) :
      Lists (Failure.check op fs).2 (x.next h).armed := by
    rw [Host.armed_next hop]
    exact (hfs.check op).2
  cases x with
  | arm op i => exact hfs.push op i
  | disarm => exact .nil
  | forgetJournal => exact hfs
  | call c => exact hmet rfl
  | list => exact hmet rfl
  | get name => exact hmet rfl
  | tableRules t => exact hmet rfl
  | chainRules t chain => exact hmet rfl

/-- After a run the list has for each primitive what is armed for it. -/
theorem lists_after {fs : List Failure} {h : Host} (hfs : Lists fs h.armed)
    (steps : List HostStep) : Lists (steps.foldl HostStep.failures fs) (h.after steps).armed := by
  induction steps generalizing fs h with
  | nil => exact hfs
  | cons x xs ih => exact ih (hfs.next x)

end Failure

end HostNet
