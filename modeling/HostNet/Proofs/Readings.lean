/-
Readings with their answers.

An action that observes a host tells something about its links and rules and leaves these as they
are, and it makes no call.  It can fail in one way only: a failure that was armed for a reading is
met.  `Observed` relates a host to what readings leave of it, `Observes` is the triple of such an
action, and where nothing is armed for readings the host stays what it is.
-/

import HostNet.Proofs.StoreSteps

namespace HostNet

open HostNet.Action

namespace Host

/-! ## A host after readings -/

/-- `g` is the host `h` after readings: failures armed for these may have been used up. -/
structure Observed (h g : Host) : Prop where
  alike : g.Alike h
  spent : ∀ op, h.armed op = none → g.armed op = none

/-- The error is that of a failure armed for a reading. -/
def ReadingFails (h : Host) (e : Error) : Prop :=
  ∃ op, op.isReading = true ∧ h.armed op ≠ none ∧ e.root = injected op

/-- No failure is armed for a reading. -/
def Readable (h : Host) : Prop := ∀ op, op.isReading = true → h.armed op = none

theorem Observed.refl (h : Host) : h.Observed h := ⟨.refl h, fun _ hop => hop⟩

theorem Observed.naming {h g : Host} (hg : h.Observed g) : g.naming = h.naming := hg.alike.naming

theorem Observed.state {h g : Host} (hg : h.Observed g) : g.state = h.state := hg.alike.state

theorem Observed.journal {h g : Host} (hg : h.Observed g) : g.journal = h.journal :=
  hg.alike.journal

/-- Readings use up nothing but failures armed for them, so without such failures they leave the
very same host. -/
theorem Observed.eq_of_readable {h g : Host} (hg : h.Observed g) (hh : h.Readable) : g = h := by
  -- What is armed for calls is untouched, and nothing is armed for readings.
  have harmed : g.armed = h.armed := by
    funext op
    cases hop : op.isReading with
    | false => exact hg.alike.armed op hop
    | true => rw [hh op hop, hg.spent op (hh op hop)]
  obtain ⟨naming, state, journal, armed⟩ := g
  obtain ⟨naming', state', journal', armed'⟩ := h
  rw [Host.mk.injEq]
  exact ⟨hg.naming, hg.state, hg.journal, harmed⟩

/-- No reading fails where none is armed to. -/
theorem Readable.not_readingFails {h : Host} (hh : h.Readable) {e : Error} :
    ¬ h.ReadingFails e := by
  rintro ⟨op, hop, harmed, -⟩
  exact harmed (hh op hop)

/-- An error keeps its root when the step it came up in is named. -/
theorem ReadingFails.of_context {h : Host} {step : String} {e : Error} (he : h.ReadingFails e) :
    h.ReadingFails (.context step e) := he

/-- A failed reading is never taken for an absent link. -/
theorem ReadingFails.ne_notFound {h : Host} {e : Error} (he : h.ReadingFails e)
    (what name : String) : e ≠ .notFound what name := by
  rintro rfl
  obtain ⟨op, -, -, hroot⟩ := he
  cases hroot

/-! ## Actions that observe -/

/-- Run on `h`, or on what readings left of it, the action answers with `φ` unless a reading
fails, and it does nothing but read. -/
def Observes {α : Type} (h : Host) (x : Action Host α) (φ : α → Prop) : Prop :=
  Triple h.Observed x (fun a g => φ a ∧ h.Observed g) fun e g => h.ReadingFails e ∧ h.Observed g

section Observes

variable {α β : Type} {h : Host} {φ ψ : α → Prop}

/-- Without armed failures an action that observes succeeds and changes nothing at all. -/
theorem Observes.eq_ok_of_readable {x : Action Host α} (hx : h.Observes x φ) (hh : h.Readable) :
    ∃ a, x h = .ok a h ∧ φ a := by
  have hrun := hx h (.refl h)
  cases hxh : x h with
  | ok a g =>
    rw [hxh] at hrun
    rw [hrun.2.eq_of_readable hh]
    exact ⟨a, rfl, hrun.1⟩
  | error e g =>
    rw [hxh] at hrun
    exact absurd hrun.1 hh.not_readingFails

theorem Observes.imp {x : Action Host α} (hx : h.Observes x φ) (hφ : ∀ a, φ a → ψ a) :
    h.Observes x ψ :=
  Triple.post hx fun a _ hg => ⟨hφ a hg.1, hg.2⟩

theorem Observes.pure {a : α} (ha : φ a) : h.Observes (pure a) φ :=
  Triple.pure fun _ hg => ⟨ha, hg⟩

/-- What is observed next may depend on what was observed before. -/
theorem Observes.bind {x : Action Host α} {f : α → Action Host β} {χ : β → Prop}
    (hx : h.Observes x φ) (hf : ∀ a, φ a → h.Observes (f a) χ) : h.Observes (x >>= f) χ :=
  Triple.bind hx fun a => Triple.of_pure (hf a)

theorem Observes.within {step : String} {x : Action Host α} (hx : h.Observes x φ) :
    h.Observes (within step x) φ :=
  Triple.within (Triple.catch hx fun _ _ he => ⟨he.1.of_context, he.2⟩)

/-- A loop that only observes. -/
theorem Observes.forM {l : List β} {f : β → Action Host Unit}
    (hf : ∀ b ∈ l, h.Observes (f b) fun _ => True) : h.Observes (l.forM f) fun _ => True := by
  induction l with
  | nil => exact Observes.pure trivial
  | cons b l ih =>
    have htail := ih fun c hc => hf c (List.mem_cons_of_mem _ hc)
    exact (hf b (List.mem_cons_self ..)).bind fun _ _ => htail

theorem Observes.forM_nil (f : β → Action Host Unit) : h.Observes ([].forM f) fun _ => True :=
  Observes.pure trivial

/-- The action has nothing to do on the host: it makes no call and changes neither links nor rules,
and it succeeds unless a reading fails. -/
structure Idle (h : Host) (x : Action Host Unit) : Prop where
  succeeds : h.Readable → x h = .ok () h
  untouched : match x h with
    | .ok _ g => h.Observed g
    | .error e g => h.Observed g ∧ h.ReadingFails e

/-- An action that observes has nothing to do, whatever it observes. -/
theorem Observes.idle {x : Action Host Unit} (hx : h.Observes x fun _ => True) : h.Idle x where
  succeeds hh := by
    obtain ⟨u, hrun, -⟩ := hx.eq_ok_of_readable hh
    exact hrun
  untouched := by
    have hrun := hx h (.refl h)
    cases hxh : x h with
    | ok a g =>
      rw [hxh] at hrun
      exact hrun.2
    | error e g =>
      rw [hxh] at hrun
      exact hrun.symm

/-! ## The readings -/

/-- Before a reading, the failure armed for it is met or counted down, and nothing else happens. -/
theorem observes_meet {op : HostOp} (hop : op.isReading = true) :
    h.Observes (meet op) fun _ => True := by
  intro g hg
  have halike := reads_meet hop h g hg.alike
  -- A failure that is armed now was armed before, and no other failure is armed in its place.
  have harmed {i : Injection} (hi : g.armed op = some i) : h.armed op ≠ none := by
    intro hnone
    rw [hg.spent op hnone] at hi
    cases hi
  have hspent {i : Injection} (hi : g.armed op = some i) (j : Option Injection) :
      ∀ o, h.armed o = none → (g.arm op j).armed o = none := by
    intro o ho
    have hne : o ≠ op := by
      rintro rfl
      exact harmed hi ho
    exact (if_neg hne).trans (hg.spent o ho)
  have hfails {i : Injection} (hi : g.armed op = some i) : h.ReadingFails (injected op) :=
    ⟨op, hop, harmed hi, rfl⟩
  unfold meet at halike ⊢
  cases hi : g.armed op with
  | none => exact ⟨trivial, hg⟩
  | some i =>
    rw [hi] at halike
    cases i with
    | always => exact ⟨hfails hi, hg⟩
    | once skip =>
      cases skip with
      | zero => exact ⟨hfails hi, halike, hspent hi none⟩
      | succ skip => exact ⟨trivial, halike, hspent hi (some (.once skip))⟩

theorem Observes.getState {f : HostState → α} (hf : φ (f h.state)) :
    h.Observes (do return f (← EStateM.get).state) φ :=
  fun _ hg => ⟨hg.state.symm ▸ hf, hg⟩

/-- The listing has the links of the host as they were before any reading. -/
theorem observes_list : h.Observes list fun links => links = h.state.listing :=
  (observes_meet rfl).bind fun _ _ => Observes.getState rfl

/-- A table is listed with the rules that the host had in it before any reading. -/
theorem observes_tableRules (t : Table) :
    h.Observes (tableRules t) fun rules => rules = h.state.rules.get t :=
  (observes_meet rfl).bind fun _ _ => Observes.getState (f := fun s => s.rules.get t) rfl

/-- A link that is there is read. -/
theorem observes_get {name : String} {l : Link} (hl : h.state.find? name = some l) :
    h.Observes (get name) fun m => m = l := by
  refine (observes_meet rfl).bind fun _ _ => ?_
  intro g hg
  have hlink : g.state.link name = .ok l := by
    rw [hg.state]
    exact HostState.link_eq_ok_iff.mpr hl
  dsimp only [bind, EStateM.bind, EStateM.get]
  rw [hlink]
  exact ⟨rfl, hg⟩

end Observes

end Host

/-! ## Captures -/

namespace Scope

variable {h : Host}

/-- The tables are observed one by one, so together they tell the recorded rules. -/
theorem observes_captureRules (ts : List Table) (acc : PerTable (Option (List Rule))) :
    h.Observes (captureRules ts acc) fun rules => rules = recordRules h.state.rules ts acc := by
  induction ts generalizing acc with
  | nil => exact Host.Observes.pure rfl
  | cons t ts ih =>
    refine (Host.observes_tableRules t).within.bind fun listed hlisted => ?_
    rw [hlisted]
    exact ih _

/-- A capture tells the snapshot of the host. -/
theorem observes_capture (scope : Scope) :
    h.Observes scope.capture fun t => t = scope.snapshotOf h.state := by
  refine Host.observes_list.within.bind fun links hlinks => ?_
  refine (observes_captureRules scope.tables (.const none)).bind fun rules hrules => ?_
  rw [hlinks, hrules]
  exact Host.Observes.pure rfl

end Scope

/-! ## Readings on a site -/

namespace Site

variable {α β : Type} {s : Site} {φ : α → Prop}

/-- The site after readings of its host. -/
def Seen (s t : Site) : Prop := ∃ g, s.host.Observed g ∧ t = s.withHost g

/-- What `Host.Observes` says of an action on the host, of one on the site. -/
def Observes (s : Site) (x : Action Site α) (φ : α → Prop) : Prop :=
  Triple s.Seen x (fun a t => φ a ∧ s.Seen t) fun e t => s.host.ReadingFails e ∧ s.Seen t

theorem Seen.refl (s : Site) : s.Seen s := ⟨s.host, .refl _, rfl⟩

/-- What is observed on the host of a site is observed on the site, and nothing beside the host
changes. -/
theorem observes_onHost {x : Action Host α} (hx : s.host.Observes x φ) :
    s.Observes (onHost x) φ := by
  rintro t ⟨g, hg, rfl⟩
  have hrun := hx g hg
  have hhost : (s.withHost g).host = g := rfl
  rw [onHost_eq, hhost]
  cases h : x g with
  | ok a k =>
    rw [h] at hrun
    exact ⟨hrun.1, k, hrun.2, rfl⟩
  | error e k =>
    rw [h] at hrun
    exact ⟨hrun.1, k, hrun.2, rfl⟩

theorem Observes.bind {x : Action Site α} {f : α → Action Site β} {χ : β → Prop}
    (hx : s.Observes x φ) (hf : ∀ a, φ a → s.Observes (f a) χ) : s.Observes (x >>= f) χ :=
  Triple.bind hx fun a => Triple.of_pure (hf a)

/-- A check that passes is no reading: it leaves the site as readings have left it. -/
theorem Observes.ofExcept {r : Except Error α} {a : α} (hr : r = .ok a) (ha : φ a) :
    s.Observes (Action.ofExcept r) φ := by
  rw [hr]
  exact Triple.pure fun _ ht => ⟨ha, ht⟩

end Site

end HostNet
