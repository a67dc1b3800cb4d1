/-
What the steps of an operation tell of themselves.

The events of an operation tell of a walk through the phases: each change of phase starts where the
one before has led, and is one that the phases allow.  `Tells` states this of steps, together with
the phase that they come to; steps that fail do so in a phase from which the operation may fail, and
with an error that is not fatal, since only a failed compensation is.
-/

import HostNet.Proofs.Undertaking

namespace HostNet

open HostNet.Action

/-! ## Walks through the phases -/

namespace Phase

/-- The changes lead from a phase to another one, each of them from where the one before has led,
and each as the phases allow. -/
def Walk : Phase → List (Phase × Phase) → Phase → Prop
  | p, [], q => p = q
  | p, (before, after) :: moves, q => before = p ∧ p.mayBecome after = true ∧ Walk after moves q

variable {p q r : Phase} {moves : List (Phase × Phase)}

/-- A walk can be prolonged by a change that the phases allow where it ends. -/
theorem Walk.snoc (h : Walk p moves q) (hr : q.mayBecome r = true) :
    Walk p (moves ++ [(q, r)]) r := by
  induction moves generalizing p with
  | nil =>
    obtain rfl : p = q := h
    exact ⟨rfl, hr, rfl⟩
  | cons move moves ih =>
    obtain ⟨hbefore, hafter, hrest⟩ := h
    exact ⟨hbefore, hafter, ih hrest⟩

/-- A walk that makes a change ends with one that leads to where it ends. -/
theorem Walk.eq_nil_or_getLast? (h : Walk p moves q) :
    (moves = [] ∧ p = q) ∨ moves.getLast?.map Prod.snd = some q := by
  induction moves generalizing p with
  | nil => exact .inl ⟨rfl, h⟩
  | cons move moves ih =>
    obtain ⟨-, -, hrest⟩ := h
    right
    rw [List.getLast?_cons]
    rcases ih hrest with ⟨rfl, hq⟩ | hlast
    · exact congrArg some hq
    · obtain ⟨last, hlast, hq⟩ := Option.map_eq_some_iff.mp hlast
      rw [hlast]
      exact congrArg some hq

end Phase

/-! ## Events -/

namespace Event

/-- The change of phase that an event tells of. -/
def move? : Event → Option (Phase × Phase)
  | transition _ _ before after => some (before, after)
  | _ => none

/-- The changes of phase that some events tell of, in order. -/
def moves (es : List Event) : List (Phase × Phase) := es.filterMap move?

/-- The phase that the last change of phase led to. -/
def lastPhase? (es : List Event) : Option Phase := (moves es).getLast?.map Prod.snd

/-- Whether an event tells of a failed compensation. -/
def isDivergence : Event → Bool
  | fatalDivergence .. => true
  | _ => false

theorem moves_append (es fs : List Event) : moves (es ++ fs) = moves es ++ moves fs :=
  List.filterMap_append

/-- Later events decide which phase was the last, if they tell of any. -/
theorem lastPhase?_append {l m : List Event} {q : Phase} (h : lastPhase? m = some q) :
    lastPhase? (l ++ m) = some q := by
  obtain ⟨move, hmove, hq⟩ := Option.map_eq_some_iff.mp h
  unfold lastPhase?
  rw [moves_append, List.getLast?_append, hmove]
  exact congrArg some hq

end Event

namespace Site

/-- The site with more events published. -/
def told (s : Site) (es : List Event) : Site := { s with events := s.events ++ es }

/-- The events from `b` to `s` tell of a walk from `p` to `q`, of which no change was ignored, and
of no failed compensation. -/
structure Heard (b : Site) (p q : Phase) (s : Site) : Prop where
  events : ∃ es, s.events = b.events ++ es ∧ Phase.Walk p (Event.moves es) q ∧
    es.countP Event.isDivergence = 0
  ignored : s.ignored = b.ignored

variable {b s : Site} {p q r : Phase}

/-- A change of phase that is allowed is published. -/
theorem advance_eq {t : Tracker} {q : Phase} (h : t.phase.mayBecome q = true) (s : Site) :
    advance t q s = .ok { t with phase := q }
      (s.told [.transition t.operation t.link t.phase q]) := by
  unfold advance
  rw [Tracker.advance_of_mayBecome h]
  rfl

/-- An allowed change from the phase that was reached prolongs the walk that was heard. -/
theorem Heard.move (h : b.Heard p q s) (hr : q.mayBecome r = true) (operation link : String) :
    b.Heard p r (s.told [.transition operation link q r]) := by
  obtain ⟨⟨es, hes, hwalk, hcount⟩, hignored⟩ := h
  refine ⟨⟨es ++ [.transition operation link q r], ?_, ?_, ?_⟩, hignored⟩
  · show s.events ++ _ = _
    rw [hes, List.append_assoc]
  · rw [Event.moves_append]
    exact hwalk.snoc hr
  · rw [List.countP_append, hcount]
    rfl

/-- An event that is no change of phase, and tells of no failed compensation. -/
theorem Heard.publish (h : b.Heard p q s) {e : Event} (hmove : e.move? = none)
    (he : e.isDivergence = false) : b.Heard p q (s.told [e]) := by
  obtain ⟨⟨es, hes, hwalk, hcount⟩, hignored⟩ := h
  refine ⟨⟨es ++ [e], ?_, ?_, ?_⟩, hignored⟩
  · show s.events ++ _ = _
    rw [hes, List.append_assoc]
  · have hmoves : Event.moves [e] = [] := by
      unfold Event.moves
      rw [List.filterMap_cons_none hmove, List.filterMap_nil]
    rw [Event.moves_append, hmoves, List.append_nil]
    exact hwalk
  · rw [List.countP_append, hcount, List.countP_singleton, he]
    rfl

end Site

/-! ## Errors that are not fatal -/

/-- Whatever the error of an action is, it is not fatal. -/
def Action.Mild {σ α : Type} (x : Action σ α) : Prop :=
  Triple (fun _ => True) x (fun _ _ => True) fun e _ => e.isFatal = false

/-- An answer, or an error that is not fatal. -/
def MildResult {α : Type} (r : Except Error α) : Prop := ∀ e, r = .error e → e.isFatal = false

section Mild

variable {σ τ α β : Type}

theorem MildResult.ok (a : α) : MildResult (.ok a : Except Error α) := nofun

theorem MildResult.error {e : Error} (he : e.isFatal = false) :
    MildResult (.error e : Except Error α) := by
  rintro _ ⟨⟩
  exact he

theorem MildResult.discard {r : Except Error α} (hr : MildResult r) :
    MildResult (discard r : Except Error Unit) := by
  cases r with
  | ok a => exact MildResult.ok ()
  | error e => exact MildResult.error (hr e rfl)

/-- Checks that fail with mild errors may follow on one another. -/
theorem MildResult.bind {r : Except Error α} {f : α → Except Error β} (hr : MildResult r)
    (hf : ∀ a, MildResult (f a)) : MildResult (r >>= f) := by
  cases r with
  | ok a => exact hf a
  | error e => exact MildResult.error (hr e rfl)

theorem Action.Mild.pure (a : α) : Mild (pure a : Action σ α) := Triple.pure fun _ _ => trivial

theorem Action.Mild.ofExcept {r : Except Error α} (hr : MildResult r) :
    Mild (ofExcept r : Action σ α) :=
  Triple.ofExcept (fun _ _ _ _ => trivial) fun e he _ _ => hr e he

theorem Action.Mild.bind {x : Action σ α} {f : α → Action σ β} (hx : Mild x)
    (hf : ∀ a, Mild (f a)) : Mild (x >>= f) :=
  Triple.bind hx hf

/-- The context of a step says where an error came up and does not make it fatal. -/
theorem Action.Mild.within {step : String} {x : Action σ α} (hx : Mild x) :
    Mild (Action.within step x) :=
  Triple.within hx

/-- Whether an action on a part of a state is mild does not depend on the rest of the state. -/
theorem Action.Mild.on {part : σ → τ} {replace : τ → σ → σ} {x : Action τ α} (hx : Mild x) :
    Mild (Action.on part replace x) := by
  intro s _
  have hrun := hx (part s) trivial
  unfold Action.on
  cases h : x (part s) with
  | ok a t => trivial
  | error e t =>
    rw [h] at hrun
    exact hrun

end Mild

/-! ### The primitives -/

namespace Call

theorem mild_checkWord (field word : String) : MildResult (Rule.checkWord field word) := by
  unfold Rule.checkWord
  split
  · exact .error rfl
  · split
    · exact .error rfl
    · exact .ok ()

/-- A rule is refused with a validation error at most. -/
theorem mild_check (r : Rule) : MildResult r.check :=
  (mild_checkWord "chain" r.chain).bind fun _ => mild_checkWord "target" r.target

/-- Whatever is wrong with the name of a link, the error says so and is not fatal. -/
theorem mild_ofString (s : String) : MildResult (LinkName.ofString s) := by
  unfold LinkName.ofString
  split
  · exact .ok _
  · next d _ => exact .error (by cases d <;> rfl)

theorem mild_link (s : HostState) (name : String) : MildResult (s.link name) := by
  unfold HostState.link
  split
  · exact .ok _
  · exact .error rfl

/-- A link is not created under an illegal name or one that is taken, and neither is fatal. -/
theorem mild_create (s : HostState) (name : String) (build : String → Link) :
    MildResult (s.create name build) := by
  unfold HostState.create
  refine (mild_ofString name).bind fun legal => ?_
  dsimp only
  split
  · exact .error rfl
  · exact .ok _

/-- No call has a fatal error. -/
theorem mild_effect (naming : Naming) (s : HostState) (c : Call) :
    MildResult (c.effect naming s) := by
  -- All calls but those on rules look for a link first.
  have hlink (name : String) : MildResult (discard (s.link name) : Except Error Unit) :=
    (mild_link s name).discard
  unfold effect
  cases c with
  | createVlan parent id => exact (hlink parent).bind fun _ => mild_create s _ _
  | createBridge name => exact mild_create s _ _
  | setLinkUp name => exact (hlink name).bind fun _ => .ok _
  | setLinkMaster slave master =>
    refine (mild_link s master).bind fun bridge => ?_
    dsimp only
    split
    · exact .error rfl
    · split
      · exact .error rfl
      · exact (hlink slave).bind fun _ => .ok _
  | unsetLinkMaster name => exact (hlink name).bind fun _ => .ok _
  | deleteLink name => exact (hlink name).bind fun _ => .ok _
  | addAddress name net =>
    refine (mild_link s name).bind fun l => ?_
    dsimp only
    split
    · exact .error rfl
    · exact .ok _
  | deleteAddress name net =>
    refine (mild_link s name).bind fun l => ?_
    dsimp only
    split
    · exact .error rfl
    · exact .ok _
  | createRule t r => exact (mild_check r).bind fun _ => .ok _
  | deleteRule t r =>
    dsimp only
    split
    · exact .error rfl
    · exact .ok _

end Call

namespace Host

/-- A call fails for the failure that is armed for it or for want of its effect, and neither is
fatal. -/
theorem mild_perform (c : Call) : Mild (perform c) := by
  intro h _
  rcases perform_cases c h with ⟨s, armed, -, hrun⟩ | ⟨e, armed, he, hrun⟩
  · rw [hrun]
    trivial
  · rw [hrun]
    rcases he with rfl | he
    · rfl
    · exact Call.mild_effect _ _ c e he

/-- An armed failure is not fatal when it is met. -/
theorem mild_meet (op : HostOp) : Mild (meet op) := by
  intro h _
  rcases meet_cases op h with ⟨armed, hrun⟩ | ⟨armed, hrun⟩
  · rw [hrun]
    trivial
  · rw [hrun]
    rfl

theorem mild_getState : Mild (EStateM.get : Action Host Host) := Triple.get fun _ _ => trivial

theorem mild_list : Mild list :=
  (mild_meet _).bind fun _ => mild_getState.bind fun _ => .pure _

theorem mild_get (name : String) : Mild (get name) :=
  (mild_meet _).bind fun _ => mild_getState.bind fun _ => .ofExcept (Call.mild_link _ name)

/-- An absent link is an answer here; what other errors the lookup has are those of `get`. -/
theorem mild_find (name : String) : Mild (find name) :=
  Triple.ifFound ((mild_get name).catch fun e _ he => by
    split
    · trivial
    · exact he)

theorem mild_tableRules (t : Table) : Mild (tableRules t) :=
  (mild_meet _).bind fun _ => mild_getState.bind fun _ => .pure _

theorem mild_chainRules (t : Table) (chain : String) : Mild (chainRules t chain) :=
  (mild_tableRules t).bind fun _ => .pure _

theorem mild_createVlan (parent : String) (id : VlanId) : Mild (createVlan parent id) :=
  (mild_perform _).bind fun _ => .pure _

theorem mild_createBridge (name : String) : Mild (createBridge name) :=
  mild_getState.bind fun _ => (mild_perform _).bind fun _ => .pure _

end Host

/-! ### Saving -/

namespace StoredMachine

theorem mild_captureRules (ts : List Table) (acc : PerTable (Option (List Rule))) :
    Mild (captureRules ts acc) := by
  induction ts generalizing acc with
  | nil => exact .pure _
  | cons t ts ih => exact (Host.mild_tableRules t).within.bind fun _ => ih _

theorem mild_capture (scope : Scope) : Mild scope.capture :=
  Host.mild_list.within.bind fun _ => (mild_captureRules _ _).bind fun _ => .pure _

/-- A save fails in its capture or for a file that cannot be written, and neither is fatal. -/
theorem mild_save : Mild Store.save := by
  intro s _
  have hcapture := mild_capture s.store.scope s.machine.host trivial
  rw [save_eq]
  cases hlive : s.store.scope.capture s.machine.host with
  | error e g =>
    rw [hlive] at hcapture
    exact hcapture
  | ok live g =>
    dsimp only
    cases s.machine.files.write .backup s.store.saved.text with
    | error fault => rfl
    | ok kept =>
      dsimp only
      cases kept.write .saved live.text with
      | error fault => rfl
      | ok files => trivial

end StoredMachine

/-! ## Steps -/

namespace Tracked

variable {α β : Type} {b : Site} {p q r : Phase}

/-- An operation that began on `b` in the phase `p` has come to the phase `q`, as its events
tell. -/
structure At (b : Site) (p q : Phase) (t : Tracked) : Prop where
  phase : t.tracker.phase = q
  heard : b.Heard p q t.site

/-- A step has failed in a phase from which the operation may fail. -/
def Stopped (b : Site) (p : Phase) (e : Error) (t : Tracked) : Prop :=
  e.isFatal = false ∧ ∃ q, At b p q t ∧ q.mayBecome .failed = true

/-- From the phase `q` the steps come to the phase `r`, or one of them fails. -/
def Tells (b : Site) (p q : Phase) (steps : Action Tracked α) (r : Phase) : Prop :=
  Triple (At b p q) steps (fun _ => At b p r) (Stopped b p)

/-- A step to a phase that is allowed publishes its change and has the tracker follow it. -/
theorem advance_eq {t : Tracked} {next : Phase} (h : t.tracker.phase.mayBecome next = true) :
    advance next t = .ok ()
      ⟨t.site.told [.transition t.tracker.operation t.tracker.link t.tracker.phase next],
        { t.tracker with phase := next }⟩ := by
  have hsite : onSite (Site.advance t.tracker next) t = .ok { t.tracker with phase := next }
      { t with site := (t.site.told
          [.transition t.tracker.operation t.tracker.link t.tracker.phase next]) } := by
    unfold onSite Action.on
    rw [Site.advance_eq h]
  unfold advance
  rw [get_bind]
  show EStateM.bind (onSite (Site.advance t.tracker next)) _ t = _
  unfold EStateM.bind
  rw [hsite]
  rfl

namespace Tells

/-- Steps go on from the phase that the steps before them have come to. -/
theorem bind {x : Action Tracked α} {f : α → Action Tracked β} {o : Phase} (hx : Tells b p o x q)
    (hf : ∀ a, Tells b p q (f a) r) : Tells b p o (x >>= f) r :=
  Triple.bind hx hf

theorem pure (a : α) : Tells b p q (pure a) q := Triple.pure fun _ ht => ht

/-- What happens on the store is not heard. -/
theorem onStore {x : Action StoredMachine α} (hx : Mild x) (hq : q.mayBecome .failed = true) :
    Tells b p q (onSite (Site.onStore x)) q := by
  intro t ht
  have hrun := hx t.site.stored trivial
  unfold onSite Site.onStore Action.on
  cases h : x t.site.stored with
  | ok a m => exact ⟨ht.phase, ht.heard.events, ht.heard.ignored⟩
  | error e m =>
    rw [h] at hrun
    exact ⟨hrun, q, ⟨ht.phase, ht.heard.events, ht.heard.ignored⟩, hq⟩

/-- What happens on the host is not heard: only its failure shows, in the phase it came up in. -/
theorem onHost {x : Action Host α} (hx : Mild x) (hq : q.mayBecome .failed = true) :
    Tells b p q (Tracked.onHost x) q :=
  onStore (x := Store.onHost x) (Mild.on (Mild.on hx)) hq

/-- That the host was touched is noted in the tracker and not published. -/
theorem touched : Tells b p q touched q := Triple.modify fun _ ht => ⟨ht.phase, ht.heard⟩

theorem rename (link : String) : Tells b p q (rename link) q :=
  Triple.modify fun _ ht => ⟨ht.phase, ht.heard⟩

/-- An allowed advance is the one step that is heard. -/
theorem advance (hr : q.mayBecome r = true) : Tells b p q (advance r) r := by
  intro t ht
  rw [advance_eq (ht.phase ▸ hr)]
  exact ⟨rfl, ht.phase ▸ ht.heard.move (ht.phase ▸ hr) _ _⟩

theorem change {step : String} (c : Call) (hq : q.mayBecome .failed = true) :
    Tells b p q (change step c) q :=
  (onHost (Host.mild_perform c).within hq).bind fun _ => touched

/-- A series of changes stays within its phase, since none of them advances. -/
theorem changes {step : β → String} {c : β → Call} (l : List β) (hq : q.mayBecome .failed = true) :
    Tells b p q (l.forM fun i => Tracked.change (step i) (c i)) q :=
  Triple.forM (I := fun _ => At b p q) fun _ i _ _ => change (c i) hq

theorem assignAddresses (name : String) (desired : List IpNet) (hq : q.mayBecome .failed = true) :
    Tells b p q (assignAddresses name desired) q :=
  (onHost (Host.mild_get name) hq).bind fun _ => (changes _ hq).bind fun _ => changes _ hq

theorem assignSlaves (bridge : String) (desired : List String) (hq : q.mayBecome .failed = true) :
    Tells b p q (assignSlaves bridge desired) q :=
  (onHost Host.mild_list hq).bind fun _ => (changes _ hq).bind fun _ => changes _ hq

/-- A save that fails stops the operation in the phase that its steps had come to. -/
theorem save (step : String) (hq : q.mayBecome .failed = true) :
    Tells b p q (onSite (Action.within step (Site.onStore Store.save))) q := by
  have hwithin : Action.within step (Site.onStore Store.save) =
      Site.onStore (Action.within step Store.save) := by
    funext s
    simp only [Site.onStore, Action.within, Action.on]
    cases Store.save s.stored <;> rfl
  rw [hwithin]
  exact onStore StoredMachine.mild_save.within hq

/-! ### The steps of the operations -/

/-- A new VLAN is `created` once it is there, and `addressed` at the end. -/
theorem vlanSteps (parent : String) (id : VlanId) (addresses : List IpNet) :
    Tells b p .absent (Manager.vlanSteps parent id addresses) .addressed := by
  unfold Manager.vlanSteps
  refine (onHost (Host.mild_createVlan parent id) rfl).bind fun created => ?_
  refine touched.bind fun _ => (rename created).bind fun _ => (advance rfl).bind fun _ => ?_
  refine (onHost (q := .created) (Host.mild_perform _) rfl).bind fun _ => ?_
  refine (assignAddresses created addresses rfl).bind fun _ => ?_
  exact (advance rfl).bind fun _ => pure created

/-- A new bridge goes through the phases of a new VLAN, and gets its slaves and addresses between
them. -/
theorem bridgeSteps (name : String) (slaves : List String) (addresses : List IpNet) :
    Tells b p .absent (Manager.bridgeSteps name slaves addresses) .addressed := by
  unfold Manager.bridgeSteps
  refine (onHost (Host.mild_createBridge name) rfl).bind fun created => ?_
  refine touched.bind fun _ => (rename created).bind fun _ => (advance rfl).bind fun _ => ?_
  refine (onHost (q := .created) (Host.mild_perform _) rfl).bind fun _ => ?_
  refine (assignSlaves created slaves rfl).bind fun _ => ?_
  refine (assignAddresses created addresses rfl).bind fun _ => ?_
  exact (advance rfl).bind fun _ => pure created

/-- A link is deleted at the end of a deletion. -/
theorem deleteLink (name : String) (hq : q.mayBecome .failed = true)
    (hgone : q.mayBecome .gone = true) :
    Tells b p q (do Tracked.onHost (Host.perform (.deleteLink name)); Tracked.advance .gone)
      .gone :=
  (onHost (Host.mild_perform _) hq).bind fun _ => advance hgone

/-- Only a VLAN that had a master passes through `unlinked` on its way. -/
theorem removeVlanSteps (name : String) (master : Option String) :
    Tells b p .present (Manager.removeVlanSteps name master) .gone := by
  unfold Manager.removeVlanSteps
  dsimp only
  by_cases hm : master.isSome = true
  · rw [if_pos hm]
    refine (onHost (Host.mild_perform _) rfl).bind fun _ => touched.bind fun _ => ?_
    exact (advance (r := .unlinked) rfl).bind fun _ => deleteLink name rfl rfl
  · rw [if_neg hm]
    exact deleteLink name rfl rfl

/-- Only a bridge that had slaves passes through `unlinked` on its way. -/
theorem removeBridgeSteps (name : String) (slaves : List String) :
    Tells b p .present (Manager.removeBridgeSteps name slaves) .gone := by
  unfold Manager.removeBridgeSteps
  dsimp only
  by_cases hs : (!slaves.isEmpty) = true
  · rw [if_pos hs]
    refine (assignSlaves name [] rfl).bind fun _ => ?_
    exact (advance (r := .unlinked) rfl).bind fun _ => deleteLink name rfl rfl
  · rw [if_neg hs]
    exact deleteLink name rfl rfl

/-- The bridge of a project goes through the phases of a new bridge.  The configuration is saved in
the last of them, from which the operation may still fail. -/
theorem setUp (m : ProjectManager) (name : String) (subnet : Ipv4Net) :
    Tells b p .absent (m.setUp name subnet) .addressed := by
  unfold ProjectManager.setUp
  refine (onHost (Host.mild_createBridge name) rfl).bind fun created => ?_
  refine touched.bind fun _ => (rename created).bind fun _ => (advance rfl).bind fun _ => ?_
  dsimp only
  refine (onHost (q := .created) (Host.mild_perform _).within rfl).bind fun _ => ?_
  refine (onHost (Host.mild_perform _).within rfl).bind fun _ => ?_
  refine (onHost (Host.mild_perform _).within rfl).bind fun _ => ?_
  refine (onHost (Host.mild_perform _) rfl).bind fun _ => ?_
  refine (advance (r := .addressed) rfl).bind fun _ => ?_
  exact (save _ rfl).bind fun _ => pure _

/-- The bridge of a project is removed after its rule. -/
theorem removeProjectBridge (bridge : String) (hq : q.mayBecome .failed = true)
    (hgone : q.mayBecome .gone = true) :
    Tells b p q
      (do
        Tracked.change "delete bridge" (.deleteLink bridge)
        Tracked.onSite (Action.within "save configuration" (Site.onStore Store.save))
        Tracked.advance .gone)
      .gone :=
  (change _ hq).bind fun _ => (save _ hq).bind fun _ => advance hgone

/-- Only a project whose rule was still listed passes through `ruleDeleted` on its way. -/
theorem takeDown (project : Project) :
    Tells b p .present (ProjectManager.takeDown project) .gone := by
  unfold ProjectManager.takeDown
  dsimp only
  refine (onHost (Host.mild_chainRules .nat _) rfl).bind fun rules => ?_
  by_cases hmem : rules.contains project.masqueradeRule = true
  · rw [if_pos hmem]
    refine (change _ rfl).bind fun _ => (advance (r := .ruleDeleted) rfl).bind fun _ => ?_
    exact removeProjectBridge project.bridge rfl rfl
  · rw [if_neg hmem]
    exact removeProjectBridge project.bridge rfl rfl

end Tells

end Tracked

end HostNet
