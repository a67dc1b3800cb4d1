/-
Differences between lists, and the addresses of a link brought to others.

`Diff.Extracts` says what a part of a difference is: the items of one list that another one lacks,
each once, in the order in which they come first.  This determines the part.  The calls that bring a
link from its addresses to desired ones follow from the difference, and each of them can take its
effect when its turn comes.  So nothing but an armed failure stops them, and `Host.Issued` and
`Host.Broken` keep account of what the journal holds then.
-/

import HostNet.Proofs.BridgeUpdate

namespace HostNet

open HostNet.Action

/-! ## The parts of a difference -/

namespace Diff

variable {α : Type} [DecidableEq α] {items excluded : List α}

/-- `out` holds the items that are not excluded, each once, in the order in which they first
occur. -/
structure Extracts (items excluded out : List α) : Prop where
  mem_iff : ∀ a, a ∈ out ↔ a ∈ items ∧ a ∉ excluded
  nodup : out.Nodup
  ordered : out.Pairwise fun a b => items.idxOf a < items.idxOf b

theorem Extracts.unique {out out' : List α} (h : Extracts items excluded out)
    (h' : Extracts items excluded out') : out = out' := by
  have hperm : out.Perm out' := by
    rw [List.perm_ext_iff_of_nodup h.nodup h'.nodup]
    intro a
    rw [h.mem_iff, h'.mem_iff]
  refine hperm.eq_of_pairwise (fun a b _ _ hab hba => ?_) h.ordered h'.ordered
  omega

/-- A new first item leaves the order of the first occurrences of the others. -/
theorem pairwise_idxOf_cons {x : α} {out : List α} (hx : x ∉ out)
    (h : out.Pairwise fun a b => items.idxOf a < items.idxOf b) :
    out.Pairwise fun a b => (x :: items).idxOf a < (x :: items).idxOf b := by
  refine h.imp_of_mem fun {a b} ha hb hab => ?_
  have hax : x ≠ a := fun hxa => hx (hxa ▸ ha)
  have hbx : x ≠ b := fun hxb => hx (hxb ▸ hb)
  rw [List.idxOf_cons_ne items hax, List.idxOf_cons_ne items hbx]
  omega

theorem pairwise_idxOf_eraseDups_filter (items : List α) (p : α → Bool) :
    (items.filter p).eraseDups.Pairwise fun a b => items.idxOf a < items.idxOf b := by
  -- Taking an item makes the filter stricter, as later occurrences of it are dropped.
  induction items generalizing p with
  | nil => exact List.Pairwise.nil
  | cons x items ih =>
    by_cases hp : p x = true
    · rw [List.filter_cons_of_pos hp, List.eraseDups_cons, List.filter_filter]
      have hx : x ∉ (items.filter fun a => (!a == x) && p a).eraseDups := by simp
      refine List.Pairwise.cons (fun b hb => ?_) (pairwise_idxOf_cons hx (ih _))
      have hbx : x ≠ b := fun hxb => hx (hxb ▸ hb)
      rw [List.idxOf_cons_self, List.idxOf_cons_ne items hbx]
      omega
    · rw [List.filter_cons_of_neg hp]
      have hx : x ∉ (items.filter p).eraseDups := by simp [hp]
      exact pairwise_idxOf_cons hx (ih p)

theorem extracts_outside (items excluded : List α) :
    Extracts items excluded (outside items excluded) where
  mem_iff _ := mem_outside
  nodup := nodup_outside items excluded
  ordered := pairwise_idxOf_eraseDups_filter items _

/-- Nothing separates lists that hold the same items, and only those. -/
theorem between_eq_nil_iff {current desired : List α} :
    ((between current desired).toRemove = [] ∧ (between current desired).toAdd = []) ↔
      ∀ a, a ∈ current ↔ a ∈ desired := by
  simp only [between, List.eq_nil_iff_forall_not_mem, mem_outside]
  grind

/-- The calls that bring the addresses of a link to desired ones. -/
def addressCalls (name : String) (d : Diff IpNet) : List Call :=
  d.toRemove.map (.deleteAddress name) ++ d.toAdd.map (.addAddress name)

end Diff

/-! ## Calls that take effect one after the other -/

/-- The links and rules after some calls, if each of them can take its effect in its turn. -/
def Call.effects (naming : Naming) (s : HostState) (calls : List Call) : Except Error HostState :=
  calls.foldlM (fun s c => c.effect naming s) s

namespace Call

variable {naming : Naming} {s s' : HostState}

theorem effects_cons_eq_ok {c : Call} {calls : List Call} :
    effects naming s (c :: calls) = .ok s' ↔
      ∃ u, c.effect naming s = .ok u ∧ effects naming u calls = .ok s' := by
  rw [effects, List.foldlM_cons]
  exact except_bind_eq_ok

end Call

namespace Host

variable {β : Type} {c : β → Call}

/-- Calls that were all made with success have taken their effects. -/
theorem effects_of_forM_ok {l : List β} {h g : Host}
    (hrun : (l.forM fun b => perform (c b)) h = .ok () g) :
    Call.effects h.naming h.state (l.map c) = .ok g.state := by
  induction l generalizing h with
  | nil =>
    obtain rfl : h = g := (EStateM.Result.ok.inj hrun).2
    rfl
  | cons b l ih =>
    change (perform (c b) >>= fun _ => l.forM fun b => perform (c b)) h = _ at hrun
    rcases perform_cases (c b) h with ⟨s, armed, heffect, hb⟩ | ⟨e, armed, -, hb⟩
    · rw [bind_of_ok hb] at hrun
      exact Call.effects_cons_eq_ok.mpr ⟨s, heffect, ih hrun⟩
    · rw [bind_of_error hb] at hrun
      cases hrun

/-- What a loop of calls achieves where no failure is armed, the effects of its calls come to. -/
theorem Achieves.effects {naming : Naming} {P Q : HostState → Prop} {l : List β}
    (h : Achieves true naming P (l.forM fun b => Host.perform (c b)) fun _ => Q) {s : HostState}
    (hs : P s) : ∃ s', Call.effects naming s (l.map c) = .ok s' ∧ Q s' := by
  let quiet : Host := ⟨naming, s, [], fun _ => none⟩
  have hholds : quiet.Holds true naming P := ⟨fun _ _ => rfl, rfl, hs⟩
  obtain ⟨_, g, hrun, hg⟩ := Triple.total (h.catch fun _ _ he => Bool.noConfusion he) hholds
  have heffects := effects_of_forM_ok (c := c) hrun
  exact ⟨g.state, heffects, hg.state⟩

/-! ## The account of the calls made -/

/-- `g` is the host `h` after these calls, each of which was made with success, and has the links
and rules `s`. -/
structure Issued (h : Host) (calls : List Call) (s : HostState) (g : Host) : Prop where
  naming_eq : g.naming = h.naming
  journal : g.journal = h.journal ++ calls
  state : g.state = s
  quiet : h.Quiet → g.Quiet

/-- After these calls a failure that was armed on `h` has been met. -/
structure Broken (h : Host) (calls : List Call) (e : Error) (g : Host) : Prop where
  not_quiet : ¬ h.Quiet
  journal : g.journal = h.journal ++ calls
  injected : ∃ op, e.root = injected op

theorem Broken.context {h g : Host} {calls : List Call} {e : Error} (step : String)
    (hg : h.Broken calls e g) : h.Broken calls (.context step e) g := ⟨hg.1, hg.2, hg.3⟩

/-- A call that can take its effect is made with success, or meets an armed failure. -/
theorem triple_issue {h : Host} {calls : List Call} {s s' : HostState} {c : Call}
    (hc : c.effect h.naming s = .ok s') :
    Triple (h.Issued calls s) (perform c) (fun _ => h.Issued (calls ++ [c]) s')
      (h.Broken (calls ++ [c])) := by
  intro g hg
  have heffect : c.effect g.naming g.state = .ok s' := by rw [hg.naming_eq, hg.state, hc]
  have hjournal : g.journal ++ [c] = h.journal ++ (calls ++ [c]) := by
    rw [hg.journal, List.append_assoc]
  rcases perform_cases c g with ⟨u, armed, hu, hrun⟩ | ⟨e, armed, he, hrun⟩
  · obtain rfl : u = s' := Except.ok.inj (hu.symm.trans heffect)
    have hquiet (hq : h.Quiet) := (hg.quiet hq).of_perform hrun
    rw [hrun]
    exact ⟨hg.naming_eq, hjournal, rfl, hquiet⟩
  · rw [hrun]
    refine ⟨fun hq => ?_, hjournal, c.op, ?_⟩
    · -- On a quiet host the call would have taken its effect.
      rw [perform_of_quiet (hg.quiet hq) heffect] at hrun
      cases hrun
    · -- The effect is not what has failed.
      rcases he with rfl | he
      · rfl
      · rw [heffect] at he
        cases he

end Host

namespace Tracked

variable {α β : Type} {P : Host → Prop} {E : Error → Host → Prop}

/-- What an action comes to on a host it comes to within a tracked operation. -/
theorem triple_ofHost {x : Action Host α} {Q : α → Host → Prop} (hx : Triple P x Q E) :
    Triple (fun t : Tracked => P t.site.host) (onHost x) (fun a t => Q a t.site.host)
      fun e t => E e t.site.host := by
  intro t ht
  have hrun := hx t.site.host ht
  rw [onHost_eq]
  cases h : x t.site.host with
  | ok a g =>
    rw [h] at hrun
    exact hrun
  | error e g =>
    rw [h] at hrun
    exact hrun

variable {h : Host} {s s' : HostState}

/-- A loop of calls that can take their effects in their turn makes all of them, or stops at one
that meets an armed failure. -/
theorem triple_changes (step : β → String) {c : β → Call} {l : List β} (calls : List Call)
    (heffects : Call.effects h.naming s (l.map c) = .ok s') :
    Triple (fun t => h.Issued calls s t.site.host) (l.forM fun b => change (step b) (c b))
      (fun _ t => h.Issued (calls ++ l.map c) s' t.site.host)
      fun e t => ∃ done, done <+: calls ++ l.map c ∧ h.Broken done e t.site.host := by
  induction l generalizing calls s with
  | nil =>
    obtain rfl : s = s' := Except.ok.inj heffects
    rw [List.map_nil, List.append_nil]
    exact Triple.pure fun _ ht => ht
  | cons b l ih =>
    rw [List.map_cons] at heffects ⊢
    obtain ⟨u, hb, heffects⟩ := Call.effects_cons_eq_ok.mp heffects
    have hsplit : calls ++ c b :: l.map c = (calls ++ [c b]) ++ l.map c := by simp
    rw [hsplit]
    have hchange : Triple (fun t => h.Issued calls s t.site.host) (change (step b) (c b))
        (fun _ t => h.Issued (calls ++ [c b]) u t.site.host)
        fun e t => h.Broken (calls ++ [c b]) e t.site.host :=
      (triple_ofHost (Triple.within
        ((Host.triple_issue hb).catch fun _ _ he => he.context (step b)))).bind
        fun _ => Triple.modify fun _ ht => ht
    exact (hchange.catch fun _ _ he => ⟨_, List.prefix_append .., he⟩).bind fun _ =>
      ih (calls ++ [c b]) heffects

end Tracked

/-! ## The addresses of a link -/

section Addresses

variable {g : HostState} {name : String} {l : Link}

/-- The calls that follow from a difference of addresses can all take their effects: what is taken
off is there, and what is put on is not. -/
theorem Call.effects_addressCalls (naming : Naming) (hd : g.Distinct)
    (hl : g.find? name = some l) (desired : List IpNet) :
    ∃ u v, effects naming g ((Diff.outside l.addresses desired).map (.deleteAddress name)) = .ok u ∧
      effects naming u ((Diff.outside desired l.addresses).map (.addAddress name)) = .ok v ∧
      Edited g name (l.readdressed desired) v := by
  obtain ⟨u, hu, hthin⟩ := removeAddresses_achieves.effects (Edited.refl hd hl)
  obtain ⟨v, hv, hfull⟩ := completeAddresses_achieves.effects hthin
  exact ⟨u, v, hu, hv, hfull⟩

/-- The addresses of a link are brought to desired ones by the calls that follow from the
difference, unless an armed failure is met. -/
theorem Tracked.triple_assignAddresses {h : Host} (hd : h.state.Distinct)
    (hl : h.state.find? name = some l) (desired : List IpNet) :
    Triple (fun t => t.site.host = h) (assignAddresses name desired)
      (fun _ t => ∃ s', Edited h.state name (l.readdressed desired) s' ∧
        h.Issued ((Diff.between l.addresses desired).addressCalls name) s' t.site.host)
      fun e t => ∃ done, done <+: (Diff.between l.addresses desired).addressCalls name ∧
        h.Broken done e t.site.host := by
  obtain ⟨u, v, hu, hv, hedited⟩ := Call.effects_addressCalls h.naming hd hl desired
  unfold assignAddresses
  -- The link is read, which makes no call.
  have hget : Triple (fun t => t.site.host = h) (onHost (Host.get name))
      (fun m t => m = l ∧ h.Issued [] h.state t.site.host)
      fun e t => h.Broken [] e t.site.host := by
    refine (triple_ofHost (Host.observes_get hl)).weaken (fun t ht => ?_) (fun m t ht => ?_)
      fun e t ht => ?_
    · rw [ht]
      exact .refl h
    · obtain ⟨hm, hg⟩ := ht
      refine ⟨hm, hg.naming, ?_, hg.state, fun hq op => hg.spent op (hq op)⟩
      rw [hg.journal, List.append_nil]
    · obtain ⟨⟨op, -, harmed, hroot⟩, hg⟩ := ht
      refine ⟨fun hq => harmed (hq op), ?_, op, hroot⟩
      rw [hg.journal, List.append_nil]
  refine (hget.catch fun _ _ he => ⟨[], List.nil_prefix, he⟩).bind fun m =>
    Triple.of_pure fun hm => ?_
  subst hm
  dsimp only [Diff.between, Diff.addressCalls]
  refine ((triple_changes _ [] hu).catch fun e t he => ?_).bind fun _ =>
    (triple_changes _ _ hv).post fun _ t ht => ⟨v, hedited, ht⟩
  obtain ⟨done, hdone, he⟩ := he
  exact ⟨done, hdone.trans (List.prefix_append ..), he⟩

end Addresses

/-! ## Differences are minimal, ordered and applicable -/

namespace Diff

/-- The parts of a difference hold what one list has and the other lacks, each item once and in the
order of the first occurrences, so nothing is left of it if the lists are equal as sets, and only
then.  Brought to desired addresses, a link goes through the removals, then the additions, and has
those addresses in the end.  A failure that was armed can stop this, and nothing else can: on a host
without failures it succeeds. -/
theorem between_applies :
    (∀ {α : Type} [DecidableEq α] (current desired : List α),
      Extracts current desired (between current desired).toRemove ∧
        Extracts desired current (between current desired).toAdd ∧
        ((between current desired).toRemove = [] ∧ (between current desired).toAdd = [] ↔
          ∀ a, a ∈ current ↔ a ∈ desired)) ∧
    ∀ (t : Tracked) (name : String) (l : Link) (desired : List IpNet),
      t.site.host.state.Distinct → t.site.host.state.find? name = some l →
        (t.site.host.Quiet → ∃ t', Tracked.assignAddresses name desired t = .ok () t') ∧
        (∀ t', Tracked.assignAddresses name desired t = .ok () t' →
          t'.site.host.journal =
            t.site.host.journal ++ (between l.addresses desired).addressCalls name ∧
          ∃ m, t'.site.host.state.find? name = some m ∧ ∀ a, a ∈ m.addresses ↔ a ∈ desired) ∧
        ∀ e t', Tracked.assignAddresses name desired t = .error e t' →
          (∃ op, e.root = Host.injected op) ∧
          ∃ done, done <+: (between l.addresses desired).addressCalls name ∧
            t'.site.host.journal = t.site.host.journal ++ done := by
  refine ⟨fun current desired => ⟨extracts_outside .., extracts_outside .., between_eq_nil_iff⟩,
    fun t name l desired hd hl => ?_⟩
  have htriple := Tracked.triple_assignAddresses hd hl desired
  refine ⟨fun hq => ?_, fun t' hrun => ?_, fun e t' hrun => ?_⟩
  · cases hrun : Tracked.assignAddresses name desired t with
    | ok u t' => exact ⟨t', rfl⟩
    | error e t' =>
      obtain ⟨_, -, hbroken⟩ := htriple.of_error rfl hrun
      exact absurd hq hbroken.not_quiet
  · obtain ⟨s', hedited, hissued⟩ := htriple.of_ok rfl hrun
    refine ⟨hissued.journal, l.readdressed desired, ?_, fun a => Link.mem_addresses_readdressed⟩
    rw [hissued.state, hedited.find]
  · obtain ⟨done, hdone, hbroken⟩ := htriple.of_error rfl hrun
    exact ⟨hbroken.injected, done, hdone, hbroken.journal⟩

/-- An operation on a bridge that has one of its addresses twice. -/
def repeatingUpdate : Tracked :=
  ⟨{ SiteRequest.calmSite with
      stored := { SiteRequest.calmSite.stored with
        machine := ⟨⟨.standard,
          ⟨2, [⟨1, "rol.x", .bridge, [.v4 (.ofAddress24 0x0A000101), .v4 (.ofAddress24 0x0A000201),
            .v4 (.ofAddress24 0x0A000101)], none, none, none, true⟩], .const []⟩,
          [], fun _ => none⟩, .none⟩ } },
    .start "update_bridge" "rol.x" .absent⟩

/-- What stands twice is taken off once, and what is asked for twice is put on once. -/
theorem between_applies_repeatingUpdate :
    repeatingUpdate.site.host.state.Distinct ∧ repeatingUpdate.site.host.Quiet ∧
      ∃ t', Tracked.assignAddresses "rol.x" [.v4 (.ofAddress24 0x0A000301),
          .v4 (.ofAddress24 0x0A000201), .v4 (.ofAddress24 0x0A000301)] repeatingUpdate =
          .ok () t' ∧
        t'.site.host.journal = [.deleteAddress "rol.x" (.v4 (.ofAddress24 0x0A000101)),
          .addAddress "rol.x" (.v4 (.ofAddress24 0x0A000301))] := by
  have hquiet : repeatingUpdate.site.host.Quiet := fun _ => rfl
  have hd : repeatingUpdate.site.host.state.Distinct := by unfold HostState.Distinct; decide
  obtain ⟨hsucceeds, hjournal, -⟩ := between_applies.2 repeatingUpdate "rol.x"
    ⟨1, "rol.x", .bridge, [.v4 (.ofAddress24 0x0A000101), .v4 (.ofAddress24 0x0A000201),
      .v4 (.ofAddress24 0x0A000101)], none, none, none, true⟩
    [.v4 (.ofAddress24 0x0A000301), .v4 (.ofAddress24 0x0A000201), .v4 (.ofAddress24 0x0A000301)]
    hd rfl
  obtain ⟨t', hrun⟩ := hsucceeds hquiet
  refine ⟨hd, hquiet, t', hrun, ?_⟩
  rw [(hjournal t' hrun).1]
  decide

end Diff

end HostNet
