/-
VLANs that outlive the link below them.

A deletion takes the deleted link along with the VLANs right on top of it, in one pass.  A VLAN that
stands on one of those is not looked at again: it stays, and the link below it is gone.  This is the
only way in which a VLAN loses the link below it, so a run reaches hosts with such VLANs exactly if
it deletes a link with VLANs two levels high on it (`Host.grounded_iff_not_strands`).
-/

import HostNet.Proofs.HostRuns
import Mathlib.Data.List.Induction

namespace HostNet

/-- Every VLAN stands on a link that is there. -/
def HostState.Grounded (s : HostState) : Prop :=
  ∀ v ∈ s.links, ∀ p, v.parent = some p → (s.find? p).isSome

/-- A step deletes a link while a VLAN on it has another VLAN on top. -/
def HostStep.Strands (h : Host) (x : HostStep) : Prop :=
  ∃ name v w, x = .call (.deleteLink name) ∧ h.succeeds (.deleteLink name) = true ∧
    v ∈ h.state.links ∧ v.parent = some name ∧ w ∈ h.state.links ∧ w.parent = some v.name

namespace HostState

variable {s g : HostState} {naming : Naming}

/-! ## What a deletion leaves -/

/-- A deletion takes the link and what stands right on top of it, and nothing else. -/
theorem isSome_find?_dropped (hd : s.Distinct) (name n : String) :
    ((s.dropped name).find? n).isSome ↔
      ∃ l, s.find? n = some l ∧ l.name ≠ name ∧ l.parent ≠ some name := by
  rw [find?_dropped hd]
  cases s.find? n with
  | none => simp
  | some l =>
    unfold Link.afterRemoval
    by_cases hgone : l.name = name ∨ l.parent = some name
    · simpa [hgone] using fun hn => hgone.resolve_left hn
    · obtain ⟨hn, hp⟩ := not_or.mp hgone
      simp [hn, hp]

/-- What is left stands where it stood before. -/
theorem exists_of_mem_dropped {name : String} {m : Link} (hm : m ∈ (s.dropped name).links) :
    ∃ l ∈ s.links, m.parent = l.parent ∧ l.name ≠ name ∧ l.parent ≠ some name := by
  obtain ⟨l, hl, hlm⟩ := List.mem_filterMap.mp hm
  refine ⟨l, hl, (Link.freed_of_afterRemoval hlm).parent_eq, ?_⟩
  unfold Link.afterRemoval at hlm
  split at hlm
  · cases hlm
  · next hstays => exact not_or.mp hstays

/-! ## Effects -/

namespace Grounded

/-- A new link does not take away what others stand on. -/
theorem insert (h : s.Grounded) {l : Link}
    (hl : ∀ p, l.parent = some p → (s.find? p).isSome) : (s.insert l).Grounded := by
  have hkeep {p : String} (hp : (s.find? p).isSome) : ((s.insert l).find? p).isSome := by
    rw [find?_insert]
    split
    · rfl
    · exact hp
  exact forall_mem_insert (φ := fun v => ∀ p, v.parent = some p → ((s.insert l).find? p).isSome)
    (fun v hv p hp => hkeep (h v hv p hp)) fun p hp => hkeep (hl p hp)

theorem update (h : s.Grounded) {name : String} {f : Link → Link}
    (hname : ∀ l, (f l).name = l.name) (hparent : ∀ l, (f l).parent = l.parent) :
    (s.update name f).Grounded := by
  have hkeep {p : String} (hp : (s.find? p).isSome) : ((s.update name f).find? p).isSome := by
    rw [find?_update hname]
    split
    · next hpn => rw [Option.isSome_map, ← hpn, hp]
    · exact hp
  refine forall_mem_update
    (φ := fun v => ∀ p, v.parent = some p → ((s.update name f).find? p).isSome)
    (fun v hv p hp => hkeep (h v hv p hp)) fun l hl p hp => hl p ?_
  rw [← hparent l, hp]

/-- A deletion leaves all VLANs grounded if none of those that it takes has another one on top. -/
theorem dropped (h : s.Grounded) (hd : s.Distinct) {name : String}
    (hflat : ∀ v ∈ s.links, v.parent = some name → ∀ w ∈ s.links, w.parent ≠ some v.name) :
    (s.dropped name).Grounded := by
  intro m hm p hp
  obtain ⟨w, hw, hsame, -, hparent⟩ := exists_of_mem_dropped hm
  have hwp : w.parent = some p := hsame ▸ hp
  obtain ⟨v, hv⟩ := Option.isSome_iff_exists.mp (h w hw p hwp)
  have hvp : v.name = p := name_of_find? hv
  refine (isSome_find?_dropped hd name p).mpr ⟨v, hv, ?_, ?_⟩
  · rw [hvp]
    rintro rfl
    exact hparent hwp
  · intro hv'
    exact hflat v (mem_of_find? hv) hv' w hw (hvp ▸ hwp)

/-- Any other effect leaves them grounded. -/
theorem effect (h : s.Grounded) {c : Call} (hc : c.effect naming s = .ok g)
    (hother : ∀ name, c ≠ .deleteLink name) : g.Grounded := by
  rcases Call.effect_shape hc with ⟨l, -, -, hparent, rfl⟩ | ⟨-, hshape⟩
  · exact h.insert hparent
  · rcases hshape with ⟨name, f, hname, -, hparent, rfl⟩ | ⟨name, hdelete, -⟩ | ⟨hlinks, -⟩
    · exact h.update hname hparent
    · exact absurd hdelete (hother name)
    · unfold Grounded find? at *
      rw [hlinks]
      exact h

end Grounded

/-- A VLAN on top of a VLAN loses the link below it as the link below that one is deleted. -/
theorem not_grounded_dropped (h : s.Built) {name : String} {v w : Link} (hv : v ∈ s.links)
    (hvp : v.parent = some name) (hw : w ∈ s.links) (hwp : w.parent = some v.name) :
    ¬ (s.dropped name).Grounded := by
  -- Names grow from the bottom of the stack to its top, so the three links are different.
  have hlt {l : Link} {p : String} (hl : l ∈ s.links) (hp : l.parent = some p) : p < l.name := by
    obtain ⟨hvlan, hisVlan, -⟩ := h.wellNamed l hl
    obtain ⟨q, id, hq, -, hname⟩ := hvlan (hisVlan (by rw [hp]; rfl))
    obtain rfl := Option.some.inj (hp.symm.trans hq)
    exact hname ▸ Scope.lt_vlanName p id
  have hvn : name < v.name := hlt hv hvp
  have hwv : v.name < w.name := hlt hw hwp
  have hstays : w.afterRemoval name =
      some (if w.master = some name then { w with master := none } else w) := by
    refine if_neg (not_or.mpr ⟨(hvn.trans hwv).ne', fun hp => ?_⟩)
    exact hvn.ne' (Option.some.inj (hwp.symm.trans hp))
  intro hgrounded
  have hbelow : ((s.dropped name).find? v.name).isSome := by
    refine hgrounded _ (List.mem_filterMap.mpr ⟨w, hw, hstays⟩) v.name ?_
    split <;> exact hwp
  obtain ⟨l, hl, -, hp⟩ := (isSome_find?_dropped h.distinct name v.name).mp hbelow
  rw [find?_of_mem h.distinct hv] at hl
  exact hp (Option.some.inj hl ▸ hvp)

end HostState

/-! ## Steps and runs -/

namespace Host

open HostState

/-- A step leaves a grounded host grounded exactly if it does not strand a VLAN. -/
theorem grounded_next_iff {h : Host} (hb : h.state.Built) (hg : h.state.Grounded)
    (x : HostStep) : (x.next h).state.Grounded ↔ ¬ x.Strands h := by
  constructor
  · rintro hnext ⟨name, v, w, rfl, hdeletes, hv, hvp, hw, hwp⟩
    obtain ⟨-, hstate⟩ := Call.effect_deleteLink.mp (effect_of_succeeds hdeletes)
    exact not_grounded_dropped hb hv hvp hw hwp (hstate ▸ hnext)
  · intro hstrands
    rcases x.next_cases h with ⟨c, rfl, hsucceeds, heffect, -⟩ | ⟨hstate, -⟩
    · by_cases hdelete : ∃ name, c = .deleteLink name
      · obtain ⟨name, rfl⟩ := hdelete
        obtain ⟨-, hstate⟩ := Call.effect_deleteLink.mp heffect
        rw [hstate]
        exact hg.dropped hb.distinct fun v hv hvp w hw hwp =>
          hstrands ⟨name, v, w, rfl, hsucceeds, hv, hvp, hw, hwp⟩
      · exact hg.effect heffect (not_exists.mp hdelete)
    · rw [hstate]
      exact hg

/-- All states of a run are grounded exactly if none of its steps deletes a link with VLANs two
levels high on it.  What is deleted goes with the VLANs right on top of it, and with nothing
else. -/
theorem grounded_iff_not_strands (naming : Naming) (devices : List String)
    (steps : List HostStep) :
    ((∀ pre, pre <+: steps → ((seeded naming devices).after pre).state.Grounded) ↔
      ∀ pre x, pre ++ [x] <+: steps → ¬ x.Strands ((seeded naming devices).after pre)) ∧
    ∀ name, let h := (seeded naming devices).after steps
      h.succeeds (.deleteLink name) = true → ∀ n,
        ((h.afterCall (.deleteLink name)).state.find? n).isSome ↔
          ∃ l, h.state.find? n = some l ∧ l.name ≠ name ∧ l.parent ≠ some name := by
  have hbuilt (pre : List HostStep) : ((seeded naming devices).after pre).state.Built :=
    built_after (built_seeded naming devices) pre
  have hsnoc (pre : List HostStep) (x : HostStep) :
      (seeded naming devices).after (pre ++ [x]) =
        x.next ((seeded naming devices).after pre) := after_append ..
  refine ⟨⟨fun hgrounded pre x hpre => ?_, fun hsteps pre hpre => ?_⟩, ?_⟩
  · -- A step between two grounded states strands nothing.
    have hbefore := hgrounded pre ((List.prefix_append pre [x]).trans hpre)
    have hafter := hgrounded (pre ++ [x]) hpre
    rw [hsnoc] at hafter
    exact (grounded_next_iff (hbuilt pre) hbefore x).mp hafter
  · -- The induction is on the steps made so far: each of them finds all VLANs grounded.
    induction pre using List.reverseRecOn with
    | nil =>
      intro v hv p hp
      rw [(plain_seeded naming devices v hv).2.1] at hp
      cases hp
    | append_singleton pre x ih =>
      have hbefore := ih ((List.prefix_append pre [x]).trans hpre)
      rw [hsnoc]
      exact (grounded_next_iff (hbuilt pre) hbefore x).mpr (hsteps pre x hpre)
  · intro name h hdeletes n
    obtain ⟨-, hstate⟩ := Call.effect_deleteLink.mp (effect_of_succeeds hdeletes)
    rw [hstate]
    exact isSome_find?_dropped (hbuilt steps).distinct name n

/-- A VLAN, and another one on top of it. -/
def stackingSteps : List HostStep :=
  [.call (.createVlan "eth0" ⟨100, by decide, by decide⟩),
    .call (.createVlan "eth0.100" ⟨200, by decide, by decide⟩)]

theorem grounded_iff_not_strands_stackingSteps :
    (∀ pre, pre <+: stackingSteps →
      ((seeded .standard ["eth0"]).after pre).state.Grounded) ∧
    let h := (seeded .standard ["eth0"]).after stackingSteps
    h.succeeds (.deleteLink "eth0") = true ∧
      ¬ ((h.afterCall (.deleteLink "eth0")).state.find? "eth0.100").isSome ∧
      ((h.afterCall (.deleteLink "eth0")).state.find? "eth0.100.200").isSome := by
  obtain ⟨hgrounded, hdeleted⟩ := grounded_iff_not_strands .standard ["eth0"] stackingSteps
  have hdeletes : ((seeded .standard ["eth0"]).after stackingSteps).succeeds
      (.deleteLink "eth0") = true := by decide +kernel
  refine ⟨hgrounded.mpr fun pre x hpre hstrands => ?_, hdeletes, fun hlower => ?_, ?_⟩
  · -- None of the steps is a deletion.
    obtain ⟨name, v, w, rfl, -⟩ := hstrands
    have hmem := hpre.subset (List.mem_append_right pre (List.mem_singleton_self _))
    simp [stackingSteps] at hmem
  · obtain ⟨l, hl, -, hparent⟩ := (hdeleted "eth0" hdeletes "eth0.100").mp hlower
    have hfind : (((seeded .standard ["eth0"]).after stackingSteps).state.find? "eth0.100").bind
        Link.parent = some "eth0" := by decide +kernel
    rw [hl] at hfind
    exact hparent hfind
  · refine (hdeleted "eth0" hdeletes "eth0.100.200").mpr ⟨_, rfl, ?_, ?_⟩ <;> decide +kernel

/-- As the device below both is deleted, the upper VLAN is left without the lower one. -/
theorem not_grounded_stackingSteps :
    ¬ ((seeded .standard ["eth0"]).after
      (stackingSteps ++ [.call (.deleteLink "eth0")])).state.Grounded := by
  intro hgrounded
  obtain ⟨v, hv, hparent⟩ : ∃ v ∈ ((seeded .standard ["eth0"]).after
      (stackingSteps ++ [.call (.deleteLink "eth0")])).state.links,
      v.parent = some "eth0.100" := by decide +kernel
  have hlower : (((seeded .standard ["eth0"]).after
      (stackingSteps ++ [.call (.deleteLink "eth0")])).state.find? "eth0.100").isSome = false := by
    decide +kernel
  rw [hgrounded v hv "eth0.100" hparent] at hlower
  cases hlower

end Host

end HostNet
