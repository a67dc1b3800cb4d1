/-
Changes of one link, and loops that change one link for each item of a list.

`Edited` follows a single link through several calls.  `Changed` says what a loop comes to: each
item has changed the link under its key, and all others are as they were.  A loop has this effect
if each of its rounds has it for its own item, because no two items share a key.
-/

import HostNet.Proofs.Primitives

namespace HostNet

/-! ## One link -/

/-- From `s` to `s'` the link `name` has become `l`, and all other links and the rules are as
they were. -/
structure Edited (s : HostState) (name : String) (l : Link) (s' : HostState) : Prop where
  distinct : s'.Distinct
  rules : s'.rules = s.rules
  find : s'.find? name = some l
  other : ∀ n, n ≠ name → s'.find? n = s.find? n

namespace Edited

variable {s t : HostState} {name : String} {l : Link} {calm : Bool} {naming : Naming}

theorem refl (hd : s.Distinct) (hl : s.find? name = some l) : Edited s name l s :=
  ⟨hd, rfl, hl, fun _ _ => rfl⟩

theorem update (h : Edited s name l t) {f : Link → Link} (hf : ∀ l, (f l).name = l.name) :
    Edited s name (f l) (t.update name f) where
  distinct := h.distinct.update hf
  rules := h.rules
  find := by
    rw [HostState.find?_update hf, if_pos rfl, h.find, Option.map_some]
  other n hn := by
    rw [HostState.find?_update hf, if_neg hn, h.other n hn]

theorem insert (hd : s.Distinct) (l : Link) : Edited s l.name (s.indexed l) (s.insert l) where
  distinct := hd.insert l
  rules := rfl
  find := by rw [HostState.find?_insert, if_pos rfl]
  other n hn := by rw [HostState.find?_insert, if_neg hn]

/-- A call whose effect is a change of the link. -/
theorem perform {c : Call} {f : Link → Link} (hf : ∀ l, (f l).name = l.name)
    (hok : ∀ t u, c.effect naming t = .ok u → u = t.update name f)
    (hcalm : calm = true → ∀ t, Edited s name l t → ∃ u, c.effect naming t = .ok u) :
    Host.Achieves calm naming (Edited s name l) (Host.perform c) fun _ => Edited s name (f l) :=
  Host.Achieves.perform (fun t u ht hu => hok t u hu ▸ ht.update hf) hcalm

end Edited

/-! ## One link for each item of a list -/

/-- From `s` to `s'` every item of `done` has changed the link under its key as `step` says, and all
other links and the rules have stayed. -/
structure Changed {β : Type} (key : β → String) (step : β → Option Link → Link → Prop)
    (s : HostState) (done : List β) (s' : HostState) : Prop where
  distinct : s'.Distinct
  rules : s'.rules = s.rules
  set : ∀ b ∈ done, ∃ l, s'.find? (key b) = some l ∧ step b (s.find? (key b)) l
  other : ∀ n, (∀ b ∈ done, key b ≠ n) → s'.find? n = s.find? n

namespace Changed

variable {β : Type} {key : β → String} {step : β → Option Link → Link → Prop}
  {s t u : HostState} {calm : Bool} {naming : Naming}

theorem refl (hd : s.Distinct) : Changed key step s [] s where
  distinct := hd
  rules := rfl
  set _ hb := absurd hb List.not_mem_nil
  other _ _ := rfl

/-- More items, under keys of their own. -/
theorem append {done more : List β} (h : Changed key step s done t)
    (hmore : Changed key step t more u) (hnew : ∀ a ∈ done, ∀ b ∈ more, key a ≠ key b) :
    Changed key step s (done ++ more) u where
  distinct := hmore.distinct
  rules := hmore.rules.trans h.rules
  set := by
    intro a ha
    -- The later items leave the links of the earlier ones alone, and the other way round.
    rcases List.mem_append.mp ha with ha | ha
    · obtain ⟨l, hl, hstep⟩ := h.set a ha
      refine ⟨l, ?_, hstep⟩
      rw [hmore.other (key a) fun b hb => (hnew a ha b hb).symm]
      exact hl
    · obtain ⟨l, hl, hstep⟩ := hmore.set a ha
      rw [h.other (key a) fun b hb => hnew b hb a ha] at hstep
      exact ⟨l, hl, hstep⟩
  other := by
    intro n hn
    rw [hmore.other n fun b hb => hn b (List.mem_append_right _ hb),
      h.other n fun b hb => hn b (List.mem_append_left _ hb)]

/-- The order of the items does not matter. -/
theorem congr {l m : List β} (h : Changed key step s l t) (hlm : ∀ b, b ∈ m ↔ b ∈ l) :
    Changed key step s m t where
  distinct := h.distinct
  rules := h.rules
  set b hb := h.set b ((hlm b).mp hb)
  other n hn := h.other n fun b hb => hn b ((hlm b).mpr hb)

/-- What every step keeps of a link is kept of each. -/
theorem find?_of_find? (rel : Link → Link → Prop) {done : List β} (h : Changed key step s done t)
    (hrefl : ∀ l, rel l l) (hstep : ∀ b l m, step b (some l) m → rel l m) {n : String} {l : Link}
    (hl : s.find? n = some l) : ∃ m, t.find? n = some m ∧ rel l m := by
  by_cases hn : ∃ b ∈ done, key b = n
  · obtain ⟨b, hb, rfl⟩ := hn
    obtain ⟨m, hm, hlm⟩ := h.set b hb
    rw [hl] at hlm
    exact ⟨m, hm, hstep b l m hlm⟩
  · exact ⟨l, (h.other n fun b hb hbn => hn ⟨b, hb, hbn⟩).trans hl, hrefl l⟩

/-- A loop changes the links of all its items if each round changes that of its own. -/
theorem forM {l : List β} {act : β → Action Host Unit} (hd : s.Distinct)
    (hkeys : (l.map key).Nodup)
    (h : ∀ done b rest t, l = done ++ b :: rest → Changed key step s done t →
      Host.Achieves calm naming (fun u => u = t) (act b) fun _ => Changed key step t [b]) :
    Host.Achieves calm naming (fun u => u = s) (l.forM act) fun _ => Changed key step s l := by
  refine (Host.Achieves.forM (I := Changed key step s) ?_).pre ?_
  · intro done b rest hl
    refine Host.Achieves.of_each fun t ht => (h done b rest t hl ht).post fun _ u hu => ?_
    refine ht.append hu fun a ha c hc => ?_
    -- The round is for one item, whose key is not among those before.
    rw [List.mem_singleton.mp hc]
    rw [hl] at hkeys
    exact Action.key_ne_of_nodup hkeys ha
  · rintro _ rfl
    exact refl hd

end Changed

theorem Edited.changed {β : Type} {key : β → String} {step : β → Option Link → Link → Prop} {b : β}
    {s t : HostState} {l : Link} (h : Edited s (key b) l t) (hstep : step b (s.find? (key b)) l) :
    Changed key step s [b] t where
  distinct := h.distinct
  rules := h.rules
  set a ha := by
    obtain rfl := List.mem_singleton.mp ha
    exact ⟨l, h.find, hstep⟩
  other n hn := h.other n (hn b (List.mem_singleton_self b)).symm

/-- A loop passes over the items for which there is nothing to do. -/
theorem forM_eq_forM_filter {β : Type} {act : β → Action Host Unit} {p : β → Bool}
    (h : ∀ b, p b = false → act b = pure ()) (l : List β) :
    l.forM act = (l.filter p).forM act := by
  induction l with
  | nil => rfl
  | cons b l ih =>
    cases hb : p b with
    | true =>
      rw [List.filter_cons_of_pos hb]
      show (act b >>= fun _ => l.forM act) = (act b >>= fun _ => (l.filter p).forM act)
      rw [ih]
    | false =>
      rw [List.filter_cons_of_neg (by simp [hb]), ← ih]
      -- A round with nothing to do is no action at all.
      show (act b >>= fun _ => l.forM act) = l.forM act
      rw [h b hb, pure_bind]

end HostNet
