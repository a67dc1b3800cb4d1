/-
Runs of calls on the pool of subnets.

`SubnetPool.call` is one call with its answer: one that fails leaves the pool as it is.  From the
subnets of settings that pass the check, no run of calls loses a subnet or gives it out twice, since
what is taken was listed and had been free.  The listed subnets are whole networks of 24 bits, so
each address is in one of them at most, and a gateway is in the subnet that it belongs to.
-/

import HostNet.Proofs.FreeSubnets
import HostNet.Settings.Basic

namespace HostNet

open HostNet.Action

/-! ## Subnets of settings that pass the check -/

namespace Settings

/-- A project subnet has 24 bits, and none of its host bits is set. -/
theorem isProjectSubnet_iff {n : Ipv4Net} :
    isProjectSubnet n = true ↔ n.length = 24 ∧ n.truncated = n := by
  rw [isProjectSubnet, Bool.and_eq_true, beq_iff_eq, beq_iff_eq]

/-- Subnets that pass the check are whole, not among those before them, and listed once. -/
theorem of_checkSubnets {before subnets : List Ipv4Net} (h : checkSubnets before subnets = .ok ()) :
    (∀ n ∈ subnets, (n.length = 24 ∧ n.truncated = n) ∧ n ∉ before) ∧ subnets.Nodup := by
  induction subnets generalizing before with
  | nil => exact ⟨nofun, .nil⟩
  | cons n subnets ih =>
    rw [checkSubnets] at h
    split at h
    · cases h
    · next hn =>
      split at h
      · cases h
      · next hbefore =>
        have hn : n.length = 24 ∧ n.truncated = n := isProjectSubnet_iff.mp (by simpa using hn)
        have hbefore : n ∉ before := by simpa using hbefore
        obtain ⟨hrest, hnodup⟩ := ih h
        refine ⟨List.forall_mem_cons.mpr ⟨⟨hn, hbefore⟩, fun m hm => ?_⟩,
          List.nodup_cons.mpr ⟨fun hmem => ?_, hnodup⟩⟩
        · obtain ⟨hm, hnot⟩ := hrest m hm
          exact ⟨hm, fun hmem => hnot (List.mem_cons_of_mem _ hmem)⟩
        · exact (hrest n hmem).2 (List.mem_cons_self ..)

/-- The subnets of settings that pass the check are distinct networks of 24 bits. -/
theorem subnets_of_check {s : Settings} (h : s.check = .ok ()) :
    (∀ n ∈ s.subnets, n.length = 24 ∧ n.truncated = n) ∧ s.subnets.Nodup := by
  -- The settings are checked one after the other, and the subnets come third.
  obtain ⟨_, -, h⟩ := except_bind_eq_ok.mp h
  obtain ⟨_, -, h⟩ := except_bind_eq_ok.mp h
  obtain ⟨_, hsubnets, -⟩ := except_bind_eq_ok.mp h
  obtain ⟨hall, hnodup⟩ := of_checkSubnets hsubnets
  exact ⟨fun n hn => (hall n hn).1, hnodup⟩

end Settings

/-! ## Addresses in subnets of 24 bits -/

namespace Network

variable {m n : Ipv4Net}

/-- In a subnet of 24 bits are the addresses with the same first three bytes. -/
theorem contains_iff_of_length (hn : n.length = 24) (a : Address .v4) :
    n.contains a = true ↔ a.toNat / 256 = n.address.toNat / 256 := by
  rw [contains, beq_iff_eq, hostBits, hn, show Family.width .v4 - 24 = 8 from rfl,
    ← BitVec.toNat_inj, BitVec.toNat_ushiftRight, BitVec.toNat_ushiftRight,
    Nat.shiftRight_eq_div_pow, Nat.shiftRight_eq_div_pow]

/-- Whole subnets of 24 bits are the same if their addresses begin alike. -/
theorem eq_of_div_eq (hm : m.length = 24 ∧ m.truncated = m) (hn : n.length = 24 ∧ n.truncated = n)
    (h : m.address.toNat / 256 = n.address.toNat / 256) : m = n := by
  obtain ⟨-, hmbits⟩ := toNat_address_of_truncated hm.1 hm.2
  obtain ⟨-, hnbits⟩ := toNat_address_of_truncated hn.1 hn.2
  apply rank_inj
  rw [rank, rank, hm.1, hn.1]
  omega

/-- Whole subnets with an address in common are the same. -/
theorem eq_of_contains (hm : m.length = 24 ∧ m.truncated = m)
    (hn : n.length = 24 ∧ n.truncated = n) {a : Address .v4} (hma : m.contains a = true)
    (hna : n.contains a = true) : m = n := by
  rw [contains_iff_of_length hm.1] at hma
  rw [contains_iff_of_length hn.1] at hna
  exact eq_of_div_eq hm hn (hma.symm.trans hna)

/-- The gateway of a whole subnet is an address of this subnet and of no other one. -/
theorem contains_firstHostOf (hn : n.length = 24 ∧ n.truncated = n) :
    ∃ g : Ipv4Net, firstHostOf n = .v4 g ∧
      ∀ m : Ipv4Net, m.length = 24 ∧ m.truncated = m → (m.contains g.address = true ↔ m = n) := by
  let g : Ipv4Net :=
    .ofAddress24 (BitVec.ofNat 32 (min (n.truncated.address.toNat + 1) 0xFFFFFFFF))
  refine ⟨g, rfl, fun m hm => ?_⟩
  obtain ⟨hlt, hbits⟩ := toNat_address_of_truncated hn.1 hn.2
  have hg : g.address.toNat = n.address.toNat + 1 := by
    change (BitVec.ofNat 32 (min (n.truncated.address.toNat + 1) 0xFFFFFFFF)).toNat = _
    rw [hn.2, BitVec.toNat_ofNat]
    omega
  -- The last byte of the network is zero, so that of the gateway is one.
  rw [contains_iff_of_length hm.1, hg]
  constructor
  · intro h
    exact eq_of_div_eq hm hn (by omega)
  · rintro rfl
    omega

end Network

/-! ## One call -/

/-- A call on a pool. -/
inductive PoolCall where
  | allocate
  | reserve (n : Ipv4Net)
  | release (n : Ipv4Net)
  | isTaken (n : Ipv4Net)

/-- What a pool answers to a call that succeeds. -/
inductive PoolAnswer where
  | done
  | subnet (n : Ipv4Net)
  | flag (b : Bool)
  deriving DecidableEq

namespace SubnetPool

/-- What a pool answers to a call, and the pool after it.  The answer to a release is whether the
subnet was taken. -/
def call (p : SubnetPool) : PoolCall → Except Error PoolAnswer × SubnetPool
  | .allocate =>
    match p.allocate with
    | .ok (n, q) => (.ok (.subnet n), q)
    | .error e => (.error e, p)
  | .reserve n =>
    match p.reserve n with
    | .ok q => (.ok .done, q)
    | .error e => (.error e, p)
  | .release n => (.ok (.flag (p.isTaken n)), p.release n)
  | .isTaken n => (.ok (.flag (p.isTaken n)), p)

/-- The pool after some calls. -/
def after (p : SubnetPool) (calls : List PoolCall) : SubnetPool :=
  calls.foldl (fun p c => (p.call c).2) p

variable {p q : SubnetPool} {n : Ipv4Net}

/-- A subnet is available if it was given to the pool and is not taken. -/
theorem mem_available : n ∈ p.available ↔ n ∈ p.subnets ∧ n ∉ p.taken := by
  rw [available, List.mem_filter]
  simp

theorem isTaken_eq (p : SubnetPool) (n : Ipv4Net) :
    p.isTaken n = decide (n.truncated ∈ p.taken) := by
  rw [isTaken, List.contains_eq_mem]

/-- An allocation takes the first subnet that is available, and fails only where there is none. -/
theorem call_allocate_cases (p : SubnetPool) :
    (∃ e, p.available = [] ∧ p.call .allocate = (.error e, p)) ∨
      ∃ n rest, p.available = n :: rest ∧
        p.call .allocate = (.ok (.subnet n), { p with taken := n :: p.taken }) := by
  rw [call, allocate]
  cases p.available with
  | nil => exact .inl ⟨_, rfl, rfl⟩
  | cons n rest => exact .inr ⟨n, rest, rfl, rfl⟩

/-- A reservation takes the very subnet that it names, if that is available. -/
theorem call_reserve_cases (p : SubnetPool) (n : Ipv4Net) :
    (∃ e, n.truncated ∉ p.available ∧ p.call (.reserve n) = (.error e, p)) ∨
      n.truncated ∈ p.available ∧
        p.call (.reserve n) = (.ok .done, { p with taken := n.truncated :: p.taken }) := by
  rw [mem_available, call, reserve]
  by_cases hsubnet : n.truncated ∈ p.subnets
  · by_cases htaken : n.truncated ∈ p.taken
    · simp [hsubnet, htaken]
    · simp [hsubnet, htaken]
  · simp [hsubnet]

theorem release_of_not_mem (h : n.truncated ∉ p.taken) : p.release n = p := by
  have htaken : p.taken.filter (· != n.truncated) = p.taken := by
    rw [List.filter_eq_self]
    intro m hm
    exact bne_iff_ne.mpr fun hmn => h (hmn ▸ hm)
  rw [release, htaken]

/-- How a pool answers each call, and what is taken then.  A call that fails changes nothing, and
neither does the release of a subnet that is not taken. -/
structure Answers (p : SubnetPool) : Prop where
  allocate : ∀ n, (p.call .allocate).1 = .ok (.subnet n) ↔ p.available.head? = some n
  allocate_fails : (∃ e, (p.call .allocate).1 = .error e) ↔ p.available = []
  allocated : ∀ n, (p.call .allocate).1 = .ok (.subnet n) →
    (p.call .allocate).2.taken = n :: p.taken
  reserve : ∀ n, (p.call (.reserve n)).1 = .ok .done ↔ n.truncated ∈ p.available
  reserve_fails : ∀ n, (∃ e, (p.call (.reserve n)).1 = .error e) ↔ n.truncated ∉ p.available
  reserved : ∀ n, n.truncated ∈ p.available →
    (p.call (.reserve n)).2.taken = n.truncated :: p.taken
  release : ∀ n, (p.call (.release n)).1 = .ok (.flag (decide (n.truncated ∈ p.taken)))
  released : ∀ n m, m ∈ (p.call (.release n)).2.taken ↔ m ∈ p.taken ∧ m ≠ n.truncated
  release_idle : ∀ n, n.truncated ∉ p.taken → (p.call (.release n)).2 = p
  isTaken : ∀ n, p.call (.isTaken n) = (.ok (.flag (decide (n.truncated ∈ p.taken))), p)
  failed : ∀ c e, (p.call c).1 = .error e → (p.call c).2 = p

/-- Each call is answered by what the pool has when it is made. -/
theorem answers (p : SubnetPool) : p.Answers where
  allocate n := by rcases p.call_allocate_cases with ⟨e, h, hc⟩ | ⟨m, rest, h, hc⟩ <;> simp [h, hc]
  allocate_fails := by
    rcases p.call_allocate_cases with ⟨e, h, hc⟩ | ⟨m, rest, h, hc⟩ <;> simp [h, hc]
  allocated n hn := by
    rcases p.call_allocate_cases with ⟨e, h, hc⟩ | ⟨m, rest, h, hc⟩
    · rw [hc] at hn
      cases hn
    · rw [hc] at hn ⊢
      cases hn
      rfl
  reserve n := by rcases p.call_reserve_cases n with ⟨e, h, hc⟩ | ⟨h, hc⟩ <;> simp [h, hc]
  reserve_fails n := by rcases p.call_reserve_cases n with ⟨e, h, hc⟩ | ⟨h, hc⟩ <;> simp [h, hc]
  reserved n hn := by
    rcases p.call_reserve_cases n with ⟨e, h, hc⟩ | ⟨h, hc⟩
    · exact absurd hn h
    · rw [hc]
  release n := by rw [call, isTaken_eq]
  released _ _ := mem_release
  release_idle _ hn := release_of_not_mem hn
  isTaken n := by rw [call, isTaken_eq]
  -- A release and a question never fail, and the others leave the pool when they do.
  failed c e he := by
    cases c with
    | allocate =>
      rcases p.call_allocate_cases with ⟨e, h, hc⟩ | ⟨m, rest, h, hc⟩
      · rw [hc]
      · rw [hc] at he
        cases he
    | reserve n =>
      rcases p.call_reserve_cases n with ⟨e, h, hc⟩ | ⟨h, hc⟩
      · rw [hc]
      · rw [hc] at he
        cases he
    | release n => cases he
    | isTaken n => cases he

/-! ## Runs of calls -/

/-- The pool has these subnets, and what is taken is some of them, each taken once. -/
structure Accounts (subnets : List Ipv4Net) (p : SubnetPool) : Prop where
  subnets_eq : p.subnets = subnets
  nodup : p.taken.Nodup
  taken_subset : ∀ n ∈ p.taken, n ∈ subnets

section Accounts

variable {subnets : List Ipv4Net}

/-- At first every subnet is available. -/
theorem Accounts.ofList (h : ∀ n ∈ subnets, n.truncated = n) :
    (ofList subnets).Accounts subnets where
  subnets_eq := by
    rw [SubnetPool.ofList, List.map_congr_left h, List.map_id']
  nodup := .nil
  taken_subset := nofun

/-- A free subnet is taken. -/
theorem Accounts.take (h : p.Accounts subnets) (hn : n ∈ p.available) :
    Accounts subnets { p with taken := n :: p.taken } where
  subnets_eq := h.subnets_eq
  nodup := List.nodup_cons.mpr ⟨(mem_available.mp hn).2, h.nodup⟩
  taken_subset := by
    rw [List.forall_mem_cons, ← h.subnets_eq]
    exact ⟨(mem_available.mp hn).1, h.subnets_eq ▸ h.taken_subset⟩

/-- No call loses a subnet, doubles one, or brings in one that was not given. -/
theorem Accounts.call (h : p.Accounts subnets) (c : PoolCall) :
    (p.call c).2.Accounts subnets := by
  cases c with
  | allocate =>
    rcases p.call_allocate_cases with ⟨e, -, hc⟩ | ⟨n, rest, hfree, hc⟩
    · rw [hc]
      exact h
    · rw [hc]
      exact h.take (hfree ▸ List.mem_cons_self ..)
  | reserve n =>
    rcases p.call_reserve_cases n with ⟨e, -, hc⟩ | ⟨hfree, hc⟩
    · rw [hc]
      exact h
    · rw [hc]
      exact h.take hfree
  | release n =>
    exact ⟨h.subnets_eq, h.nodup.filter _, fun m hm => h.taken_subset m (mem_release.mp hm).1⟩
  | isTaken n => exact h

/-- By induction on the calls, the pool accounts for its subnets after any run. -/
theorem Accounts.after (h : p.Accounts subnets) (calls : List PoolCall) :
    (p.after calls).Accounts subnets := by
  induction calls generalizing p with
  | nil => exact h
  | cons c calls ih => exact ih (h.call c)

/-- What is free and what is taken make up the subnets. -/
theorem Accounts.perm (h : p.Accounts subnets) (hnodup : subnets.Nodup) :
    (p.available ++ p.taken).Perm subnets := by
  have hfree : p.available.Nodup := by
    rw [available, h.subnets_eq]
    exact hnodup.filter _
  have hdisjoint : ∀ n ∈ p.available, n ∉ p.taken := fun n hn => (mem_available.mp hn).2
  rw [List.perm_ext_iff_of_nodup (hfree.append h.nodup hdisjoint) hnodup]
  intro n
  rw [List.mem_append, mem_available, h.subnets_eq]
  constructor
  · rintro (⟨hn, -⟩ | hn)
    · exact hn
    · exact h.taken_subset n hn
  · intro hn
    by_cases htaken : n ∈ p.taken
    · exact .inr htaken
    · exact .inl ⟨hn, htaken⟩

theorem Accounts.sublist (h : p.Accounts subnets) : p.available.Sublist subnets := by
  rw [← h.subnets_eq]
  exact List.filter_sublist

end Accounts

/-- No address is in two of the taken subnets, no two have one gateway, and the gateway of each is
an address of this subnet and of no other one of the list. -/
structure Apart (subnets taken : List Ipv4Net) : Prop where
  disjoint : taken.Pairwise fun m n => ∀ a, ¬ (m.contains a = true ∧ n.contains a = true)
  gateways : taken.Pairwise fun m n => firstHostOf m ≠ firstHostOf n
  own : ∀ n ∈ taken, ∃ g : Ipv4Net, firstHostOf n = .v4 g ∧
    ∀ m ∈ subnets, m.contains g.address = true ↔ m = n

/-- Subnets taken at the same time share no address, and have different gateways. -/
theorem Accounts.apart {subnets : List Ipv4Net} (h : p.Accounts subnets)
    (hwhole : ∀ n ∈ subnets, n.length = 24 ∧ n.truncated = n) : Apart subnets p.taken := by
  have htaken (n : Ipv4Net) (hn : n ∈ p.taken) : n.length = 24 ∧ n.truncated = n :=
    hwhole n (h.taken_subset n hn)
  refine ⟨?_, ?_, fun n hn => ?_⟩
  · refine h.nodup.imp_of_mem fun {m n} hm hn hne a ha => ?_
    exact hne (Network.eq_of_contains (htaken m hm) (htaken n hn) ha.1 ha.2)
  · refine h.nodup.imp_of_mem fun {m n} hm hn hne heq => ?_
    exact hne (firstHostOf_inj (htaken m hm) (htaken n hn) heq)
  · obtain ⟨g, hg, hown⟩ := Network.contains_firstHostOf (htaken n hn)
    exact ⟨g, hg, fun m hm => hown m (hwhole m hm)⟩

/-- From the subnets of settings that pass the check, and after whatever calls, what is free and
what is taken make up the subnets of the settings, the free ones in their order.  The pool answers
each call by what is taken then, and the taken subnets have neither addresses nor gateways in
common. -/
theorem runs_of_checked {s : Settings} (hs : s.check = .ok ()) (calls : List PoolCall) :
    (((ofList s.subnets).after calls).available ++ ((ofList s.subnets).after calls).taken).Perm
        s.subnets ∧
      ((ofList s.subnets).after calls).available.Sublist s.subnets ∧
      ((ofList s.subnets).after calls).Answers ∧
      Apart s.subnets ((ofList s.subnets).after calls).taken := by
  obtain ⟨hwhole, hnodup⟩ := Settings.subnets_of_check hs
  have haccounts : ((ofList s.subnets).after calls).Accounts s.subnets :=
    (Accounts.ofList fun n hn => (hwhole n hn).2).after calls
  exact ⟨haccounts.perm hnodup, haccounts.sublist, answers _, haccounts.apart hwhole⟩

/-- Calls on the usual subnets, also with host bits and with other prefix lengths. -/
def mixedCalls : List PoolCall :=
  [.allocate, .reserve (.ofAddress24 0x0A0A0C07), .reserve ⟨0x0A0A0D00, 25, by decide⟩, .allocate,
    .reserve (.ofAddress24 0x0A0A0B00), .release (.ofAddress24 0x0A0A0A63), .isTaken
    ⟨0x0A0A0C00, 32, by decide⟩, .release ⟨0x0A0A0C00, 16, by decide⟩]

/-- The second and the third of the subnets are taken in the end, and the first is free again. -/
theorem runs_of_checked_mixedCalls :
    Settings.standard.check = .ok () ∧
      ((ofList Settings.standard.subnets).after mixedCalls).taken =
        [Settings.privateSubnet 11, Settings.privateSubnet 12] ∧
      ((ofList Settings.standard.subnets).after mixedCalls).available.head? =
        some (Settings.privateSubnet 10) ∧
      Apart Settings.standard.subnets
        ((ofList Settings.standard.subnets).after mixedCalls).taken := by
  obtain ⟨-, -, -, hapart⟩ := runs_of_checked (s := .standard) rfl mixedCalls
  exact ⟨rfl, by decide, by decide, hapart⟩

end SubnetPool

end HostNet
