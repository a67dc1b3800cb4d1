/-
Listings of links are put together from the messages of the kernel.

A message without contradictions describes one link only, so the order of its attributes does not
matter, nor does that of the entries on its kind; of several addresses in one message the first is
taken.  The order of the messages is that of the links and of their addresses.
-/

import HostNet.Proofs.LinkMessages

namespace HostNet

/-! ## Other orders -/

/-- Attributes that differ in the order of entries on the kind only. -/
inductive LinkAttribute.Shuffled : LinkAttribute → LinkAttribute → Prop
  | same (a : LinkAttribute) : Shuffled a a
  | kindInfo {es es' : List KindEntry} (h : es.Perm es') : Shuffled (kindInfo es) (kindInfo es')

/-- Messages on a link that differ in the order of their attributes and of the entries in them. -/
structure LinkMessage.Shuffled (m m' : LinkMessage) : Prop where
  index : m'.index = m.index
  isUp : m'.isUp = m.isUp
  attributes : ∃ as, m.attributes.Perm as ∧
    List.Forall₂ LinkAttribute.Shuffled as m'.attributes

namespace LinkMessage

variable {links links' : List LinkMessage} {m m' : LinkMessage}

theorem Shuffled.refl (m : LinkMessage) : m.Shuffled m :=
  ⟨rfl, rfl, m.attributes, .refl _, List.forall₂_same.mpr fun a _ => .same a⟩

/-- Each attribute of the one message is in the other, up to the order of its entries. -/
theorem Shuffled.exists_of_mem (h : m.Shuffled m') {a : LinkAttribute} (ha : a ∈ m.attributes) :
    ∃ b ∈ m'.attributes, a.Shuffled b := by
  obtain ⟨as, hperm, has⟩ := h.attributes
  exact exists_of_mem_forall₂ has (hperm.mem_iff.mp ha)

theorem Shuffled.exists_of_mem' (h : m.Shuffled m') {b : LinkAttribute} (hb : b ∈ m'.attributes) :
    ∃ a ∈ m.attributes, a.Shuffled b := by
  obtain ⟨as, hperm, has⟩ := h.attributes
  obtain ⟨a, ha, hab⟩ := exists_of_mem_forall₂ has.flip hb
  exact ⟨a, hperm.mem_iff.mpr ha, hab⟩

/-- Attributes without entries are the same. -/
theorem Shuffled.mem_iff (h : m.Shuffled m') {a : LinkAttribute} (ha : ∀ es, a ≠ .kindInfo es) :
    a ∈ m'.attributes ↔ a ∈ m.attributes := by
  constructor
  · intro hmem
    obtain ⟨b, hb, hba⟩ := h.exists_of_mem' hmem
    cases hba with
    | same => exact hb
    | kindInfo => exact (ha _ rfl).elim
  · intro hmem
    obtain ⟨b, hb, hab⟩ := h.exists_of_mem hmem
    cases hab with
    | same => exact hb
    | kindInfo => exact (ha _ rfl).elim

theorem Shuffled.name_iff (h : m.Shuffled m') {n : String} :
    .name n ∈ m'.attributes ↔ .name n ∈ m.attributes := h.mem_iff nofun

theorem Shuffled.master_iff (h : m.Shuffled m') {i : UInt32} :
    .master i ∈ m'.attributes ↔ .master i ∈ m.attributes := h.mem_iff nofun

theorem Shuffled.lower_iff (h : m.Shuffled m') {i : UInt32} :
    .lower i ∈ m'.attributes ↔ .lower i ∈ m.attributes := h.mem_iff nofun

theorem Shuffled.mentions_iff (h : m.Shuffled m') {e : KindEntry} :
    m'.Mentions e ↔ m.Mentions e := by
  constructor
  · rintro ⟨es, hes, he⟩
    obtain ⟨a, ha, hshuffled⟩ := h.exists_of_mem' hes
    cases hshuffled with
    | same => exact ⟨es, ha, he⟩
    | kindInfo hperm => exact ⟨_, ha, hperm.mem_iff.mpr he⟩
  · rintro ⟨es, hes, he⟩
    obtain ⟨b, hb, hshuffled⟩ := h.exists_of_mem hes
    cases hshuffled with
    | same => exact ⟨es, hb, he⟩
    | kindInfo hperm => exact ⟨_, hb, hperm.mem_iff.mp he⟩

theorem Shuffled.consistent (h : m.Shuffled m') (hm : m.Consistent) : m'.Consistent where
  name a b ha hb := hm.name a b (h.name_iff.mp ha) (h.name_iff.mp hb)
  master i j hi hj := hm.master i j (h.master_iff.mp hi) (h.master_iff.mp hj)
  lower i j hi hj := hm.lower i j (h.lower_iff.mp hi) (h.lower_iff.mp hj)
  kind k l hk hl := hm.kind k l (h.mentions_iff.mp hk) (h.mentions_iff.mp hl)
  vlanData d e hd he := hm.vlanData d e (h.mentions_iff.mp hd) (h.mentions_iff.mp he)

/-- A shuffled message has a name if the message has one. -/
theorem Shuffled.isSome_name? (h : m.Shuffled m') : m'.name?.isSome = m.name?.isSome := by
  rw [Bool.eq_iff_iff]
  constructor
  · intro hsome
    obtain ⟨n, hn⟩ := Option.isSome_iff_exists.mp hsome
    exact isSome_name?_of_mem (h.name_iff.mp (mem_of_name? hn))
  · intro hsome
    obtain ⟨n, hn⟩ := Option.isSome_iff_exists.mp hsome
    exact isSome_name?_of_mem (h.name_iff.mpr (mem_of_name? hn))

theorem names_of_shuffled (h : List.Forall₂ Shuffled links links') {i : UInt32} {n : String} :
    Names links' i n ↔ Names links i n := by
  constructor
  · rintro ⟨m', hm', hi, hn⟩
    obtain ⟨m, hm, hshuffled⟩ := exists_of_mem_forall₂ h.flip hm'
    exact ⟨m, hm, hshuffled.index.symm.trans hi, hshuffled.name_iff.mp hn⟩
  · rintro ⟨m, hm, hi, hn⟩
    obtain ⟨m', hm', hshuffled⟩ := exists_of_mem_forall₂ h hm
    exact ⟨m', hm', hshuffled.index.trans hi, hshuffled.name_iff.mpr hn⟩

/-- What a message describes in a shuffled dump it describes in the dump as it was. -/
theorem Describes.of_shuffled {addresses : List AddressMessage} {l : Link}
    (hlinks : List.Forall₂ Shuffled links links') (hm : m.Shuffled m')
    (h : m'.Describes links' addresses l) : m.Describes links addresses l where
  index := h.index.trans hm.index
  name := hm.name_iff.mp h.name
  isUp := h.isUp.trans hm.isUp
  kind := by simpa only [hm.mentions_iff] using h.kind
  vlanId := by simpa only [hm.mentions_iff] using h.vlanId
  master n := by
    rw [h.master n]
    exact exists_congr fun i => and_congr hm.master_iff (names_of_shuffled hlinks)
  parent n := by
    rw [h.parent n]
    exact and_congr_right fun _ => exists_congr fun i =>
      and_congr hm.lower_iff (names_of_shuffled hlinks)
  addresses := by
    rw [← hm.index]
    exact h.addresses

end LinkMessage

/-- The order inside messages on links does not matter. -/
theorem ofMessages_of_shuffled {links links' : List LinkMessage} (addresses : List AddressMessage)
    (hindex : (links.map (·.index)).Nodup) (hlinks : ∀ m ∈ links, m.Consistent)
    (h : List.Forall₂ LinkMessage.Shuffled links links') :
    Link.ofMessages links' addresses = Link.ofMessages links addresses := by
  have hindex' : (links'.map (·.index)).Nodup := by
    rwa [← map_eq_of_forall₂ (fun m m' hm => hm.index.symm) h]
  have hlinks' : ∀ m' ∈ links', m'.Consistent := by
    intro m' hm'
    obtain ⟨m, hm, hshuffled⟩ := exists_of_mem_forall₂ h.flip hm'
    exact hshuffled.consistent (hlinks m hm)
  have hnamed : List.Forall₂ (fun m m' => m.Consistent ∧ LinkMessage.Shuffled m m')
      (links.filter fun m => m.name?.isSome) (links'.filter fun m => m.name?.isSome) := by
    rw [List.forall₂_and_left]
    exact ⟨fun m hm => hlinks m (List.mem_of_mem_filter hm),
      List.rel_filter (fun m m' hm => iff_of_eq (congrArg (· = true) hm.isSome_name?.symm)) h⟩
  -- Link by link, both listings are described by the messages as they were.
  have hlisting := (assembled_ofMessages addresses hindex hlinks).described
  have hlisting' := (assembled_ofMessages addresses hindex' hlinks').described
  generalize Link.ofMessages links addresses = listing at hlisting ⊢
  generalize Link.ofMessages links' addresses = listing' at hlisting' ⊢
  generalize links.filter (fun m => m.name?.isSome) = named at hnamed hlisting
  generalize links'.filter (fun m => m.name?.isSome) = named' at hnamed hlisting'
  induction hnamed generalizing listing listing' with
  | nil =>
    cases hlisting
    cases hlisting'
    rfl
  | cons hm _ ih =>
    cases hlisting with
    | cons hl hlisting =>
      cases hlisting' with
      | cons hl' hlisting' =>
        rw [hl.unique hm.1 (hl'.of_shuffled h hm.2), ih _ _ hlisting hlisting']

/-- The address that an attribute gives. -/
def AddressAttribute.address? : AddressAttribute → Option IpAddress
  | address a => some a
  | localEnd _ | label _ => none

/-- Messages on an address that differ in the order of their attributes.  Of several attributes that
give an address, the same one comes first. -/
structure AddressMessage.Shuffled (m m' : AddressMessage) : Prop where
  index : m'.index = m.index
  length : m'.length = m.length
  attributes : m.attributes.Perm m'.attributes
  first : (m'.attributes.filterMap AddressAttribute.address?).head? =
    (m.attributes.filterMap AddressAttribute.address?).head?

namespace AddressMessage

variable {m m' : AddressMessage}

/-- If there is one address at most, any order will do. -/
theorem shuffled_of_perm {as : List AddressAttribute} (h : m.attributes.Perm as)
    (hone : (m.attributes.filterMap AddressAttribute.address?).length ≤ 1) :
    m.Shuffled { m with attributes := as } := by
  have hperm := h.filterMap AddressAttribute.address?
  refine ⟨rfl, rfl, h, ?_⟩
  dsimp only
  generalize m.attributes.filterMap AddressAttribute.address? = before at hone hperm
  match before, hone with
  | [], _ => rw [List.nil_perm.mp hperm]
  | [a], _ => rw [List.singleton_perm.mp hperm]

theorem address?_eq_head? (m : AddressMessage) :
    m.address? = (m.attributes.filterMap AddressAttribute.address?).head? := by
  rw [List.head?_filterMap]
  exact congrFun (congrArg List.findSome? (funext fun a => by cases a <;> rfl)) _

theorem Shuffled.report? (h : m.Shuffled m') : m'.report? = m.report? := by
  unfold AddressMessage.report? net?
  rw [address?_eq_head?, address?_eq_head?, h.first, h.length, h.index]

end AddressMessage

/-- Neither does that inside messages on addresses, as far as it does not pick the address. -/
theorem ofMessages_of_shuffledAddresses (links : List LinkMessage)
    {addresses addresses' : List AddressMessage}
    (h : List.Forall₂ AddressMessage.Shuffled addresses addresses') :
    Link.ofMessages links addresses' = Link.ofMessages links addresses := by
  have hreports : addresses'.filterMap AddressMessage.report? =
      addresses.filterMap AddressMessage.report? := by
    induction h with
    | nil => rfl
    | cons hm _ ih => rw [List.filterMap_cons, List.filterMap_cons, hm.report?, ih]
  exact congrArg (withAddresses _) hreports

/-! ## Listings from the kernel -/

/-- The next two replies of the kernel list these links and these addresses. -/
structure Conversation.Lists (c : Conversation) (links : List LinkMessage)
    (addresses : List AddressMessage) : Prop where
  links : (c.replies.headD .silent).linkListing = .given links
  addresses : ((c.replies.drop 1).headD .silent).addressListing = .given addresses

namespace KernelHost

theorem outcome_list (h : KernelHost) {c : Conversation} {links : List LinkMessage}
    {addresses : List AddressMessage} (hc : c.Lists links addresses) :
    h.list.outcome c = (.ok (Link.ofMessages links addresses),
      ⟨c.requests ++ [.listLinks, .listAddresses], c.replies.drop 2⟩) := by
  rw [list, Action.outcome_bind, outcome_request, hc.links]
  dsimp only [Purpose.conclude]
  rw [Action.outcome_bind, outcome_request, hc.addresses]
  simp [Purpose.conclude]

/-- However the kernel orders what it says inside its messages, the same listing is assembled of it:
a link for each message with a name, with the names that its references refer to wherever in the
dump these are, and with all networks that are reported for it.  Only of several addresses in one
message the first must stay the first. -/
theorem list_assembled (h : KernelHost) (links : List LinkMessage) (addresses : List AddressMessage)
    (hindex : (links.map (·.index)).Nodup) (hlinks : ∀ m ∈ links, m.Consistent) :
    ∃ listing, Assembled links addresses listing ∧
      (∀ c : Conversation, c.Lists links addresses → (h.list.outcome c).1 = .ok listing) ∧
      ∀ links' addresses', List.Forall₂ LinkMessage.Shuffled links links' →
        List.Forall₂ AddressMessage.Shuffled addresses addresses' →
        ∀ c : Conversation, c.Lists links' addresses' → (h.list.outcome c).1 = .ok listing := by
  refine ⟨_, assembled_ofMessages addresses hindex hlinks, fun c hc => ?_, ?_⟩
  · rw [outcome_list h hc]
  · intro links' addresses' hlinks' haddresses' c hc
    rw [outcome_list h hc, ofMessages_of_shuffledAddresses links' haddresses',
      ofMessages_of_shuffled addresses hindex hlinks hlinks']

/-- A VLAN that is listed before the link below it and the bridge that it is a port of. -/
def vlanFirst : List LinkMessage :=
  [⟨4, true, [.name "eth0.5", .lower 2, .master 3, .kindInfo [.kind .vlan, .vlanData [some 5]]]⟩,
    ⟨2, true, [.name "eth0", .other]⟩, ⟨3, true, [.name "rol.a", .kindInfo [.kind .bridge]]⟩]

/-- The same dump with all that is said of the VLAN in the opposite order. -/
def vlanFirstReversed : List LinkMessage :=
  [⟨4, true, [.kindInfo [.vlanData [some 5], .kind .vlan], .master 3, .lower 2, .name "eth0.5"]⟩,
    ⟨2, true, [.name "eth0", .other]⟩, ⟨3, true, [.name "rol.a", .kindInfo [.kind .bridge]]⟩]

/-- A message on the second link, with a prefix of 24 bits. -/
def onEth0 (attributes : List AddressAttribute) : AddressMessage := ⟨2, 24, attributes⟩

theorem consistent_of_mem_vlanFirst : ∀ m ∈ vlanFirst, m.Consistent := by
  simp only [vlanFirst, List.forall_mem_cons]
  refine ⟨?_, ?_, ?_, nofun⟩ <;> constructor <;> simp [LinkMessage.Mentions]

theorem list_assembled_vlanFirst :
    (vlanFirst.map (·.index)).Nodup ∧ (∀ m ∈ vlanFirst, m.Consistent) ∧
      ∃ listing,
        Assembled vlanFirst [onEth0 [.address (.v4 0x0a000001), .label "eth0"]] listing ∧
        ((KernelHost.list ⟨.standard, .ofSeconds 10⟩).outcome
          ⟨[], [⟨vlanFirstReversed, [], .done⟩,
            ⟨[], [onEth0 [.label "eth0", .address (.v4 0x0a000001)]], .done⟩]⟩).1 =
          .ok listing := by
  have hindex : (vlanFirst.map (·.index)).Nodup := by decide
  obtain ⟨listing, hassembled, -, hshuffled⟩ := list_assembled ⟨.standard, .ofSeconds 10⟩ vlanFirst
    [onEth0 [.address (.v4 0x0a000001), .label "eth0"]] hindex consistent_of_mem_vlanFirst
  refine ⟨hindex, consistent_of_mem_vlanFirst, listing, hassembled,
    hshuffled vlanFirstReversed _ ?_ ?_ _ ⟨rfl, rfl⟩⟩
  · refine .cons ⟨rfl, rfl, _, List.reverse_perm _ |>.symm, ?_⟩
      (.cons (.refl _) (.cons (.refl _) .nil))
    exact .cons (.kindInfo (by decide)) (.cons (.same _) (.cons (.same _) (.cons (.same _) .nil)))
  · exact .cons (AddressMessage.shuffled_of_perm (.swap ..) (by decide)) .nil

/-- A message with two addresses reports the first of them, so their order does matter. -/
theorem list_secondAddress :
    (vlanFirst.map (·.index)).Nodup ∧ (∀ m ∈ vlanFirst, m.Consistent) ∧
      [AddressAttribute.address (.v4 0x0a000001), .address (.v4 0x0a000002)].Perm
        [.address (.v4 0x0a000002), .address (.v4 0x0a000001)] ∧
      ((KernelHost.list ⟨.standard, .ofSeconds 10⟩).outcome ⟨[], [⟨vlanFirst, [], .done⟩,
          ⟨[], [onEth0 [.address (.v4 0x0a000001), .address (.v4 0x0a000002)]], .done⟩]⟩).1 ≠
        ((KernelHost.list ⟨.standard, .ofSeconds 10⟩).outcome ⟨[], [⟨vlanFirst, [], .done⟩,
          ⟨[], [onEth0 [.address (.v4 0x0a000002), .address (.v4 0x0a000001)]], .done⟩]⟩).1 :=
  ⟨by decide, consistent_of_mem_vlanFirst, by decide⟩

end KernelHost

end HostNet
