/-
Links as the messages of the kernel describe them.

`Describes` says what a link has of its message, of the messages that this one refers to, and of the
messages on addresses, all by what is among the attributes and nothing by where it is.  A message
without contradictions describes one link only (`Describes.unique`).  A listing is `Assembled` if it
has one described link for each message with a name, and each network once.
-/

import HostNet.Proofs.Folds
import HostNet.Proofs.KernelTransactions

namespace HostNet

/-! ## Messages without contradictions -/

namespace LinkMessage

/-- There is such an entry in what a message says of the kind of the link. -/
def Mentions (m : LinkMessage) (e : KindEntry) : Prop :=
  ∃ entries, .kindInfo entries ∈ m.attributes ∧ e ∈ entries

/-- Nothing is said twice in different ways, as is the case where each attribute is given once at
most, and each kind of entry. -/
structure Consistent (m : LinkMessage) : Prop where
  name : ∀ a b, .name a ∈ m.attributes → .name b ∈ m.attributes → a = b
  master : ∀ i j, .master i ∈ m.attributes → .master j ∈ m.attributes → i = j
  lower : ∀ i j, .lower i ∈ m.attributes → .lower j ∈ m.attributes → i = j
  kind : ∀ k l, m.Mentions (.kind k) → m.Mentions (.kind l) → k = l
  vlanData : ∀ d e, m.Mentions (.vlanData d) → m.Mentions (.vlanData e) → d = e

theorem mem_of_name? {m : LinkMessage} {n : String} (h : m.name? = some n) :
    .name n ∈ m.attributes := by
  obtain ⟨a, ha, han⟩ := List.exists_of_findSome?_eq_some h
  cases a with
  | name text =>
    obtain rfl := Option.some.inj han
    exact ha
  | _ => cases han

theorem isSome_name?_of_mem {m : LinkMessage} {n : String} (h : .name n ∈ m.attributes) :
    m.name?.isSome := by
  rw [name?, List.findSome?_isSome_iff]
  exact ⟨_, h, rfl⟩

theorem name?_eq_some_iff {m : LinkMessage} (hm : m.Consistent) {n : String} :
    m.name? = some n ↔ .name n ∈ m.attributes := by
  refine ⟨mem_of_name?, fun h => ?_⟩
  obtain ⟨k, hk⟩ := Option.isSome_iff_exists.mp (isSome_name?_of_mem h)
  rw [hk, hm.name k n (mem_of_name? hk) h]

/-! ## Names by index -/

/-- Some message of a listing gives this name to this index. -/
def Names (links : List LinkMessage) (i : UInt32) (n : String) : Prop :=
  ∃ m ∈ links, m.index = i ∧ .name n ∈ m.attributes

variable {links : List LinkMessage}

theorem mem_namesOf {p : UInt32 × String} :
    p ∈ namesOf links ↔ ∃ m ∈ links, m.index = p.1 ∧ m.name? = some p.2 := by
  unfold namesOf
  rw [List.mem_filterMap]
  refine exists_congr fun m => and_congr_right fun _ => ?_
  rw [Option.map_eq_some_iff]
  constructor
  · rintro ⟨n, hn, rfl⟩
    exact ⟨rfl, hn⟩
  · rintro ⟨hi, hn⟩
    exact ⟨p.2, hn, Prod.ext hi rfl⟩

/-- No index comes up twice, so its last name is its only one. -/
theorem eq_of_mem_namesOf (hindex : (links.map (·.index)).Nodup) {i : UInt32} {n k : String}
    (hn : (i, n) ∈ namesOf links) (hk : (i, k) ∈ namesOf links) : n = k := by
  obtain ⟨m, hm, hmi, hmn⟩ := mem_namesOf.mp hn
  obtain ⟨m', hm', hmi', hmk⟩ := mem_namesOf.mp hk
  obtain rfl : m = m' := List.inj_on_of_nodup_map hindex hm hm' (hmi.trans hmi'.symm)
  exact Option.some.inj (hmn.symm.trans hmk)

/-- Wherever in a listing the message with an index is, its name is found. -/
theorem nameAt_namesOf_eq_some_iff (hindex : (links.map (·.index)).Nodup)
    (hlinks : ∀ m ∈ links, m.Consistent) {i : UInt32} {n : String} :
    nameAt (namesOf links) i = some n ↔ Names links i n := by
  have hmem : Names links i n ↔ (i, n) ∈ namesOf links := by
    rw [mem_namesOf]
    exact exists_congr fun m => and_congr_right fun hm => and_congr_right fun _ =>
      (name?_eq_some_iff (hlinks m hm)).symm
  rw [hmem, nameAt, Option.map_eq_some_iff]
  constructor
  · rintro ⟨p, hp, rfl⟩
    have hi : p.1 = i := by simpa using List.find?_some hp
    have hin := List.mem_reverse.mp (List.mem_of_find?_eq_some hp)
    rwa [← hi]
  · intro hin
    have hfound : ((namesOf links).reverse.find? fun p => p.1 == i).isSome := by
      rw [List.find?_isSome]
      exact ⟨_, List.mem_reverse.mpr hin, beq_self_eq_true i⟩
    obtain ⟨p, hp⟩ := Option.isSome_iff_exists.mp hfound
    have hi : p.1 = i := by simpa using List.find?_some hp
    have hpin : (i, p.2) ∈ namesOf links := by
      rw [← hi]
      exact List.mem_reverse.mp (List.mem_of_find?_eq_some hp)
    exact ⟨p, hp, eq_of_mem_namesOf hindex hpin hin⟩

end LinkMessage

/-! ## What attributes say of a link -/

section Attributes

variable {β : Type} (nameOf : UInt32 → Option String) (field : Link → β)

/-- The entries on its kind leave all else of a link. -/
theorem KindEntry.kept (hkind : ∀ l k, field { l with kind := k } = field l)
    (hvlanId : ∀ l i, field { l with vlanId := i } = field l) (es : List KindEntry) (l : Link) :
    field (es.foldl apply l) = field l := by
  refine foldl_kept apply field (fun l e => ?_) es l
  cases e with
  | kind k => exact hkind l k.linkKind
  | vlanData d => exact hvlanId l (d.findSome? id)
  | otherData => rfl

/-- A field other than master, parent, kind and number is left by all attributes. -/
theorem LinkAttribute.kept (hmaster : ∀ l n, field { l with master := n } = field l)
    (hparent : ∀ l n, field { l with parent := n } = field l)
    (hkind : ∀ l k, field { l with kind := k } = field l)
    (hvlanId : ∀ l i, field { l with vlanId := i } = field l) (as : List LinkAttribute) (l : Link) :
    field (as.foldl (apply nameOf) l) = field l := by
  refine foldl_kept (apply nameOf) field (fun l a => ?_) as l
  cases a with
  | master i => exact hmaster l (nameOf i)
  | lower i => exact hparent l (nameOf i)
  | kindInfo entries => exact KindEntry.kept field hkind hvlanId entries l
  | name | other => rfl

/-- A field that is set by entries of one form and by no attribute is what an entry of the message
sets it to. -/
theorem LinkMessage.foldl_mentioned {ι : Type} (m : LinkMessage) (mark : ι → KindEntry)
    (value : ι → β) (hset : ∀ l i, field (KindEntry.apply l (mark i)) = value i)
    (hleft : ∀ l e, (∀ i, e ≠ mark i) → field (KindEntry.apply l e) = field l)
    (hmaster : ∀ l n, field { l with master := n } = field l)
    (hparent : ∀ l n, field { l with parent := n } = field l) (l : Link) :
    (∃ i, m.Mentions (mark i) ∧
        field (m.attributes.foldl (LinkAttribute.apply nameOf) l) = value i) ∨
      (∀ i, ¬ m.Mentions (mark i)) ∧
        field (m.attributes.foldl (LinkAttribute.apply nameOf) l) = field l := by
  -- The kind entries stand in attributes, so the fold over entries is one step of the fold over
  -- these.
  have hfold := foldl_field (LinkAttribute.apply nameOf) field
    (fun a v => ∃ es i, a = .kindInfo es ∧ mark i ∈ es ∧ v = value i) (fun l a => by
      cases a with
      | kindInfo es =>
        rcases foldl_marked KindEntry.apply field mark value hset hleft es l
          with ⟨i, hi, hval⟩ | ⟨hnone, hkept⟩
        · exact .inl ⟨es, i, rfl, hi, hval⟩
        · refine .inr ⟨?_, hkept⟩
          rintro v ⟨es', i, hes, hi, -⟩
          cases hes
          exact hnone i hi
      | master i => exact .inr ⟨nofun, hmaster l (nameOf i)⟩
      | lower i => exact .inr ⟨nofun, hparent l (nameOf i)⟩
      | name | other => exact .inr ⟨nofun, rfl⟩) m.attributes l
  rcases hfold with ⟨a, ha, es, i, rfl, hi, hval⟩ | ⟨hnone, hkept⟩
  · exact .inl ⟨i, ⟨es, ha, hi⟩, hval⟩
  · refine .inr ⟨fun i hi => ?_, hkept⟩
    obtain ⟨es, hes, hmem⟩ := hi
    exact hnone _ hes _ ⟨es, i, rfl, hmem, rfl⟩

end Attributes

namespace LinkMessage

section

variable (m : LinkMessage) (nameOf : UInt32 → Option String) (l : Link)

/-- The kind is that of an entry. -/
theorem foldl_kind :
    (∃ k, m.Mentions (.kind k) ∧
        (m.attributes.foldl (LinkAttribute.apply nameOf) l).kind = k.linkKind) ∨
      (∀ k, ¬ m.Mentions (.kind k)) ∧
        (m.attributes.foldl (LinkAttribute.apply nameOf) l).kind = l.kind := by
  refine foldl_mentioned nameOf Link.kind m .kind ReportedKind.linkKind (fun _ _ => rfl) ?_
    (fun _ _ => rfl) (fun _ _ => rfl) l
  intro l e he
  cases e with
  | kind k => exact absurd rfl (he k)
  | vlanData | otherData => rfl

/-- The number is the first in the VLAN data of an entry. -/
theorem foldl_vlanId :
    (∃ d, m.Mentions (.vlanData d) ∧
        (m.attributes.foldl (LinkAttribute.apply nameOf) l).vlanId = d.findSome? id) ∨
      (∀ d, ¬ m.Mentions (.vlanData d)) ∧
        (m.attributes.foldl (LinkAttribute.apply nameOf) l).vlanId = l.vlanId := by
  refine foldl_mentioned nameOf Link.vlanId m .vlanData (fun d => d.findSome? id)
    (fun _ _ => rfl) ?_ (fun _ _ => rfl) (fun _ _ => rfl) l
  intro l e he
  cases e with
  | vlanData d => exact absurd rfl (he d)
  | kind | otherData => rfl

/-- The master is the name that a reference to the master refers to. -/
theorem foldl_master :
    (∃ i, .master i ∈ m.attributes ∧
        (m.attributes.foldl (LinkAttribute.apply nameOf) l).master = nameOf i) ∨
      (∀ i, .master i ∉ m.attributes) ∧
        (m.attributes.foldl (LinkAttribute.apply nameOf) l).master = l.master := by
  refine foldl_marked (LinkAttribute.apply nameOf) Link.master .master nameOf (fun _ _ => rfl) ?_
    m.attributes l
  intro l a ha
  cases a with
  | master i => exact absurd rfl (ha i)
  | kindInfo es => exact KindEntry.kept Link.master (fun _ _ => rfl) (fun _ _ => rfl) es l
  | name | lower | other => rfl

/-- The link below is the name that a reference to it refers to. -/
theorem foldl_parent :
    (∃ i, .lower i ∈ m.attributes ∧
        (m.attributes.foldl (LinkAttribute.apply nameOf) l).parent = nameOf i) ∨
      (∀ i, .lower i ∉ m.attributes) ∧
        (m.attributes.foldl (LinkAttribute.apply nameOf) l).parent = l.parent := by
  refine foldl_marked (LinkAttribute.apply nameOf) Link.parent .lower nameOf (fun _ _ => rfl) ?_
    m.attributes l
  intro l a ha
  cases a with
  | lower i => exact absurd rfl (ha i)
  | kindInfo es => exact KindEntry.kept Link.parent (fun _ _ => rfl) (fun _ _ => rfl) es l
  | name | master | other => rfl

end

/-- What a link has of its own message alone. -/
structure Shows (m : LinkMessage) (l : Link) : Prop where
  index : l.index = m.index
  name : .name l.name ∈ m.attributes
  isUp : l.isUp = m.isUp
  kind : (∃ k, m.Mentions (.kind k) ∧ l.kind = k.linkKind) ∨
    (∀ k, ¬ m.Mentions (.kind k)) ∧ l.kind = .physical
  vlanId : (∃ d, m.Mentions (.vlanData d) ∧ l.vlanId = d.findSome? id) ∨
    (∀ d, ¬ m.Mentions (.vlanData d)) ∧ l.vlanId = none

/-- What a message that has a name says of a link without addresses, given names by index. -/
structure Says (m : LinkMessage) (nameOf : UInt32 → Option String) (l : Link) : Prop
    extends Shows m l where
  master : (∃ i, .master i ∈ m.attributes ∧ l.master = nameOf i) ∨
    (∀ i, .master i ∉ m.attributes) ∧ l.master = none
  /-- The link below is told of a VLAN only. -/
  parent : l.isVlan = true ∧ ((∃ i, .lower i ∈ m.attributes ∧ l.parent = nameOf i) ∨
      (∀ i, .lower i ∉ m.attributes) ∧ l.parent = none) ∨
    l.isVlan = false ∧ l.parent = none

theorem says_of_link? {m : LinkMessage} {nameOf : UInt32 → Option String} {l : Link}
    (h : m.link? nameOf = some l) : m.Says nameOf l := by
  obtain ⟨n, hn, hl⟩ := Option.map_eq_some_iff.mp h
  dsimp only at hl
  generalize hbare : ({ Link.bare m.index n .physical with isUp := m.isUp } : Link) = bare at hl
  -- Attributes set master, parent, kind and identifier, and leave every other field.
  have hfixed {β : Type} (field : Link → β)
      (hmaster : ∀ l n, field { l with master := n } = field l)
      (hparent : ∀ l n, field { l with parent := n } = field l)
      (hkind : ∀ l k, field { l with kind := k } = field l)
      (hvlanId : ∀ l i, field { l with vlanId := i } = field l) :=
    LinkAttribute.kept nameOf field hmaster hparent hkind hvlanId m.attributes bare
  have hindex := hfixed Link.index (fun _ _ => rfl) (fun _ _ => rfl) (fun _ _ => rfl) fun _ _ => rfl
  have hname := hfixed Link.name (fun _ _ => rfl) (fun _ _ => rfl) (fun _ _ => rfl) fun _ _ => rfl
  have hisUp := hfixed Link.isUp (fun _ _ => rfl) (fun _ _ => rfl) (fun _ _ => rfl) fun _ _ => rfl
  have hkind := m.foldl_kind nameOf bare
  have hvlanId := m.foldl_vlanId nameOf bare
  have hmaster := m.foldl_master nameOf bare
  have hparent := m.foldl_parent nameOf bare
  generalize m.attributes.foldl (LinkAttribute.apply nameOf) bare = r at *
  subst hbare
  have hn : .name r.name ∈ m.attributes := mem_of_name? (hn.trans (congrArg some hname.symm))
  by_cases hvlan : r.isVlan = true
  · rw [if_pos hvlan] at hl
    subst hl
    exact ⟨⟨hindex, hn, hisUp, hkind, hvlanId⟩, hmaster, .inl ⟨hvlan, hparent⟩⟩
  · rw [if_neg hvlan] at hl
    subst hl
    exact ⟨⟨hindex, hn, hisUp, hkind, hvlanId⟩, hmaster, .inr ⟨eq_false_of_ne_true hvlan, rfl⟩⟩

end LinkMessage

/-! ## What a listing has of a message -/

/-- The networks that messages report for an index, in their order. -/
def AddressMessage.netsAt (addresses : List AddressMessage) (i : UInt32) : List IpNet :=
  (addresses.filter fun a => a.index == i).filterMap net?

/-- What the link of a message is, given all messages on links and on addresses.  It is said by what
is among them and among their attributes, and not by where it is. -/
structure LinkMessage.Describes (links : List LinkMessage) (addresses : List AddressMessage)
    (m : LinkMessage) (l : Link) : Prop extends m.Shows l where
  /-- The master is the name of the message that the reference refers to. -/
  master : ∀ n, l.master = some n ↔ ∃ i, .master i ∈ m.attributes ∧ Names links i n
  /-- So is the link below, which VLANs alone have. -/
  parent : ∀ n, l.parent = some n ↔
    l.isVlan = true ∧ ∃ i, .lower i ∈ m.attributes ∧ Names links i n
  /-- The networks are those that are reported for the index, in their order. -/
  addresses : l.addresses = AddressMessage.netsAt addresses m.index

namespace LinkMessage

variable {links : List LinkMessage} {addresses : List AddressMessage} {m : LinkMessage}
  {l l' : Link}

/-- A reference leads to one name at most. -/
theorem reference_iff (hindex : (links.map (·.index)).Nodup) (hlinks : ∀ m ∈ links, m.Consistent)
    {mark : UInt32 → LinkAttribute} {value : Option String}
    (hmark : ∀ i j, mark i ∈ m.attributes → mark j ∈ m.attributes → i = j)
    (hvalue : (∃ i, mark i ∈ m.attributes ∧ value = nameAt (namesOf links) i) ∨
      (∀ i, mark i ∉ m.attributes) ∧ value = none) (n : String) :
    value = some n ↔ ∃ i, mark i ∈ m.attributes ∧ Names links i n := by
  rcases hvalue with ⟨i, hi, rfl⟩ | ⟨hnone, rfl⟩
  · rw [nameAt_namesOf_eq_some_iff hindex hlinks]
    constructor
    · exact fun hn => ⟨i, hi, hn⟩
    · rintro ⟨j, hj, hn⟩
      exact hmark j i hj hi ▸ hn
  · exact iff_of_false nofun fun ⟨i, hi, _⟩ => hnone i hi

/-- What a message says, together with the addresses of its index, is what it describes. -/
theorem Says.describes (addresses : List AddressMessage)
    (hindex : (links.map (·.index)).Nodup) (hlinks : ∀ m ∈ links, m.Consistent)
    (hm : m.Consistent) (h : m.Says (nameAt (namesOf links)) l) :
    m.Describes links addresses
      { l with addresses := AddressMessage.netsAt addresses m.index } where
  toShows := ⟨h.index, h.name, h.isUp, h.kind, h.vlanId⟩
  master := reference_iff hindex hlinks hm.master h.master
  parent n := by
    rcases h.parent with ⟨hvlan, hparent⟩ | ⟨hvlan, hparent⟩
    · exact (reference_iff hindex hlinks hm.lower hparent n).trans
        (and_iff_right (a := l.isVlan = true) hvlan).symm
    · refine iff_of_false ?_ fun hn => ?_
      · show l.parent ≠ some n
        rw [hparent]
        exact nofun
      · have hvlan' : l.isVlan = true := hn.1
        rw [hvlan] at hvlan'
        cases hvlan'
  addresses := rfl

/-- One of two cases that exclude each other determines a value. -/
theorem eq_of_mentioned {ι β : Type} {mark : ι → KindEntry} {value : ι → β} {start v w : β}
    (hmark : ∀ i j, m.Mentions (mark i) → m.Mentions (mark j) → i = j)
    (hv : (∃ i, m.Mentions (mark i) ∧ v = value i) ∨ (∀ i, ¬ m.Mentions (mark i)) ∧ v = start)
    (hw : (∃ i, m.Mentions (mark i) ∧ w = value i) ∨ (∀ i, ¬ m.Mentions (mark i)) ∧ w = start) :
    v = w := by
  rcases hv with ⟨i, hi, rfl⟩ | ⟨hnone, rfl⟩
  · rcases hw with ⟨j, hj, rfl⟩ | ⟨hnone, -⟩
    · rw [hmark i j hi hj]
    · exact (hnone i hi).elim
  · rcases hw with ⟨j, hj, -⟩ | ⟨-, rfl⟩
    · exact (hnone j hj).elim
    · rfl

/-- A consistent message describes one link. -/
theorem Describes.unique (hm : m.Consistent) (h : m.Describes links addresses l)
    (h' : m.Describes links addresses l') : l = l' := by
  have hindex : l.index = l'.index := h.index.trans h'.index.symm
  have hname : l.name = l'.name := hm.name _ _ h.name h'.name
  have hisUp : l.isUp = l'.isUp := h.isUp.trans h'.isUp.symm
  have hkind : l.kind = l'.kind := eq_of_mentioned hm.kind h.kind h'.kind
  have hvlanId : l.vlanId = l'.vlanId := eq_of_mentioned hm.vlanData h.vlanId h'.vlanId
  have hmaster : l.master = l'.master := by
    ext n
    exact (h.master n).trans (h'.master n).symm
  have hisVlan : l.isVlan = l'.isVlan := congrArg (· == LinkKind.vlan) hkind
  have hparent : l.parent = l'.parent := by
    ext n
    rw [h.parent n, h'.parent n, hisVlan]
  have haddresses : l.addresses = l'.addresses := h.addresses.trans h'.addresses.symm
  cases l
  cases l'
  simp_all

end LinkMessage

/-! ## Handing out addresses -/

/-- If no two links have the same index, each is given all that there is for its index. -/
theorem withAddresses_eq_map {ls : List Link} (hindex : (ls.map (·.index)).Nodup)
    (nets : List (UInt32 × IpNet)) :
    withAddresses ls nets = ls.map fun l =>
      { l with addresses := (nets.filter fun p => p.1 == l.index).map Prod.snd } := by
  induction ls generalizing nets with
  | nil => rfl
  | cons l ls ih =>
    obtain ⟨hl, hls⟩ := List.nodup_cons.mp hindex
    rw [withAddresses, ih hls, List.map_cons]
    congr 1
    refine List.map_congr_left fun k hk => ?_
    -- What was taken for the first link was not for this one.
    have hne : k.index ≠ l.index := fun h => hl (List.mem_map.mpr ⟨k, hk, h⟩)
    have hrest : ∀ p : UInt32 × IpNet, (p.1 == k.index && p.1 != l.index) = (p.1 == k.index) := by
      intro p
      by_cases hp : p.1 = k.index
      · simp [hp, hne]
      · simp [hp]
    rw [List.filter_filter]
    simp only [hrest]

namespace AddressMessage

/-- The network that a message reports, with the index of its link. -/
def report? (m : AddressMessage) : Option (UInt32 × IpNet) := m.net?.map fun net => (m.index, net)

theorem map_filter_reports (addresses : List AddressMessage) (i : UInt32) :
    ((addresses.filterMap report?).filter fun p => p.1 == i).map Prod.snd = netsAt addresses i := by
  unfold netsAt
  induction addresses with
  | nil => rfl
  | cons a addresses ih =>
    cases hnet : a.net? with
    | none =>
      have hreport : a.report? = none := by rw [report?, hnet, Option.map_none]
      rw [List.filterMap_cons_none hreport, ih]
      by_cases ha : a.index = i <;> simp [ha, hnet]
    | some net =>
      have hreport : a.report? = some (a.index, net) := by rw [report?, hnet, Option.map_some]
      rw [List.filterMap_cons_some hreport]
      by_cases ha : a.index = i <;> simp [ha, hnet, ih]

end AddressMessage

/-! ## Listings -/

/-- A listing of links that is put together from messages on links and on addresses. -/
structure Assembled (links : List LinkMessage) (addresses : List AddressMessage)
    (listing : List Link) : Prop where
  /-- There is one link for each message with a name, in the order of these. -/
  described : List.Forall₂ (LinkMessage.Describes links addresses)
    (links.filter fun m => m.name?.isSome) listing
  /-- Each network that is reported for the index of a listed link is there once, with that link. -/
  complete : (listing.flatMap fun l => l.addresses.map fun n => (l.index, n)).Perm
    ((addresses.filterMap AddressMessage.report?).filter fun p =>
      (listing.map (·.index)).contains p.1)

section

variable {links : List LinkMessage} (addresses : List AddressMessage)

theorem assembled_ofMessages (hindex : (links.map (·.index)).Nodup)
    (hlinks : ∀ m ∈ links, m.Consistent) :
    Assembled links addresses (Link.ofMessages links addresses) := by
  -- Only messages with a name are links, and each of these says what its link is.
  have hsays : List.Forall₂
      (fun m l => m ∈ links ∧ m.Says (nameAt (LinkMessage.namesOf links)) l)
      (links.filter fun m => m.name?.isSome)
      (links.filterMap (LinkMessage.link? (nameAt (LinkMessage.namesOf links)))) := by
    refine (forall₂_filterMap fun m _ => ?_).imp fun m l h => ⟨h.1, LinkMessage.says_of_link? h.2⟩
    rw [LinkMessage.link?, Option.isSome_map]
  generalize hls : links.filterMap (LinkMessage.link? (nameAt (LinkMessage.namesOf links))) = ls
    at hsays
  -- A link has the index of its message, so no two links share one.
  have hindices : (ls.map (·.index)).Nodup := by
    rw [← map_eq_of_forall₂ (fun m l h => h.2.index.symm) hsays]
    exact hindex.sublist (List.filter_sublist.map _)
  -- So folding the addresses in gives each link those that are reported for its index.
  have hlisting : Link.ofMessages links addresses =
      ls.map fun l => { l with addresses := AddressMessage.netsAt addresses l.index } := by
    rw [Link.ofMessages, hls, withAddresses_eq_map hindices]
    refine List.map_congr_left fun l _ => ?_
    rw [← AddressMessage.map_filter_reports]
    rfl
  rw [hlisting]
  constructor
  · rw [List.forall₂_map_right_iff]
    refine hsays.imp fun m l h => ?_
    have hdescribes := h.2.describes addresses hindex hlinks (hlinks m h.1)
    rwa [← h.2.index] at hdescribes
  · -- The networks of a link are what is reported for its index.
    have hgiven (l : Link) :
        (AddressMessage.netsAt addresses l.index).map (fun n => (l.index, n)) =
          (addresses.filterMap AddressMessage.report?).filter fun p => p.1 == l.index := by
      rw [← AddressMessage.map_filter_reports, List.map_map]
      refine (List.map_congr_left fun p hp => ?_).trans (List.map_id _)
      have hpi : p.1 = l.index := by simpa using (List.mem_filter.mp hp).2
      exact Prod.ext hpi.symm rfl
    rw [List.flatMap_map, List.map_map]
    simp only [hgiven]
    have hperm := perm_flatMap_filter hindices (addresses.filterMap AddressMessage.report?)
    rw [List.flatMap_map] at hperm
    exact hperm

end

end HostNet
