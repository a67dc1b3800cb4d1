/-
Snapshots are read back from their texts.

Each record is read back from its value, and the value that a snapshot is written as fits into a
text: it is nested four deep, and its only numbers are the ids of VLANs.
-/

import HostNet.Proofs.JsonText
import HostNet.Proofs.NetworkText
import HostNet.Snapshot.Codec

namespace HostNet

/-! ## Values -/

/-- A list is read back if its items are. -/
theorem Json.list?_map {α : Type} {read : Json → Option α} {write : α → Json}
    (h : ∀ a, read (write a) = some a) (items : List α) :
    Json.list? read (.arr (items.map write)) = some items := by
  change (items.map write).mapM read = some items
  induction items with
  | nil => rfl
  | cons a items ih => simp [h, ih]

/-- A 16-bit number is in the range that is read. -/
theorem Json.uint16?_ofNat (n : UInt16) : (Json.ofNat n.toNat).uint16? = some n := by
  have h : n.toNat ≤ 65535 := Nat.le_of_lt_succ n.toNat_lt
  simp [uint16?, ofNat, nat?, h]

theorem IpNet.ofJson?_toJson (n : IpNet) : ofJson? n.toJson = some n := ofString?_text n

theorem IpNet.option?_toJson (n : IpNet) : Json.option? ofJson? n.toJson = some (some n) :=
  congrArg (Option.map some) n.ofJson?_toJson

/-- The tag of a kind tells bridges from VLANs, so the kind is read back. -/
theorem RecordKind.ofJson?_toJson (k : RecordKind) : ofJson? k.toJson = some k := by
  cases k with
  | bridge => rfl
  | vlan parent id =>
    simp [ofJson?, toJson, Json.fields?, Json.need, Json.field?, Json.string?, Json.uint16?_ofNat]

/-- A record is read back with all its fields, also where it has no master. -/
theorem LinkRecord.ofJson?_toJson (r : LinkRecord) : ofJson? r.toJson = some r := by
  have hkind := r.kind.ofJson?_toJson
  have haddresses := Json.list?_map IpNet.ofJson?_toJson r.addresses
  obtain ⟨name, kind, master, addresses, up⟩ := r
  cases master <;>
    simp [ofJson?, toJson, Json.objOf, Json.fields?, Json.need, Json.may, Json.needOr,
      Json.field?, Json.string?, Json.bool?, Json.option?, networksToJson, hkind, haddresses]

theorem Attachment.ofJson?_toJson (a : Attachment) : ofJson? a.toJson = some a := by
  simp [ofJson?, toJson, Json.fields?, Json.need, Json.field?, Json.string?]

/-- A rule is read back with what it leaves out. -/
theorem Rule.ofJson?_toJson (r : Rule) : ofJson? r.toJson = some r := by
  obtain ⟨chain, target, source, destination⟩ := r
  cases source <;> cases destination <;>
    simp [ofJson?, toJson, Json.objOf, Json.fields?, Json.need, Json.may, Json.needOr, Json.field?,
      Json.string?, IpNet.option?_toJson]

/-- The fields of some tables are read into the rules of these tables. -/
theorem foldlM_addTableRules (rules : PerTable (Option (List Rule))) (tables : List Table)
    (start : PerTable (Option (List Rule))) :
    (tables.filterMap fun t => (rules.get t).map fun rs =>
        (t.name, Json.arr (rs.map Rule.toJson))).foldlM addTableRules start =
      some (tables.foldl (fun p t => (rules.get t).elim p fun rs => p.set t (some rs)) start) := by
  induction tables generalizing start with
  | nil => rfl
  | cons t tables ih =>
    cases ht : rules.get t with
    | none =>
      rw [List.filterMap_cons_none (by rw [ht]; rfl), ih]
      simp [ht]
    | some rs =>
      have hread : addTableRules start (t.name, .arr (rs.map Rule.toJson)) =
          some (start.set t (some rs)) := by
        simp [addTableRules, Table.ofName?_name, Json.list?_map Rule.ofJson?_toJson]
      rw [List.filterMap_cons_some (by rw [ht]; rfl), List.foldlM_cons, hread]
      simpa [ht] using ih (start.set t (some rs))

namespace Snapshot

/-- Tables that were not captured are left out, and read back as not captured. -/
theorem rulesOfJson?_rulesToJson (rules : PerTable (Option (List Rule))) :
    rulesOfJson? (rulesToJson rules) = some rules := by
  have hfold := foldlM_addTableRules rules Table.all (.const none)
  have hall : Table.all.foldl (fun p t => (rules.get t).elim p fun rs => p.set t (some rs))
      (PerTable.const none) = rules := by
    obtain ⟨filter, nat, mangle, raw⟩ := rules
    cases filter <;> cases nat <;> cases mangle <;> cases raw <;> rfl
  rw [hall] at hfold
  rw [rulesToJson, rulesOfJson?, Json.objOf, PerTable.toList, List.map_map, List.filterMap_map]
  simpa [Json.fields?, Function.comp_def] using hfold

theorem ofJson?_toJson (s : Snapshot) : ofJson? s.toJson = some s := by
  have hlinks := Json.list?_map LinkRecord.ofJson?_toJson s.links
  have hattachments := Json.list?_map Attachment.ofJson?_toJson s.attachments
  have hrules := rulesOfJson?_rulesToJson s.rules
  simp [ofJson?, toJson, Json.fields?, Json.needOr, Json.field?, hlinks, hattachments, hrules]

end Snapshot

/-! ## Texts -/

section

variable {room : Nat}

/-- An object is one level deeper than the deepest of the fields that are written. -/
theorem Json.fits_objOf {fields : List (String × Option Json)}
    (h : ∀ name v, (name, some v) ∈ fields → Json.Fits room v) :
    Json.Fits (room + 1) (.objOf fields) := by
  refine .obj fun f hf => ?_
  obtain ⟨⟨name, v?⟩, hmem, hv⟩ := List.mem_filterMap.mp hf
  obtain ⟨v, rfl, rfl⟩ := Option.map_eq_some_iff.mp hv
  exact h name v hmem

/-- A list is one level deeper than its items. -/
theorem Json.fits_map {α : Type} {write : α → Json} (h : ∀ a, Json.Fits room (write a))
    (items : List α) : Json.Fits (room + 1) (.arr (items.map write)) := by
  refine .arr fun v hv => ?_
  obtain ⟨a, -, rfl⟩ := List.mem_map.mp hv
  exact h a

theorem IpNet.fits_toJson (n : IpNet) : Json.Fits room n.toJson := .str _

theorem RecordKind.fits_toJson (k : RecordKind) : Json.Fits (room + 1) k.toJson := by
  cases k with
  | bridge => exact .obj (by simp [Json.Fits.str])
  | vlan parent id =>
    have hid : Json.Fits room (.ofNat id.toNat) := by
      have h := id.toNat_lt
      exact .int (by simp) (by simp; omega)
    exact .obj (by simp [Json.Fits.str, hid])

/-- The kind of a record is an object in the object, so a record is two levels deep. -/
theorem LinkRecord.fits_toJson (r : LinkRecord) : Json.Fits (room + 2) r.toJson := by
  refine Json.fits_objOf fun name v hv => ?_
  simp only [List.mem_cons, Prod.mk.injEq, Option.some.injEq, List.not_mem_nil, or_false] at hv
  rcases hv with ⟨-, rfl⟩ | ⟨-, rfl⟩ | ⟨-, h⟩ | ⟨-, rfl⟩ | ⟨-, rfl⟩
  · exact .str _
  · exact r.kind.fits_toJson
  · obtain ⟨master, -, rfl⟩ := Option.map_eq_some_iff.mp h.symm
    exact .str _
  · exact Json.fits_map IpNet.fits_toJson _
  · exact .bool _

theorem Attachment.fits_toJson (a : Attachment) : Json.Fits (room + 1) a.toJson :=
  .obj (by simp [Json.Fits.str])

theorem Rule.fits_toJson (r : Rule) : Json.Fits (room + 1) r.toJson := by
  refine Json.fits_objOf fun name v hv => ?_
  simp only [List.mem_cons, Prod.mk.injEq, Option.some.injEq, List.not_mem_nil, or_false] at hv
  rcases hv with ⟨-, rfl⟩ | ⟨-, rfl⟩ | ⟨-, h⟩ | ⟨-, h⟩
  · exact .str _
  · exact .str _
  all_goals
    obtain ⟨n, -, rfl⟩ := Option.map_eq_some_iff.mp h.symm
    exact n.fits_toJson

end

namespace Snapshot

/-- However much a snapshot records, its value stays within the depth that the reader allows. -/
theorem fits_toJson (s : Snapshot) : Json.Fits Json.maxDepth s.toJson := by
  refine .obj fun f hf => ?_
  simp only [List.mem_cons, List.not_mem_nil, or_false] at hf
  rcases hf with rfl | rfl | rfl
  · exact Json.fits_map LinkRecord.fits_toJson _
  · exact Json.fits_map Attachment.fits_toJson _
  · refine Json.fits_objOf fun name v hv => ?_
    obtain ⟨p, -, hp⟩ := List.mem_map.mp hv
    obtain ⟨rules, -, rfl⟩ := Option.map_eq_some_iff.mp (Prod.mk.inj hp).2
    exact Json.fits_map Rule.fits_toJson rules

/-- A snapshot is read back from its text. -/
theorem ofText?_text (s : Snapshot) : ofText? s.text = some s := by
  simp [ofText?, text, s.fits_toJson.parse?_pretty, ofJson?_toJson]

end Snapshot

end HostNet
