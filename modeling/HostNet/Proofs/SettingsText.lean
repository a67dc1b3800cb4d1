/-
Settings are read back from their TOML documents.

The document of some settings is one line for each of them, `lines`, and is read as the object that
the settings are in JSON.  The texts among them must be clean.
-/

import HostNet.Proofs.RuleListings
import HostNet.Proofs.SnapshotText
import HostNet.Proofs.TomlText
import HostNet.Settings.Codec

namespace HostNet

open Text

/-! ## Values -/

/-- A 64-bit number is in the range that is read. -/
theorem Json.uint64?_ofNat (n : UInt64) : (Json.ofNat n.toNat).uint64? = some n := by
  have h : n.toNat ≤ 18446744073709551615 := Nat.le_of_lt_succ n.toNat_lt
  simp [uint64?, ofNat, nat?, h]

theorem Network.ofJson?_toJson (n : Ipv4Net) : ofJson? n.toJson = some n := by
  rw [toJson, ofJson?, Json.string?, Option.bind_some, ofString?_text]

theorem Table.ofJson?_toJson (t : Table) : ofJson? t.toJson = some t := by cases t <;> rfl

namespace Settings

/-- Settings are read back from their object. -/
theorem ofJson?_toJson (s : Settings) : ofJson? s.toJson = some s := by
  have hsubnets := Json.list?_map Network.ofJson?_toJson s.subnets
  have htables := Json.list?_map Table.ofJson?_toJson s.tables
  simp [ofJson?, toJson, Json.fields?, Json.needOr, Json.field?, Json.string?, hsubnets, htables,
    Json.uint64?_ofNat]

end Settings

/-! ## Clean texts -/

theorem Table.clean_name (t : Table) : Toml.Clean t.name := by cases t <;> decide

/-- Digits need no escape. -/
theorem Toml.isClean_of_isDigit {c : Char} (h : c.isDigit = true) : isClean c = true := by
  have hcode : 48 ≤ c.toNat ∧ c.toNat ≤ 57 := by
    simpa [Char.isDigit, UInt32.le_iff_toNat_le] using h
  have hne (d : Char) (hd : d.isDigit = false) : c ≠ d := ne_of_kind h hd
  simp only [isClean, Bool.and_eq_true, bne_iff_ne, decide_eq_true_eq]
  exact ⟨⟨⟨by omega, by omega⟩, hne '"' rfl⟩, hne '\\' rfl⟩

/-- The text of a network has digits, dots and a slash, and none of these needs an escape. -/
theorem Network.clean_text (n : Ipv4Net) : Toml.Clean n.text := by
  have hdigits (k : Nat) : ∀ c ∈ Nat.toDigits 10 k, Toml.isClean c = true :=
    fun c hc => Toml.isClean_of_isDigit (isDigit_of_mem_decimal k c hc)
  have haddress : ∀ c ∈ addressText n.address, Toml.isClean c = true := by
    refine forall_mem_intercalate (List.forall_mem_singleton.mpr rfl) fun x hx => ?_
    obtain ⟨k, -, rfl⟩ := List.mem_map.mp hx
    exact hdigits k
  intro c hc
  rw [text, String.toList_ofList, chars, List.mem_append, List.mem_cons] at hc
  rcases hc with hc | rfl | hc
  · exact haddress c hc
  · decide
  · exact hdigits _ c hc

namespace Settings

/-- The texts in some settings have no double quotes, backslashes or control characters. -/
structure Clean (s : Settings) : Prop where
  mark : Toml.Clean s.mark
  uplink : Toml.Clean s.uplink
  stateDirectory : Toml.Clean s.stateDirectory

/-- The lines of the document of some settings. -/
def lines (s : Settings) : List Toml.Line :=
  [⟨"managed_prefix", Toml.stringChars s.mark, .str s.mark⟩,
    ⟨"uplink_interface", Toml.stringChars s.uplink, .str s.uplink⟩,
    ⟨"project_subnets", Toml.listChars (s.subnets.map Network.text),
      .arr ((s.subnets.map Network.text).map .str)⟩,
    ⟨"tracked_tables", Toml.listChars (s.tables.map Table.name),
      .arr ((s.tables.map Table.name).map .str)⟩,
    ⟨"operation_timeout_secs", Nat.toDigits 10 s.operationSeconds.toNat,
      .ofNat s.operationSeconds.toNat⟩,
    ⟨"lock_timeout_secs", Nat.toDigits 10 s.lockSeconds.toNat, .ofNat s.lockSeconds.toNat⟩,
    ⟨"state_dir", Toml.stringChars s.stateDirectory, .str s.stateDirectory⟩]

/-- The keys of these lines. -/
def keys : List String :=
  ["managed_prefix", "uplink_interface", "project_subnets", "tracked_tables",
    "operation_timeout_secs", "lock_timeout_secs", "state_dir"]

theorem map_key_lines (s : Settings) : s.lines.map Toml.Line.key = keys := rfl

theorem toToml_eq (s : Settings) : s.toToml = String.ofList (s.lines.flatMap Toml.Line.chars) := rfl

/-- The text of each setting spells the setting. -/
theorem spells_of_mem_lines {s : Settings} (h : s.Clean) :
    ∀ l ∈ s.lines, Toml.Spells l.text l.value := by
  have hsubnets : ∀ t ∈ s.subnets.map Network.text, Toml.Clean t := by
    intro t ht
    obtain ⟨n, -, rfl⟩ := List.mem_map.mp ht
    exact n.clean_text
  have htables : ∀ t ∈ s.tables.map Table.name, Toml.Clean t := by
    intro t ht
    obtain ⟨t, -, rfl⟩ := List.mem_map.mp ht
    exact t.clean_name
  have hnumber (n : UInt64) : Toml.Spells (Nat.toDigits 10 n.toNat) (.ofNat n.toNat) :=
    .number (Nat.le_of_lt_succ n.toNat_lt)
  simp only [lines, List.forall_mem_cons]
  exact ⟨Toml.spells_stringChars h.mark, Toml.spells_stringChars h.uplink,
    Toml.spells_listChars hsubnets, Toml.spells_listChars htables, hnumber _, hnumber _,
    Toml.spells_stringChars h.stateDirectory, nofun⟩

/-- Each line of the settings has a bare key, and a value whose text is read back. -/
theorem plain_of_mem_lines {s : Settings} (h : s.Clean) : ∀ l ∈ s.lines, l.Plain := by
  have hbare : ∀ key ∈ keys, Toml.isBareKey key = true := by decide
  intro l hl
  refine ⟨hbare l.key ?_, spells_of_mem_lines h l hl⟩
  rw [← map_key_lines s]
  exact List.mem_map_of_mem hl

/-- The lines give the settings as an object does. -/
theorem obj_lines (s : Settings) :
    Json.obj (s.lines.map fun l => (l.key, l.value)) = s.toJson := by
  simp only [lines, toJson, List.map_map]
  rfl

/-- The document of some settings is read as their object. -/
theorem parse?_toToml {s : Settings} (h : s.Clean) : Toml.parse? s.toToml = some s.toJson := by
  have hkeys : (s.lines.map Toml.Line.key).Nodup := by
    rw [map_key_lines]
    decide
  rw [toToml_eq, Toml.Line.parse?_flatMap (plain_of_mem_lines h) hkeys, obj_lines]

/-- Settings that pass the checks and whose texts are clean have a document of plain lines, one for
each of them, and are read back from it, where they pass the checks again. -/
theorem ofToml_toToml {s : Settings} (hcheck : s.check = .ok ()) (hclean : s.Clean) :
    (∃ ls : List Toml.Line, s.toToml = String.ofList (ls.flatMap Toml.Line.chars) ∧
      (∀ l ∈ ls, l.Plain) ∧ Json.obj (ls.map fun l => (l.key, l.value)) = s.toJson) ∧
    ofToml s.toToml = .ok s := by
  have hread : (Toml.parse? s.toToml).bind ofJson? = some s := by
    rw [parse?_toToml hclean]
    exact s.ofJson?_toJson
  refine ⟨⟨s.lines, toToml_eq s, plain_of_mem_lines hclean, obj_lines s⟩, ?_⟩
  unfold ofToml
  rw [hread]
  dsimp only
  rw [hcheck]
  rfl

/-- A deployment with two subnets, which take a line each, no tables and the longest time limit
there is. -/
def patient : Settings :=
  { standard with
    uplink := "en's0"
    subnets := [privateSubnet 10, privateSubnet 200]
    tables := []
    operationSeconds := 0xFFFFFFFFFFFFFFFF
    stateDirectory := "" }

theorem ofToml_toToml_patient :
    patient.check = .ok () ∧ patient.Clean ∧ ofToml patient.toToml = .ok patient ∧
      patient.toToml = "managed_prefix = \"rol.\"\nuplink_interface = \"en's0\"\n" ++
        "project_subnets = [\n    \"10.10.10.0/24\",\n    \"10.10.200.0/24\",\n]\n" ++
        "tracked_tables = []\n" ++
        "operation_timeout_secs = 18446744073709551615\nlock_timeout_secs = 30\n" ++
        "state_dir = \"\"\n" := by
  have hcheck : patient.check = .ok () := by rfl
  have hclean : patient.Clean := ⟨by decide, by decide, by decide⟩
  refine ⟨hcheck, hclean, (ofToml_toToml hcheck hclean).2, ?_⟩
  cbv

end Settings

end HostNet
