import SmolVlm2Kv260.Host.ManifestParser

/-!
# The strings of a manifest

The strings of an exported manifest are those of its entries, section by section.  None of the
names and formats in it is a key that is searched for, so what a search finds is a field.
-/

set_option autoImplicit false

namespace Kv260.Manifest

open Py Text

/-! ### Fields that can be read -/

/-- The keys that are searched for. -/
def reservedKeys : List String :=
  "layer" :: "vision_layers" :: "connector" :: (intKeys ++ strKeys)

/-- A string that is written as it is and is no key. -/
def IsText (s : String) : Prop := Json.PlainString s ∧ s ∉ reservedKeys

instance (s : String) : Decidable (IsText s) := inferInstanceAs (Decidable (_ ∧ _))

/-- A field of an entry: its value can be read where that is needed, and it is no key. -/
structure GoodField (key : String) (v : Json Empty) : Prop where
  plain : Json.PlainString key
  canRead : CanRead key (some v)
  value : ∀ x ∈ v.strings, IsText x.1

/-- The fields of an entry. -/
def GoodFields (fields : Fields) : Prop := ∀ e ∈ fields, GoodField e.1 e.2

theorem mem_reservedKeys_of_int {s : String} (h : s ∈ intKeys) :
  s ∈ reservedKeys
  := by
  apply List.mem_append_right ["layer", "vision_layers", "connector"]
  apply List.mem_append_left _ h

theorem mem_reservedKeys_of_str {s : String} (h : s ∈ strKeys) :
  s ∈ reservedKeys
  := by
  apply List.mem_append_right ["layer", "vision_layers", "connector"]
  apply List.mem_append_right intKeys h

theorem canRead_of_notMem {s : String} (hs : s ∉ reservedKeys) (v : Option (Json Empty)) :
  CanRead s v
  where
  layer h := absurd (h ▸ List.mem_cons_self) hs
  int h := absurd (mem_reservedKeys_of_int h) hs
  str h := absurd (mem_reservedKeys_of_str h) hs

theorem goodField_of_isText {key : String} {v : Json Empty} (hkey : IsText key)
    (hv : ∀ x ∈ v.strings, IsText x.1) :
  GoodField key v
  := ⟨hkey.1, canRead_of_notMem hkey.2 _, hv⟩

theorem isText_of_mem_str {s : String} (hs : IsText s) :
  ∀ x ∈ (Json.str s : Json Empty).strings, IsText x.1
  := by
  rw [Json.strings]
  intro x hx
  rw [List.mem_singleton.mp hx]
  apply hs

theorem goodField_str {key s : String} (hkey : IsText key) (hs : IsText s) :
  GoodField key (.str s)
  := goodField_of_isText hkey (isText_of_mem_str hs)

/-- A value without strings. -/
theorem goodField_of_nil {key : String} {v : Json Empty} (hkey : IsText key)
    (hv : v.strings = []) :
  GoodField key v
  := goodField_of_isText hkey (by simp only [hv, List.not_mem_nil, false_implies, implies_true])

theorem goodField_name {s : String} (hs : IsText s) :
  GoodField "name" (.str s)
  where
  plain := by decide
  canRead :=
    { layer := fun h => absurd h (by decide)
      int := fun h => absurd h (by decide)
      str := fun _ => ⟨s, rfl, hs.1⟩ }
  value := isText_of_mem_str hs

theorem goodField_layer (n : ℕ) :
  GoodField "layer" (.int n)
  where
  plain := by decide
  canRead :=
    { layer := fun _ => ⟨n, rfl⟩
      int := fun h => absurd h (by decide)
      str := fun h => absurd h (by decide) }
  value := nofun

theorem goodField_int {key : String} {n : ℕ} (hkey : key ∈ intKeys) (hn : n < 2147483648) :
  GoodField key (.int n)
  where
  plain := (by decide : ∀ key ∈ intKeys, Json.PlainString key) key hkey
  canRead :=
    { layer := fun h => absurd h ((by decide : ∀ key ∈ intKeys, key ≠ "layer") key hkey)
      int := fun _ => ⟨n, rfl, by omega, by exact_mod_cast hn⟩
      str := fun h => absurd h ((by decide : ∀ key ∈ intKeys, key ∉ strKeys) key hkey) }
  value := nofun

theorem stringsFields_eq (fields : Fields) :
  Json.stringsFields fields = fields.flatMap fun e => (e.1, some e.2) :: e.2.strings
  := by
  induction fields with
  | nil => rfl
  | cons e fields ih => rw [Json.stringsFields, ih, List.flatMap_cons, List.cons_append]

/-- A string of an entry is the key of one of its fields or a string of the value. -/
theorem mem_stringsFields {fields : Fields} {x : String × Option (Json Empty)} :
  x ∈ Json.stringsFields fields ↔ ∃ e ∈ fields, x = (e.1, some e.2) ∨ x ∈ e.2.strings
  := by simp only [stringsFields_eq, List.mem_flatMap, List.mem_cons]

theorem GoodFields.plain {fields : Fields} (h : GoodFields fields) :
  ∀ x ∈ Json.stringsFields fields, Json.PlainString x.1
  := by
  intro x hx
  obtain ⟨e, he, rfl | hx⟩ := mem_stringsFields.mp hx
  · apply (h e he).plain
  · apply ((h e he).value x hx).1

theorem GoodFields.readable {fields : Fields} (h : GoodFields fields) :
  Readable (Json.stringsFields fields)
  := by
  intro x hx
  obtain ⟨e, he, rfl | hx⟩ := mem_stringsFields.mp hx
  · apply (h e he).canRead
  · apply canRead_of_notMem ((h e he).value x hx).2

/-- A key that is searched for is found in an entry just when it is one of its keys. -/
theorem GoodFields.mem_iff {fields : Fields} (h : GoodFields fields) {key : String}
    (hkey : key ∈ reservedKeys) :
  (∃ v, (key, v) ∈ Json.stringsFields fields) ↔ key ∈ fields.map Prod.fst
  := by
  rw [List.mem_map]
  constructor
  · rintro ⟨v, hv⟩
    obtain ⟨e, he, heq | hx⟩ := mem_stringsFields.mp hv
    · exact ⟨e, he, (congrArg Prod.fst heq).symm⟩
    · exact absurd hkey ((h e he).value _ hx).2
  · rintro ⟨e, he, rfl⟩
    exact ⟨some e.2, mem_stringsFields.mpr ⟨e, he, .inl rfl⟩⟩

theorem GoodFields.ne {fields : Fields} (h : GoodFields fields) {key : String}
    (hkey : key ∈ reservedKeys) (hnot : key ∉ fields.map Prod.fst) :
  ∀ x ∈ Json.stringsFields fields, x.1 ≠ key
  := by
  rintro ⟨s, v⟩ hx rfl
  apply hnot ((h.mem_iff hkey).mp ⟨v, hx⟩)

theorem GoodFields.deleteKeys {fields : Fields} (h : GoodFields fields)
    (deleted : String → Bool) :
  GoodFields (deleteKeys deleted fields)
  := fun e he => h e (List.mem_of_mem_filter he)

/-! ### Schemes and names -/

/-- The texts of a scheme. -/
def textsOf (scheme : QuantSchemeSpec) : List String :=
  [scheme.name, scheme.weightFormat, scheme.actFormat, scheme.calibrationMode, scheme.trainMode,
    scheme.checkpointPath, scheme.exportMode, scheme.description]

theorem isText_of_mem_registry :
  ∀ scheme ∈ schemeRegistry, ∀ s ∈ textsOf scheme, IsText s
  := by decide +kernel

theorem goodFields_scheme {scheme : QuantSchemeSpec} (h : ∀ s ∈ textsOf scheme, IsText s) :
  GoodFields scheme.toManifest
  := by
  simp only [textsOf, List.forall_mem_cons] at h
  obtain ⟨hname, hweight, hact, hcalibration, htrain, hpath, hmode, hdescription, -⟩ := h
  simp only [GoodFields, QuantSchemeSpec.toManifest, List.forall_mem_cons]
  exact ⟨goodField_name hname, goodField_str (by decide) hweight, goodField_str (by decide) hact,
    goodField_of_nil (by decide) rfl, goodField_of_nil (by decide) rfl,
    goodField_str (by decide) hcalibration, goodField_str (by decide) htrain,
    goodField_str (by decide) hpath, goodField_str (by decide) hmode,
    goodField_of_nil (by decide) rfl, goodField_of_nil (by decide) rfl,
    goodField_of_nil (by decide) rfl, goodField_of_nil (by decide) rfl,
    goodField_of_nil (by decide) rfl, goodField_of_nil (by decide) rfl,
    goodField_str (by decide) hdescription, nofun⟩

theorem isText_awqReady (scheme : QuantSchemeSpec) :
  IsText scheme.awqReady
  := by
  rw [QuantSchemeSpec.awqReady]
  split
  · decide
  · decide

theorem goodFields_layerManifest {quant : String} {offsets : ℕ × ℕ} {index : ℕ}
    (hquant : IsText quant) (hw : offsets.1 < 2147483648) (hm : offsets.2 < 2147483648) :
  GoodFields (layerManifest quant offsets index)
  := by
  simp only [GoodFields, layerManifest, List.forall_mem_cons]
  refine ⟨goodField_layer index, goodField_int (by decide) hw, goodField_int (by decide) hm, ?_,
    ?_, ?_, nofun⟩
  · apply goodField_int (by decide)
    omega
  · apply goodField_int (by decide)
    omega
  · apply goodField_str (by decide) hquant

/-- An entry with a name that is a text and numbers that can be read. -/
structure GoodEntry (e : VisionEntry) : Prop where
  name : IsText e.name
  wOffsetAxi256 : e.wOffsetAxi256 < 2147483648
  metaOffsetAxi256 : e.metaOffsetAxi256 < 2147483648
  M : e.M < 2147483648
  K : e.K < 2147483648
  N : e.N < 2147483648

theorem GoodEntry.goodFields {e : VisionEntry} (h : GoodEntry e) :
  GoodFields e.toManifest
  := by
  simp only [GoodFields, VisionEntry.toManifest, List.forall_mem_cons]
  exact ⟨goodField_name h.name, goodField_int (by decide) h.wOffsetAxi256,
    goodField_int (by decide) h.metaOffsetAxi256, goodField_int (by decide) h.M,
    goodField_int (by decide) h.K, goodField_int (by decide) h.N, nofun⟩

theorem goodEntry_connector :
  GoodEntry connectorEntry
  where
  name := by decide
  wOffsetAxi256 := by decide
  metaOffsetAxi256 := by decide
  M := by decide
  K := by decide
  N := by decide

theorem plain_of_isDigit {c : Char} (h : c.isDigit = true) :
  c ≠ '"' ∧ c ≠ '\\' ∧ 32 ≤ c.toNat
  := by
  have hlow : 48 ≤ c.toNat := (Char.isDigit_iff_toNat.mp h).1
  refine ⟨?_, ?_, by omega⟩
  · rintro rfl
    exact absurd h (by decide)
  · rintro rfl
    exact absurd h (by decide)

theorem toList_blockName (index : ℕ) (name : String) :
  ("blk." ++ toString index ++ "." ++ name).toList
    = ['b', 'l', 'k', '.'] ++ (index.repr.toList ++ '.' :: name.toList)
  := by
  simp only [String.toList_append, List.append_assoc]
  rfl

/-- The name of a matrix of a block. -/
theorem isText_blockName {name : String} (hname : Json.PlainString name) (index : ℕ) :
  IsText ("blk." ++ toString index ++ "." ++ name)
  := by
  constructor
  · intro c hc
    rw [toList_blockName] at hc
    rcases List.mem_append.mp hc with hc | hc
    · have hplain : Json.PlainString "blk." := by decide
      exact hplain c hc
    · rcases List.mem_append.mp hc with hc | hc
      · apply plain_of_isDigit (isDigit_of_mem_repr hc)
      · rcases List.mem_cons.mp hc with rfl | hc
        · decide
        · apply hname c hc
  · -- no key begins with this letter
    have hfirst : ∀ key ∈ reservedKeys, key.toList.head? ≠ some 'b' := by decide
    intro hmem
    apply hfirst _ hmem
    rw [toList_blockName]
    rfl

theorem goodEntry_visionEntry {name : String} {shape offsets : ℕ × ℕ} (hname : IsText name)
    (hK : shape.1 < 2147483648) (hN : shape.2 < 2147483648)
    (hw : offsets.1 / 32 < 2147483648) (hm : offsets.2 / 32 < 2147483648) :
  GoodEntry (visionEntry name shape offsets)
  where
  name := hname
  wOffsetAxi256 := hw
  metaOffsetAxi256 := hm
  M := (by decide : 1024 < 2147483648)
  K := hK
  N := hN

/-- The offsets of the vision encoder, in words, can be read. -/
def GoodOffsets (offsets : ℕ → ℕ × ℕ) (n : ℕ) : Prop :=
  ∀ i < n, (offsets i).1 / 32 < 2147483648 ∧ (offsets i).2 / 32 < 2147483648

theorem goodEntry_visionManifest {offsets : ℕ → ℕ × ℕ} {blocks : ℕ}
    (h : GoodOffsets offsets (1 + 4 * blocks)) :
  ∀ e ∈ visionManifest offsets blocks, GoodEntry e
  := by
  rw [visionManifest, List.forall_mem_cons]
  constructor
  · have hpatch := h 0 (by omega)
    apply goodEntry_visionEntry (by decide) (by decide) (by decide) hpatch.1 hpatch.2
  · intro e he
    obtain ⟨index, hindex, he⟩ := List.mem_flatMap.mp he
    have hindex := List.mem_range.mp hindex
    obtain ⟨⟨⟨name, shape⟩, j⟩, hm, rfl⟩ := List.mem_map.mp he
    have hmatrix : ∀ m ∈ visionMatrices.zipIdx, Json.PlainString m.1.1
        ∧ m.1.2.1 < 2147483648 ∧ m.1.2.2 < 2147483648 ∧ m.2 < 4 := by decide
    obtain ⟨hname, hK, hN, hj⟩ := hmatrix _ hm
    have hoffsets := h (1 + 4 * index + j) (by omega)
    apply goodEntry_visionEntry (isText_blockName hname index) hK hN hoffsets.1 hoffsets.2

/-! ### The whole manifest -/

/-- The strings of entries. -/
def entryStrings (entries : List Fields) : Strings := entries.flatMap Json.stringsFields

theorem stringsItems_dict (entries : List Fields) :
  Json.stringsItems (entries.map .dict) = entryStrings entries
  := by
  induction entries with
  | nil => rfl
  | cons fields entries ih =>
      rw [List.map_cons, Json.stringsItems, Json.strings, ih, entryStrings, entryStrings,
        List.flatMap_cons]

theorem stringsItems_str (names : List String) :
  Json.stringsItems (names.map (Json.str : String → Json Empty)) = names.map fun s => (s, none)
  := by
  induction names with
  | nil => rfl
  | cons name names ih =>
      rw [List.map_cons, Json.stringsItems, Json.strings, ih, List.map_cons, List.singleton_append]

/-- The strings behind the entry of the connector. -/
def artifactStrings : Strings :=
  ("artifacts", some (.list (manifestArtifacts.map .str)))
    :: manifestArtifacts.map fun s => (s, none)

/-- The strings from `"connector"` on. -/
def connectorStrings (connector : Fields) : Strings :=
  ("connector", some (.dict connector)) :: (Json.stringsFields connector ++ artifactStrings)

/-- The strings from `"vision_layers"` on. -/
def visionStrings (vision : List Fields) (connector : Fields) : Strings :=
  ("vision_layers", some (.list (vision.map .dict)))
    :: (entryStrings vision ++ connectorStrings connector)

/-- The strings behind `"kv260_status"`. -/
def statusStrings (scheme : QuantSchemeSpec) (decoder : List Fields) : Strings :=
  (scheme.awqReady, none) :: ("decoder_layers", some (.list (decoder.map .dict)))
    :: entryStrings decoder

/-- The strings before `"kv260_status"`. -/
def schemeStrings (scheme : QuantSchemeSpec) : Strings :=
  ("scheme", some (.dict scheme.toManifest)) :: Json.stringsFields scheme.toManifest

/-- The strings of a manifest, section by section. -/
def manifestStrings (scheme : QuantSchemeSpec) (decoder vision : List Fields)
    (connector : Fields) : Strings :=
  schemeStrings scheme ++ ("kv260_status", some (.str scheme.awqReady))
    :: (statusStrings scheme decoder ++ visionStrings vision connector)

theorem strings_manifestWith (scheme : QuantSchemeSpec) (decoder vision : List Fields)
    (connector : Fields) :
  (manifestWith scheme decoder vision connector).strings
    = manifestStrings scheme decoder vision connector
  := by
  simp only [manifestWith, Json.strings, Json.stringsFields, stringsItems_dict, stringsItems_str,
    manifestStrings, schemeStrings, statusStrings, visionStrings, connectorStrings,
    artifactStrings, List.cons_append, List.nil_append, List.append_nil]

/-- A string that is a key to be read, or one that is not read. -/
structure GoodString (s : String) (v : Option (Json Empty)) : Prop where
  plain : Json.PlainString s
  canRead : CanRead s v

theorem goodString_of_isText {s : String} (hs : IsText s) (v : Option (Json Empty)) :
  GoodString s v
  := ⟨hs.1, canRead_of_notMem hs.2 v⟩

theorem GoodFields.goodString {fields : Fields} (h : GoodFields fields) :
  ∀ x ∈ Json.stringsFields fields, GoodString x.1 x.2
  := fun x hx => ⟨h.plain x hx, h.readable x hx⟩

theorem goodString_entryStrings {entries : List Fields} (h : ∀ e ∈ entries, GoodFields e) :
  ∀ x ∈ entryStrings entries, GoodString x.1 x.2
  := by
  intro x hx
  obtain ⟨fields, hfields, hx⟩ := List.mem_flatMap.mp hx
  apply (h fields hfields).goodString x hx

theorem canRead_section {s : String} (hs : s = "vision_layers" ∨ s = "connector")
    (v : Option (Json Empty)) :
  CanRead s v
  := by
  rcases hs with rfl | rfl
  · exact ⟨fun h => absurd h (by decide), fun h => absurd h (by decide),
      fun h => absurd h (by decide)⟩
  · exact ⟨fun h => absurd h (by decide), fun h => absurd h (by decide),
      fun h => absurd h (by decide)⟩

theorem goodString_artifactStrings :
  ∀ x ∈ artifactStrings, GoodString x.1 x.2
  := by
  rw [artifactStrings, List.forall_mem_cons]
  constructor
  · apply goodString_of_isText (by decide)
  · intro x hx
    obtain ⟨s, hs, rfl⟩ := List.mem_map.mp hx
    have htext : ∀ s ∈ manifestArtifacts, IsText s := by decide
    apply goodString_of_isText (htext s hs)

/-- The keys of an entry of `decoder_layers`. -/
def layerKeys : List String :=
  ["layer", "w_offset_bytes", "meta_offset_bytes", "w_offset_axi256", "meta_offset_axi256",
    "quant"]

/-- The keys of an entry of `vision_layers`, and of `connector`. -/
def entryKeys : List String := ["name", "w_offset_axi256", "meta_offset_axi256", "M", "K", "N"]

/-- A manifest with entries that can be read, as far as their keys are there. -/
structure GoodManifest (scheme : QuantSchemeSpec) (decoder vision : List Fields)
    (connector : Fields) : Prop where
  schemeTexts : ∀ s ∈ textsOf scheme, IsText s
  decoderFields : ∀ e ∈ decoder, GoodFields e
  visionFields : ∀ e ∈ vision, GoodFields e
  connectorFields : GoodFields connector
  decoderKeys : ∀ e ∈ decoder, e.map Prod.fst ⊆ layerKeys
  visionKeys : ∀ e ∈ vision, e.map Prod.fst ⊆ entryKeys
  connectorKeys : connector.map Prod.fst ⊆ entryKeys

section GoodManifest

variable {scheme : QuantSchemeSpec} {decoder vision : List Fields} {connector : Fields}

theorem GoodManifest.goodString (h : GoodManifest scheme decoder vision connector) :
  ∀ x ∈ manifestStrings scheme decoder vision connector, GoodString x.1 x.2
  := by
  have hstatus := isText_awqReady scheme
  simp only [manifestStrings, schemeStrings, statusStrings, visionStrings, connectorStrings,
    List.forall_mem_append, List.forall_mem_cons]
  refine ⟨⟨goodString_of_isText (by decide) _, (goodFields_scheme h.schemeTexts).goodString⟩,
    ⟨by decide, ?_⟩, ⟨goodString_of_isText hstatus _, goodString_of_isText (by decide) _,
      goodString_entryStrings h.decoderFields⟩, ⟨by decide, canRead_section (Or.inl rfl) _⟩,
    goodString_entryStrings h.visionFields, ⟨by decide, canRead_section (Or.inr rfl) _⟩,
    h.connectorFields.goodString, goodString_artifactStrings⟩
  exact ⟨fun h => absurd h (by decide), fun h => absurd h (by decide),
    fun _ => ⟨_, rfl, hstatus.1⟩⟩

theorem entryStrings_ne {entries : List Fields} {keys : List String} {key : String}
    (h : ∀ e ∈ entries, GoodFields e) (hkeys : ∀ e ∈ entries, e.map Prod.fst ⊆ keys)
    (hkey : key ∈ reservedKeys) (hnot : key ∉ keys) :
  ∀ x ∈ entryStrings entries, x.1 ≠ key
  := by
  intro x hx
  obtain ⟨fields, hfields, hx⟩ := List.mem_flatMap.mp hx
  apply (h fields hfields).ne hkey (fun hmem => hnot (hkeys fields hfields hmem)) x hx

theorem artifactStrings_ne {key : String} (hkey : key ∈ reservedKeys) :
  ∀ x ∈ artifactStrings, x.1 ≠ key
  := by
  rw [artifactStrings, List.forall_mem_cons]
  constructor
  · exact (by decide : ∀ key ∈ reservedKeys, "artifacts" ≠ key) key hkey
  · intro x hx
    obtain ⟨s, hs, rfl⟩ := List.mem_map.mp hx
    exact (by decide : ∀ s ∈ manifestArtifacts, ∀ key ∈ reservedKeys, s ≠ key) s hs key hkey

theorem GoodManifest.schemeStrings_ne (h : GoodManifest scheme decoder vision connector)
    {key : String} (hkey : key ∈ ["layer", "vision_layers", "connector", "kv260_status"]) :
  ∀ x ∈ schemeStrings scheme, x.1 ≠ key
  := by
  have hkeys : ∀ key ∈ ["layer", "vision_layers", "connector", "kv260_status"],
      key ∈ reservedKeys ∧ "scheme" ≠ key
        ∧ key ∉ ["name", "weight_format", "act_format", "group_size", "block_size",
          "calibration_mode", "train_mode", "checkpoint_path", "export_mode", "requires_qat",
          "awq_enabled", "zero_skip_stats", "lora_rank", "weight_bits", "act_bits",
          "description"] := by decide
  obtain ⟨hreserved, hscheme, hnot⟩ := hkeys key hkey
  rw [schemeStrings, List.forall_mem_cons]
  exact ⟨hscheme, (goodFields_scheme h.schemeTexts).ne hreserved hnot⟩

theorem GoodManifest.statusStrings_ne (h : GoodManifest scheme decoder vision connector)
    {key : String} (hkey : key ∈ ["vision_layers", "connector"]) :
  ∀ x ∈ statusStrings scheme decoder, x.1 ≠ key
  := by
  have hkeys : ∀ key ∈ ["vision_layers", "connector"],
      key ∈ reservedKeys ∧ "decoder_layers" ≠ key ∧ key ∉ layerKeys := by decide
  obtain ⟨hreserved, hdecoder, hnot⟩ := hkeys key hkey
  rw [statusStrings, List.forall_mem_cons, List.forall_mem_cons]
  refine ⟨?_, hdecoder, entryStrings_ne h.decoderFields h.decoderKeys hreserved hnot⟩
  rintro rfl
  apply (isText_awqReady scheme).2 hreserved

theorem GoodManifest.connectorStrings_ne (h : GoodManifest scheme decoder vision connector)
    {key : String} (hkey : key ∈ ["layer", "w_offset_bytes", "meta_offset_bytes"]) :
  ∀ x ∈ connectorStrings connector, x.1 ≠ key
  := by
  have hkeys : ∀ key ∈ ["layer", "w_offset_bytes", "meta_offset_bytes"],
      key ∈ reservedKeys ∧ "connector" ≠ key ∧ key ∉ entryKeys := by decide
  obtain ⟨hreserved, hconnector, hnot⟩ := hkeys key hkey
  rw [connectorStrings, List.forall_mem_cons, List.forall_mem_append]
  refine ⟨hconnector, ?_, artifactStrings_ne hreserved⟩
  apply h.connectorFields.ne hreserved fun hmem => hnot (h.connectorKeys hmem)

theorem GoodManifest.visionStrings_ne (h : GoodManifest scheme decoder vision connector)
    {key : String} (hkey : key ∈ ["layer", "w_offset_bytes", "meta_offset_bytes"]) :
  ∀ x ∈ visionStrings vision connector, x.1 ≠ key
  := by
  have hkeys : ∀ key ∈ ["layer", "w_offset_bytes", "meta_offset_bytes"],
      key ∈ reservedKeys ∧ "vision_layers" ≠ key ∧ key ∉ entryKeys := by decide
  obtain ⟨hreserved, hvision, hnot⟩ := hkeys key hkey
  rw [visionStrings, List.forall_mem_cons, List.forall_mem_append]
  exact ⟨hvision, entryStrings_ne h.visionFields h.visionKeys hreserved hnot,
    h.connectorStrings_ne hkey⟩

/-- Reading the text of a manifest works on its strings. -/
theorem GoodManifest.readManifest_eq (h : GoodManifest scheme decoder vision connector)
    (exportDir : String) :
  readManifest exportDir ((manifestWith scheme decoder vision connector).dumps 0)
    = summarize exportDir (manifestStrings scheme decoder vision connector)
  := by
  have hplain : ∀ x ∈ (manifestWith scheme decoder vision connector).strings,
      Json.PlainString x.1 := by
    intro x hx
    rw [strings_manifestWith] at hx
    apply (h.goodString x hx).plain
  have hend : Separated [] := nofun
  have hquoted := Json.quoted_dumps nofun 0 _ hplain hend Quoted.nil
  rw [List.append_nil, List.append_nil, strings_manifestWith] at hquoted
  apply Manifest.readManifest_eq exportDir hquoted
  intro x hx
  apply (h.goodString x hx).canRead

end GoodManifest

end Kv260.Manifest
