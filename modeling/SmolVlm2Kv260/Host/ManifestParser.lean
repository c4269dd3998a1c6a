import SmolVlm2Kv260.Export.Manifest
import SmolVlm2Kv260.Host.EncodeImage

/-!
# Reading the manifest

`load_hardware_manifest` of the runner does not parse the manifest: it searches its text for
quoted keys, from positions that move on from entry to entry, and reads what stands behind
them.  On a text with quoted strings these searches are searches in the list of the strings
(`summarize`), and positions are compared by the strings from there on.
-/

set_option autoImplicit false

namespace Kv260.Manifest

open Py Text

/-! ### The text -/

/-- `pos + 1`; for `npos` this is zero. -/
def next : Option ℕ → ℕ
  | none => 0
  | some pos => pos + 1

/-- `manifest_extract_string`. -/
def manifestExtractString (blob : List Char) (name : String) (fromPos : ℕ) :
    Except String String :=
  match find (quoted name []) blob fromPos with
  | none => .error ("missing key in manifest: " ++ name)
  | some keyPos =>
      let colon := findChar (· == ':') blob keyPos
      let beginQuote := findChar (· == '"') blob (next colon)
      let endQuote := findChar (· == '"') blob (next beginQuote)
      match beginQuote, endQuote with
      | some b, some e => .ok (String.ofList (substr blob (b + 1) (e - b - 1)))
      | _, _ => .error ("malformed string key in manifest: " ++ name)

/-- `manifest_extract_int`. -/
def manifestExtractInt (blob : List Char) (name : String) (fromPos : ℕ) : Except String ℤ :=
  match find (quoted name []) blob fromPos with
  | none => .error ("missing key in manifest: " ++ name)
  | some keyPos =>
      -- a search that begins at `npos` finds nothing
      let colon := findChar (· == ':') blob keyPos
      let start := colon.bind (findChar isDecimal blob)
      let stop := start.bind (findChar (fun c => !isDecimal c) blob)
      match start with
      | none => .error ("malformed integer key in manifest: " ++ name)
      | some b => stoi (substr blob b (stop.getD blob.length - b))

/-- `manifest_find_required`. -/
def manifestFindRequired (blob needle : List Char) (fromPos : ℕ) : Except String ℕ :=
  match find needle blob fromPos with
  | none => .error ("missing manifest entry: " ++ String.ofList needle)
  | some pos => .ok pos

/-! ### The manifest -/

/-- `WeightOffsets`, in words and in bytes. -/
structure WeightOffsets where
  wgtAxi : ℤ := 0
  metaAxi : ℤ := 0
  wgtBytes : ℕ := 0
  metaBytes : ℕ := 0

/-- `VisionLayerManifest`. -/
structure VisionLayerManifest where
  name : String := ""
  wgtAxi : ℤ := 0
  metaAxi : ℤ := 0
  M : ℤ := 0
  K : ℤ := 0
  N : ℤ := 0

/-- `ConnectorManifest`, with the same fields. -/
abbrev ConnectorManifest : Type := VisionLayerManifest

/-- `HardwareManifest`. -/
structure HardwareManifest where
  exportDir : String
  kv260Status : String
  decoderLayers : List WeightOffsets
  visionLayers : List VisionLayerManifest
  connector : ConnectorManifest
  vision : VisionOffsets
  artifactBytes : String → Option ℕ

/-- The conversion of an `int` to `size_t`. -/
def toSize (n : ℤ) : ℕ := (n % 2 ^ 64).toNat

/-- The offsets of a layer of the decoder. -/
def readOffsets (blob : List Char) (layerPos : ℕ) : Except String WeightOffsets := do
  let wgtBytes ← manifestExtractInt blob "w_offset_bytes" layerPos
  let metaBytes ← manifestExtractInt blob "meta_offset_bytes" layerPos
  let wgtAxi ← manifestExtractInt blob "w_offset_axi256" layerPos
  let metaAxi ← manifestExtractInt blob "meta_offset_axi256" layerPos
  pure
    { wgtAxi := wgtAxi, metaAxi := metaAxi, wgtBytes := toSize wgtBytes
      metaBytes := toSize metaBytes }

/-- `"layer": ` with the number of a layer. -/
def layerNeedle (layer : ℕ) : List Char := quoted "layer" (':' :: ' ' :: (toString layer).toList)

theorem layerNeedle_ne_nil (layer : ℕ) :
  layerNeedle layer ≠ []
  := List.cons_ne_nil _ _

/-- The loop over the layers of the decoder.  Its counter is an `int`, which a text with fewer
than `2 ^ 31` layers does not exhaust. -/
def readDecoderLayers (blob : List Char) (layer pos : ℕ) : Except String (List WeightOffsets) :=
  match _hfind : find (layerNeedle layer) blob pos with
  | none => .ok []
  | some layerPos => do
      let offsets ← readOffsets blob layerPos
      let rest ← readDecoderLayers blob (layer + 1) (layerPos + (layerNeedle layer).length)
      pure (offsets :: rest)
  termination_by blob.length - pos
  decreasing_by
    have hbounds := bounds_of_find (layerNeedle_ne_nil layer) _hfind
    have hpos := List.length_pos_iff.mpr (layerNeedle_ne_nil layer)
    omega

/-- The fields of an entry of `vision_layers`, or of `connector`. -/
def readEntry (blob : List Char) (pos : ℕ) : Except String VisionLayerManifest := do
  let name ← manifestExtractString blob "name" pos
  let wgtAxi ← manifestExtractInt blob "w_offset_axi256" pos
  let metaAxi ← manifestExtractInt blob "meta_offset_axi256" pos
  let M ← manifestExtractInt blob "M" pos
  let K ← manifestExtractInt blob "K" pos
  let N ← manifestExtractInt blob "N" pos
  pure { name := name, wgtAxi := wgtAxi, metaAxi := metaAxi, M := M, K := K, N := N }

/-- `"name"`. -/
def nameNeedle : List Char := quoted "name" []

/-- The loop over the entries of `vision_layers`. -/
def readVisionLayers (blob : List Char) (connectorPos pos : ℕ) :
    Except String (List VisionLayerManifest) :=
  match hfind : find nameNeedle blob pos with
  | none => .ok []
  | some namePos =>
      if connectorPos < namePos then .ok []
      else do
        let layer ← readEntry blob namePos
        let rest ← readVisionLayers blob connectorPos (namePos + 6)
        pure (layer :: rest)
  termination_by blob.length - pos
  decreasing_by
    have hbounds : pos ≤ namePos ∧ namePos + nameNeedle.length ≤ blob.length :=
      bounds_of_find (List.cons_ne_nil _ _) hfind
    have hlen : nameNeedle.length = 6 := by decide
    omega

/-- The offsets of an entry in words. -/
def readAxi (blob : List Char) (pos : ℕ) : Except String (ℤ × ℤ) := do
  let wgtAxi ← manifestExtractInt blob "w_offset_axi256" pos
  let metaAxi ← manifestExtractInt blob "meta_offset_axi256" pos
  pure (wgtAxi, metaAxi)

/-- `"name": ` with the name of an entry, in quotes. -/
def entryNeedle (name : String) : List Char := quoted "name" (':' :: ' ' :: quoted name [])

/-- `load_hardware_manifest`, from the text on and without the artifacts. -/
def readManifest (exportDir : String) (blob : List Char) : Except String HardwareManifest := do
  let kv260Status ← manifestExtractString blob "kv260_status" 0
  let decoderLayers ← readDecoderLayers blob 0 0
  let visionPos ← manifestFindRequired blob (quoted "vision_layers" []) 0
  let connectorPos ← manifestFindRequired blob (quoted "connector" []) 0
  let visionLayers ← readVisionLayers blob connectorPos visionPos
  let patch ← readAxi blob (← manifestFindRequired blob (entryNeedle "patch_embed") visionPos)
  let qkv ← readAxi blob (← manifestFindRequired blob (entryNeedle "blk.0.qkv") visionPos)
  let attn ← readAxi blob (← manifestFindRequired blob (entryNeedle "blk.0.attn_out") visionPos)
  let connector ← readEntry blob connectorPos
  pure
    { exportDir := exportDir
      kv260Status := kv260Status
      decoderLayers := decoderLayers
      visionLayers := visionLayers
      connector := connector
      vision :=
        { patchWgtAxi := patch.1, patchMetaAxi := patch.2
          qkvWgtAxi := qkv.1, qkvMetaAxi := qkv.2
          attnWgtAxi := attn.1, attnMetaAxi := attn.2
          connectorWgtAxi := connector.wgtAxi, connectorMetaAxi := connector.metaAxi }
      artifactBytes := fun _ => none }

/-- `manifest_slurp`. -/
def manifestSlurp (texts : String → Option (List Char)) (path : String) :
    Except String (List Char) :=
  match texts path with
  | some blob => .ok blob
  | none => .error ("failed to open file: " ++ path)

/-- `manifest_file_size`. -/
def manifestFileSize (sizes : String → Option ℕ) (path : String) : Except String ℕ :=
  match sizes path with
  | some n => .ok n
  | none => .error ("failed to open artifact: " ++ path)

/-- The loop over the artifacts. -/
def readArtifactBytes (exportDir : String) (sizes : String → Option ℕ) :
    Except String (String → Option ℕ) :=
  manifestArtifacts.foldlM
    (fun bytes name => do
      let n ← manifestFileSize sizes (exportDir ++ "/" ++ name)
      pure (Function.update bytes name (some n)))
    fun _ => none

/-- The manifest that is read: the repaired one, if there is one. -/
def manifestPath (exportDir : String) (texts : String → Option (List Char)) : String :=
  let repaired := exportDir ++ "/hardware_export_manifest.repaired.json"
  if (texts repaired).isSome then repaired else exportDir ++ "/hardware_export_manifest.json"

/-- `load_hardware_manifest`, with the texts and the sizes of the files by their paths. -/
def loadHardwareManifest (exportDir : String) (texts : String → Option (List Char))
    (sizes : String → Option ℕ) : Except String HardwareManifest := do
  let blob ← manifestSlurp texts (manifestPath exportDir texts)
  let out ← readManifest exportDir blob
  let artifactBytes ← readArtifactBytes exportDir sizes
  pure { out with artifactBytes := artifactBytes }

/-! ### The strings of the text -/

/-- The strings of a text, each key with its value. -/
abbrev Strings : Type := List (String × Option (Json Empty))

/-- The keys of integers that are read, beside the numbers of the layers. -/
def intKeys : List String :=
  ["w_offset_bytes", "meta_offset_bytes", "w_offset_axi256", "meta_offset_axi256", "M", "K", "N"]

/-- The keys of strings that are read. -/
def strKeys : List String := ["kv260_status", "name"]

/-- A string with its value: where it is a key that is read, the value can be read. -/
structure CanRead (s : String) (v : Option (Json Empty)) : Prop where
  layer : s = "layer" → ∃ n : ℕ, v = some (.int n)
  int : s ∈ intKeys → ∃ n : ℤ, v = some (.int n) ∧ -2147483648 ≤ n ∧ n < 2147483648
  str : s ∈ strKeys → ∃ t, v = some (.str t) ∧ Json.PlainString t

/-- Where the reader finds one of its keys, it can read the value. -/
def Readable (ss : Strings) : Prop := ∀ e ∈ ss, CanRead e.1 e.2

theorem Readable.mono {ss ss' : Strings} (h : Readable ss) (hsub : ss' ⊆ ss) :
  Readable ss'
  := fun e he => h e (hsub he)

def intValue : Option (Json Empty) → ℤ
  | some (.int n) => n
  | _ => 0

def strValue : Option (Json Empty) → String
  | some (.str s) => s
  | _ => ""

/-- The value of the first key `name`. -/
def valueOf (name : String) (ss : Strings) : Except String (Option (Json Empty)) :=
  match seek name (fun _ => true) ss with
  | none => .error ("missing key in manifest: " ++ name)
  | some (v, _) => .ok v

def intOf (name : String) (ss : Strings) : Except String ℤ := (valueOf name ss).map intValue

def strOf (name : String) (ss : Strings) : Except String String := (valueOf name ss).map strValue

/-! ### Reading a value -/

theorem isKey_of_mem_intKeys {name : String} (h : name ∈ intKeys) :
  IsKey name
  := (by decide : ∀ name ∈ intKeys, IsKey name) name h

theorem isKey_of_mem_strKeys {name : String} (h : name ∈ strKeys) :
  IsKey name
  := (by decide : ∀ name ∈ strKeys, IsKey name) name h

/-- The colon behind a key. -/
theorem findChar_colon {blob rest : List Char} {name : String} {pos : ℕ} (hkey : IsKey name)
    (h : blob.drop pos = quoted name (':' :: rest)) :
  ∃ colon, findChar (· == ':') blob pos = some colon ∧ blob.drop colon = ':' :: rest
  := by
  have hpre : blob.drop pos = '"' :: (name.toList ++ ['"']) ++ ':' :: rest := by
    rw [h, quoted, List.cons_append, List.append_assoc, List.singleton_append]
  use pos + ('"' :: (name.toList ++ ['"'])).length
  constructor
  · apply findChar_eq hpre
    · intro c hc
      rw [beq_eq_false_iff_ne]
      rintro rfl
      rcases List.mem_cons.mp hc with h | hc
      · exact absurd h (by decide)
      · rcases List.mem_append.mp hc with hc | hc
        · apply hkey.colon hc
        · exact absurd hc (by decide)
    · rfl
  · apply drop_add hpre

/-- The digits of a number end at a separator or at the end of the text. -/
theorem substr_decimal {blob digits tail : List Char} {pos : ℕ}
    (h : blob.drop pos = digits ++ tail) (hdigits : ∀ c ∈ digits, isDecimal c = true)
    (hsep : Separated tail) :
  substr blob pos ((findChar (fun c => !isDecimal c) blob pos).getD blob.length - pos) = digits
  := by
  have hdigits : ∀ c ∈ digits, (!isDecimal c) = false := by
    intro c hc
    rw [hdigits c hc]
    rfl
  cases tail with
  | nil =>
      rw [List.append_nil] at h
      rw [findChar_eq_none (by rwa [h]), Option.getD_none, substr, ← List.length_drop,
        List.take_length, h]
  | cons c tail =>
      have hc : (!isDecimal c) = true := by
        rcases hsep c rfl with rfl | rfl | rfl <;> rfl
      rw [findChar_eq h hdigits hc, Option.getD_some, Nat.add_sub_cancel_left, substr_eq h]

/-- An integer is read as the value of the first key of its name. -/
theorem manifestExtractInt_eq {blob : List Char} {pos : ℕ} {ss : Strings} {name : String}
    (hname : name ∈ intKeys) (hss : Readable ss) (hat : StringsAt Json.Shows blob pos ss) :
  manifestExtractInt blob name pos = intOf name ss
  := by
  have hkey := isKey_of_mem_intKeys hname
  have hfind := hat.find_seek (r := []) (p := fun _ => true) hkey
    fun rest _ _ _ => ⟨fun _ => rfl, fun _ => List.nil_prefix⟩
  rw [manifestExtractInt, intOf, valueOf]
  rcases hseek : seek name (fun _ => true) ss with _ | ⟨v, ss'⟩
  · rw [hseek] at hfind
    rw [hfind]
    rfl
  · rw [hseek] at hfind
    obtain ⟨i, rest, hi, hdrop, hv, -, -⟩ := hfind
    obtain ⟨n, rfl, hlow, hhigh⟩ := (hss _ (mem_of_seek hseek)).int hname
    obtain ⟨level, tail, rfl, hsep⟩ := hv
    rw [hi]
    obtain ⟨colon, hcolon, hrest⟩ := findChar_colon hkey hdrop
    obtain ⟨d, digits, hdigits⟩ := List.exists_cons_of_ne_nil (toList_toString_ne_nil n)
    have hdecimal : ∀ c ∈ d :: digits, isDecimal c = true := by
      intro c hc
      rw [← hdigits] at hc
      apply isDecimal_of_mem_toString hc
    rw [Json.dumps, hdigits] at hrest
    have hrest' : blob.drop colon = [':', ' '] ++ d :: (digits ++ tail) := hrest
    have hbefore : ∀ c ∈ [':', ' '], isDecimal c = false :=
      List.forall_mem_cons.mpr ⟨rfl, List.forall_mem_singleton.mpr rfl⟩
    have hstart := findChar_eq hrest' hbefore (hdecimal d List.mem_cons_self)
    have hbehind : blob.drop (colon + 2) = d :: digits ++ tail := drop_add hrest'
    have hsubstr := substr_decimal hbehind hdecimal hsep
    simp only [hcolon, Option.bind_some, hstart, List.length_cons, List.length_nil, Nat.zero_add,
      Nat.reduceAdd]
    rw [hsubstr, ← hdigits, stoi_toString hlow hhigh]
    rfl

/-- A string is read as the value of the first key of its name. -/
theorem manifestExtractString_eq {blob : List Char} {pos : ℕ} {ss : Strings} {name : String}
    (hname : name ∈ strKeys) (hss : Readable ss) (hat : StringsAt Json.Shows blob pos ss) :
  manifestExtractString blob name pos = strOf name ss
  := by
  have hkey := isKey_of_mem_strKeys hname
  have hfind := hat.find_seek (r := []) (p := fun _ => true) hkey
    fun rest _ _ _ => ⟨fun _ => rfl, fun _ => List.nil_prefix⟩
  rw [manifestExtractString, strOf, valueOf]
  rcases hseek : seek name (fun _ => true) ss with _ | ⟨v, ss'⟩
  · rw [hseek] at hfind
    rw [hfind]
    rfl
  · rw [hseek] at hfind
    obtain ⟨i, rest, hi, hdrop, hv, -, -⟩ := hfind
    obtain ⟨s, rfl, hs⟩ := (hss _ (mem_of_seek hseek)).str hname
    obtain ⟨level, tail, rfl, hsep⟩ := hv
    rw [hi]
    obtain ⟨colon, hcolon, hrest⟩ := findChar_colon hkey hdrop
    have htail : blob.drop (colon + 1) = [' '] ++ '"' :: (s.toList ++ '"' :: tail) := by
      have hrest' : blob.drop colon = [':'] ++ ' ' :: (Json.dumps level (.str s) ++ tail) := hrest
      have hbehind : blob.drop (colon + 1) = ' ' :: (Json.dumps level (.str s) ++ tail) :=
        drop_add hrest'
      rw [hbehind, Json.dumps, Json.encodeString_of_plain hs, List.cons_append,
        List.append_assoc]
      rfl
    have hbegin : findChar (· == '"') blob (colon + 1) = some (colon + 2) :=
      findChar_eq htail (List.forall_mem_singleton.mpr rfl) rfl
    have hstring : blob.drop (colon + 2 + 1) = s.toList ++ '"' :: tail := by
      have hquote : blob.drop (colon + 2) = ['"'] ++ (s.toList ++ '"' :: tail) := drop_add htail
      apply drop_add hquote
    have hend : findChar (· == '"') blob (colon + 2 + 1)
        = some (colon + 2 + 1 + s.toList.length) := by
      apply findChar_eq hstring
      · intro c hc
        rw [beq_eq_false_iff_ne]
        apply (hs c hc).1
      · rfl
    have hsubstr : substr blob (colon + 2 + 1) s.toList.length = s.toList := substr_eq hstring
    simp only [hcolon, next, hbegin, hend]
    rw [Nat.sub_sub, Nat.add_sub_cancel_left, hsubstr, String.ofList_toList]
    rfl

/-! ### Reading the entries -/

/-- The offsets of a layer of the decoder, from the strings on from its number. -/
def offsetsOf (ss : Strings) : Except String WeightOffsets := do
  let wgtBytes ← intOf "w_offset_bytes" ss
  let metaBytes ← intOf "meta_offset_bytes" ss
  let wgtAxi ← intOf "w_offset_axi256" ss
  let metaAxi ← intOf "meta_offset_axi256" ss
  pure
    { wgtAxi := wgtAxi, metaAxi := metaAxi, wgtBytes := toSize wgtBytes
      metaBytes := toSize metaBytes }

/-- The digits of a number begin with those of the layer. -/
def beginsWith (layer : ℕ) : Option (Json Empty) → Bool
  | some (.int n) => decide ((toString layer).toList <+: (toString n).toList)
  | _ => false

/-- The loop over the layers of the decoder. -/
def layersOf (layer : ℕ) : Strings → Except String (List WeightOffsets)
  | [] => .ok []
  | (s, v) :: ss =>
      if s = "layer" ∧ beginsWith layer v then do
        let offsets ← offsetsOf ((s, v) :: ss)
        let rest ← layersOf (layer + 1) ss
        pure (offsets :: rest)
      else layersOf layer ss

/-- The fields of an entry, from the strings on from its name. -/
def entryOf (ss : Strings) : Except String VisionLayerManifest := do
  let name ← strOf "name" ss
  let wgtAxi ← intOf "w_offset_axi256" ss
  let metaAxi ← intOf "meta_offset_axi256" ss
  let M ← intOf "M" ss
  let K ← intOf "K" ss
  let N ← intOf "N" ss
  pure { name := name, wgtAxi := wgtAxi, metaAxi := metaAxi, M := M, K := K, N := N }

/-- The loop over the entries of `vision_layers`, up to where as many strings are left as there
are from `"connector"` on. -/
def visionsOf (left : ℕ) : Strings → Except String (List VisionLayerManifest)
  | [] => .ok []
  | (s, v) :: ss =>
      if s = "name" then
        if ss.length + 1 < left then .ok []
        else do
          let layer ← entryOf ((s, v) :: ss)
          let rest ← visionsOf left ss
          pure (layer :: rest)
      else visionsOf left ss

/-- The strings from a key on. -/
def stringsFrom (key : String) (r : List Char) (p : Option (Json Empty) → Bool) (ss : Strings) :
    Except String Strings :=
  match seek key p ss with
  | none => .error ("missing manifest entry: " ++ String.ofList (quoted key r))
  | some (v, rest) => .ok ((key, v) :: rest)

/-- The strings from the name of an entry on. -/
def stringsFromEntry (name : String) (ss : Strings) : Except String Strings :=
  stringsFrom "name" (':' :: ' ' :: quoted name []) (strValue · == name) ss

def axiOf (ss : Strings) : Except String (ℤ × ℤ) := do
  let wgtAxi ← intOf "w_offset_axi256" ss
  let metaAxi ← intOf "meta_offset_axi256" ss
  pure (wgtAxi, metaAxi)

/-- The offsets of the entry with a name, in words. -/
def axiOfEntry (name : String) (ss : Strings) : Except String (ℤ × ℤ) :=
  stringsFromEntry name ss >>= axiOf

/-- What `load_hardware_manifest` makes of a text with these strings. -/
def summarize (exportDir : String) (ss : Strings) : Except String HardwareManifest := do
  let kv260Status ← strOf "kv260_status" ss
  let decoderLayers ← layersOf 0 ss
  let vision ← stringsFrom "vision_layers" [] (fun _ => true) ss
  let connectorFrom ← stringsFrom "connector" [] (fun _ => true) ss
  let visionLayers ← visionsOf connectorFrom.length vision
  let patch ← axiOfEntry "patch_embed" vision
  let qkv ← axiOfEntry "blk.0.qkv" vision
  let attn ← axiOfEntry "blk.0.attn_out" vision
  let connector ← entryOf connectorFrom
  pure
    { exportDir := exportDir
      kv260Status := kv260Status
      decoderLayers := decoderLayers
      visionLayers := visionLayers
      connector := connector
      vision :=
        { patchWgtAxi := patch.1, patchMetaAxi := patch.2
          qkvWgtAxi := qkv.1, qkvMetaAxi := qkv.2
          attnWgtAxi := attn.1, attnMetaAxi := attn.2
          connectorWgtAxi := connector.wgtAxi, connectorMetaAxi := connector.metaAxi }
      artifactBytes := fun _ => none }

/-! ### Needles with the beginning of a value -/

/-- Digits stand at the beginning of a number just when they are its first ones. -/
theorem prefix_append_iff {d digits tail : List Char} (hd : ∀ c ∈ d, isDecimal c = true)
    (hsep : Separated tail) :
  d <+: digits ++ tail ↔ d <+: digits
  := by
  induction d generalizing digits with
  | nil => exact ⟨fun _ => List.nil_prefix, fun _ => List.nil_prefix⟩
  | cons c d ih =>
      cases digits with
      | nil =>
          rw [List.nil_append]
          constructor
          · rintro ⟨rest, rfl⟩
            have hdecimal := hd c List.mem_cons_self
            rcases hsep c rfl with rfl | rfl | rfl <;> cases hdecimal
          · intro h
            cases List.prefix_nil.mp h
      | cons c' digits =>
          rw [List.cons_append, List.cons_prefix_cons, List.cons_prefix_cons,
            ih fun x hx => hd x (List.mem_cons_of_mem c hx)]

theorem prefix_iff_beginsWith {ss : Strings} (layer : ℕ) (hss : Readable ss) (rest : List Char)
    (v : Option (Json Empty)) (hv : ("layer", v) ∈ ss) (hshows : Json.Shows rest v) :
  ':' :: ' ' :: (toString layer).toList <+: rest ↔ beginsWith layer v = true
  := by
  obtain ⟨n, rfl⟩ := (hss _ hv).layer rfl
  obtain ⟨level, tail, rfl, hsep⟩ := hshows
  rw [List.prefix_cons_inj, List.prefix_cons_inj, Json.dumps, beginsWith, decide_eq_true_eq]
  apply prefix_append_iff _ hsep
  intro c hc
  rw [isDecimal, isDigit_of_mem_repr hc, Bool.true_or]

theorem prefix_iff_strValue {ss : Strings} {name : String} (hname : '"' ∉ name.toList)
    (hss : Readable ss) (rest : List Char) (v : Option (Json Empty)) (hv : ("name", v) ∈ ss)
    (hshows : Json.Shows rest v) :
  ':' :: ' ' :: quoted name [] <+: rest ↔ (strValue v == name) = true
  := by
  have hkey : "name" ∈ strKeys := by decide
  obtain ⟨s, rfl, hs⟩ := (hss _ hv).str hkey
  obtain ⟨level, tail, rfl, -⟩ := hshows
  rw [List.prefix_cons_inj, List.prefix_cons_inj, Json.dumps, Json.encodeString_of_plain hs,
    quoted, List.cons_append, List.append_assoc, List.singleton_append, List.prefix_cons_inj,
    prefix_append_quote_iff hname (Json.quote_notMem_of_plain hs), String.toList_inj,
    beq_iff_eq]
  exact ⟨fun h => h.1, fun h => ⟨h, List.nil_prefix⟩⟩

theorem quote_notMem_layer (layer : ℕ) :
  '"' ∉ ':' :: ' ' :: (toString layer).toList
  := by
  simp only [List.mem_cons, Char.reduceEq, false_or]
  intro h
  exact absurd (isDigit_of_mem_repr h) (by decide)

/-! ### The loops -/

section Loops

variable {blob : List Char} {ss : Strings} {pos : ℕ}

theorem readOffsets_eq (hss : Readable ss) (hat : StringsAt Json.Shows blob pos ss) :
  readOffsets blob pos = offsetsOf ss
  := by
  rw [readOffsets, offsetsOf, manifestExtractInt_eq (by decide) hss hat,
    manifestExtractInt_eq (by decide) hss hat, manifestExtractInt_eq (by decide) hss hat,
    manifestExtractInt_eq (by decide) hss hat]

theorem readEntry_eq (hss : Readable ss) (hat : StringsAt Json.Shows blob pos ss) :
  readEntry blob pos = entryOf ss
  := by
  rw [readEntry, entryOf, manifestExtractString_eq (by decide) hss hat,
    manifestExtractInt_eq (by decide) hss hat, manifestExtractInt_eq (by decide) hss hat,
    manifestExtractInt_eq (by decide) hss hat, manifestExtractInt_eq (by decide) hss hat,
    manifestExtractInt_eq (by decide) hss hat]

theorem readAxi_eq (hss : Readable ss) (hat : StringsAt Json.Shows blob pos ss) :
  readAxi blob pos = axiOf ss
  := by
  rw [readAxi, axiOf, manifestExtractInt_eq (by decide) hss hat,
    manifestExtractInt_eq (by decide) hss hat]

theorem layersOf_eq_seek (layer : ℕ) (ss : Strings) :
  layersOf layer ss
    = match seek "layer" (beginsWith layer) ss with
      | none => .ok []
      | some (v, rest) => (do
          let offsets ← offsetsOf (("layer", v) :: rest)
          let rest ← layersOf (layer + 1) rest
          pure (offsets :: rest))
  := by
  induction ss with
  | nil => rfl
  | cons e ss ih =>
      obtain ⟨s, v⟩ := e
      rw [layersOf, seek]
      by_cases hmatch : s = "layer" ∧ beginsWith layer v = true
      · obtain ⟨rfl, hv⟩ := hmatch
        rw [if_pos ⟨rfl, hv⟩, if_pos ⟨rfl, hv⟩]
      · rw [if_neg hmatch, if_neg hmatch, ih]

theorem visionsOf_eq_seek (left : ℕ) (ss : Strings) :
  visionsOf left ss
    = match seek "name" (fun _ => true) ss with
      | none => .ok []
      | some (v, rest) =>
          if rest.length + 1 < left then .ok []
          else (do
            let layer ← entryOf (("name", v) :: rest)
            let rest ← visionsOf left rest
            pure (layer :: rest))
  := by
  induction ss with
  | nil => rfl
  | cons e ss ih =>
      obtain ⟨s, v⟩ := e
      by_cases hname : s = "name"
      · obtain rfl := hname
        have hseek : seek "name" (fun _ => true) (("name", v) :: ss) = some (v, ss) :=
          if_pos ⟨rfl, rfl⟩
        rw [hseek, visionsOf, if_pos rfl]
      · rw [visionsOf, seek, if_neg hname, if_neg fun h => hname h.1, ih]

theorem readDecoderLayers_of_none {layer : ℕ} (h : find (layerNeedle layer) blob pos = none) :
  readDecoderLayers blob layer pos = .ok []
  := by
  rw [readDecoderLayers]
  split
  · rfl
  · next h' =>
      rw [h] at h'
      cases h'

theorem readDecoderLayers_of_some {layer layerPos : ℕ}
    (h : find (layerNeedle layer) blob pos = some layerPos) :
  readDecoderLayers blob layer pos
    = (do
        let offsets ← readOffsets blob layerPos
        let rest ← readDecoderLayers blob (layer + 1) (layerPos + (layerNeedle layer).length)
        pure (offsets :: rest))
  := by
  rw [readDecoderLayers]
  split
  · next h' =>
      rw [h] at h'
      cases h'
  · next h' =>
      rw [h] at h'
      cases h'
      rfl

/-- The loop over the layers of the decoder runs through the strings. -/
theorem readDecoderLayers_eq (layer : ℕ) (hss : Readable ss)
    (hat : StringsAt Json.Shows blob pos ss) :
  readDecoderLayers blob layer pos = layersOf layer ss
  := by
  induction hlen : ss.length using Nat.strong_induction_on generalizing ss layer pos with
  | _ n ih =>
      have hfind := hat.find_seek (r := ':' :: ' ' :: (toString layer).toList)
        (p := beginsWith layer) (by decide) (prefix_iff_beginsWith layer hss)
      rw [layersOf_eq_seek]
      rcases hseek : seek "layer" (beginsWith layer) ss with _ | ⟨v, rest⟩
      · rw [hseek] at hfind
        apply readDecoderLayers_of_none hfind
      · rw [hseek] at hfind
        obtain ⟨i, text, hi, -, -, hlayer, hrest⟩ := hfind
        have hsuffix := (suffix_of_seek hseek).1
        have hlt : rest.length < n := hlen ▸ length_lt_of_seek hseek
        have hlayerss := hss.mono hsuffix.subset
        have hrest : StringsAt Json.Shows blob (i + (layerNeedle layer).length) rest :=
          hrest (quote_notMem_layer layer)
        rw [readDecoderLayers_of_some hi, readOffsets_eq hlayerss hlayer,
          ih _ hlt _ (hlayerss.mono (List.subset_cons_self _ _)) hrest rfl]

theorem readVisionLayers_of_none {connectorPos : ℕ} (h : find nameNeedle blob pos = none) :
  readVisionLayers blob connectorPos pos = .ok []
  := by
  rw [readVisionLayers]
  split
  · rfl
  · next h' =>
      rw [h] at h'
      cases h'

theorem readVisionLayers_of_some {connectorPos namePos : ℕ}
    (h : find nameNeedle blob pos = some namePos) :
  readVisionLayers blob connectorPos pos
    = if connectorPos < namePos then .ok []
      else (do
        let layer ← readEntry blob namePos
        let rest ← readVisionLayers blob connectorPos (namePos + 6)
        pure (layer :: rest))
  := by
  rw [readVisionLayers]
  split
  · next h' =>
      rw [h] at h'
      cases h'
  · next h' =>
      rw [h] at h'
      cases h'
      rfl

/-- The loop over the entries of `vision_layers` runs through the strings. -/
theorem readVisionLayers_eq {connectorPos : ℕ} {connector : Strings} {text : List Char}
    (hconnector : StringsAt Json.Shows blob connectorPos connector)
    (hquote : blob.drop connectorPos = '"' :: text) (hss : Readable ss)
    (hat : StringsAt Json.Shows blob pos ss) :
  readVisionLayers blob connectorPos pos = visionsOf connector.length ss
  := by
  induction hlen : ss.length using Nat.strong_induction_on generalizing ss pos with
  | _ n ih =>
      have hfind := hat.find_seek (r := []) (p := fun _ => true) (by decide : IsKey "name")
        fun rest _ _ _ => ⟨fun _ => rfl, fun _ => List.nil_prefix⟩
      rw [visionsOf_eq_seek]
      rcases hseek : seek "name" (fun _ => true) ss with _ | ⟨v, rest⟩
      · rw [hseek] at hfind
        apply readVisionLayers_of_none hfind
      · rw [hseek] at hfind
        obtain ⟨i, text', hi, hdrop, -, hname, hrest⟩ := hfind
        have hsuffix := (suffix_of_seek hseek).1
        have hlt : rest.length < n := hlen ▸ length_lt_of_seek hseek
        have hnamess := hss.mono hsuffix.subset
        have hrest : StringsAt Json.Shows blob (i + 6) rest := hrest (by decide)
        have hiff := lt_iff_of_quoted hname.isQuoted hconnector.isQuoted hdrop hquote
        rw [List.length_cons] at hiff
        rw [readVisionLayers_of_some hi, readEntry_eq hnamess hname,
          ih _ hlt (hnamess.mono (List.subset_cons_self _ _)) hrest rfl]
        by_cases hbehind : rest.length + 1 < connector.length
        · rw [if_pos (hiff.mpr hbehind)]
          simp only [if_pos hbehind]
        · rw [if_neg fun h => hbehind (hiff.mp h)]
          simp only [if_neg hbehind]

/-- The position of a key is where the strings from it on are, and what is done with the one
and with the other is compared there. -/
theorem manifestFindRequired_bind {α : Type} {key : String} {r : List Char}
    {p : Option (Json Empty) → Bool} (hkey : IsKey key) (hss : Readable ss)
    (hp : ∀ rest v, (key, v) ∈ ss → Json.Shows rest v → (r <+: rest ↔ p v = true))
    (hat : StringsAt Json.Shows blob pos ss) {f : ℕ → Except String α}
    {g : Strings → Except String α}
    (hfg : ∀ i text ss', blob.drop i = '"' :: text → StringsAt Json.Shows blob i ss' →
      Readable ss' → f i = g ss') :
  (manifestFindRequired blob (quoted key r) pos >>= f) = (stringsFrom key r p ss >>= g)
  := by
  have hfind := hat.find_seek hkey hp
  rw [stringsFrom]
  rcases hseek : seek key p ss with _ | ⟨v, ss'⟩
  · rw [hseek] at hfind
    simp only [manifestFindRequired, hfind]
    rfl
  · rw [hseek] at hfind
    obtain ⟨i, rest, hi, hdrop, -, hfrom, -⟩ := hfind
    simp only [manifestFindRequired, hi]
    apply hfg i _ _ hdrop hfrom (hss.mono (suffix_of_seek hseek).1.subset)

/-- The same for a key of any value. -/
theorem manifestFindRequired_bind_key {α : Type} {key : String} (hkey : IsKey key)
    (hss : Readable ss) (hat : StringsAt Json.Shows blob pos ss) {f : ℕ → Except String α}
    {g : Strings → Except String α}
    (hfg : ∀ i text ss', blob.drop i = '"' :: text → StringsAt Json.Shows blob i ss' →
      Readable ss' → f i = g ss') :
  (manifestFindRequired blob (quoted key []) pos >>= f)
    = (stringsFrom key [] (fun _ => true) ss >>= g)
  := manifestFindRequired_bind hkey hss (fun _ _ _ _ => ⟨fun _ => rfl, fun _ => List.nil_prefix⟩)
    hat hfg

/-- The offsets of an entry that is found by its name. -/
theorem readAxi_entry_bind {α : Type} {name : String} (hname : '"' ∉ name.toList)
    (hss : Readable ss) (hat : StringsAt Json.Shows blob pos ss)
    {f g : ℤ × ℤ → Except String α} (hfg : ∀ offsets, f offsets = g offsets) :
  (manifestFindRequired blob (entryNeedle name) pos >>= fun i => readAxi blob i >>= f)
    = (axiOfEntry name ss >>= g)
  := by
  rw [axiOfEntry, bind_assoc]
  apply manifestFindRequired_bind (by decide) hss (prefix_iff_strValue hname hss) hat
  intro i text ss' _ hat' hss'
  rw [readAxi_eq hss' hat']
  apply bind_congr hfg

end Loops

/-- The reader of a text works on its strings. -/
theorem readManifest_eq {blob : List Char} {ss : Strings} (exportDir : String)
    (hquoted : Quoted Json.Shows blob ss) (hss : Readable ss) :
  readManifest exportDir blob = summarize exportDir ss
  := by
  have hat := StringsAt.zero hquoted
  rw [readManifest, summarize, manifestExtractString_eq (by decide) hss hat,
    readDecoderLayers_eq 0 hss hat]
  apply bind_congr
  intro status
  apply bind_congr
  intro layers
  apply manifestFindRequired_bind_key (by decide) hss hat
  intro visionPos _ vision _ hvision hvisionss
  apply manifestFindRequired_bind_key (by decide) hss hat
  intro connectorPos text connector hquote hconnector hconnectorss
  rw [readVisionLayers_eq hconnector hquote hvisionss hvision]
  apply bind_congr
  intro visionLayers
  apply readAxi_entry_bind (by decide) hvisionss hvision
  intro patch
  apply readAxi_entry_bind (by decide) hvisionss hvision
  intro qkv
  apply readAxi_entry_bind (by decide) hvisionss hvision
  intro attn
  rw [readEntry_eq hconnectorss hconnector]

end Kv260.Manifest
