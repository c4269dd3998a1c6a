import SmolVlm2Kv260.Host.ManifestStrings
import SmolVlm2Kv260.Process.Fallible

/-!
# The manifest read back

`load_hardware_manifest` gives back the entries that the exporter wrote, for any number of
layers and blocks.  When keys are missing a search goes on to a later entry, so that it fails
only where no later entry has the key.
-/

set_option autoImplicit false

namespace Kv260.Manifest

open Py Text

/-! ### Searching sections -/

section Search

variable {name s : String} {v : Option (Json Empty)} {ss rest : Strings}

theorem valueOf_cons_self :
  valueOf name ((name, v) :: ss) = .ok v
  := by
  rw [valueOf, seek_cons_self rfl]

theorem valueOf_cons_of_ne (h : s ≠ name) :
  valueOf name ((s, v) :: ss) = valueOf name ss
  := by
  rw [valueOf, valueOf, seek_cons_of_ne _ _ h]

theorem valueOf_append_of_ne (h : ∀ e ∈ ss, e.1 ≠ name) :
  valueOf name (ss ++ rest) = valueOf name rest
  := by
  rw [valueOf, valueOf, seek_append_of_ne _ h]

theorem intOf_cons_self (n : ℤ) :
  intOf name ((name, some (.int n)) :: ss) = .ok n
  := by
  rw [intOf, valueOf_cons_self]
  rfl

theorem intOf_cons_of_ne (h : s ≠ name) :
  intOf name ((s, v) :: ss) = intOf name ss
  := by
  rw [intOf, intOf, valueOf_cons_of_ne h]

theorem strOf_cons_self (t : String) :
  strOf name ((name, some (.str t)) :: ss) = .ok t
  := by
  rw [strOf, valueOf_cons_self]
  rfl

theorem strOf_cons_of_ne (h : s ≠ name) :
  strOf name ((s, v) :: ss) = strOf name ss
  := by
  rw [strOf, strOf, valueOf_cons_of_ne h]

theorem strOf_append_of_ne (h : ∀ e ∈ ss, e.1 ≠ name) :
  strOf name (ss ++ rest) = strOf name rest
  := by
  rw [strOf, strOf, valueOf_append_of_ne h]

theorem layersOf_append_of_ne {layer : ℕ} (h : ∀ e ∈ ss, e.1 ≠ "layer") :
  layersOf layer (ss ++ rest) = layersOf layer rest
  := by
  rw [layersOf_eq_seek, layersOf_eq_seek, seek_append_of_ne _ h]

theorem stringsFrom_append_of_ne {r : List Char} {p : Option (Json Empty) → Bool}
    (h : ∀ e ∈ ss, e.1 ≠ name) :
  stringsFrom name r p (ss ++ rest) = stringsFrom name r p rest
  := by
  rw [stringsFrom, stringsFrom, seek_append_of_ne _ h]

end Search

section Sections

variable {scheme : QuantSchemeSpec} {decoder vision : List Fields} {connector : Fields}

/-- What is read from the sections of a manifest. -/
theorem GoodManifest.summarize_eq (h : GoodManifest scheme decoder vision connector)
    (exportDir : String) :
  summarize exportDir (manifestStrings scheme decoder vision connector)
    = (do
        let decoderLayers ← layersOf 0 (entryStrings decoder ++ visionStrings vision connector)
        let visionLayers ← visionsOf (connectorStrings connector).length
          (visionStrings vision connector)
        let patch ← axiOfEntry "patch_embed" (visionStrings vision connector)
        let qkv ← axiOfEntry "blk.0.qkv" (visionStrings vision connector)
        let attn ← axiOfEntry "blk.0.attn_out" (visionStrings vision connector)
        let connector ← entryOf (connectorStrings connector)
        pure
          { exportDir := exportDir
            kv260Status := scheme.awqReady
            decoderLayers := decoderLayers
            visionLayers := visionLayers
            connector := connector
            vision :=
              { patchWgtAxi := patch.1, patchMetaAxi := patch.2
                qkvWgtAxi := qkv.1, qkvMetaAxi := qkv.2
                attnWgtAxi := attn.1, attnMetaAxi := attn.2
                connectorWgtAxi := connector.wgtAxi, connectorMetaAxi := connector.metaAxi }
            artifactBytes := fun _ => none })
  := by
  have hstatus : strOf "kv260_status" (manifestStrings scheme decoder vision connector)
      = .ok scheme.awqReady := by
    rw [manifestStrings, strOf_append_of_ne (h.schemeStrings_ne (by decide)), strOf_cons_self]
  have hlayers : layersOf 0 (manifestStrings scheme decoder vision connector)
      = layersOf 0 (entryStrings decoder ++ visionStrings vision connector) := by
    have hbefore : ∀ x ∈ [("kv260_status", some (.str scheme.awqReady)),
        (scheme.awqReady, none), ("decoder_layers", some (.list (decoder.map .dict)))],
        (x : String × Option (Json Empty)).1 ≠ "layer" := by
      simp only [List.forall_mem_cons]
      refine ⟨by decide, ?_, by decide, List.forall_mem_nil _⟩
      intro heq
      apply (isText_awqReady scheme).2
      rw [heq]
      apply List.mem_cons_self
    rw [manifestStrings, layersOf_append_of_ne (h.schemeStrings_ne (by decide)), statusStrings]
    apply layersOf_append_of_ne hbefore
  have hvision : stringsFrom "vision_layers" [] (fun _ => true)
      (manifestStrings scheme decoder vision connector)
      = .ok (visionStrings vision connector) := by
    rw [manifestStrings, stringsFrom_append_of_ne (h.schemeStrings_ne (by decide)), stringsFrom,
      seek_cons_of_ne _ _ (by decide), seek_append_of_ne _ (h.statusStrings_ne (by decide)),
      visionStrings, seek_cons_self rfl]
  have hconnector : stringsFrom "connector" [] (fun _ => true)
      (manifestStrings scheme decoder vision connector)
      = .ok (connectorStrings connector) := by
    rw [manifestStrings, stringsFrom_append_of_ne (h.schemeStrings_ne (by decide)), stringsFrom,
      seek_cons_of_ne _ _ (by decide), seek_append_of_ne _ (h.statusStrings_ne (by decide)),
      visionStrings, seek_cons_of_ne _ _ (by decide),
      seek_append_of_ne _ (entryStrings_ne h.visionFields h.visionKeys (by decide) (by decide)),
      connectorStrings, seek_cons_self rfl]
  rw [summarize, hstatus, hlayers, hvision, hconnector]
  rfl

end Sections

/-! ### The layers of the decoder -/

theorem beginsWith_self (layer : ℕ) :
  beginsWith layer (some (.int layer)) = true
  := decide_eq_true List.prefix_rfl

theorem layersOf_eq_nil {layer : ℕ} {tail : Strings} (h : ∀ e ∈ tail, e.1 ≠ "layer") :
  layersOf layer tail = .ok []
  := by
  rw [← List.append_nil tail, layersOf_append_of_ne h]
  rfl

/-- At its number the offsets of a layer are read, and then those of the next layers. -/
theorem layersOf_cons_layer (layer : ℕ) (ss : Strings) :
  layersOf layer (("layer", some (.int layer)) :: ss)
    = (do
        let offsets ← offsetsOf (("layer", some (.int layer)) :: ss)
        let rest ← layersOf (layer + 1) ss
        pure (offsets :: rest))
  := if_pos ⟨rfl, beginsWith_self layer⟩

/-- The strings of consecutive layers, with the numbers from `k` on. -/
def layerStrings (X : ℕ → Strings) (k n : ℕ) : Strings :=
  (List.range' k n).flatMap fun i : ℕ => ("layer", some (.int i)) :: X i

theorem layerStrings_succ (X : ℕ → Strings) (k n : ℕ) :
  layerStrings X k (n + 1)
    = ("layer", some (.int k)) :: (X k ++ layerStrings X (k + 1) n)
  := by
  rw [layerStrings, List.range'_succ, List.flatMap_cons, List.cons_append]
  rfl

section Layers

variable {X : ℕ → Strings} {tail : Strings}

/-- Where each layer has its offsets these are read. -/
theorem layersOf_layerStrings {offsets : ℕ → WeightOffsets}
    (hX : ∀ i, ∀ e ∈ X i, e.1 ≠ "layer") (htail : ∀ e ∈ tail, e.1 ≠ "layer") (k n : ℕ)
    (hoffsets : ∀ i ∈ List.range' k n, ∀ rest,
      offsetsOf (("layer", some (.int (i : ℕ))) :: (X i ++ rest)) = .ok (offsets i)) :
  layersOf k (layerStrings X k n ++ tail) = .ok ((List.range' k n).map offsets)
  := by
  induction n generalizing k with
  | zero => exact layersOf_eq_nil htail
  | succ n ih =>
      rw [List.range'_succ, List.forall_mem_cons] at hoffsets
      rw [layerStrings_succ, List.cons_append, List.append_assoc, layersOf_cons_layer,
        hoffsets.1, layersOf_append_of_ne (hX k), ih (k + 1) hoffsets.2, List.range'_succ,
        List.map_cons]
      rfl

end Layers

/-- The entry of a layer, as it is read. -/
def layerOffsets (offsets : ℕ × ℕ) : WeightOffsets where
  wgtAxi := (offsets.1 / 32 : ℕ)
  metaAxi := (offsets.2 / 32 : ℕ)
  wgtBytes := offsets.1
  metaBytes := offsets.2

theorem toSize_ofNat {n : ℕ} (hn : n < 2147483648) :
  toSize n = n
  := by
  rw [toSize]
  omega

/-- The strings of the entry of a layer. -/
theorem stringsFields_layerManifest (quant : String) (offsets : ℕ × ℕ) (index : ℕ) :
  Json.stringsFields (layerManifest quant offsets index)
    = ("layer", some (.int index))
      :: [("w_offset_bytes", some (.int offsets.1)), ("meta_offset_bytes", some (.int offsets.2)),
        ("w_offset_axi256", some (.int (offsets.1 / 32 : ℕ))),
        ("meta_offset_axi256", some (.int (offsets.2 / 32 : ℕ))),
        ("quant", some (.str quant)), (quant, none)]
  := rfl

theorem offsetsOf_layerManifest {quant : String} {offsets : ℕ × ℕ}
    (hw : offsets.1 < 2147483648) (hm : offsets.2 < 2147483648) (index : ℕ) (rest : Strings) :
  offsetsOf (Json.stringsFields (layerManifest quant offsets index) ++ rest)
    = .ok (layerOffsets offsets)
  := by
  rw [stringsFields_layerManifest]
  simp (disch := decide) only [List.cons_append, offsetsOf, intOf_cons_of_ne, intOf_cons_self]
  change Except.ok _ = _
  rw [toSize_ofNat hw, toSize_ofNat hm]
  rfl

/-- Only the first field of an entry is its number. -/
theorem layerTail_ne {quant : String} (hquant : IsText quant) (offsets : ℕ × ℕ) (index : ℕ) :
  ∀ x ∈ Json.stringsFields (layerManifest quant offsets index).tail, x.1 ≠ "layer"
  := by
  have htail : Json.stringsFields (layerManifest quant offsets index).tail = _ :=
    (List.cons.inj (stringsFields_layerManifest quant offsets index)).2
  rw [htail]
  simp only [List.forall_mem_cons]
  exact ⟨by decide, by decide, by decide, by decide, by decide,
    hquant.2 ∘ fun h => h ▸ List.mem_cons_self, nofun⟩

/-! ### The entries of the vision encoder -/

/-- An entry of `vision_layers`, or of `connector`, as it is read. -/
def readEntryOf (e : VisionEntry) : VisionLayerManifest where
  name := e.name
  wgtAxi := e.wOffsetAxi256
  metaAxi := e.metaOffsetAxi256
  M := e.M
  K := e.K
  N := e.N

theorem stringsFields_toManifest (e : VisionEntry) :
  Json.stringsFields e.toManifest
    = ("name", some (.str e.name)) :: (e.name, none)
      :: ("w_offset_axi256", some (.int e.wOffsetAxi256))
      :: ("meta_offset_axi256", some (.int e.metaOffsetAxi256))
      :: [("M", some (.int e.M)), ("K", some (.int e.K)), ("N", some (.int e.N))]
  := rfl

theorem ne_of_isText {s key : String} (hs : IsText s) (hkey : key ∈ reservedKeys) :
  s ≠ key
  := by
  rintro rfl
  apply hs.2 hkey

theorem entryOf_cons_of_ne {s : String} {v : Option (Json Empty)} {ss : Strings}
    (hs : s ∉ entryKeys) :
  entryOf ((s, v) :: ss) = entryOf ss
  := by
  simp only [entryKeys, List.mem_cons, not_or] at hs
  obtain ⟨hname, hw, hm, hM, hK, hN, -⟩ := hs
  rw [entryOf, entryOf, strOf_cons_of_ne hname, intOf_cons_of_ne hw, intOf_cons_of_ne hm,
    intOf_cons_of_ne hM, intOf_cons_of_ne hK, intOf_cons_of_ne hN]

theorem entryOf_toManifest {e : VisionEntry} (he : IsText e.name) (rest : Strings) :
  entryOf (Json.stringsFields e.toManifest ++ rest) = .ok (readEntryOf e)
  := by
  rw [stringsFields_toManifest]
  have hw := ne_of_isText he (by decide : "w_offset_axi256" ∈ reservedKeys)
  have hm := ne_of_isText he (by decide : "meta_offset_axi256" ∈ reservedKeys)
  have hM := ne_of_isText he (by decide : "M" ∈ reservedKeys)
  have hK := ne_of_isText he (by decide : "K" ∈ reservedKeys)
  have hN := ne_of_isText he (by decide : "N" ∈ reservedKeys)
  simp (disch := first | assumption | decide) only [List.cons_append, entryOf, strOf_cons_self,
    intOf_cons_of_ne, intOf_cons_self]
  rfl

theorem visionsOf_cons_of_ne {left : ℕ} {s : String} {v : Option (Json Empty)} (hs : s ≠ "name")
    (ss : Strings) :
  visionsOf left ((s, v) :: ss) = visionsOf left ss
  := if_neg hs

/-- At a name before the connector an entry is read, and then those behind it. -/
theorem visionsOf_cons_name {left : ℕ} (v : Option (Json Empty)) {ss : Strings}
    (hleft : left ≤ ss.length + 1) :
  visionsOf left (("name", v) :: ss)
    = (do
        let layer ← entryOf (("name", v) :: ss)
        let rest ← visionsOf left ss
        pure (layer :: rest))
  := by
  rw [visionsOf, if_pos rfl, if_neg (by omega)]

/-- The names behind the connector are not read. -/
theorem visionsOf_eq_nil {left : ℕ} {ss : Strings} (h : ss.length < left) :
  visionsOf left ss = .ok []
  := by
  induction ss with
  | nil => rfl
  | cons e ss ih =>
      obtain ⟨s, v⟩ := e
      rw [List.length_cons] at h
      by_cases hs : s = "name"
      · rw [visionsOf, if_pos hs, if_pos h]
      · rw [visionsOf_cons_of_ne hs, ih (by omega)]

theorem visionsOf_connectorStrings (connector : Fields) :
  visionsOf (connectorStrings connector).length (connectorStrings connector) = .ok []
  := by
  rw [connectorStrings, visionsOf_cons_of_ne (by decide)]
  apply visionsOf_eq_nil
  rw [List.length_cons]
  omega

/-- Where each entry has its keys they are all read. -/
theorem visionsOf_entries {left : ℕ} {tail : Strings} (htail : visionsOf left tail = .ok [])
    (hleft : left ≤ tail.length) {entries : List VisionEntry}
    (h : ∀ e ∈ entries, IsText e.name) :
  visionsOf left (entryStrings (entries.map VisionEntry.toManifest) ++ tail)
    = .ok (entries.map readEntryOf)
  := by
  induction entries with
  | nil => exact htail
  | cons e entries ih =>
      obtain ⟨he, h⟩ := List.forall_mem_cons.mp h
      have hentry := entryOf_toManifest he
        (entryStrings (entries.map VisionEntry.toManifest) ++ tail)
      have hname := ne_of_isText he (by decide : "name" ∈ reservedKeys)
      rw [stringsFields_toManifest] at hentry
      rw [List.map_cons, entryStrings, List.flatMap_cons, ← entryStrings, List.append_assoc,
        stringsFields_toManifest]
      simp only [List.cons_append, List.nil_append] at hentry ⊢
      rw [visionsOf_cons_name _ (by
        simp only [List.length_cons, List.length_append]
        omega), hentry, visionsOf_cons_of_ne hname, visionsOf_cons_of_ne (by decide),
        visionsOf_cons_of_ne (by decide), visionsOf_cons_of_ne (by decide),
        visionsOf_cons_of_ne (by decide), visionsOf_cons_of_ne (by decide), ih h]
      rfl

/-- The only field "name" of an entry is its name. -/
theorem eq_of_name_mem {e : VisionEntry} (he : IsText e.name) {v : Option (Json Empty)}
    (hv : ("name", v) ∈ Json.stringsFields e.toManifest) :
  v = some (.str e.name)
  := by
  have hname := (ne_of_isText he (by decide : "name" ∈ reservedKeys)).symm
  rw [stringsFields_toManifest] at hv
  simpa only [List.mem_cons, Prod.mk.injEq, true_and, hname, false_and, String.reduceEq,
    List.not_mem_nil, or_false] using hv

theorem axiOfEntry_cons_of_ne {name s : String} {v : Option (Json Empty)} (hs : s ≠ "name")
    (ss : Strings) :
  axiOfEntry name ((s, v) :: ss) = axiOfEntry name ss
  := by
  rw [axiOfEntry, axiOfEntry, stringsFromEntry, stringsFromEntry, stringsFrom, stringsFrom,
    seek_cons_of_ne _ _ hs]

/-- An entry is found by its name behind entries with other names. -/
theorem axiOfEntry_eq {pre post : List VisionEntry} {e : VisionEntry} {tail : Strings}
    (hpre : ∀ e' ∈ pre, IsText e'.name ∧ e'.name ≠ e.name) (he : IsText e.name) :
  axiOfEntry e.name (entryStrings ((pre ++ e :: post).map VisionEntry.toManifest) ++ tail)
    = .ok ((e.wOffsetAxi256 : ℤ), (e.metaOffsetAxi256 : ℤ))
  := by
  have hskip : ∀ x ∈ entryStrings (pre.map VisionEntry.toManifest),
      ¬ (x.1 = "name" ∧ (strValue x.2 == e.name) = true) := by
    rintro ⟨s, v⟩ hx
    obtain ⟨fields, hfields, hx⟩ := List.mem_flatMap.mp hx
    obtain ⟨e', he', rfl⟩ := List.mem_map.mp hfields
    obtain ⟨htext, hne⟩ := hpre e' he'
    rintro ⟨rfl, hvalue⟩
    rw [eq_of_name_mem htext hx] at hvalue
    apply hne (beq_iff_eq.mp hvalue)
  have hw := ne_of_isText he (by decide : "w_offset_axi256" ∈ reservedKeys)
  have hm := ne_of_isText he (by decide : "meta_offset_axi256" ∈ reservedKeys)
  rw [List.map_append, List.map_cons, entryStrings, List.flatMap_append, List.flatMap_cons,
    ← entryStrings, List.append_assoc, List.append_assoc, stringsFields_toManifest,
    axiOfEntry, stringsFromEntry, stringsFrom, seek_append_of_not hskip]
  have hself : (strValue (some (.str e.name)) == e.name) = true := beq_self_eq_true e.name
  simp only [List.cons_append]
  rw [seek_cons_self (p := (strValue · == e.name)) hself]
  change axiOf _ = _
  simp (disch := first | assumption | decide) only [axiOf, intOf_cons_of_ne, intOf_cons_self]
  rfl

/-! ### The artifacts -/

section Artifacts

variable {exportDir : String} {sizes : String → Option ℕ}

/-- The sizes of the artifacts, where they are all there. -/
theorem foldlM_fileSize {names : List String}
    (h : ∀ name ∈ names, (sizes (exportDir ++ "/" ++ name)).isSome = true)
    (bytes : String → Option ℕ) :
  names.foldlM
      (fun bytes name => do
        let n ← manifestFileSize sizes (exportDir ++ "/" ++ name)
        pure (Function.update bytes name (some n)))
      bytes
    = .ok fun name => if name ∈ names then sizes (exportDir ++ "/" ++ name) else bytes name
  := by
  induction names generalizing bytes with
  | nil => simp only [List.foldlM_nil, List.not_mem_nil, if_false]
           rfl
  | cons name names ih =>
      obtain ⟨hname, h⟩ := List.forall_mem_cons.mp h
      obtain ⟨n, hn⟩ := Option.isSome_iff_exists.mp hname
      rw [List.foldlM_cons, manifestFileSize, hn]
      refine (ih h _).trans ?_
      congr 1
      funext name'
      by_cases hmem : name' ∈ names
      · rw [if_pos hmem, if_pos (List.mem_cons_of_mem name hmem)]
      · rw [if_neg hmem]
        by_cases heq : name' = name
        · obtain rfl := heq
          rw [Function.update_self, if_pos List.mem_cons_self, hn]
        · rw [Function.update_of_ne heq, if_neg]
          rintro (_ | ⟨_, hmem'⟩)
          · apply heq rfl
          · apply hmem hmem'

theorem readArtifactBytes_eq
    (h : ∀ name ∈ manifestArtifacts, (sizes (exportDir ++ "/" ++ name)).isSome = true) :
  readArtifactBytes exportDir sizes
    = .ok fun name =>
      if name ∈ manifestArtifacts then sizes (exportDir ++ "/" ++ name) else none
  := foldlM_fileSize h _

/-- With its artifacts a manifest that can be read is loaded. -/
theorem loadHardwareManifest_of_readManifest {texts : String → Option (List Char)}
    {blob : List Char} {m : HardwareManifest}
    (htext : texts (manifestPath exportDir texts) = some blob)
    (hm : readManifest exportDir blob = .ok m)
    (h : ∀ name ∈ manifestArtifacts, (sizes (exportDir ++ "/" ++ name)).isSome = true) :
  loadHardwareManifest exportDir texts sizes
    = .ok { m with artifactBytes := fun name =>
        if name ∈ manifestArtifacts then sizes (exportDir ++ "/" ++ name) else none }
  := by
  rw [loadHardwareManifest, manifestSlurp, htext, readArtifactBytes_eq h]
  change (readManifest exportDir blob >>= _) = _
  rw [hm]
  rfl

end Artifacts

/-! ### The export -/

section Export

variable {scheme : QuantSchemeSpec} {decoderOffsets visionOffsets : ℕ → ℕ × ℕ}
  {layers blocks : ℕ}

/-- The byte offsets of the decoder can be read. -/
def GoodByteOffsets (offsets : ℕ → ℕ × ℕ) (n : ℕ) : Prop :=
  ∀ i < n, (offsets i).1 < 2147483648 ∧ (offsets i).2 < 2147483648

/-- What the exporter writes can be read. -/
theorem goodManifest_export (hscheme : scheme ∈ schemeRegistry)
    (hdecoder : GoodByteOffsets decoderOffsets layers)
    (hvision : GoodOffsets visionOffsets (1 + 4 * blocks)) :
  GoodManifest scheme (decoderManifest scheme.weightFormat decoderOffsets layers)
    ((visionManifest visionOffsets blocks).map VisionEntry.toManifest) connectorEntry.toManifest
  where
  schemeTexts := isText_of_mem_registry scheme hscheme
  decoderFields := by
    intro e he
    obtain ⟨i, hi, rfl⟩ := List.mem_map.mp he
    have hoffsets := hdecoder i (List.mem_range.mp hi)
    apply goodFields_layerManifest _ hoffsets.1 hoffsets.2
    apply isText_of_mem_registry scheme hscheme
    apply List.mem_cons_of_mem _ List.mem_cons_self
  visionFields := by
    intro e he
    obtain ⟨entry, hentry, rfl⟩ := List.mem_map.mp he
    apply (goodEntry_visionManifest hvision entry hentry).goodFields
  connectorFields := goodEntry_connector.goodFields
  decoderKeys := by
    intro e he
    obtain ⟨i, -, rfl⟩ := List.mem_map.mp he
    apply List.Subset.refl layerKeys
  visionKeys := by
    intro e he
    obtain ⟨entry, -, rfl⟩ := List.mem_map.mp he
    apply List.Subset.refl entryKeys
  connectorKeys := List.Subset.refl entryKeys

/-- The first entries of an encoder with blocks. -/
theorem visionManifest_succ (offsets : ℕ → ℕ × ℕ) (b : ℕ) :
  ∃ post, visionManifest offsets (b + 1)
    = visionEntry "patch_embed" (vitC, vitC) (offsets 0)
      :: visionEntry "blk.0.qkv" (vitC, vitQkv) (offsets 1)
      :: visionEntry "blk.0.attn_out" (vitC, vitC) (offsets 2) :: post
  := by
  rw [visionManifest, List.range_succ_eq_map, List.flatMap_cons]
  exact ⟨_, rfl⟩

/-- The manifest of an export, as it is loaded. -/
def exportedManifest (exportDir : String) (sizes : String → Option ℕ)
    (scheme : QuantSchemeSpec) (decoderOffsets : ℕ → ℕ × ℕ) (layers : ℕ)
    (visionOffsets : ℕ → ℕ × ℕ) (blocks : ℕ) : HardwareManifest where
  exportDir := exportDir
  kv260Status := scheme.awqReady
  decoderLayers := (List.range layers).map fun l => layerOffsets (decoderOffsets l)
  visionLayers := (visionManifest visionOffsets blocks).map readEntryOf
  connector := readEntryOf connectorEntry
  vision :=
    { patchWgtAxi := ((visionOffsets 0).1 / 32 : ℕ)
      patchMetaAxi := ((visionOffsets 0).2 / 32 : ℕ)
      qkvWgtAxi := ((visionOffsets 1).1 / 32 : ℕ)
      qkvMetaAxi := ((visionOffsets 1).2 / 32 : ℕ)
      attnWgtAxi := ((visionOffsets 2).1 / 32 : ℕ)
      attnMetaAxi := ((visionOffsets 2).2 / 32 : ℕ)
      connectorWgtAxi := connectorEntry.wOffsetAxi256
      connectorMetaAxi := connectorEntry.metaOffsetAxi256 }
  artifactBytes name :=
    if name ∈ manifestArtifacts then sizes (exportDir ++ "/" ++ name) else none

/-- Reading the text of an export, before the artifacts. -/
theorem readManifest_export (hscheme : scheme ∈ schemeRegistry)
    (hdecoder : GoodByteOffsets decoderOffsets layers) (hblocks : 1 ≤ blocks)
    (hvision : GoodOffsets visionOffsets (1 + 4 * blocks)) (exportDir : String)
    (sizes : String → Option ℕ) :
  readManifest exportDir
      ((exportManifest scheme decoderOffsets layers visionOffsets blocks).dumps 0)
    = .ok
      { exportedManifest exportDir sizes scheme decoderOffsets layers visionOffsets blocks with
        artifactBytes := fun _ => none }
  := by
  have hgood := goodManifest_export hscheme hdecoder hvision
  have hquant : IsText scheme.weightFormat := isText_of_mem_registry scheme hscheme _
    (List.mem_cons_of_mem _ List.mem_cons_self)
  have hlayers : layersOf 0
      (entryStrings (decoderManifest scheme.weightFormat decoderOffsets layers)
        ++ visionStrings ((visionManifest visionOffsets blocks).map VisionEntry.toManifest)
          connectorEntry.toManifest)
      = .ok ((List.range layers).map fun l => layerOffsets (decoderOffsets l)) := by
    have hstrings : entryStrings (decoderManifest scheme.weightFormat decoderOffsets layers)
        = layerStrings (fun i => Json.stringsFields
          (layerManifest scheme.weightFormat (decoderOffsets i) i).tail) 0 layers := by
      rw [entryStrings, decoderManifest, List.flatMap_map, List.range_eq_range']
      rfl
    rw [hstrings, List.range_eq_range']
    apply layersOf_layerStrings
    · intro i
      apply layerTail_ne hquant
    · apply hgood.visionStrings_ne (by decide)
    · intro i hi rest
      have hoffsets := hdecoder i (by simpa using hi)
      apply offsetsOf_layerManifest hoffsets.1 hoffsets.2
  have hentries : ∀ e ∈ visionManifest visionOffsets blocks, IsText e.name :=
    fun e he => (goodEntry_visionManifest hvision e he).name
  have hvisions : visionsOf (connectorStrings connectorEntry.toManifest).length
      (visionStrings ((visionManifest visionOffsets blocks).map VisionEntry.toManifest)
        connectorEntry.toManifest)
      = .ok ((visionManifest visionOffsets blocks).map readEntryOf) := by
    rw [visionStrings, visionsOf_cons_of_ne (by decide)]
    apply visionsOf_entries (visionsOf_connectorStrings _) (Nat.le_refl _) hentries
  have hconnector : entryOf (connectorStrings connectorEntry.toManifest)
      = .ok (readEntryOf connectorEntry) := by
    rw [connectorStrings, entryOf_cons_of_ne (by decide)]
    apply entryOf_toManifest goodEntry_connector.name
  obtain ⟨b, rfl⟩ := Nat.exists_eq_add_of_le' hblocks
  obtain ⟨post, hpost⟩ := visionManifest_succ visionOffsets b
  have hfind : ∀ pre e post', pre ++ e :: post' = visionManifest visionOffsets (b + 1) →
      (∀ e' ∈ pre, e'.name ≠ e.name) →
      axiOfEntry e.name (visionStrings
          ((visionManifest visionOffsets (b + 1)).map VisionEntry.toManifest)
          connectorEntry.toManifest)
        = .ok ((e.wOffsetAxi256 : ℤ), (e.metaOffsetAxi256 : ℤ)) := by
    intro pre e post' heq hpre
    rw [← heq, List.forall_mem_append, List.forall_mem_cons] at hentries
    rw [visionStrings, axiOfEntry_cons_of_ne (by decide), ← heq]
    apply axiOfEntry_eq _ hentries.2.1
    intro e' he'
    exact ⟨hentries.1 e' he', hpre e' he'⟩
  have hpatch := hfind [] _ _ hpost.symm (List.forall_mem_nil _)
  have hqkv := hfind [_] _ _ hpost.symm (by
    rw [List.forall_mem_singleton]
    exact (by decide : "patch_embed" ≠ "blk.0.qkv"))
  have hattn := hfind [_, _] _ _ hpost.symm (by
    rw [List.forall_mem_cons, List.forall_mem_singleton]
    exact (by decide : "patch_embed" ≠ "blk.0.attn_out" ∧ "blk.0.qkv" ≠ "blk.0.attn_out"))
  simp only [visionEntry] at hpatch hqkv hattn
  rw [exportManifest, hgood.readManifest_eq, hgood.summarize_eq, hlayers, hvisions, hconnector,
    hpatch, hqkv, hattn]
  rfl

theorem length_visionManifest (offsets : ℕ → ℕ × ℕ) (blocks : ℕ) :
  (visionManifest offsets blocks).length = 1 + 4 * blocks
  := by
  have hblock : ∀ index, (blockManifest offsets index).length = 4 := fun _ => rfl
  rw [visionManifest, List.length_cons, List.length_flatMap]
  simp only [hblock, List.map_const', List.length_range, List.sum_replicate, smul_eq_mul]
  omega

/-- Loading an export gives back what the exporter wrote: an entry for each layer and each
matrix, in order, with their names, offsets and shapes. -/
theorem loadHardwareManifest_export (hscheme : scheme ∈ schemeRegistry)
    (hdecoder : GoodByteOffsets decoderOffsets layers) (hblocks : 1 ≤ blocks)
    (hvision : GoodOffsets visionOffsets (1 + 4 * blocks)) {exportDir : String}
    {texts : String → Option (List Char)} {sizes : String → Option ℕ}
    (htext : texts (manifestPath exportDir texts)
      = some ((exportManifest scheme decoderOffsets layers visionOffsets blocks).dumps 0))
    (hsizes : ∀ name ∈ manifestArtifacts, (sizes (exportDir ++ "/" ++ name)).isSome = true) :
  loadHardwareManifest exportDir texts sizes
      = .ok (exportedManifest exportDir sizes scheme decoderOffsets layers visionOffsets blocks)
    ∧ (exportedManifest exportDir sizes scheme decoderOffsets layers visionOffsets
        blocks).decoderLayers.length = layers
    ∧ (exportedManifest exportDir sizes scheme decoderOffsets layers visionOffsets
        blocks).visionLayers.length = 1 + 4 * blocks
  := by
  refine ⟨?_, ?_, ?_⟩
  · have hread := readManifest_export hscheme hdecoder hblocks hvision exportDir sizes
    apply loadHardwareManifest_of_readManifest htext hread hsizes
  · rw [exportedManifest, List.length_map, List.length_range]
  · rw [exportedManifest, List.length_map, length_visionManifest]

/-- The manifest is this text. -/
def sampleTexts (text : List Char) (_ : String) : Option (List Char) := some text

theorem sampleTexts_eq (text : List Char) (path : String) :
  sampleTexts text path = some text
  := rfl

/-- Artifacts of one byte. -/
def sampleSizes (_ : String) : Option ℕ := some 1

/-- The export of a model with two layers and one block. -/
theorem loadHardwareManifest_export_small :
  ∃ m, loadHardwareManifest "export"
      (sampleTexts ((exportManifest schemeRegistry[1] (fun i => (2457600 * i, 307200 * i)) 2
        (fun i => (294912 * i, 36864 * i)) 1).dumps 0))
      sampleSizes = .ok m
    ∧ m.decoderLayers.length = 2 ∧ m.visionLayers.length = 5
  := by
  have hdecoder : GoodByteOffsets (fun i => (2457600 * i, 307200 * i)) 2 := by
    intro i hi
    simp only
    omega
  have hvision : GoodOffsets (fun i => (294912 * i, 36864 * i)) (1 + 4 * 1) := by
    intro i hi
    simp only
    omega
  have hfiles : ∀ name ∈ manifestArtifacts,
      (sampleSizes ("export" ++ "/" ++ name)).isSome = true := fun _ _ => rfl
  obtain ⟨hload, hlayers, hentries⟩ := loadHardwareManifest_export (List.getElem_mem _) hdecoder
    (by decide) hvision (sampleTexts_eq _ _) hfiles
  exact ⟨_, hload, hlayers, hentries⟩

end Export

end Kv260.Manifest
