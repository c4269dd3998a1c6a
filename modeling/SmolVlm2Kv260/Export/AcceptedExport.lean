import SmolVlm2Kv260.Export.CheckerSlices
import SmolVlm2Kv260.Export.LmheadLayout
import SmolVlm2Kv260.Export.Manifest
import SmolVlm2Kv260.Host.Gamma

/-!
# The check of the exporter's own output

`export_hardware_bundle` writes the files of a model and their manifest, and
`check_hardware_export.py` compares the two with the shapes that it knows.  The offsets and the
sizes agree for every model with these shapes; what the check leaves to the model is the number
of its layers and blocks, and to the scheme whether it has a KV260 export, with AWQ.
-/

set_option autoImplicit false

namespace Kv260

open Py Checker Report Blocks

/-! ### The export -/

/-- A scheme whose KV260 export, if it has one, is made of groups of 32 weights. -/
structure GroupedScheme extends QuantSchemeSpec where
  groups : exportMode.startsWith "kv260_w4a8" = true → groupSize = grp

example : ∀ scheme ∈ schemeRegistry,
    scheme.exportMode.startsWith "kv260_w4a8" = true → scheme.groupSize = grp := by decide +kernel

/-- What the exporter reads of a model: its weights, and the numbers of its decoder layers and
vision blocks.  The matrices of the vision encoder have its names and shapes. -/
structure ExportedModel where
  layers : ℕ
  decoder : ℕ → LayerWeights
  norms : NormWeights
  blocks : ℕ
  vision : List VisionMatrix
  vision_shapes : (vision.map fun m => (m.name, m.kDim, m.nDim)) = encoderShapes blocks
  connector : ℕ → ℕ → ℚ
  lmhead : ℕ → ℕ → ℚ

namespace ExportedModel

variable (m : ExportedModel)

/-- The files of the export, in the order of `artifacts`. -/
def artifacts : List (String × List (BitVec 8)) :=
  [("vision_wgt.bin", (exportVision m.vision).wgt),
    ("vision_meta.bin", (exportVision m.vision).scales),
    ("connector_wgt.bin", packedBytes Kv260.connectorOut Kv260.connectorIn m.connector),
    ("connector_meta.bin", Kv260.metaBytes Kv260.connectorOut Kv260.connectorIn m.connector),
    ("weights_half0.bin", weightsFile 0 m.decoder m.layers),
    ("weights_half1.bin", weightsFile 1 m.decoder m.layers),
    ("meta_half0.bin", metaFile 0 m.decoder m.layers),
    ("meta_half1.bin", metaFile 1 m.decoder m.layers),
    ("gamma_attn.bin", gammaFile m.norms.attn m.layers),
    ("gamma_ffn.bin", gammaFile m.norms.ffn m.layers),
    ("lmhead_wgt_half0.bin", lmheadWgtHalf 0 m.lmhead),
    ("lmhead_wgt_half1.bin", lmheadWgtHalf 1 m.lmhead),
    ("lmhead_meta_half0.bin", lmheadMetaHalf 0 m.lmhead),
    ("lmhead_meta_half1.bin", lmheadMetaHalf 1 m.lmhead)]

/-- `export_manifest`, with the offsets of the files. -/
def manifest (scheme : QuantSchemeSpec) : Json Empty :=
  exportManifest scheme (layerByteOffsets m.decoder) m.layers (matrixByteOffsets m.vision) m.blocks

/-- The directory after `export_kv260_w4a8_bundle`, with the manifest as it is read back. -/
def exportKv260W4a8Bundle (scheme : QuantSchemeSpec) (before : ExportDir Empty) :
    ExportDir Empty where
  manifestPath := before.manifestPath
  manifest := some (.ok (m.manifest scheme))
  files name := ((m.artifacts.find? fun e => e.1 == name).map Prod.snd).or (before.files name)

/-- The manifest of a scheme without a KV260 export. -/
def replayManifest (scheme : QuantSchemeSpec) : Json Empty :=
  .dict [("scheme", .dict scheme.toManifest), ("kv260_status", .str "replay_required"),
    ("next_steps", .list [.str "run layer replay against PyTorch reference",
      .str "run kernel C-sim and resource check on Linux/Vitis host",
      .str "integrate with board path only after replay parity"])]

/-- The directory after `export_hardware_bundle`. -/
def exportHardwareBundle (scheme : QuantSchemeSpec) (before : ExportDir Empty) :
    ExportDir Empty :=
  if scheme.exportMode.startsWith "kv260_w4a8" then m.exportKv260W4a8Bundle scheme before
  else { before with manifest := some (.ok (replayManifest scheme)) }

end ExportedModel

/-! ### The sizes of the files -/

theorem length_weightsFile (h : Fin 2) (W : ℕ → LayerWeights) (n : ℕ) :
  (weightsFile h W n).length = n * 2457600
  := by
  rw [weightsFile_eq_blocks, fileBlocks,
    length_flatMap_range fun u _ => length_weightBlock _ _, Nat.mul_assoc]
  rfl

theorem length_metaFile (h : Fin 2) (W : ℕ → LayerWeights) (n : ℕ) :
  (metaFile h W n).length = n * 307200
  := by
  rw [metaFile_eq_blocks, fileBlocks,
    length_flatMap_range fun u _ => length_metaBlock _ _, Nat.mul_assoc]
  rfl

theorem length_gammaFile (w : ℕ → ℕ → ℚ) (n : ℕ) :
  (gammaFile w n).length = n * C
  := length_flatMap_range fun layer _ => length_exportedGamma (w layer)

/-- Both halves have as many rows. -/
theorem length_flatMap_halfRows {rows k : ℕ} (heven : 2 ∣ rows) (h : Fin 2)
    {f : ℕ → List (BitVec 8)} (hf : ∀ row, (f row).length = k) :
  ((halfRows rows h).flatMap f).length = rows / 2 * k
  := by
  have hhalf : rows - rows / 2 = rows / 2 := by omega
  rw [halfRows]
  split_ifs
  · apply length_flatMap_range fun row _ => hf row
  · rw [List.flatMap_map, hhalf]
    apply length_flatMap_range fun row _ => hf _

theorem length_lmheadWgtHalf (h : Fin 2) (W : ℕ → ℕ → ℚ) :
  (lmheadWgtHalf h W).length = 11827200
  := by
  have hrow : ∀ row, (packedRow C (W row)).length = C / 2 := by
    intro row
    rw [packedRow, List.length_map, List.length_range]
  rw [lmheadWgtHalf, length_flatMap_halfRows (by decide) h hrow]
  rfl

theorem length_lmheadMetaHalf (h : Fin 2) (W : ℕ → ℕ → ℚ) :
  (lmheadMetaHalf h W).length = 1478400
  := by
  have hrow : ∀ row, (metaRow C (W row)).length = C / grp * 2 :=
    fun row => length_flatMap_range fun g _ => rfl
  rw [lmheadMetaHalf, length_flatMap_halfRows (by decide) h hrow]
  rfl

namespace VisionMatrix

variable (m : VisionMatrix) {g : ℕ}

theorem length_wgtBytes (hg : m.kDim = 32 * g) :
  m.wgtBytes.length = m.nDim * (16 * g)
  := by
  have hhalf : 32 * g / 2 = 16 * g := by omega
  rw [wgtBytes, length_packedBytes, hg, hhalf]

theorem length_metaBytes (hg : m.kDim = 32 * g) :
  m.metaBytes.length = m.nDim * g * 2
  := by
  have hgrp : 32 * g / grp = g := Nat.mul_div_cancel_left g (by decide)
  rw [metaBytes, Kv260.length_metaBytes, hg, hgrp, Nat.mul_assoc]

end VisionMatrix

namespace ExportedModel

variable (m : ExportedModel) (scheme : QuantSchemeSpec) (before : ExportDir Empty)

/-- The sizes of the files. -/
def sizes : List (String × ℕ) :=
  [("vision_wgt.bin", (m.vision.flatMap VisionMatrix.wgtBytes).length),
    ("vision_meta.bin", (m.vision.flatMap VisionMatrix.metaBytes).length),
    ("connector_wgt.bin", 5898240), ("connector_meta.bin", 737280),
    ("weights_half0.bin", m.layers * 2457600), ("weights_half1.bin", m.layers * 2457600),
    ("meta_half0.bin", m.layers * 307200), ("meta_half1.bin", m.layers * 307200),
    ("gamma_attn.bin", m.layers * 960), ("gamma_ffn.bin", m.layers * 960),
    ("lmhead_wgt_half0.bin", 11827200), ("lmhead_wgt_half1.bin", 11827200),
    ("lmhead_meta_half0.bin", 1478400), ("lmhead_meta_half1.bin", 1478400)]

theorem length_artifacts :
  (m.artifacts.map fun e => (e.1, e.2.length)) = m.sizes
  := by
  have hwgt : (exportVision m.vision).wgt = m.vision.flatMap VisionMatrix.wgtBytes :=
    VisionSection.appendAll_wgt _ _
  have hscales : (exportVision m.vision).scales = m.vision.flatMap VisionMatrix.metaBytes :=
    VisionSection.appendAll_scales _ _
  simp only [artifacts, sizes, List.map_cons, List.map_nil, length_weightsFile, length_metaFile,
    length_gammaFile, length_lmheadWgtHalf, length_lmheadMetaHalf, length_packedBytes,
    Kv260.length_metaBytes, hwgt, hscales]
  rfl

/-- The size of a file. -/
theorem size_of_mem {name : String} {n : ℕ} (h : (name, n) ∈ m.sizes) :
  (m.exportKv260W4a8Bundle scheme before).size name = some n
  := by
  have hfind : ∀ l : List (String × List (BitVec 8)),
      ((l.find? fun e => e.1 == name).map Prod.snd).map List.length
        = ((l.map fun e => (e.1, e.2.length)).find? fun e => e.1 == name).map Prod.snd := by
    intro l
    rw [List.find?_map, Option.map_map, Option.map_map]
    rfl
  rw [ExportDir.size, exportKv260W4a8Bundle, Option.map_or, hfind, length_artifacts]
  simp only [sizes, List.mem_cons, Prod.mk.injEq, List.not_mem_nil, or_false] at h
  rcases h with ⟨rfl, rfl⟩ | ⟨rfl, rfl⟩ | ⟨rfl, rfl⟩ | ⟨rfl, rfl⟩ | ⟨rfl, rfl⟩ | ⟨rfl, rfl⟩
    | ⟨rfl, rfl⟩ | ⟨rfl, rfl⟩ | ⟨rfl, rfl⟩ | ⟨rfl, rfl⟩ | ⟨rfl, rfl⟩ | ⟨rfl, rfl⟩ | ⟨rfl, rfl⟩
    | ⟨rfl, rfl⟩
  all_goals simp [sizes]

/-- The first matrix of the encoder. -/
theorem exists_patchEmbed :
  ∃ patch ms, m.vision = patch :: ms ∧ patch.kDim = 32 * 24 ∧ patch.nDim = 768
  := by
  have hshapes := m.vision_shapes
  cases hvision : m.vision with
  | nil =>
      rw [hvision] at hshapes
      cases hshapes
  | cons patch ms =>
      rw [hvision] at hshapes
      obtain ⟨hpatch, -⟩ := List.cons.inj hshapes
      obtain ⟨hk, hn⟩ := Prod.mk.inj (Prod.mk.inj hpatch).2
      exact ⟨patch, ms, rfl, hk, hn⟩

/-- An export of 32 layers has the sizes of an accepted export. -/
theorem acceptedSizes (hlayers : m.layers = 32) :
  AcceptedSizes (m.exportKv260W4a8Bundle scheme before).size
  := by
  obtain ⟨patch, ms, hvision, hk, hn⟩ := m.exists_patchEmbed
  constructor
  · intro e he
    have hsizes : fixedSizes ⊆ m.sizes := by
      simp only [sizes, hlayers]
      apply List.subset_def.mpr
      intro e he
      simp only [fixedSizes, List.mem_cons, List.not_mem_nil, or_false] at he
      rcases he with rfl | rfl | rfl | rfl | rfl | rfl | rfl | rfl | rfl | rfl | rfl | rfl
      all_goals simp
    apply m.size_of_mem scheme before (hsizes he)
  · refine ⟨_, m.size_of_mem scheme before List.mem_cons_self, ?_⟩
    rw [hvision, List.flatMap_cons, List.length_append, patch.length_wgtBytes hk, hn]
    omega
  · refine ⟨_, m.size_of_mem scheme before (List.mem_cons_of_mem _ List.mem_cons_self), ?_⟩
    rw [hvision, List.flatMap_cons, List.length_append, patch.length_metaBytes hk, hn]
    omega

end ExportedModel

/-! ### The files -/

/-- The files of an accepted export pass. -/
theorem passes_of_acceptedSizes {size : String → Option ℕ} (h : AcceptedSizes size) :
  (checkDecoderFiles size).Passes () ∧ (checkConnectorFiles size).Passes ()
    ∧ (checkOtherFiles size).Passes ()
  := by
  have hw0 := h.fixed ("weights_half0.bin", 78643200) (by decide)
  have hw1 := h.fixed ("weights_half1.bin", 78643200) (by decide)
  have hm0 := h.fixed ("meta_half0.bin", 9830400) (by decide)
  have hm1 := h.fixed ("meta_half1.bin", 9830400) (by decide)
  have hattn := h.fixed ("gamma_attn.bin", 30720) (by decide)
  have hffn := h.fixed ("gamma_ffn.bin", 30720) (by decide)
  have hcw := h.fixed ("connector_wgt.bin", 5898240) (by decide)
  have hcm := h.fixed ("connector_meta.bin", 737280) (by decide)
  have hlw0 := h.fixed ("lmhead_wgt_half0.bin", 11827200) (by decide)
  have hlw1 := h.fixed ("lmhead_wgt_half1.bin", 11827200) (by decide)
  have hlm0 := h.fixed ("lmhead_meta_half0.bin", 1478400) (by decide)
  have hlm1 := h.fixed ("lmhead_meta_half1.bin", 1478400) (by decide)
  obtain ⟨n, hn, hpos⟩ := h.visionWgt
  obtain ⟨k, hk, hpos'⟩ := h.visionMeta
  refine ⟨?_, ?_, ?_⟩
  · simp only [checkDecoderFiles, passes_seq, passes_expectSameSize, passes_expectSize,
      passes_expectThat, beq_iff_eq, decoderHalfWgtBytes_eq, decoderHalfMetaBytes_eq]
    exact ⟨⟨_, hw0, hw1⟩, ⟨_, hm0, hm1⟩, ⟨_, hw0, by decide⟩, ⟨_, hm0, by decide⟩,
      ⟨_, hattn, by decide⟩, ⟨_, hffn, by decide⟩⟩
  · simp only [checkConnectorFiles, passes_seq, passes_expectSize]
    exact ⟨⟨_, hcw, by decide⟩, ⟨_, hcm, by decide⟩⟩
  · simp only [checkOtherFiles, passes_seq, passes_expectSameSize, passes_expectThat, beq_iff_eq,
      decide_eq_true_eq]
    exact ⟨⟨n, hn, by omega⟩, ⟨k, hk, by omega⟩, ⟨_, hcw, by decide⟩, ⟨_, hcm, by decide⟩,
      ⟨_, hlw0, hlw1⟩, ⟨_, hlm0, hlm1⟩, ⟨_, hlw0, by decide⟩, ⟨_, hlm0, by decide⟩⟩

/-! ### Entries -/

/-- The value under a key of a dictionary. -/
theorem getItem_dict {F : Type} {items : List (String × Json F)}
    (hkeys : (items.map Prod.fst).Nodup) {key : String} {v : Json F} (h : (key, v) ∈ items) :
  (Json.dict items).getItem key = .ok v
  := by
  have hfind : items.find? (fun e => e.1 == key) = some (key, v) := by
    induction items with
    | nil => cases h
    | cons e items ih =>
        rw [List.map_cons, List.nodup_cons] at hkeys
        rcases List.mem_cons.mp h with rfl | h
        · rw [List.find?_cons_of_pos (by simp)]
        · have hne : e.1 ≠ key := by
            intro heq
            exact hkeys.1 (List.mem_map.mpr ⟨(key, v), h, heq.symm⟩)
          rw [List.find?_cons_of_neg (by simpa), ih hkeys.2 h]
  rw [Json.getItem, Json.lookup, hfind]
  rfl

theorem get_of_getItem {F : Type} {v w default : Json F} {key : String}
    (h : v.getItem key = .ok w) :
  v.get key default = .ok w
  := by
  cases v with
  | dict items =>
      simp only [Json.getItem] at h
      split at h
      next u hu =>
        cases h
        rw [Json.get, hu, Option.getD_some]
      next => cases h
  | none | bool | int | float | str | list => cases h

/-- Integers stand under the keys. -/
def HasInts {F : Type} (v : Json F) (fields : List (String × ℤ)) : Prop :=
  ∀ e ∈ fields, v.getItem e.1 = .ok (.int e.2)

section Ints

variable {F : Type} [PyFloat F] {v : Json F} {key : String} {keys : List String} {n : ℤ}

omit [PyFloat F] in
theorem passes_numItem_iff (h : v.getItem key = .ok (.int n)) {x : Num F} :
  (numItem v key).Passes x ↔ Num.int n = x
  := by
  have hnum : (Json.int n : Json F).num = .ok (.int n) := rfl
  simp only [numItem, passes_bind, passes_item, h, Except.ok.injEq, exists_eq_left',
    passes_ofExcept, hnum]

theorem passes_axiItem_iff (h : v.getItem key = .ok (.int n)) {x : Num F} :
  (axiItem v key).Passes x ↔ Num.int (n * axi256Bytes) = x
  := by
  have hmul : (Json.int n : Json F).mulInt axi256Bytes = .ok (.int (n * axi256Bytes)) := rfl
  have hnum : (Json.int (n * axi256Bytes) : Json F).num = .ok (.int (n * axi256Bytes)) := rfl
  simp only [axiItem, passes_bind, passes_item, h, Except.ok.injEq, exists_eq_left',
    passes_ofExcept, hmul, hnum]

theorem passes_hasKeys_iff (h : ∀ key ∈ keys, v.contains key = .ok true) {b : Bool} :
  (hasKeys v keys).Passes b ↔ b = true
  := by
  use passes_hasKeys h
  rintro rfl
  induction keys with
  | nil => rfl
  | cons key keys ih =>
      obtain ⟨hkey, hkeys⟩ := List.forall_mem_cons.mp h
      simp only [hasKeys, hkey, passes_bind, passes_ofExcept, Except.ok.injEq, exists_eq_left',
        if_true]
      apply ih hkeys

theorem eq_int_iff {a b : ℤ} :
  (Json.int a : Json F).eq (.int b) = true ↔ a = b
  := beq_iff_eq

end Ints

/-! ### The decoder -/

/-- The integers of a decoder layer. -/
def decoderFields (layer : ℤ) : List (String × ℤ) :=
  [("layer", layer), ("w_offset_bytes", 2457600 * layer), ("meta_offset_bytes", 307200 * layer),
    ("w_offset_axi256", 76800 * layer), ("meta_offset_axi256", 9600 * layer)]

section Decoder

variable {F : Type} [PyFloat F] {layers : List (Json F)} {layer : Json F}

/-- A layer that begins where the one before it ends passes. -/
theorem passes_checkDecoderLayer {idx : ℕ} (hlayer : HasInts layer (decoderFields idx))
    (hnext : ∀ nxt, layers[idx + 1]? = some nxt → HasInts nxt (decoderFields (idx + 1))) :
  (checkDecoderLayer layers idx layer).Passes ()
  := by
  simp only [HasInts, decoderFields, List.forall_mem_cons] at hlayer hnext
  obtain ⟨hindex, hw, hm, hwAxi, hmAxi, -⟩ := hlayer
  have hkeys : ∀ key ∈ ["w_offset_bytes", "meta_offset_bytes"], layer.contains key = .ok true := by
    simp only [List.forall_mem_cons]
    exact ⟨contains_of_getItem hw, contains_of_getItem hm, nofun⟩
  have haxi : ∀ key ∈ ["w_offset_axi256", "meta_offset_axi256"], layer.contains key = .ok true := by
    simp only [List.forall_mem_cons]
    exact ⟨contains_of_getItem hwAxi, contains_of_getItem hmAxi, nofun⟩
  have hmul : ∀ n : ℤ, (Json.int n : Json F).mulInt axi256Bytes = .ok (.int (n * axi256Bytes)) :=
    fun _ => rfl
  have hsub : ∀ a b : ℤ, (Num.int a : Num F).sub (.int b) = .ok (.int (a - b)) := fun _ _ => rfl
  simp only [checkDecoderLayer, ↓passes_seq, passes_bind, passes_item, passes_ofExcept,
    passes_expect, passes_hasKeys_iff haxi, hindex, hw, hm, hwAxi, hmAxi, Except.ok.injEq,
    exists_eq_left, exists_eq_left', if_true, hmul, eq_int_iff]
  refine ⟨trivial, trivial, ?_, ?_, ?_⟩
  · change 2457600 * (idx : ℤ) = 76800 * idx * 32
    omega
  · change 307200 * (idx : ℤ) = 9600 * idx * 32
    omega
  · cases hnxt : layers[idx + 1]? with
    | none => rfl
    | some nxt =>
        obtain ⟨-, hw', hm', -⟩ := hnext nxt hnxt
        simp only [↓passes_seq, passes_bind, passes_hasKeys_iff hkeys, exists_eq_left, if_true,
          passes_numItem_iff hw, passes_numItem_iff hm, passes_numItem_iff hw',
          passes_numItem_iff hm', exists_eq_left', passes_ofExcept, hsub, Except.ok.injEq,
          passes_expectEq, decoderHalfWgtBytes_eq, decoderHalfMetaBytes_eq]
        constructor
        · change (2457600 * ((idx : ℤ) + 1) - 2457600 * idx == 2457600) = true
          rw [beq_iff_eq]
          omega
        · change (307200 * ((idx : ℤ) + 1) - 307200 * idx == 307200) = true
          rw [beq_iff_eq]
          omega

/-- The last of 32 layers ends with the files. -/
theorem passes_checkLastDecoderLayer {size : String → Option ℕ}
    (hlayer : HasInts layer (decoderFields 31)) (hw0 : size "weights_half0.bin" = some 78643200)
    (hm0 : size "meta_half0.bin" = some 9830400) :
  (checkLastDecoderLayer size layer).Passes ()
  := by
  simp only [HasInts, decoderFields, List.forall_mem_cons] at hlayer
  obtain ⟨-, hw, hm, -⟩ := hlayer
  have hkeys : ∀ key ∈ ["w_offset_bytes", "meta_offset_bytes"], layer.contains key = .ok true := by
    simp only [List.forall_mem_cons]
    exact ⟨contains_of_getItem hw, contains_of_getItem hm, nofun⟩
  have hadd : ∀ a b : ℤ, (Num.int a : Num F).add (.int b) = .ok (.int (a + b)) := fun _ _ => rfl
  have hfile : ∀ {name : String} {n : ℕ}, size name = some n →
      ∀ m : ℤ, (fileSize size name).Passes m ↔ m = n := by
    intro name n hn m
    rw [passes_fileSize, hn]
    simp only [Option.some.injEq, exists_eq_left']
  simp only [checkLastDecoderLayer, ↓passes_seq, passes_bind, passes_hasKeys_iff hkeys,
    exists_eq_left, if_true, passes_numItem_iff hw, passes_numItem_iff hm, exists_eq_left',
    passes_ofExcept, hadd, Except.ok.injEq, passes_expectEq, hfile hw0, hfile hm0,
    decoderHalfWgtBytes_eq, decoderHalfMetaBytes_eq]
  exact ⟨rfl, rfl⟩

/-- Layers that follow each other pass, when there are 32 of them. -/
theorem passes_checkDecoderLayers {payload : Json F} {size : String → Option ℕ} {f : ℕ → Json F}
    (hpayload : payload.getItem "decoder_layers" = .ok (.list ((List.range 32).map f)))
    (hf : ∀ i, HasInts (f i) (decoderFields i)) (hsize : AcceptedSizes size) :
  (checkDecoderLayers size payload).Passes ()
  := by
  have hlayers : ∀ (i : ℕ) layer, ((List.range 32).map f)[i]? = some layer →
      HasInts layer (decoderFields i) := by
    intro i layer hlayer
    obtain ⟨hi, rfl⟩ := List.getElem?_eq_some_iff.mp hlayer
    rw [List.getElem_map, List.getElem_range]
    apply hf
  have hlast : ((List.range 32).map f).getLast? = some (f 31) := rfl
  simp only [checkDecoderLayers, ↓passes_seq, passes_bind, passes_ofExcept,
    get_of_getItem hpayload, Except.ok.injEq, exists_eq_left', Json.elements, passes_expect,
    List.length_map, List.length_range, passes_forM]
  refine ⟨rfl, ?_, ?_⟩
  · rintro ⟨layer, i⟩ hmem
    rw [List.mem_zipIdx_iff_getElem?] at hmem
    apply passes_checkDecoderLayer (hlayers i layer hmem)
    intro nxt hnxt
    apply hlayers (i + 1) nxt hnxt
  · rw [hlast]
    apply passes_checkLastDecoderLayer (hf 31)
    · apply hsize.fixed ("weights_half0.bin", 78643200) (by decide)
    · apply hsize.fixed ("meta_half0.bin", 9830400) (by decide)

end Decoder

/-! ### The vision model -/

/-- The integers of an entry of `vision_layers`. -/
def visionFields (e : VisionEntry) : List (String × ℤ) :=
  [("w_offset_axi256", e.wOffsetAxi256), ("meta_offset_axi256", e.metaOffsetAxi256), ("M", e.M),
    ("K", e.K), ("N", e.N)]

/-- The weights of an entry end at byte `w`, and its metadata at byte `m`. -/
def VisionEntry.EndsAt (e : VisionEntry) (w m : ℤ) : Prop :=
  w - e.wOffsetAxi256 * axi256Bytes = ((e.K : ℤ) * e.N).fdiv 2
    ∧ m - e.metaOffsetAxi256 * axi256Bytes = (e.N : ℤ) * (e.K : ℤ).fdiv 32 * 2

section Vision

variable {F : Type} [PyFloat F] {layers : List (Json F)} {layer : Json F} {e : VisionEntry}

theorem passes_getEq {v u w : Json F} {key : String} (h : v.getItem key = .ok u) {b : Bool} :
  (getEq v key w).Passes b ↔ u.eq w = b
  := by
  simp only [getEq, passes_bind, passes_ofExcept, get_of_getItem h, Except.ok.injEq,
    exists_eq_left', passes_pure]

/-- An entry up to which the next one reaches passes. -/
theorem passes_checkVisionLayer {idx : ℕ} (hlayer : HasInts layer (visionFields e))
    (hname : layer.getItem "name" = .ok (.str e.name))
    (hnext : ∀ nxt, layers[idx + 1]? = some nxt → ∃ e', HasInts nxt (visionFields e')
      ∧ e.EndsAt (e'.wOffsetAxi256 * axi256Bytes) (e'.metaOffsetAxi256 * axi256Bytes)) :
  (checkVisionLayer layers idx layer).Passes ()
  := by
  simp only [HasInts, visionFields, List.forall_mem_cons] at hlayer
  obtain ⟨hw, hm, hM, hK, hN, -⟩ := hlayer
  have hkeys : ∀ key ∈ ["name", "w_offset_axi256", "meta_offset_axi256", "M", "K", "N"],
      layer.contains key = .ok true := by
    simp only [List.forall_mem_cons]
    exact ⟨contains_of_getItem hname, contains_of_getItem hw, contains_of_getItem hm,
      contains_of_getItem hM, contains_of_getItem hK, contains_of_getItem hN, nofun⟩
  have hkeys' : ∀ key ∈ ["w_offset_axi256", "meta_offset_axi256", "K", "N"],
      layer.contains key = .ok true := fun key hkey =>
    hkeys key ((by decide : ["w_offset_axi256", "meta_offset_axi256", "K", "N"]
      ⊆ ["name", "w_offset_axi256", "meta_offset_axi256", "M", "K", "N"]) hkey)
  have hsub : ∀ a b : ℤ, (Num.int a : Num F).sub (.int b) = .ok (.int (a - b)) := fun _ _ => rfl
  have hbytes : ∀ k n : ℤ, packedW4BytesOf (.int k : Num F) (.int n)
      = .ok (.int ((k * n).fdiv 2)) := fun _ _ => rfl
  have hmeta : ∀ k n : ℤ, metaBytesOf (.int k : Num F) (.int n)
      = .ok (.int (n * k.fdiv 32 * 2)) := fun _ _ => rfl
  have hnonneg : ∀ a : ℕ, (Num.int (a * axi256Bytes) : Num F).nonneg = true := by
    intro a
    change decide ((0 : ℤ) ≤ a * 32) = true
    rw [decide_eq_true_eq]
    omega
  simp only [checkVisionLayer, ↓passes_seq, passes_bind, passes_expect,
    passes_hasKeys_iff hkeys', exists_eq_left, if_true, passes_axiItem_iff hw,
    passes_axiItem_iff hm, exists_eq_left', hnonneg, true_and]
  refine ⟨(), passes_forM.mpr ?_, ?_⟩
  · intro key hkey
    simp only [passes_bind, passes_ofExcept, passes_expect, hkeys key hkey, Except.ok.injEq,
      exists_eq_left']
  · cases hnxt : layers[idx + 1]? with
    | none => rfl
    | some nxt =>
        obtain ⟨e', hfields, hends, hends'⟩ := hnext nxt hnxt
        simp only [HasInts, visionFields, List.forall_mem_cons] at hfields
        obtain ⟨hw', hm', -⟩ := hfields
        simp only [↓passes_seq, passes_bind, passes_numItem_iff hK, passes_numItem_iff hN,
          passes_axiItem_iff hw, passes_axiItem_iff hm, passes_axiItem_iff hw',
          passes_axiItem_iff hm', exists_eq_left', passes_ofExcept, hsub, hbytes, hmeta,
          Except.ok.injEq, passes_expectEq]
        exact ⟨beq_iff_eq.mpr hends, beq_iff_eq.mpr hends'⟩

/-- An entry passes that ends where the next one begins, the last one with the files. -/
theorem passes_checkVisionSpan {idx : ℕ} {w m : ℤ} (hlayer : HasInts layer (visionFields e))
    (hlast : layers[idx + 1]? = none → e.EndsAt w m)
    (hnext : ∀ nxt, layers[idx + 1]? = some nxt → ∃ e', HasInts nxt (visionFields e')
      ∧ e.EndsAt (e'.wOffsetAxi256 * axi256Bytes) (e'.metaOffsetAxi256 * axi256Bytes)) :
  (checkVisionSpan w m layers idx layer).Passes ()
  := by
  simp only [HasInts, visionFields, List.forall_mem_cons] at hlayer
  obtain ⟨hw, hm, hM, hK, hN, -⟩ := hlayer
  have hsub : ∀ a b : ℤ, (Num.int a : Num F).sub (.int b) = .ok (.int (a - b)) := fun _ _ => rfl
  have hbytes : ∀ k n : ℤ, packedW4BytesOf (.int k : Num F) (.int n)
      = .ok (.int ((k * n).fdiv 2)) := fun _ _ => rfl
  have hmeta : ∀ k n : ℤ, metaBytesOf (.int k : Num F) (.int n)
      = .ok (.int (n * k.fdiv 32 * 2)) := fun _ _ => rfl
  cases hnxt : layers[idx + 1]? with
  | none =>
      obtain ⟨hends, hends'⟩ := hlast hnxt
      simp only [checkVisionSpan, hnxt, ↓passes_seq, passes_bind, passes_numItem_iff hK,
        passes_numItem_iff hN, passes_axiItem_iff hw, passes_axiItem_iff hm, passes_pure,
        exists_eq_left', passes_ofExcept, hsub, hbytes, hmeta, Except.ok.injEq, passes_expectEq]
      exact ⟨beq_iff_eq.mpr hends, beq_iff_eq.mpr hends'⟩
  | some nxt =>
      obtain ⟨e', hfields, hends, hends'⟩ := hnext nxt hnxt
      simp only [HasInts, visionFields, List.forall_mem_cons] at hfields
      obtain ⟨hw', hm', -⟩ := hfields
      simp only [checkVisionSpan, hnxt, ↓passes_seq, passes_bind, passes_numItem_iff hK,
        passes_numItem_iff hN, passes_axiItem_iff hw, passes_axiItem_iff hm,
        passes_axiItem_iff hw', passes_axiItem_iff hm', exists_eq_left', passes_ofExcept, hsub,
        hbytes, hmeta, Except.ok.injEq, passes_expectEq]
      exact ⟨beq_iff_eq.mpr hends, beq_iff_eq.mpr hends'⟩

theorem nodup_keys_toManifest (e : VisionEntry) :
  (e.toManifest.map Prod.fst).Nodup
  := by
  change ["name", "w_offset_axi256", "meta_offset_axi256", "M", "K", "N"].Nodup
  decide

theorem hasInts_toManifest (e : VisionEntry) :
  HasInts (.dict e.toManifest) (visionFields e)
  := by
  intro f hf
  apply getItem_dict (nodup_keys_toManifest e)
  apply List.mem_cons_of_mem
  apply List.mem_map_of_mem (f := fun f : String × ℤ => (f.1, Json.int f.2)) hf

theorem getItem_name_toManifest (e : VisionEntry) :
  (Json.dict e.toManifest).getItem "name" = .ok (.str e.name)
  := getItem_dict (nodup_keys_toManifest e) List.mem_cons_self

/-- The names of the entries of a block end as the check expects. -/
theorem endsWith_suffix :
  ∀ g < 12, ∀ suffix ∈ ["qkv", "attn_out", "ffn_up", "ffn_down"],
    ("blk." ++ toString g ++ "." ++ suffix).endsWith ("." ++ suffix) = true
  := by decide +kernel

/-- The entries of a block pass. -/
theorem passes_checkVisionGroup {g : ℕ} (hg : g < 12) {offsets : ℕ → ℕ × ℕ}
    {layers rest : List (Json Empty)}
    (hdrop : layers.drop (1 + g * 4)
      = ((blockManifest offsets g).map fun e => .dict e.toManifest) ++ rest) :
  (checkVisionGroup layers g).Passes ()
  := by
  have hsuffix : ∀ (e : VisionEntry) (suffix : String),
      suffix ∈ ["qkv", "attn_out", "ffn_up", "ffn_down"] →
      e.name = "blk." ++ toString g ++ "." ++ suffix →
      (expectSuffix g (Json.dict e.toManifest) suffix).Passes () := by
    intro e suffix hmem hname
    have hends : (Json.str e.name : Json Empty).endsWith ("." ++ suffix) = .ok true := by
      rw [Json.endsWith, hname, endsWith_suffix g hg suffix hmem]
    simp only [expectSuffix, passes_bind, passes_item, getItem_name_toManifest, Except.ok.injEq,
      exists_eq_left', passes_ofExcept, hends, passes_expect]
  have hshape : ∀ (e : VisionEntry) (name : String) (k n : ℤ), (e.K : ℤ) = k → (e.N : ℤ) = n →
      (expectShape g (Json.dict e.toManifest) name k n).Passes () := by
    rintro e name k n rfl rfl
    have hK := hasInts_toManifest e ("K", e.K) (by simp [visionFields])
    have hN := hasInts_toManifest e ("N", e.N) (by simp [visionFields])
    simp only [expectShape, hasItems, passes_bind, passes_item, hK, hN, Except.ok.injEq,
      exists_eq_left', eq_int_iff, if_true, passes_pure, passes_expect]
  have hentries : (blockManifest offsets g).map (fun e => Json.dict e.toManifest) ++ rest
      = Json.dict (visionEntry ("blk." ++ toString g ++ "." ++ "qkv") (vitC, vitQkv)
          (offsets (1 + 4 * g + 0))).toManifest
        :: Json.dict (visionEntry ("blk." ++ toString g ++ "." ++ "attn_out") (vitC, vitC)
          (offsets (1 + 4 * g + 1))).toManifest
        :: Json.dict (visionEntry ("blk." ++ toString g ++ "." ++ "ffn_up") (vitC, vitFfnDim)
          (offsets (1 + 4 * g + 2))).toManifest
        :: Json.dict (visionEntry ("blk." ++ toString g ++ "." ++ "ffn_down") (vitFfnDim, vitC)
          (offsets (1 + 4 * g + 3))).toManifest
        :: rest := rfl
  rw [hentries] at hdrop
  simp only [checkVisionGroup, hdrop, passes_seq]
  refine ⟨hsuffix _ _ ?_ rfl, hsuffix _ _ ?_ rfl, hsuffix _ _ ?_ rfl, hsuffix _ _ ?_ rfl,
    hshape _ _ _ _ rfl rfl, hshape _ _ _ _ rfl rfl, hshape _ _ _ _ rfl rfl,
    hshape _ _ _ _ rfl rfl⟩
  all_goals decide

end Vision

namespace ExportedModel

variable (m : ExportedModel)

/-- An entry ends where the bytes of the matrices after it begin. -/
theorem endsAt_of_getElem? {ms : List VisionMatrix} {i : ℕ} (hi : i < ms.length) {e : VisionEntry}
    (he : (exportVision ms).manifest[i]? = some e) :
  e.EndsAt ((ms.take (i + 1)).flatMap VisionMatrix.wgtBytes).length
    ((ms.take (i + 1)).flatMap VisionMatrix.metaBytes).length
  := by
  obtain ⟨e', he', hK, hN, hw, hm⟩ := exportVision_entry hi
  cases he.symm.trans he'
  obtain ⟨g, hg⟩ := ms[i].grp_dvd
  have hg : ms[i].kDim = 32 * g := hg
  rw [List.take_succ_eq_append_getElem hi, List.flatMap_append, List.flatMap_append,
    List.length_append, List.length_append, ← hw, ← hm, List.flatMap_singleton,
    List.flatMap_singleton, ms[i].length_wgtBytes hg, ms[i].length_metaBytes hg]
  constructor
  · have hbytes : (e.K : ℤ) * e.N = 2 * (ms[i].nDim * (16 * g)) := by
      rw [hK, hN, hg]
      push_cast
      ring
    rw [hbytes, Int.mul_fdiv_cancel_left _ (by decide)]
    push_cast
    ring
  · have hgroups : (e.K : ℤ).fdiv 32 = g := by
      rw [hK, hg, Nat.cast_mul]
      apply Int.mul_fdiv_cancel_left _ (by decide)
    rw [hgroups, hN]
    push_cast
    ring

/-- The entries of `vision_layers`. -/
def visionLayers : List (Json Empty) :=
  (visionManifest (matrixByteOffsets m.vision) m.blocks).map fun e => .dict e.toManifest

theorem length_vision :
  m.vision.length = 1 + 4 * m.blocks
  := by
  rw [← length_encoderShapes, ← m.vision_shapes, List.length_map]

theorem length_visionLayers :
  m.visionLayers.length = 1 + 4 * m.blocks
  := by
  rw [visionLayers, List.length_map, visionManifest_eq_mapIdx, List.length_mapIdx,
    length_encoderShapes]

/-- An entry is that of a matrix. -/
theorem getElem?_visionLayers {i : ℕ} {layer : Json Empty} (h : m.visionLayers[i]? = some layer) :
  ∃ e : VisionEntry, layer = .dict e.toManifest ∧ i < m.vision.length
    ∧ e.EndsAt ((m.vision.take (i + 1)).flatMap VisionMatrix.wgtBytes).length
      ((m.vision.take (i + 1)).flatMap VisionMatrix.metaBytes).length
    ∧ (e.wOffsetAxi256 : ℤ) * axi256Bytes
      = ((m.vision.take i).flatMap VisionMatrix.wgtBytes).length
    ∧ (e.metaOffsetAxi256 : ℤ) * axi256Bytes
      = ((m.vision.take i).flatMap VisionMatrix.metaBytes).length
  := by
  have hi : i < m.vision.length := by
    rw [length_vision, ← length_visionLayers]
    exact (List.getElem?_eq_some_iff.mp h).1
  rw [visionLayers, ← exportVision_manifest m.vision_shapes, List.getElem?_map,
    Option.map_eq_some_iff] at h
  obtain ⟨e, he, rfl⟩ := h
  obtain ⟨e', he', -, -, hw, hm⟩ := exportVision_entry hi
  cases he.symm.trans he'
  refine ⟨e, rfl, hi, endsAt_of_getElem? hi he, ?_, ?_⟩
  · change (e.wOffsetAxi256 : ℤ) * 32 = _
    omega
  · change (e.metaOffsetAxi256 : ℤ) * 32 = _
    omega

/-- The entries from those of a block on. -/
theorem drop_visionLayers {g : ℕ} (hg : g < m.blocks) :
  ∃ rest, m.visionLayers.drop (1 + g * 4)
    = ((blockManifest (matrixByteOffsets m.vision) g).map fun e => .dict e.toManifest) ++ rest
  := by
  obtain ⟨k, hk⟩ : ∃ k, m.blocks = g + (1 + k) := ⟨m.blocks - g - 1, by omega⟩
  have hlength : ((List.range g).flatMap (blockManifest (matrixByteOffsets m.vision))).length
      = g * 4 := length_flatMap_range fun _ _ => rfl
  rw [visionLayers, visionManifest, hk, flatMap_range_append, flatMap_range_append, List.map_cons,
    Nat.add_comm 1, List.drop_succ_cons, List.map_append, List.drop_left']
  · rw [List.range_one, List.flatMap_singleton, List.map_append]
    exact ⟨_, rfl⟩
  · rw [List.length_map, hlength]

/-- An entry ends where the next one begins. -/
theorem next_visionLayers {i : ℕ} {e : VisionEntry}
    (hends : e.EndsAt ((m.vision.take (i + 1)).flatMap VisionMatrix.wgtBytes).length
      ((m.vision.take (i + 1)).flatMap VisionMatrix.metaBytes).length) :
  ∀ nxt, m.visionLayers[i + 1]? = some nxt → ∃ e', HasInts nxt (visionFields e')
    ∧ e.EndsAt (e'.wOffsetAxi256 * axi256Bytes) (e'.metaOffsetAxi256 * axi256Bytes)
  := by
  intro nxt hnxt
  obtain ⟨e', rfl, -, -, hw, hm⟩ := m.getElem?_visionLayers hnxt
  use e', hasInts_toManifest e'
  rwa [hw, hm]

/-- The last entry ends with the files. -/
theorem endsAt_files {i : ℕ} {e : VisionEntry}
    (hends : e.EndsAt ((m.vision.take (i + 1)).flatMap VisionMatrix.wgtBytes).length
      ((m.vision.take (i + 1)).flatMap VisionMatrix.metaBytes).length)
    (hnone : m.visionLayers[i + 1]? = none) :
  e.EndsAt (m.vision.flatMap VisionMatrix.wgtBytes).length
    (m.vision.flatMap VisionMatrix.metaBytes).length
  := by
  rw [List.getElem?_eq_none_iff, length_visionLayers, ← length_vision] at hnone
  rwa [List.take_of_length_le hnone] at hends

/-- The first entry passes. -/
theorem passes_checkPatchEmbed (offsets : ℕ × ℕ) :
  (checkPatchEmbed (.dict (visionEntry "patch_embed" (vitC, vitC) offsets).toManifest
    : Json Empty)).Passes ()
  := by
  have hfields := hasInts_toManifest (visionEntry "patch_embed" (vitC, vitC) offsets)
  simp only [HasInts, visionFields, List.forall_mem_cons] at hfields
  obtain ⟨-, -, hM, hK, hN, -⟩ := hfields
  simp only [checkPatchEmbed, ↓passes_seq, passes_bind, passes_getEq hM, passes_getEq hK,
    passes_getEq hN, passes_getEq (getItem_name_toManifest _), passes_expect, exists_eq_left']
  exact ⟨rfl, rfl⟩

/-- The vision section passes, for twelve blocks or more. -/
theorem passes_checkVisionLayers {payload : Json Empty} {size : String → Option ℕ}
    (hpayload : payload.getItem "vision_layers" = .ok (.list m.visionLayers))
    (hw : size "vision_wgt.bin" = some (m.vision.flatMap VisionMatrix.wgtBytes).length)
    (hm : size "vision_meta.bin" = some (m.vision.flatMap VisionMatrix.metaBytes).length)
    (hblocks : 12 ≤ m.blocks) :
  (checkVisionLayers size payload).Passes ()
  := by
  have hlength := m.length_visionLayers
  have hpatch : ∀ patch tail, m.visionLayers = patch :: tail →
      patch = .dict (visionEntry "patch_embed" (vitC, vitC)
        (matrixByteOffsets m.vision 0)).toManifest := by
    intro patch tail hcons
    exact (List.cons.inj hcons).1.symm
  have hmin : (min (m.visionLayers.length - 1) (1 + 12 * 4 - 1) + 3) / 4 = 12 := by omega
  simp only [checkVisionLayers, ↓passes_seq, passes_bind, passes_ofExcept,
    get_of_getItem hpayload, Except.ok.injEq, exists_eq_left', Json.elements, passes_expect,
    decide_eq_true_eq]
  constructor
  · omega
  · split
    next => rfl
    next patch tail hcons =>
      obtain rfl := hpatch patch tail hcons
      simp only [↓passes_seq, passes_bind, passes_forM, passes_fileSize, hw, hm,
        Option.some.injEq, exists_eq_left', exists_eq_left, hmin, List.mem_range]
      refine ⟨passes_checkPatchEmbed _, ?_, ?_, ?_⟩
      · rintro ⟨layer, i⟩ hmem
        rw [List.mem_zipIdx_iff_getElem?] at hmem
        obtain ⟨e, rfl, -, hends, -⟩ := m.getElem?_visionLayers hmem
        apply passes_checkVisionLayer (hasInts_toManifest e) (getItem_name_toManifest e)
        apply m.next_visionLayers hends
      · rintro ⟨layer, i⟩ hmem
        rw [List.mem_zipIdx_iff_getElem?] at hmem
        obtain ⟨e, rfl, -, hends, -⟩ := m.getElem?_visionLayers hmem
        apply passes_checkVisionSpan (hasInts_toManifest e) (m.endsAt_files hends)
          (m.next_visionLayers hends)
      · intro g hg
        obtain ⟨rest, hdrop⟩ := m.drop_visionLayers (hg.trans_le hblocks)
        apply passes_checkVisionGroup hg hdrop

/-! ### The rest of the manifest -/

/-- The dimensions of the connector pass. -/
theorem passes_checkConnector {payload : Json Empty}
    (hpayload : payload.getItem "connector" = .ok (.dict connectorEntry.toManifest)) :
  (checkConnector payload).Passes ()
  := by
  have hfields := hasInts_toManifest connectorEntry
  simp only [HasInts, visionFields, List.forall_mem_cons] at hfields
  obtain ⟨hw, hm, hM, hK, hN, -⟩ := hfields
  simp only [checkConnector, ↓passes_seq, passes_bind, passes_ofExcept, get_of_getItem hpayload,
    Except.ok.injEq, exists_eq_left', passes_getEq hw, passes_getEq hm, passes_getEq hM,
    passes_getEq hK, passes_getEq hN, passes_expect, eq_int_iff]
  decide

/-- The artifacts are there; the status says whether AWQ is enabled. -/
theorem passes_checkArtifacts_iff {payload : Json Empty} {size : String → Option ℕ}
    {scheme : QuantSchemeSpec}
    (hstatus : payload.getItem "kv260_status" = .ok (.str scheme.awqReady))
    (hartifacts : payload.getItem "artifacts" = .ok (.list (manifestArtifacts.map .str)))
    (hsize : ∀ name ∈ manifestArtifacts, (size name).isSome = true) :
  (checkArtifacts size payload).Passes () ↔ scheme.awqEnabled = true
  := by
  have hready : (Json.str scheme.awqReady : Json Empty).eq
      (.str "native_w4a8_ready_host_folded_awq") = true ↔ scheme.awqEnabled = true := by
    rw [QuantSchemeSpec.awqReady]
    cases scheme.awqEnabled <;> decide
  simp only [checkArtifacts, ↓passes_seq, passes_bind, passes_ofExcept, passes_getEq hstatus,
    get_of_getItem hartifacts, Except.ok.injEq, exists_eq_left', Json.elements, passes_expect,
    hready, passes_forM]
  constructor
  · rintro ⟨hawq, -⟩
    exact hawq
  · intro hawq
    refine ⟨hawq, manifestArtifacts, rfl, ?_, ?_⟩
    · intro name hname
      apply hsize name (List.mem_eraseDups.mp hname)
    · apply hsize

/-- The entry of a decoder layer. -/
def decoderLayer (scheme : QuantSchemeSpec) (layer : ℕ) : Json Empty :=
  .dict (layerManifest scheme.weightFormat (layerByteOffsets m.decoder layer) layer)

theorem hasInts_decoderLayer (scheme : QuantSchemeSpec) (layer : ℕ) :
  HasInts (m.decoderLayer scheme layer) (decoderFields layer)
  := by
  have hkeys : ["layer", "w_offset_bytes", "meta_offset_bytes", "w_offset_axi256",
      "meta_offset_axi256", "quant"].Nodup := by decide
  have haxi : ∀ k : ℕ, layer * (k * 32) / 32 = k * layer := by
    intro k
    rw [← Nat.mul_assoc, Nat.mul_div_cancel _ (by decide), Nat.mul_comm]
  have hwAxi : layer * 2457600 / 32 = 76800 * layer := haxi 76800
  have hmAxi : layer * 307200 / 32 = 9600 * layer := haxi 9600
  have hwgt : (layerByteOffsets m.decoder layer).1 = layer * 2457600 :=
    length_weightsFile 0 m.decoder layer
  have hmeta : (layerByteOffsets m.decoder layer).2 = layer * 307200 :=
    length_metaFile 0 m.decoder layer
  intro f hf
  rw [decoderLayer, layerManifest, hwgt, hmeta, hwAxi, hmAxi, Nat.mul_comm layer,
    Nat.mul_comm layer]
  simp only [Nat.cast_mul, Nat.cast_ofNat]
  apply getItem_dict
  · exact hkeys
  · have hfields : (f.1, (Json.int f.2 : Json Empty))
        ∈ (decoderFields layer).map fun f => (f.1, Json.int f.2) :=
      List.mem_map_of_mem hf
    exact List.mem_append_left [("quant", .str scheme.weightFormat)] hfields

/-- The entries of the manifest. -/
theorem getItem_manifest (scheme : QuantSchemeSpec) :
  (m.manifest scheme).getItem "kv260_status" = .ok (.str scheme.awqReady)
    ∧ (m.manifest scheme).getItem "decoder_layers"
      = .ok (.list ((List.range m.layers).map (m.decoderLayer scheme)))
    ∧ (m.manifest scheme).getItem "vision_layers" = .ok (.list m.visionLayers)
    ∧ (m.manifest scheme).getItem "connector" = .ok (.dict connectorEntry.toManifest)
    ∧ (m.manifest scheme).getItem "artifacts" = .ok (.list (manifestArtifacts.map .str))
  := by
  have hkeys : ["scheme", "kv260_status", "decoder_layers", "vision_layers", "connector",
      "artifacts"].Nodup := by decide
  have hdecoder : (decoderManifest scheme.weightFormat (layerByteOffsets m.decoder) m.layers).map
      Json.dict = (List.range m.layers).map (m.decoderLayer scheme) := by
    rw [decoderManifest, List.map_map]
    rfl
  have hvision : ((visionManifest (matrixByteOffsets m.vision) m.blocks).map
      VisionEntry.toManifest).map Json.dict = m.visionLayers := by
    rw [List.map_map]
    rfl
  rw [manifest, exportManifest, manifestWith, hdecoder, hvision]
  have hitem : ∀ {items : List (String × Json Empty)} {key : String} {v : Json Empty},
      items.map Prod.fst = ["scheme", "kv260_status", "decoder_layers", "vision_layers",
        "connector", "artifacts"] → (key, v) ∈ items → (Json.dict items).getItem key = .ok v := by
    intro items key v hitems hmem
    rw [← hitems] at hkeys
    exact getItem_dict hkeys hmem
  refine ⟨hitem rfl ?_, hitem rfl ?_, hitem rfl ?_, hitem rfl ?_, hitem rfl ?_⟩
  all_goals simp

/-- The KV260 export. -/
theorem reportsPass_exportKv260W4a8Bundle_iff (scheme : QuantSchemeSpec)
    (before : ExportDir Empty) :
  (m.exportKv260W4a8Bundle scheme before).ReportsPass
    ↔ scheme.awqEnabled = true ∧ m.layers = 32 ∧ 12 ≤ m.blocks
  := by
  obtain ⟨hstatus, hdecoder, hvision, hconnector, hartifacts⟩ := m.getItem_manifest scheme
  have hpresent : ∀ name ∈ manifestArtifacts,
      ((m.exportKv260W4a8Bundle scheme before).size name).isSome = true := by
    have hnames : manifestArtifacts = m.sizes.map Prod.fst := rfl
    intro name hname
    rw [hnames, List.mem_map] at hname
    obtain ⟨⟨_, n⟩, hmem, rfl⟩ := hname
    rw [m.size_of_mem scheme before hmem, Option.isSome_some]
  rw [ExportDir.reportsPass_iff]
  constructor
  · rintro ⟨payload, hpayload, hcheck⟩
    cases hpayload
    simp only [checkPayload, passes_seq] at hcheck
    obtain ⟨hcheckArtifacts, hcheckDecoder, -, -, -, hcheckVision, -⟩ := hcheck
    refine ⟨(passes_checkArtifacts_iff hstatus hartifacts hpresent).mp hcheckArtifacts, ?_, ?_⟩
    · obtain ⟨hcount, -⟩ := checkDecoderLayers_entries hcheckDecoder
      rw [entries_eq (get_of_getItem hdecoder) rfl, List.length_map, List.length_range] at hcount
      change (m.layers : ℤ) = 32 at hcount
      exact_mod_cast hcount
    · simp only [checkVisionLayers, ↓passes_seq, passes_bind, passes_ofExcept,
        get_of_getItem hvision, Except.ok.injEq, exists_eq_left', Json.elements, passes_expect,
        decide_eq_true_eq, m.length_visionLayers] at hcheckVision
      obtain ⟨hcount, -⟩ := hcheckVision
      omega
  · rintro ⟨hawq, hlayers, hblocks⟩
    have hsize := m.acceptedSizes scheme before hlayers
    obtain ⟨hdecoderFiles, hconnectorFiles, hotherFiles⟩ := passes_of_acceptedSizes hsize
    refine ⟨_, rfl, ?_⟩
    simp only [checkPayload, passes_seq]
    refine ⟨(passes_checkArtifacts_iff hstatus hartifacts hpresent).mpr hawq, ?_, hdecoderFiles,
      passes_checkConnector hconnector, hconnectorFiles, ?_, hotherFiles⟩
    · rw [hlayers] at hdecoder
      apply passes_checkDecoderLayers hdecoder (hasInts_decoderLayer m scheme) hsize
    · apply m.passes_checkVisionLayers hvision _ _ hblocks
      · apply m.size_of_mem scheme before List.mem_cons_self
      · apply m.size_of_mem scheme before (List.mem_cons_of_mem _ List.mem_cons_self)

/-- For every model, every scheme and every directory that the export is written to, the check
reports `PASS` exactly if the scheme has a KV260 export with AWQ, the decoder has 32 layers, and
the vision encoder has at least the twelve blocks that the check looks at. -/
theorem reportsPass_exportHardwareBundle_iff (scheme : GroupedScheme) (before : ExportDir Empty) :
  (m.exportHardwareBundle scheme.toQuantSchemeSpec before).ReportsPass
    ↔ scheme.exportMode.startsWith "kv260_w4a8" = true ∧ scheme.awqEnabled = true
      ∧ m.layers = 32 ∧ 12 ≤ m.blocks
  := by
  rw [exportHardwareBundle]
  by_cases hmode : scheme.exportMode.startsWith "kv260_w4a8" = true
  · rw [if_pos hmode, reportsPass_exportKv260W4a8Bundle_iff, and_iff_right hmode]
  · have hstatus : (replayManifest scheme.toQuantSchemeSpec).getItem "kv260_status"
        = .ok (.str "replay_required") := rfl
    have hdiffers : (Json.str "replay_required" : Json Empty).eq
        (.str "native_w4a8_ready_host_folded_awq") = false := by decide
    rw [if_neg hmode, ExportDir.reportsPass_iff]
    constructor
    · rintro ⟨payload, hpayload, hcheck⟩
      cases hpayload
      simp only [checkPayload, ↓passes_seq, checkArtifacts, passes_bind, passes_getEq hstatus,
        exists_eq_left', passes_expect, hdiffers, Bool.false_eq_true, false_and] at hcheck
      obtain ⟨_, ⟨⟩⟩ := hcheck
    · rintro ⟨hkv260, -⟩
      exact absurd hkv260 hmode

end ExportedModel

end Kv260
