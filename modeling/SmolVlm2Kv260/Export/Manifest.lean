import SmolVlm2Kv260.Export.VisionLayout
import SmolVlm2Kv260.Validation.Dumps

/-!
# The manifest of the export

The manifest that `export_kv260_w4a8_bundle` writes: an entry for each layer of the decoder and
each matrix of the vision encoder, with the offsets of its bytes, and one for the connector.
Manifests with keys missing from their entries are described by what was deleted.
-/

set_option autoImplicit false

namespace Kv260

open Blocks Py

/-! ### Schemes -/

/-- `QuantSchemeSpec`. -/
structure QuantSchemeSpec where
  name : String
  weightFormat : String
  actFormat : String
  groupSize : ℕ
  blockSize : ℕ
  calibrationMode : String
  trainMode : String
  checkpointPath : String
  exportMode : String
  requiresQat : Bool
  awqEnabled : Bool
  zeroSkipStats : Bool
  loraRank : ℕ
  weightBits : ℕ
  actBits : ℕ
  description : String

/-- The fields of a dictionary. -/
abbrev Fields : Type := List (String × Json Empty)

namespace QuantSchemeSpec

/-- `to_manifest`. -/
def toManifest (scheme : QuantSchemeSpec) : Fields :=
  [("name", .str scheme.name), ("weight_format", .str scheme.weightFormat),
    ("act_format", .str scheme.actFormat), ("group_size", .int scheme.groupSize),
    ("block_size", .int scheme.blockSize), ("calibration_mode", .str scheme.calibrationMode),
    ("train_mode", .str scheme.trainMode), ("checkpoint_path", .str scheme.checkpointPath),
    ("export_mode", .str scheme.exportMode), ("requires_qat", .bool scheme.requiresQat),
    ("awq_enabled", .bool scheme.awqEnabled), ("zero_skip_stats", .bool scheme.zeroSkipStats),
    ("lora_rank", .int scheme.loraRank), ("weight_bits", .int scheme.weightBits),
    ("act_bits", .int scheme.actBits), ("description", .str scheme.description)]

/-- `awq_ready`. -/
def awqReady (scheme : QuantSchemeSpec) : String :=
  if scheme.awqEnabled then "native_w4a8_ready_host_folded_awq" else "native_w4a8_ready"

end QuantSchemeSpec

/-- `SCHEME_REGISTRY`. -/
def schemeRegistry : List QuantSchemeSpec :=
  [{ name := "w4a8_g32_zero"
     weightFormat := "w4_uniform_rtn"
     actFormat := "a8_per_token"
     groupSize := 32
     blockSize := 1
     calibrationMode := "multimodal_ptq"
     trainMode := "none"
     checkpointPath := "checkpoints/w4a8_g32_zero"
     exportMode := "kv260_w4a8"
     requiresQat := false
     awqEnabled := false
     zeroSkipStats := true
     loraRank := 0
     weightBits := 4
     actBits := 8
     description := "Uniform W4A8 baseline with zero-skip statistics only." },
   { name := "w4a8_awq_g32"
     weightFormat := "w4_awq_rtn"
     actFormat := "a8_per_token"
     groupSize := 32
     blockSize := 1
     calibrationMode := "multimodal_awq"
     trainMode := "lora_awq_repair"
     checkpointPath := "checkpoints/w4a8_awq_g32"
     exportMode := "kv260_w4a8_awq"
     requiresQat := true
     awqEnabled := true
     zeroSkipStats := false
     loraRank := 8
     weightBits := 4
     actBits := 8
     description := "Multimodal AWQ-calibrated W4A8 with short LoRA repair training." },
   { name := "w4_apot_a8_bfp"
     weightFormat := "apot4"
     actFormat := "bfp8"
     groupSize := 32
     blockSize := 16
     calibrationMode := "qat_teacher_distill"
     trainMode := "lora_qat"
     checkpointPath := "checkpoints/w4_apot_a8_bfp"
     exportMode := "replay_then_hw"
     requiresQat := true
     awqEnabled := false
     zeroSkipStats := false
     loraRank := 8
     weightBits := 4
     actBits := 8
     description := "APoT-4 weights with BFP8 activations and short QAT." },
   { name := "full_bfp"
     weightFormat := "bfp8"
     actFormat := "bfp8"
     groupSize := 1
     blockSize := 16
     calibrationMode := "qat_teacher_distill"
     trainMode := "lora_qat"
     checkpointPath := "checkpoints/full_bfp"
     exportMode := "replay_then_hw"
     requiresQat := true
     awqEnabled := false
     zeroSkipStats := false
     loraRank := 8
     weightBits := 8
     actBits := 8
     description := "End-to-end BFP8 weights and activations with short QAT." },
   { name := "full_apot"
     weightFormat := "apot4"
     actFormat := "apot8"
     groupSize := 1
     blockSize := 16
     calibrationMode := "qat_teacher_distill"
     trainMode := "lora_qat"
     checkpointPath := "checkpoints/full_apot"
     exportMode := "replay_then_hw"
     requiresQat := true
     awqEnabled := false
     zeroSkipStats := false
     loraRank := 8
     weightBits := 4
     actBits := 8
     description := "End-to-end APoT weights and activations with short QAT." }]

/-! ### Entries -/

/-- An entry of `decoder_layers`, for a layer whose bytes begin at these offsets. -/
def layerManifest (quant : String) (offsets : ℕ × ℕ) (index : ℕ) : Fields :=
  [("layer", .int index), ("w_offset_bytes", .int offsets.1),
    ("meta_offset_bytes", .int offsets.2), ("w_offset_axi256", .int (offsets.1 / 32 : ℕ)),
    ("meta_offset_axi256", .int (offsets.2 / 32 : ℕ)), ("quant", .str quant)]

/-- An entry of `vision_layers`. -/
def VisionEntry.toManifest (e : VisionEntry) : Fields :=
  [("name", .str e.name), ("w_offset_axi256", .int e.wOffsetAxi256),
    ("meta_offset_axi256", .int e.metaOffsetAxi256), ("M", .int e.M), ("K", .int e.K),
    ("N", .int e.N)]

/-- `connector_manifest`. -/
def connectorEntry : VisionEntry where
  name := "connector.projector"
  wOffsetAxi256 := 0
  metaOffsetAxi256 := 0
  M := imageTokens
  K := connectorIn
  N := connectorOut

/-- `artifacts`. -/
def manifestArtifacts : List String :=
  ["vision_wgt.bin", "vision_meta.bin", "connector_wgt.bin", "connector_meta.bin",
    "weights_half0.bin", "weights_half1.bin", "meta_half0.bin", "meta_half1.bin",
    "gamma_attn.bin", "gamma_ffn.bin", "lmhead_wgt_half0.bin", "lmhead_wgt_half1.bin",
    "lmhead_meta_half0.bin", "lmhead_meta_half1.bin"]

/-- A manifest with these entries. -/
def manifestWith (scheme : QuantSchemeSpec) (decoder vision : List Fields) (connector : Fields) :
    Json Empty :=
  .dict [("scheme", .dict scheme.toManifest), ("kv260_status", .str scheme.awqReady),
    ("decoder_layers", .list (decoder.map .dict)), ("vision_layers", .list (vision.map .dict)),
    ("connector", .dict connector), ("artifacts", .list (manifestArtifacts.map .str))]

/-! ### The export -/

/-- The matrices of a block of the vision encoder, with their shapes. -/
def visionMatrices : List (String × ℕ × ℕ) :=
  [("qkv", vitC, vitQkv), ("attn_out", vitC, vitC), ("ffn_up", vitC, vitFfnDim),
    ("ffn_down", vitFfnDim, vitC)]

/-- The entry of a matrix, with the lengths of the files before it. -/
def visionEntry (name : String) (shape : ℕ × ℕ) (offsets : ℕ × ℕ) : VisionEntry where
  name := name
  wOffsetAxi256 := offsets.1 / 32
  metaOffsetAxi256 := offsets.2 / 32
  M := vitTokens
  K := shape.1
  N := shape.2

/-- The entries of a block. -/
def blockManifest (offsets : ℕ → ℕ × ℕ) (index : ℕ) : List VisionEntry :=
  visionMatrices.zipIdx.map fun m =>
    visionEntry ("blk." ++ toString index ++ "." ++ m.1.1) m.1.2 (offsets (1 + 4 * index + m.2))

/-- `vision_manifest`, for an encoder with this number of blocks. -/
def visionManifest (offsets : ℕ → ℕ × ℕ) (blocks : ℕ) : List VisionEntry :=
  visionEntry "patch_embed" (vitC, vitC) (offsets 0)
    :: (List.range blocks).flatMap (blockManifest offsets)

/-- `layer_manifest`, for a decoder with this number of layers. -/
def decoderManifest (quant : String) (offsets : ℕ → ℕ × ℕ) (layers : ℕ) : List Fields :=
  (List.range layers).map fun index => layerManifest quant (offsets index) index

/-- `export_manifest`. -/
def exportManifest (scheme : QuantSchemeSpec) (decoderOffsets : ℕ → ℕ × ℕ) (layers : ℕ)
    (visionOffsets : ℕ → ℕ × ℕ) (blocks : ℕ) : Json Empty :=
  manifestWith scheme (decoderManifest scheme.weightFormat decoderOffsets layers)
    ((visionManifest visionOffsets blocks).map VisionEntry.toManifest) connectorEntry.toManifest

/-- The lengths of the files of the first half before a layer. -/
def layerByteOffsets (W : ℕ → LayerWeights) (layer : ℕ) : ℕ × ℕ :=
  ((weightsFile 0 W layer).length, (metaFile 0 W layer).length)

/-- The lengths of the vision files before a matrix. -/
def matrixByteOffsets (ms : List VisionMatrix) (i : ℕ) : ℕ × ℕ :=
  (((ms.take i).flatMap VisionMatrix.wgtBytes).length,
    ((ms.take i).flatMap VisionMatrix.metaBytes).length)

/-- The names and the shapes of the matrices of a vision encoder. -/
def encoderShapes (blocks : ℕ) : List (String × ℕ × ℕ) :=
  ("patch_embed", vitC, vitC) :: (List.range blocks).flatMap fun index =>
    visionMatrices.map fun m => ("blk." ++ toString index ++ "." ++ m.1, m.2)

/-- Each matrix that is appended is recorded with the lengths of the files before it. -/
theorem appendAll_manifest_eq (s : VisionSection) (ms : List VisionMatrix) :
  (s.appendAll ms).manifest
    = s.manifest ++ ms.mapIdx fun i m => (s.appendAll (ms.take i)).nextEntry m
  := by
  induction ms generalizing s with
  | nil => exact (List.append_nil _).symm
  | cons m ms ih =>
      have hstep := ih (s.append m)
      rw [List.mapIdx_cons, List.append_cons]
      exact hstep

theorem nextEntry_exportVision (ms : List VisionMatrix) (i : ℕ) (m : VisionMatrix) :
  (exportVision (ms.take i)).nextEntry m
    = visionEntry m.name (m.kDim, m.nDim) (matrixByteOffsets ms i)
  := by
  rw [VisionSection.nextEntry, exportVision, VisionSection.appendAll_wgt,
    VisionSection.appendAll_scales]
  rfl

theorem length_encoderShapes (blocks : ℕ) :
  (encoderShapes blocks).length = 1 + 4 * blocks
  := by
  have hblock : ∀ i < blocks, (visionMatrices.map fun m =>
      ("blk." ++ toString i ++ "." ++ m.1, m.2)).length = 4 := fun _ _ => rfl
  rw [encoderShapes, List.length_cons, length_flatMap_range hblock]
  omega

/-- The entries of an encoder have its names and shapes, in their order. -/
theorem visionManifest_eq_mapIdx (offsets : ℕ → ℕ × ℕ) (blocks : ℕ) :
  visionManifest offsets blocks
    = (encoderShapes blocks).mapIdx fun i s => visionEntry s.1 s.2 (offsets i)
  := by
  induction blocks with
  | zero => rfl
  | succ b ih =>
      have hentries : visionManifest offsets (b + 1)
          = visionManifest offsets b ++ blockManifest offsets b := by
        rw [visionManifest, List.range_succ, List.flatMap_append, List.flatMap_singleton]
        rfl
      have hshapes : encoderShapes (b + 1) = encoderShapes b ++ visionMatrices.map fun m =>
          ("blk." ++ toString b ++ "." ++ m.1, m.2) := by
        rw [encoderShapes, List.range_succ, List.flatMap_append, List.flatMap_singleton]
        rfl
      have hindex : (fun i (s : String × ℕ × ℕ) =>
          visionEntry s.1 s.2 (offsets (i + (encoderShapes b).length)))
          = fun i s => visionEntry s.1 s.2 (offsets (1 + 4 * b + i)) := by
        funext i s
        rw [length_encoderShapes, Nat.add_comm]
      rw [hentries, hshapes, List.mapIdx_append, ih, hindex]
      rfl

/-- The vision section of the export records the entries of an encoder. -/
theorem exportVision_manifest {ms : List VisionMatrix} {blocks : ℕ}
    (h : (ms.map fun m => (m.name, m.kDim, m.nDim)) = encoderShapes blocks) :
  (exportVision ms).manifest = visionManifest (matrixByteOffsets ms) blocks
  := by
  rw [visionManifest_eq_mapIdx, ← h, exportVision, appendAll_manifest_eq, List.nil_append]
  apply List.ext_getElem
  · simp only [List.length_mapIdx, List.length_map]
  · intro i _ _
    simp only [List.getElem_mapIdx, List.getElem_map]
    apply nextEntry_exportVision

/-! ### Missing keys -/

/-- The keys of the entries that the runner needs. -/
def requiredKeys : List String :=
  ["w_offset_bytes", "meta_offset_bytes", "w_offset_axi256", "meta_offset_axi256", "name", "M",
    "K", "N"]

/-- The required keys that are missing, in each entry. -/
structure Deletion where
  decoder : ℕ → String → Bool
  vision : ℕ → String → Bool
  connector : String → Bool

/-- An entry without the required keys that are deleted. -/
def deleteKeys (deleted : String → Bool) (fields : Fields) : Fields :=
  fields.filter fun e => !(requiredKeys.contains e.1 && deleted e.1)

/-- `export_manifest`, with keys deleted. -/
def deletedManifest (del : Deletion) (scheme : QuantSchemeSpec) (decoderOffsets : ℕ → ℕ × ℕ)
    (layers : ℕ) (visionOffsets : ℕ → ℕ × ℕ) (blocks : ℕ) : Json Empty :=
  manifestWith scheme
    ((decoderManifest scheme.weightFormat decoderOffsets layers).mapIdx fun i =>
      deleteKeys (del.decoder i))
    (((visionManifest visionOffsets blocks).map VisionEntry.toManifest).mapIdx fun i =>
      deleteKeys (del.vision i))
    (deleteKeys del.connector connectorEntry.toManifest)

end Kv260
